import ScriptLang.Proofs.Eval.Correspondence
import ScriptLang.Proofs.Store.Renaming

/-!
# Releasing scopes cannot be observed

Sessions in which scopes are released, and their slots used again, compared with sessions in which
no scope is ever released. The slots of the two differ, and so do the functions that refer to them,
but only by a renaming. Each step of a run takes related stores to related stores, where the
renaming grows with the scopes that are made; the sweep after a run cuts it down to the scopes that
are left. So every program has the same value in both sessions, and leaves the same values bound in
the root scope, up to renaming.
-/

namespace ScriptLang

variable {ρ ρ' : Renaming}

/-! ## Runs in related sessions -/

/-- Sessions whose stores are related by a renaming. Only making a scope lets it grow. -/
def Correspondence.renamed : Correspondence where
  World := Renaming
  Le := (· ≤ ·)
  likeness := .same
  Sessions ρ s t := s.store.Renamed ρ t.store
  Scopes ρ := ρ
  Values ρ := Value.Renamed ρ
  le_refl _ := le_rfl
  le_trans h h' := h.trans h'
  scopes_mono hle h := hle _ _ h
  values_mono hle h := h.mono hle
  values_self := Value.renamed_of_scope?_eq_none
  values_function := by
    rintro ρ is _ b _ x y rfl rfl hxy
    exact .function is b hxy
  values_returned := .returned
  values_unwrap h := h.unwrap
  type_eq h := h.type_eq
  callees h := by
    cases h with
    | function parameters body hab => exact .function rfl rfl hab
    | _ => exact .other rfl (by rintro ⟨⟩)
  applyUnary_eq h := h.applyUnary_eq
  applyBinary_eq h h' := h.applyBinary_eq h'
  find? h := h.find?
  insert := by
    intro ρ s t x y u v h hxy hvalue name
    obtain ⟨scope, scope', hscope, hscope', -⟩ := h.scope hxy
    rw [Session.insert, Session.insert, hscope, hscope']
    exact h.insert hxy hvalue name
  enclose h hxy := ⟨_, Renaming.le_extend, h.enclose hxy, Or.inr ⟨rfl, rfl⟩⟩

/-- A program comes out alike in related sessions. -/
theorem Run.rel_program {s t : Session} (h : s.store.Renamed ρ t.store) (depth : Nat)
    (p : Program) :
    Option.Rel (fun x y => ∃ ρ', x.1.Renamed ρ' y.1 ∧ x.2.store.Renamed ρ' y.2.store)
      (program depth p s) (program depth p t) :=
  Correspondence.renamed.rel_program (p := p) (q := p) (Likeness.forall₂_same _) h.root h depth

/-! ## Whole sessions -/

namespace Session

variable {s t : Session}

/-- Evaluates a program and releases nothing. -/
def evaluateKeeping (depth : Nat) (p : Program) (s : Session) : Option (Value × Session) :=
  match Run.program depth p s with
  | none => none
  | some (v, s) =>
    let record := .debug ("evaluated " ++ toString p.statements.length ++ " statements to " ++
      v.type.name)
    some (v, s.note record)

/-- The values of programs that are evaluated one after another, each with the session after it.
There is no result if one of the programs nests too deep. -/
def results (evaluate : Nat → Program → Session → Option (Value × Session)) :
    List (Nat × Program) → Session → Option (List (Value × Session))
  | [], _ => some []
  | (depth, p) :: rest, s =>
    match evaluate depth p s with
    | none => none
    | some (v, s) => (results evaluate rest s).map fun later => (v, s) :: later

/-- A value and the session after it that differ from others only in the slots of scopes. -/
structure Alike (ρ : Renaming) (x y : Value × Session) : Prop where
  type_name : x.1.type.name = y.1.type.name
  form : x.1.form = y.1.form
  value : x.1.Renamed ρ y.1
  /-- The root scope binds the same names, to values that are alike. -/
  find? : ∀ name, Option.Rel (Value.Renamed ρ) (x.2.store.find? Store.root name)
    (y.2.store.find? Store.root name)
  /-- So do all scopes that are left. -/
  store : x.2.store.Renamed ρ y.2.store

theorem alike_of_renamed {x y : Value × Session} (hvalue : x.1.Renamed ρ y.1)
    (hstore : x.2.store.Renamed ρ y.2.store) : Alike ρ x y where
  type_name := congrArg ValueType.name hvalue.type_eq
  form := hvalue.form_eq
  value := hvalue
  find? := hstore.find? hstore.root
  store := hstore

/-- A program comes out alike whether or not the store is swept after it. -/
theorem rel_evaluate (h : s.store.Renamed ρ t.store) (depth : Nat) (p : Program) :
    Option.Rel (fun x y => ∃ ρ', Alike ρ' x y) (s.evaluate depth p)
      (t.evaluateKeeping depth p) := by
  have hprogram := Run.rel_program h depth p
  rw [evaluate, evaluateKeeping]
  generalize Run.program depth p s = x at hprogram
  generalize Run.program depth p t = y at hprogram
  cases hprogram with
  | none => exact .none
  | @some x y hxy =>
    obtain ⟨v, s'⟩ := x
    obtain ⟨w, t'⟩ := y
    obtain ⟨ρ', hvalue, hstore⟩ := hxy
    refine .some ⟨_, alike_of_renamed ?_ (hstore.sweep v.scope?.toList)⟩
    -- The sweep keeps the scope of the value, so the renaming still has it.
    refine hvalue.imp ?_
    intro a b ha hab
    exact ⟨hab, Store.backs_sweep (hstore.backs_left hvalue) a ha⟩

theorem rel_results (h : s.store.Renamed ρ t.store) (programs : List (Nat × Program)) :
    Option.Rel (List.Forall₂ fun x y => ∃ ρ', Alike ρ' x y) (results evaluate programs s)
      (results evaluateKeeping programs t) := by
  induction programs generalizing s t ρ with
  | nil => exact .some .nil
  | cons program rest ih =>
    obtain ⟨depth, p⟩ := program
    have hfirst := rel_evaluate h depth p
    rw [results, results]
    generalize s.evaluate depth p = x at hfirst
    generalize t.evaluateKeeping depth p = y at hfirst
    cases hfirst with
    | none => exact .none
    | @some x y hxy =>
      obtain ⟨v, s'⟩ := x
      obtain ⟨w, t'⟩ := y
      obtain ⟨ρ', hxy⟩ := hxy
      -- The next program starts with the renaming that the sweep has left.
      have hrest := ih hxy.store
      show Option.Rel _ ((results evaluate rest s').map _) ((results evaluateKeeping rest t').map _)
      generalize results evaluate rest s' = x at hrest
      generalize results evaluateKeeping rest t' = y at hrest
      cases hrest with
      | none => exact .none
      | some hlater => exact .some (.cons ⟨ρ', hxy⟩ hlater)

/-- **Releasing scopes cannot be observed.** Take any programs that are evaluated one after another
from a new session. If no scope were ever released, the same of them would end, with values of the
same sort and the same text, and after each of them the names in the root scope would have the same
values; functions would differ at most in the slots of their scopes, and these one to one. -/
theorem sweep_unobservable (programs : List (Nat × Program)) :
    Option.Rel (List.Forall₂ fun x y => ∃ ρ, Alike ρ x y) (results evaluate programs initial)
      (results evaluateKeeping programs initial) :=
  rel_results Store.renamed_initial programs

-- Each call leaves its scope to the function that it gives. The third scope takes the slot of the
-- first one, which has been released by then.
example :
    let inner : Expr := .function default [] default
    let outer : Expr := .function default [] (.mk default [.expression default inner])
    let p : Program := ⟨[.expression default (.call default outer [])], default⟩
    (results evaluate [(9, p), (9, p), (9, p)] initial).map (·.map fun x => x.1.scope?) =
        some [some 1, some 2, some 1] ∧
      (results evaluateKeeping [(9, p), (9, p), (9, p)] initial).map
          (·.map fun x => x.1.scope?) = some [some 1, some 2, some 3] := by
  decide +kernel

end Session

end ScriptLang
