import ScriptLang.Proofs.Eval.Correspondence

/-!
# Traces

Evaluation that also tells how it uses the store: which scopes it looks names up in, binds names in
and makes scopes inside, and the sessions before and after each of these steps. The steps are told
up to the point where evaluation ends or nests too deep, so that also those of an evaluation that
does not end can be seen, with a greater depth for each later one.

Apart from that this is the same evaluation (`Traced.run_program`).
-/

namespace ScriptLang

/-- A step that turns to the store. -/
structure Access where
  /-- The scope that is looked into, that is bound in, or that the new scope is inside. -/
  scope : ScopeId
  before : Session
  after : Session

/-- A computation that tells its steps. -/
def Traced (α : Type) : Type := Session → List Access × Option (Except Value α × Session)

namespace Traced

variable {α β : Type}

/-- A computation that does not turn to the store. -/
def quiet (run : Run α) : Traced α := fun s => ([], run s)

/-- A computation that turns to the store once. -/
def access (scope : ScopeId) (run : Run α) : Traced α := fun s =>
  ([⟨scope, s, ((run s).map Prod.snd).getD s⟩], run s)

/-- One computation after the other, unless the first one unwinds. -/
protected def bind (t : Traced α) (f : α → Traced β) : Traced β := fun s =>
  match t s with
  | (trace, none) => (trace, none)
  | (trace, some (.ok a, s)) => (trace ++ (f a s).1, (f a s).2)
  | (trace, some (.error v, s)) => (trace, some (.error v, s))

instance : Monad Traced where
  pure a := quiet (Run.pure a)
  bind := Traced.bind

/-- Makes a scope. -/
def enclose (outer : ScopeId) : Traced ScopeId := access outer (Run.enclose outer)

/-- The end of a call. -/
def catchReturned (t : Traced Value) : Traced Value := fun s =>
  ((t s).1, Run.catchReturned (fun _ => (t s).2) s)

instance : Machine Traced where
  tooDeep := quiet Run.tooDeep
  unwind v := quiet (Run.unwind v)
  lookup id name := access id (Run.lookup id name)
  assign id name value := access id (Run.assign id name value)
  call outer code := do
    let scope ← enclose outer
    catchReturned (code scope)

/-- The steps of a program and its value. -/
def program (depth : Nat) (p : Program) (s : Session) : List Access × Option (Value × Session) :=
  match (Machine.statements depth .null p.statements Store.root : Traced Value) s with
  | (trace, none) => (trace, none)
  | (trace, some (.ok v, s)) => (trace, some (v, s))
  | (trace, some (.error v, s)) => (trace, some (v.unwrap, s))

/-! ## It is the same evaluation -/

/-- The computation without its steps. -/
def run (t : Traced α) : Run α := fun s => (t s).2

theorem run_bind (t : Traced α) (f : α → Traced β) :
    (t >>= f).run = t.run >>= fun a => (f a).run := by
  funext s
  show (Traced.bind t f s).2 = Run.bind t.run (fun a => (f a).run) s
  rw [Traced.bind, Run.bind, run]
  rcases t s with ⟨trace, _ | ⟨_ | _, _⟩⟩ <;> rfl

open Correspondence in
/-- Evaluation that tells its steps goes along with evaluation that does not. -/
def simulation : Simulation Traced Run :=
  { same.simulation False with
    Code w _ _ _ R t r := same.Runs False w R t.run r
    Calls w t r := same.Runs False w same.Values t.run r
    pure := runs_pure
    bind ht hf := by
      rw [run_bind]
      exact ht.bind hf
    tooDeep _ _ _ := .none
    error _ := runs_unwind rfl
    returned h := runs_unwind (same.values_returned h)
    lookup hscope name := runs_lookup (C := same) hscope name
    assign hscope hvalue name := runs_assign (C := same) hscope hvalue name
    code_of_calls h := h
    call hscope hcode := by
      show same.Runs False _ same.Values (enclose _ >>= _).run _
      rw [run_bind]
      exact (runs_enclose hscope).bind fun hle hscope' => (hcode _ _ _ hle hscope').catchReturned
    call_tooDeep _ _ _ := .none
    call_error _ := runs_unwind rfl }

/-- **A program comes to the same when its steps are told.** -/
theorem run_program (depth : Nat) (p : Program) (s : Session) :
    (program depth p s).2 = Run.program depth p s := by
  have hsame : (Machine.statements depth .null p.statements Store.root : Traced Value).run s =
      Run.statements depth .null p.statements Store.root s :=
    Correspondence.eq_of_agree_same ((simulation.along depth).statements (w := ()) rfl rfl
      (Likeness.forall₂_same p.statements) s s rfl)
  rw [program, Run.program, ← hsame, run]
  rcases (Machine.statements depth .null p.statements Store.root : Traced Value) s with
    ⟨trace, _ | ⟨_ | _, _⟩⟩ <;> rfl

end Traced

end ScriptLang
