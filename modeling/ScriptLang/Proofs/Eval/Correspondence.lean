import ScriptLang.Proofs.Eval.Simulation

/-!
# Evaluation in two sessions

A correspondence says which sessions go with each other, and which scopes and values in them. If
looking names up, binding names and making scopes keep to it, then so does all of evaluation: two
runs either both nest too deep, or both go on or both unwind, with sessions and values that go with
each other again.

What goes with what may depend on a world, which can only grow.
-/

namespace ScriptLang

/-- Sessions that go with each other, and what in them goes with what. -/
structure Correspondence where
  /-- What there is to know in order to tell what goes with what. -/
  World : Type
  /-- More is known. -/
  Le : World → World → Prop
  likeness : Likeness
  Sessions : World → Session → Session → Prop
  Scopes : World → ScopeId → ScopeId → Prop
  Values : World → Value → Value → Prop
  le_refl : ∀ w, Le w w
  le_trans : ∀ {w w' w''}, Le w w' → Le w' w'' → Le w w''
  scopes_mono : ∀ {w w' x y}, Le w w' → Scopes w x y → Scopes w' x y
  values_mono : ∀ {w w' u v}, Le w w' → Values w u v → Values w' u v
  values_self : ∀ {w v}, v.scope? = none → Values w v v
  values_function : ∀ {w is js b c x y}, likeness.names is js → likeness.block b c →
    Scopes w x y → Values w (.function ⟨is, b, x⟩) (.function ⟨js, c, y⟩)
  values_returned : ∀ {w u v}, Values w u v → Values w (.returned u) (.returned v)
  values_unwrap : ∀ {w u v}, Values w u v → Values w u.unwrap v.unwrap
  type_eq : ∀ {w u v}, Values w u v → u.type = v.type
  callees : ∀ {w u v}, Values w u v → Value.Callees likeness.toTermRelation (Scopes w) u v
  applyUnary_eq : ∀ {w u v}, Values w u v → ∀ operator,
    Value.applyUnary operator u = Value.applyUnary operator v
  applyBinary_eq : ∀ {w u v u' v'}, Values w u v → Values w u' v' → ∀ operator,
    Value.applyBinary operator u u' = Value.applyBinary operator v v'
  find? : ∀ {w s t x y}, Sessions w s t → Scopes w x y → ∀ name,
    Option.Rel (Values w) (s.store.find? x name) (t.store.find? y name)
  insert : ∀ {w s t x y u v}, Sessions w s t → Scopes w x y → Values w u v → ∀ name,
    Sessions w (s.insert x name u) (t.insert y name v)
  enclose : ∀ {w s t x y}, Sessions w s t → Scopes w x y →
    ∃ w', Le w w' ∧ Sessions w' (s.enclose x).2 (t.enclose y).2 ∧
      Scopes w' (s.enclose x).1 (t.enclose y).1

namespace Correspondence

variable (C : Correspondence) (short : Prop) {α β : Type} {R : C.World → α → α → Prop}
  {Q : C.World → β → β → Prop} {w w' : C.World} {s t : Session}

/-- How two runs come out. If `short`, the first of them may nest too deep where the second does
not. -/
inductive Agree (R : C.World → α → α → Prop) (w : C.World) :
    Option (Except Value α × Session) → Option (Except Value α × Session) → Prop where
  | none : Agree R w none none
  | short {x} : short → Agree R w none x
  | ok {w' a b s t} : C.Le w w' → C.Sessions w' s t → R w' a b →
      Agree R w (some (.ok a, s)) (some (.ok b, t))
  | error {w' u v s t} : C.Le w w' → C.Sessions w' s t → C.Values w' u v →
      Agree R w (some (.error u, s)) (some (.error v, t))

/-- Runs that come out alike in sessions that go with each other. -/
def Runs (w : C.World) (R : C.World → α → α → Prop) (p q : Run α) : Prop :=
  ∀ s t, C.Sessions w s t → C.Agree short R w (p s) (q t)

variable {C short}

theorem Agree.later {x y : Option (Except Value α × Session)} (h : C.Agree short R w' x y)
    (hw : C.Le w w') : C.Agree short R w x y := by
  cases h with
  | none => exact .none
  | short hshort => exact .short hshort
  | ok hle hsessions hresult => exact .ok (C.le_trans hw hle) hsessions hresult
  | error hle hsessions hvalue => exact .error (C.le_trans hw hle) hsessions hvalue

theorem runs_pure {a b : α} (h : R w a b) : C.Runs short w R (pure a) (pure b) :=
  fun _ _ hsessions => .ok (C.le_refl w) hsessions h

theorem runs_unwind {u v : Value} (h : C.Values w u v) :
    C.Runs short w R (Run.unwind u) (Run.unwind v) :=
  fun _ _ hsessions => .error (C.le_refl w) hsessions h

/-- One run after the other. The second one starts with what is known after the first. -/
theorem Runs.bind {p q : Run α} {f g : α → Run β} (h : C.Runs short w R p q)
    (hf : ∀ {w' a b}, C.Le w w' → R w' a b → C.Runs short w' Q (f a) (g b)) :
    C.Runs short w Q (p >>= f) (q >>= g) := by
  intro s t hsessions
  show C.Agree short Q w (Run.bind p f s) (Run.bind q g t)
  have hfirst := h s t hsessions
  rw [Run.bind, Run.bind]
  generalize p s = x at hfirst
  generalize q t = y at hfirst
  cases hfirst with
  | none => exact .none
  | short hshort => exact .short hshort
  | ok hle hsessions' hresult => exact (hf hle hresult _ _ hsessions').later hle
  | error hle hsessions' hvalue => exact .error hle hsessions' hvalue

/-- What a value comes to. -/
theorem agree_outcome {u v : Value} (hsessions : C.Sessions w s t) (h : C.Values w u v) :
    C.Agree short C.Values w (some (u.outcome, s)) (some (v.outcome, t)) := by
  rw [Value.outcome, Value.outcome, Value.unwinds_eq_of_type_eq (C.type_eq h)]
  split
  · exact .error (C.le_refl w) hsessions h
  · exact .ok (C.le_refl w) hsessions h

theorem runs_lookup {x y : ScopeId} (hscope : C.Scopes w x y) (name : String) :
    C.Runs short w C.Values (Run.lookup x name) (Run.lookup y name) := by
  intro s t hsessions
  refine agree_outcome hsessions ?_
  have hfind := C.find? hsessions hscope name
  generalize s.store.find? x name = u at hfind
  generalize t.store.find? y name = v at hfind
  cases hfind with
  | none => exact C.values_self rfl
  | some hvalue => exact hvalue

theorem runs_assign {x y : ScopeId} {u v : Value} (hscope : C.Scopes w x y)
    (hvalue : C.Values w u v) (name : String) :
    C.Runs short w (fun _ _ _ => True) (Run.assign x name u) (Run.assign y name v) :=
  fun _ _ hsessions => .ok (C.le_refl w) (C.insert hsessions hscope hvalue name) trivial

theorem runs_enclose {x y : ScopeId} (hscope : C.Scopes w x y) :
    C.Runs short w C.Scopes (Run.enclose x) (Run.enclose y) := by
  intro s t hsessions
  obtain ⟨w', hle, hsessions', hscope'⟩ := C.enclose hsessions hscope
  exact .ok hle hsessions' hscope'

/-- The end of a call. -/
theorem Runs.catchReturned {p q : Run Value} (h : C.Runs short w C.Values p q) :
    C.Runs short w C.Values (Run.catchReturned p) (Run.catchReturned q) := by
  intro s t hsessions
  have hbody := h s t hsessions
  unfold Run.catchReturned
  generalize p s = x at hbody
  generalize q t = y at hbody
  cases hbody with
  | none => exact .none
  | short hshort => exact .short hshort
  | ok hle hsessions' hvalue => exact .ok hle hsessions' hvalue
  | @error _ u v s' t' hle hsessions' hvalue =>
    have htype := C.type_eq hvalue
    cases u with
    | returned u =>
      cases v with
      | returned v => exact (agree_outcome hsessions' (C.values_unwrap hvalue)).later hle
      | _ => cases htype
    | _ =>
      cases v with
      | returned v => cases htype
      | _ => exact .error hle hsessions' hvalue

variable (C short)

/-- Evaluation by runs that come out alike. -/
def simulation : Simulation Run Run where
  World := C.World
  Later := C.Le
  likeness := C.likeness
  Scopes := C.Scopes
  Values := C.Values
  Code w _ _ _ R p q := C.Runs short w R p q
  Calls w p q := C.Runs short w C.Values p q
  scopes_later := C.scopes_mono
  values_later := C.values_mono
  values_self _ := C.values_self
  values_function := C.values_function
  callees := C.callees
  applyUnary_eq := C.applyUnary_eq
  applyBinary_eq := C.applyBinary_eq
  pure := runs_pure
  bind := Runs.bind
  tooDeep _ _ _ := .none
  error _ := runs_unwind (C.values_self rfl)
  returned h := runs_unwind (C.values_returned h)
  lookup := runs_lookup
  assign := runs_assign
  code_of_calls h := h
  call hscope hcode := (runs_enclose hscope).bind fun hle hscope' =>
    (hcode _ _ _ hle hscope').catchReturned
  call_tooDeep _ _ _ := .none
  call_error _ := runs_unwind (C.values_self rfl)

/-- **Programs that are alike come out alike in sessions that go with each other.** -/
theorem rel_program {p q : Program} (hp : List.Forall₂ C.likeness.stmt p.statements q.statements)
    (hroot : C.Scopes w Store.root Store.root) (h : C.Sessions w s t) (depth : Nat) :
    Option.Rel (fun x y => ∃ w', C.Values w' x.1 y.1 ∧ C.Sessions w' x.2 y.2)
      (Run.program depth p s) (Run.program depth q t) := by
  have hagree : C.Agree False C.Values w (Run.statements depth .null p.statements Store.root s)
      (Run.statements depth .null q.statements Store.root t) :=
    ((C.simulation False).along depth).statements hroot (C.values_self rfl) hp s t h
  rw [Run.program, Run.program]
  generalize Run.statements depth .null p.statements Store.root s = x at hagree
  generalize Run.statements depth .null q.statements Store.root t = y at hagree
  cases hagree with
  | none => exact .none
  | short hshort => exact hshort.elim
  | ok _ hsessions hvalue => exact .some ⟨_, hvalue, hsessions⟩
  | error _ hsessions hvalue => exact .some ⟨_, C.values_unwrap hvalue, hsessions⟩

/-- Sessions go with themselves. -/
def same : Correspondence where
  World := Unit
  Le _ _ := True
  likeness := .same
  Sessions _ := Eq
  Scopes _ := Eq
  Values _ := Eq
  le_refl _ := trivial
  le_trans _ _ := trivial
  scopes_mono _ h := h
  values_mono _ h := h
  values_self _ := rfl
  values_function := by
    rintro _ is _ b _ x _ rfl rfl rfl
    rfl
  values_returned := congrArg Value.returned
  values_unwrap := congrArg Value.unwrap
  type_eq := congrArg Value.type
  callees := by
    rintro _ v _ rfl
    exact .refl Eq fun _ _ => rfl
  applyUnary_eq h operator := congrArg (Value.applyUnary operator) h
  applyBinary_eq h h' operator := congrArg₂ (Value.applyBinary operator) h h'
  find? := by
    rintro _ s _ x _ rfl rfl name
    cases s.store.find? x name with
    | none => exact .none
    | some value => exact .some rfl
  insert := by
    rintro _ s _ x _ u _ rfl rfl rfl name
    rfl
  enclose := by
    rintro _ s _ x _ rfl rfl
    exact ⟨(), trivial, rfl, rfl⟩

/-- Runs that go along in one and the same session come to the same. -/
theorem eq_of_agree_same {x y : Option (Except Value Value × Session)}
    (h : same.Agree False same.Values () x y) : x = y := by
  cases h with
  | none => rfl
  | short hshort => exact hshort.elim
  | ok _ hsessions hvalue =>
    cases hsessions
    cases hvalue
    rfl
  | error _ hsessions hvalue =>
    cases hsessions
    cases hvalue
    rfl

end Correspondence

end ScriptLang
