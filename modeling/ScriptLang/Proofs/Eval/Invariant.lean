import ScriptLang.Proofs.Eval.Correspondence

/-!
# Invariants of evaluation

A condition on sessions is kept by evaluation if it is kept where data is bound to a name and where
a scope is made. With such a condition go two on the values that a run unwinds with, one for code
and one for calls: a call takes a layer of `returned` off what its body unwinds with.
-/

namespace ScriptLang

/-! ## Conditions that evaluation keeps -/

/-- A condition on sessions that evaluation keeps, and what it tells about the values that a run
unwinds with. -/
structure Invariant where
  /-- The condition on sessions. -/
  Holds : Session → Prop
  /-- What code may unwind with. -/
  Exits : Value → Prop
  /-- What a call may unwind with. -/
  Fails : Value → Prop
  insert : ∀ {s id name v}, Holds s → v.IsData → Holds (s.insert id name v)
  enclose : ∀ {s outer}, Holds s → Holds (s.enclose outer).2
  exits_of_find? : ∀ {s id name v},
    Holds s → s.store.find? id name = some v → v.unwinds → Exits v
  exits_returned : ∀ {v}, v.IsData → Exits (.returned v)
  exits_of_fails : ∀ {v}, Fails v → Exits v
  fails_error : ∀ cause, Fails (.error cause)
  fails_of_exits : ∀ {v}, Exits (.returned v) → v.unwinds → Fails v
  unwinds_of_exits : ∀ {v}, Exits v → v.unwinds

namespace Run

variable {α β : Type} {I : Invariant} {Q : α → Prop} {R : β → Prop} {E F : Value → Prop}

/-- What a run ends with: a result to go on with, or a value that it unwinds with. -/
def Ends (Q : α → Prop) (E : Value → Prop) : Except Value α → Prop
  | .ok a => Q a
  | .error v => E v

/-- Wherever the condition holds when the run starts, it holds when the run has come to an end, and
that end is as it should be. -/
def Keeps (I : Invariant) (Q : α → Prop) (E : Value → Prop) (run : Run α) : Prop :=
  ∀ s r s', I.Holds s → run s = some (r, s') → I.Holds s' ∧ Ends Q E r

theorem keeps_tooDeep : Keeps I Q E (tooDeep : Run α) := by
  rintro s r s' - ⟨⟩

theorem keeps_pure {a : α} (ha : Q a) : Keeps I Q E (pure a) := by
  rintro s r s' hs ⟨⟩
  exact ⟨hs, ha⟩

theorem keeps_unwind {v : Value} (hv : E v) : Keeps I Q E (unwind v : Run α) := by
  rintro s r s' hs ⟨⟩
  exact ⟨hs, hv⟩

/-- One run after the other. -/
theorem Keeps.bind {run : Run α} {f : α → Run β} (hrun : Keeps I Q E run)
    (hf : ∀ a, Q a → Keeps I R E (f a)) : Keeps I R E (run >>= f) := by
  intro s r s' hs h
  have hbind : Run.bind run f s = some (r, s') := h
  rw [Run.bind] at hbind
  rcases hfirst : run s with _ | ⟨v | a, t⟩ <;> rw [hfirst] at hbind
  · cases hbind
  · obtain ⟨⟩ := hbind
    exact hrun s _ _ hs hfirst
  · obtain ⟨ht, ha⟩ := hrun s _ t hs hfirst
    exact hf a ha t r s' ht hbind

theorem Keeps.mono {Q' : α → Prop} {run : Run α} (hrun : Keeps I Q E run) (hQ : ∀ a, Q a → Q' a)
    (hE : ∀ v, E v → F v) : Keeps I Q' F run := by
  intro s r s' hs hr
  obtain ⟨hs', hends⟩ := hrun s r s' hs hr
  cases r with
  | ok a => exact ⟨hs', hQ a hends⟩
  | error v => exact ⟨hs', hE v hends⟩

/-- What a value comes to. -/
theorem ends_outcome {v : Value} (hv : v.unwinds → E v) : Ends Value.IsData E v.outcome := by
  rw [Value.outcome]
  split
  · next hunwinds => exact hv hunwinds
  · next hunwinds => exact Bool.eq_false_iff.mpr hunwinds

/-- The end of a call. -/
theorem Keeps.catchReturned {run : Run Value} (hrun : Keeps I Value.IsData I.Exits run) :
    Keeps I Value.IsData I.Fails (Run.catchReturned run) := by
  intro s r s' hs h
  unfold Run.catchReturned at h
  split at h
  next v t hreturned =>
    obtain ⟨⟩ := h
    obtain ⟨ht, hexits⟩ := hrun s _ _ hs hreturned
    exact ⟨ht, ends_outcome (I.fails_of_exits hexits)⟩
  next hother =>
    obtain ⟨hs', hends⟩ := hrun s r s' hs h
    refine ⟨hs', ?_⟩
    cases r with
    | ok v => exact hends
    | error v =>
      -- It is not a returned value, so it is an error.
      rcases Value.exists_of_unwinds (I.unwinds_of_exits hends) with ⟨w, rfl⟩ | ⟨cause, rfl⟩
      · exact absurd h (hother w s')
      · exact I.fails_error cause

theorem keeps_lookup (id : ScopeId) (name : String) :
    Keeps I Value.IsData I.Exits (lookup id name) := by
  rintro s r s' hs ⟨⟩
  refine ⟨hs, ends_outcome fun hunwinds => ?_⟩
  cases hfind : s.store.find? id name with
  | none => exact I.exits_of_fails (I.fails_error _)
  | some v =>
    rw [hfind] at hunwinds
    exact I.exits_of_find? hs hfind hunwinds

theorem keeps_assign {Q : Unit → Prop} {value : Value} (hvalue : value.IsData) (id : ScopeId)
    (name : String) (hQ : Q ()) : Keeps I Q E (assign id name value) := by
  rintro s r s' hs ⟨⟩
  exact ⟨I.insert hs hvalue, hQ⟩

theorem keeps_enclose (outer : ScopeId) : Keeps I (fun _ => True) E (enclose outer) := by
  rintro s r s' hs ⟨⟩
  exact ⟨I.enclose hs, trivial⟩

end Run

/-! ## Evaluation -/

namespace Invariant

open Run

variable (I : Invariant)

/-- Evaluation keeps the condition and goes on with data only. -/
def simulation : Simulation Run Run :=
  { Correspondence.same.simulation False with
    Values _ u v := u = v ∧ u.IsData
    Code w _ _ _ R p _ := Keeps I (fun a => ∃ b, R w a b) I.Exits p
    Calls _ p _ := Keeps I Value.IsData I.Fails p
    values_later _ h := h
    values_self hdata _ := ⟨rfl, hdata⟩
    values_function := by
      rintro _ is _ b _ x _ rfl rfl rfl
      exact ⟨rfl, rfl⟩
    callees := by
      rintro _ v _ ⟨rfl, -⟩
      exact .refl Eq fun _ _ => rfl
    applyUnary_eq h operator := congrArg (Value.applyUnary operator) h.1
    applyBinary_eq h h' operator := congrArg₂ (Value.applyBinary operator) h.1 h'.1
    pure h := keeps_pure ⟨_, h⟩
    bind hp hf := hp.bind fun _ ⟨_, h⟩ => hf trivial h
    tooDeep := keeps_tooDeep
    error cause := keeps_unwind (I.exits_of_fails (I.fails_error cause))
    returned h := keeps_unwind (I.exits_returned h.2)
    lookup _ name := (keeps_lookup _ name).mono (fun v hv => ⟨v, rfl, hv⟩) fun _ h => h
    assign _ h name := keeps_assign h.2 _ name ⟨(), trivial⟩
    code_of_calls h := h.mono (fun v hv => ⟨v, rfl, hv⟩) fun _ => I.exits_of_fails
    call _ hcode := (keeps_enclose _).bind fun x _ =>
      ((hcode () x x trivial rfl).mono (fun _ ⟨_, h⟩ => h.2) fun _ h => h).catchReturned
    call_tooDeep := keeps_tooDeep
    call_error cause := keeps_unwind (I.fails_error cause) }

/-- **Calls keep what the steps of evaluation keep.** -/
theorem keeps_apply (n : Nat) {f : Value} {values : List Value} (hf : f.IsData)
    (hvalues : ∀ v ∈ values, v.IsData) : Keeps I Value.IsData I.Fails (apply n f values) :=
  (I.simulation.along n).apply (w := ()) ⟨rfl, hf⟩
    (List.forall₂_same.mpr fun v hv => ⟨rfl, hvalues v hv⟩)

end Invariant

end ScriptLang
