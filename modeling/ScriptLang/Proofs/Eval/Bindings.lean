import ScriptLang.Proofs.Eval.Frame
import ScriptLang.Proofs.Eval.Liveness
import ScriptLang.Proofs.Eval.Unwinding

/-!
# Only data is bound to names

A name could be bound to an error or to a returned value from outside, but evaluation never does
this. If no scope binds such a value at first, then none does at any point of an evaluation or after
it. What is returned is then always data in one layer of `returned`, so nothing is left of it when
a call has ended, and a call unwinds with errors only.

`Term.Visits` tells which terms are evaluated on the way, in which scopes and in which sessions.
-/

namespace ScriptLang

/-! ## Stores that bind data only -/

namespace Store

variable {s : Store} {id : ScopeId} {name : String} {v : Value}

/-- No live scope binds an error or a returned value. -/
def BindsData (s : Store) : Prop :=
  ∀ id scope, s.scope? id = some scope → ∀ name v, scope.find? name = some v → v.IsData

theorem bindsData_initial : initial.BindsData := by
  intro id scope hscope name v hv
  have hlt : id < initial.slots.size := (live_of_scope hscope).lt_size
  obtain rfl : id = root := Nat.lt_one_iff.mp hlt
  cases hscope
  cases hv

theorem BindsData.insert (hs : s.BindsData) (hv : v.IsData) : (s.insert id name v).BindsData := by
  intro j scope hscope other w hw
  by_cases hj : j = id
  · subst hj
    obtain ⟨before, hbefore⟩ := (live_insert.mp (live_of_scope hscope)).exists_scope
    rw [scope?_insert_self hbefore] at hscope
    obtain rfl := Option.some.inj hscope
    by_cases hname : other = name
    · rw [hname, Scope.find?_insert_self] at hw
      obtain rfl := Option.some.inj hw
      exact hv
    · rw [Scope.find?_insert_of_ne hname] at hw
      exact hs j before hbefore other w hw
  · rw [scope?_insert_of_ne hj] at hscope
    exact hs j scope hscope other w hw

/-- What a slot holds after a scope has been made: nothing else than before, but for a scope without
bindings. -/
theorem eq_or_bindings_eq_nil_of_enclose {outer : ScopeId} {scope : Scope}
    (h : (s.enclose outer).2.scope? id = some scope) :
    s.scope? id = some scope ∨ scope.bindings = [] := by
  cases hback : s.free.back? with
  | none =>
    rw [enclose_of_back_none hback] at h
    change (s.slots.push _)[id]?.join = _ at h
    rw [Array.getElem?_push] at h
    split at h
    · obtain ⟨⟩ := h
      exact Or.inr rfl
    · exact Or.inl h
  | some last =>
    rw [enclose_of_back hback] at h
    change (s.slots.setIfInBounds last _)[id]?.join = _ at h
    rw [Array.getElem?_setIfInBounds] at h
    split at h
    · split at h
      · obtain ⟨⟩ := h
        exact Or.inr rfl
      · cases h
    · exact Or.inl h

theorem BindsData.enclose (hs : s.BindsData) (outer : ScopeId) :
    (s.enclose outer).2.BindsData := by
  intro id scope hscope name v hv
  rcases eq_or_bindings_eq_nil_of_enclose hscope with hbefore | hnil
  · exact hs id scope hbefore name v hv
  · rw [Scope.find?, hnil] at hv
    cases hv

theorem BindsData.sweep (hs : s.BindsData) (kept : List ScopeId) : (s.sweep kept).BindsData :=
  fun id scope hscope => hs id scope (scope?_of_sweep hscope)

/-- What a name stands for is data. -/
theorem BindsData.isData_of_find? (hs : s.BindsData) (h : s.find? id name = some v) :
    v.IsData := by
  obtain ⟨scope, hmem, hfind⟩ := List.exists_of_findSome?_eq_some h
  obtain ⟨j, hscope⟩ := exists_of_mem_chain hmem
  exact hs j scope hscope name v hfind

end Store

namespace Value

/-- An error. -/
def IsError (v : Value) : Prop := ∃ cause, v = .error cause

/-- An error, or data on its way out of a function. -/
def IsExit (v : Value) : Prop := v.IsError ∨ ∃ w, v = .returned w ∧ w.IsData

theorem IsExit.isData_of_returned {v : Value} (h : (returned v).IsExit) : v.IsData := by
  rcases h with ⟨cause, ⟨⟩⟩ | ⟨w, ⟨⟩, hw⟩
  exact hw

theorem IsExit.unwinds {v : Value} (h : v.IsExit) : v.unwinds := by
  rcases h with ⟨cause, rfl⟩ | ⟨w, rfl, -⟩
  · rfl
  · rfl

theorem IsData.ne_returned {v : Value} (hv : v.IsData) (w : Value) : v ≠ .returned w := by
  rintro rfl
  cases hv

theorem IsError.ne_returned {v : Value} (hv : v.IsError) (w : Value) : v ≠ .returned w := by
  obtain ⟨cause, rfl⟩ := hv
  rintro ⟨⟩

end Value

/-- That no scope binds an error or a returned value is an invariant: code then unwinds with errors
and with data, and calls unwind with errors. -/
def Session.bindsData : Invariant where
  Holds s := s.store.BindsData
  Exits := Value.IsExit
  Fails := Value.IsError
  insert {s id name v} hs hv := by
    rw [Session.insert]
    split
    · exact hs.insert hv
    · exact hs
  enclose hs := hs.enclose _
  exits_of_find? hs hfind hunwinds :=
    absurd ((hs.isData_of_find? hfind).symm.trans hunwinds) Bool.false_ne_true
  exits_returned hv := Or.inr ⟨_, rfl, hv⟩
  exits_of_fails hv := Or.inl hv
  fails_error cause := ⟨cause, rfl⟩
  fails_of_exits hv hunwinds :=
    absurd (hv.isData_of_returned.symm.trans hunwinds) Bool.false_ne_true
  unwinds_of_exits hv := hv.unwinds

/-! ## Terms evaluated on the way -/

namespace Term

variable {a b k : TermSort} {scope scope' : ScopeId} {s s' m : Session} {v : Value}

/-- On the way, evaluating a term in a scope evaluates another term, or the same one: it is at a
place that evaluation gets to, or in the body of a function that is called there. -/
inductive Visits : {a b : TermSort} → Term a → ScopeId → Session → Term b → ScopeId → Session →
    Prop where
  | here {a : TermSort} (t : Term a) (scope : ScopeId) (s : Session) : Visits t scope s t scope s
  | inside {a b c : TermSort} {hole : Hole b c} {rest : hole.Rest} {t : Term b} {u : Term a}
      {scope scope' : ScopeId} {s m s' : Session} :
      hole.Arrives scope s m → Visits t scope m u scope' s' →
      Visits (hole.fill rest t) scope s u scope' s'
  | call {a : TermSort} {origin : Origin} {callee : Expr} {arguments : List Expr} {f : Closure}
      {values : List Value} {u : Term a} {scope scope' : ScopeId} {s m n s' : Session} :
      callee.Evaluates scope s (.function f) m → Expr.EvaluateAll scope arguments m values n →
      f.parameters.length = values.length →
      Visits (a := .block) f.body (n.enter f values).1 (n.enter f values).2 u scope' s' →
      Visits (a := .expression) (.call origin callee arguments) scope s u scope' s'

variable {I : Invariant}

/-- What a term evaluates to in a session where an invariant holds. -/
theorem Evaluates.keeps {t : Term k} (h : t.Evaluates scope s v s') (hs : I.Holds s) :
    I.Holds s' ∧ (v.IsData ∨ I.Exits v) := by
  obtain ⟨n, r, hrun, rfl⟩ := h
  obtain ⟨hs', hends⟩ := t.keeps_run I n scope s r s' hs hrun
  cases r with
  | ok v => exact ⟨hs', Or.inl hends⟩
  | error v => exact ⟨hs', Or.inr hends⟩

theorem EvaluateAll.holds {ts : List (Term k)} {vs : List Value}
    (h : EvaluateAll scope ts s vs s') (hs : I.Holds s) : I.Holds s' := by
  induction h with
  | nil => exact hs
  | cons ht _ _ ih => exact ih (ht.keeps hs).1

end Term

section Invariant

variable {I : Invariant} {a b : TermSort} {scope scope' : ScopeId} {s m : Session}

/-- An invariant holds where evaluation gets to. -/
theorem Hole.Arrives.holds {hole : Hole a b} (h : hole.Arrives scope s m) (hs : I.Holds s) :
    I.Holds m := by
  cases hole with
  | operand | left | condition | callee | bound | returned | alone | nested =>
    obtain rfl : s = m := h
    exact hs
  | right =>
    obtain ⟨v, hleft, -⟩ := h
    exact (hleft.keeps hs).1
  | consequence =>
    obtain ⟨v, hcondition, -⟩ := h
    exact (hcondition.keeps hs).1
  | alternative =>
    obtain ⟨v, hcondition, -⟩ := h
    exact (hcondition.keeps hs).1
  | argument =>
    obtain ⟨f, n, values, hcallee, -, hbefore⟩ := h
    exact hbefore.holds (hcallee.keeps hs).1
  | member =>
    obtain ⟨values, hbefore⟩ := h
    exact hbefore.holds hs

/-- An invariant holds where the body of a function starts. -/
theorem Invariant.enter (hs : I.Holds s) (f : Closure) {values : List Value}
    (hvalues : ∀ v ∈ values, v.IsData) : I.Holds (s.enter f values).2 := by
  have henclose : I.Holds (s.enclose f.scope).2 := I.enclose hs
  have hrun := Run.assignAll_eq (s.enclose f.scope).1 f.parameters values (s.enclose f.scope).2
  have hvalues' : List.Forall₂ (I.simulation.Values ()) values values :=
    List.forall₂_same.mpr fun v hv => ⟨rfl, hvalues v hv⟩
  exact (Simulation.assignAll (σ := I.simulation) (w := ()) rfl rfl hvalues' _ _ _ henclose hrun).1

/-- **An invariant holds wherever a term is evaluated on the way.** -/
theorem Term.Visits.holds {t : Term a} {u : Term b} (h : t.Visits scope s u scope' m)
    (hs : I.Holds s) : I.Holds m := by
  induction h with
  | here => exact hs
  | inside harrives _ ih => exact ih (harrives.holds hs)
  | call hcallee harguments _ _ ih =>
    have hn := harguments.holds (hcallee.keeps hs).1
    exact ih (I.enter hn _ harguments.isData)

end Invariant

/-! ## Programs -/

namespace Program

variable {p : Program} {k : TermSort} {s s' m m' : Session} {v : Value} {values : List Value}

/-- On the way, the program evaluates a term in a scope. -/
def Visits (p : Program) (s : Session) (t : Term k) (scope : ScopeId) (m : Session) : Prop :=
  Term.Visits (a := .block) p.body Store.root s t scope m

/-- On the way, the program calls a value with arguments. -/
def Calls (p : Program) (s : Session) (f : Value) (values : List Value) (m : Session) : Prop :=
  ∃ origin callee arguments scope m₀ m₁,
    p.Visits (k := .expression) s (.call origin callee arguments) scope m₀ ∧
      callee.Evaluates scope m₀ f m₁ ∧ f.IsData ∧ Expr.EvaluateAll scope arguments m₁ values m

theorem Visits.bindsData {t : Term k} {scope : ScopeId} (h : p.Visits s t scope m)
    (hs : s.store.BindsData) : m.store.BindsData :=
  Term.Visits.holds (I := Session.bindsData) h hs

/-- A program has data or an error as its value. -/
theorem Evaluates.bindsData (h : p.Evaluates s v s') (hs : s.store.BindsData) :
    s'.store.BindsData ∧ (v.IsData ∨ v.IsError) := by
  obtain ⟨w, hbody, rfl⟩ := evaluates_iff.mp h
  obtain ⟨hs', hw⟩ := hbody.keeps (I := Session.bindsData) hs
  refine ⟨hs', ?_⟩
  rcases hw with hdata | ⟨cause, rfl⟩ | ⟨u, rfl, hu⟩
  · rw [hdata.unwrap_eq]
    exact Or.inl hdata
  · exact Or.inr ⟨cause, rfl⟩
  · exact Or.inl hu

/-- A call has data or an error as its value. -/
theorem Calls.bindsData {f : Value} (h : p.Calls s f values m) (hs : s.store.BindsData) {n : Nat}
    {r : Except Value Value} (hrun : Run.apply n f values m = some (r, m')) :
    m'.store.BindsData ∧ Run.Ends Value.IsData Value.IsError r := by
  obtain ⟨origin, callee, arguments, scope, m₀, m₁, hvisits, hcallee, hf, harguments⟩ := h
  have hm₁ := (hcallee.keeps (I := Session.bindsData) (hvisits.bindsData hs)).1
  have hkeeps := Session.bindsData.keeps_apply n hf harguments.isData
  exact hkeeps m r m' (harguments.holds hm₁) hrun

end Program

namespace Session

/-- Evaluating programs one after another never binds anything but data. -/
theorem Reached.bindsData {s : Session} (h : s.Reached) : s.store.BindsData := by
  induction h with
  | initial => exact Store.bindsData_initial
  | evaluate _ heval ih =>
    obtain ⟨s₁, hrun, hstore⟩ := exists_of_evaluate heval
    rw [hstore]
    exact (Program.Evaluates.bindsData ⟨_, hrun⟩ ih).1.sweep _

/-- **Errors and returned values never become data.** Let no live scope bind such a value, and let a
program be evaluated. Then no live scope binds such a value afterwards, nor at any point on the way;
the value of the program and the values of all calls on the way are not returned ones; and whatever
a term on the way returns is data. So in a session that starts anew, whatever programs are evaluated
in it, no name ever stands for an error or a returned value. -/
theorem unwinding_never_bound :
    (∀ (s : Session) (p : Program), s.store.BindsData →
      (∀ depth v s', s.evaluate depth p = some (v, s') →
        s'.store.BindsData ∧ ∀ w, v ≠ .returned w) ∧
      (∀ {k : TermSort} (t : Term k) scope m, p.Visits s t scope m →
        m.store.BindsData ∧ ∀ v m', t.Evaluates scope m v m' →
          m'.store.BindsData ∧ ∀ w, v = .returned w → w.IsData) ∧
      ∀ f values m, p.Calls s f values m → ∀ depth r m', Run.apply depth f values m = some (r, m') →
        m'.store.BindsData ∧ ∀ w, Run.valueOf r ≠ .returned w) ∧
    ∀ (s : Session) (p : Program), s.Reached →
      ∀ {k : TermSort} (t : Term k) scope m, p.Visits s t scope m →
        ∀ id name v, m.store.find? id name = some v → v.IsData := by
  refine ⟨fun s p hs => ⟨?_, ?_, ?_⟩, ?_⟩
  · intro depth v s' heval
    obtain ⟨s₁, hrun, hstore⟩ := exists_of_evaluate heval
    obtain ⟨hs₁, hv⟩ := Program.Evaluates.bindsData ⟨_, hrun⟩ hs
    rw [hstore]
    exact ⟨hs₁.sweep _, fun w => hv.elim (·.ne_returned w) (·.ne_returned w)⟩
  · intro k t scope m hvisits
    have hm := hvisits.bindsData hs
    refine ⟨hm, fun v m' ht => ?_⟩
    obtain ⟨hm', hv⟩ := ht.keeps (I := bindsData) hm
    refine ⟨hm', ?_⟩
    rintro w rfl
    rcases hv with hdata | hexit
    · cases hdata
    · exact hexit.isData_of_returned
  · intro f values m hcalls depth r m' hrun
    obtain ⟨hm', hends⟩ := hcalls.bindsData hs hrun
    refine ⟨hm', fun w => ?_⟩
    cases r with
    | ok v => exact Value.IsData.ne_returned hends w
    | error v => exact Value.IsError.ne_returned hends w
  · intro s p hreached k t scope m hvisits id name v hfind
    exact (hvisits.bindsData hreached.bindsData).isData_of_find? hfind

/-- `fn(x) { let y = if (x) { return x; }; y }(1)` -/
def returningProgram : Program :=
  let x : Ident := ⟨⟨⟨.ident, "x"⟩, default⟩⟩
  let y : Ident := ⟨⟨⟨.ident, "y"⟩, default⟩⟩
  let branch : Expr :=
    .conditional default (.ident x) (.mk default [.returning default (.ident x)]) none
  let body : Block := .mk default [.binding default y branch, .expression default (.ident y)]
  ⟨[.expression default (.call default (.function default [x] body) [.integer default 1])], default⟩

/-- What is returned where a name is to be bound ends the call, and the name is not bound. -/
theorem unwinding_never_bound_returningProgram : ∃ s',
    initial.evaluate 12 returningProgram = some (.integer 1, s') ∧ s'.store.BindsData := by
  have hvalue : (initial.evaluate 12 returningProgram).map Prod.fst = some (.integer 1) := by
    simp only [evaluate, returningProgram, Run.program, Run.statements, Machine.statements,
      Machine.statement, Machine.expression, Machine.expressions, bind, Run.bind, pure, Run.pure]
    simp only [Machine.apply, Machine.block, Machine.statements, Machine.statement,
      Machine.expression, Block.statements, bind]
    rfl
  obtain ⟨⟨v, s'⟩, heval, rfl⟩ := Option.map_eq_some_iff.mp hvalue
  obtain ⟨hany, -⟩ := unwinding_never_bound
  obtain ⟨hafter, -, -⟩ := hany initial returningProgram Store.bindsData_initial
  exact ⟨s', heval, (hafter 12 _ s' heval).1⟩

end Session

end ScriptLang
