import ScriptLang.Proofs.Eval.Invariant

/-!
# What evaluation comes to

A run that has come to an end at some depth comes to the same end at every greater depth. So it can
be said without a depth that a term evaluates to a value and leads from one session to another, and
there is at most one such value and one such session. A value that evaluation comes to is unwound
with if it is an error or on its way out of a function, and it is gone on with otherwise.
-/

namespace ScriptLang

/-! ## Greater depths -/

namespace Run

variable {α β : Type} {s t : Session}

theorem bind_ok {run : Run α} {f : α → Run β} {a : α} (h : run s = some (.ok a, t)) :
    (run >>= f) s = f a t := by
  show Run.bind run f s = f a t
  rw [Run.bind, h]

theorem bind_error {run : Run α} {f : α → Run β} {v : Value} (h : run s = some (.error v, t)) :
    (run >>= f) s = some (.error v, t) := by
  show Run.bind run f s = some (.error v, t)
  rw [Run.bind, h]

/-- Where the first run comes to an end, the second one comes to the same end. -/
def Refines (run run' : Run α) : Prop := ∀ s x, run s = some x → run' s = some x

theorem Refines.refl (run : Run α) : Refines run run := fun _ _ h => h

theorem Refines.trans {run run' run'' : Run α} (h : Refines run run') (h' : Refines run' run'') :
    Refines run run'' :=
  fun s x hx => h' s x (h s x hx)

open Correspondence in
/-- Evaluation at one more level of depth comes out alike, unless it comes out only there. -/
theorem alongAt_succ (n : Nat) : (same.simulation True).AlongAt n (n + 1) := by
  induction n with
  | zero =>
    exact Simulation.alongAt_zero _ 1 (fun _ _ _ _ => .short trivial)
      fun _ _ _ _ => .short trivial
  | succ n ih => exact ih.succ

open Correspondence in
theorem refines_of_runs {run run' : Run Value} (h : same.Runs True () same.Values run run') :
    Refines run run' := by
  intro s x hx
  have hagree := h s s rfl
  rw [hx] at hagree
  generalize run' s = y at hagree
  cases hagree with
  | ok _ hsessions hvalue | error _ hsessions hvalue =>
    cases hsessions
    cases hvalue
    rfl

theorem refines_statements (n : Nat) (last : Value) (ss : List Stmt) (scope : ScopeId) :
    Refines (statements n last ss scope) (statements (n + 1) last ss scope) :=
  refines_of_runs ((alongAt_succ n).statements (w := ()) rfl rfl (Likeness.forall₂_same ss))

/-- What runs one deeper refine runs at any greater depth. -/
theorem refines_of_le {f : Nat → Run α} (hf : ∀ n, Refines (f n) (f (n + 1))) {n m : Nat}
    (h : n ≤ m) : Refines (f n) (f m) := by
  induction h with
  | refl => exact .refl _
  | step _ ih => exact ih.trans (hf _)

/-- From some depth on the runs come to the same end. -/
def Settles (f : Nat → Run α) (s : Session) (x : Except Value α × Session) : Prop :=
  ∃ depth, ∀ n, depth ≤ n → f n s = some x

variable {f : Nat → Run α} {g : Nat → α → Run β}

theorem settles_of_refines (hf : ∀ n, Refines (f n) (f (n + 1))) {n : Nat}
    {x : Except Value α × Session} (h : f n s = some x) : Settles f s x :=
  ⟨n, fun _ hm => refines_of_le hf hm s x h⟩

theorem Settles.unique {x y : Except Value α × Session} (hx : Settles f s x)
    (hy : Settles f s y) : x = y := by
  obtain ⟨i, hi⟩ := hx
  obtain ⟨j, hj⟩ := hy
  exact Option.some.inj ((hi (max i j) (by omega)).symm.trans (hj (max i j) (by omega)))

theorem settles_pure (a : α) (s : Session) : Settles (fun _ => pure a) s (.ok a, s) :=
  ⟨0, fun _ _ => rfl⟩

/-- The runs at greater depths are those that count. -/
theorem Settles.succ {x : Except Value α × Session} (h : Settles (fun n => f (n + 1)) s x) :
    Settles f s x := by
  obtain ⟨depth, h⟩ := h
  refine ⟨depth + 1, fun n hn => ?_⟩
  obtain ⟨m, rfl⟩ : ∃ m, n = m + 1 := ⟨n - 1, by omega⟩
  exact h m (by omega)

theorem Settles.bind {a : α} {x : Except Value β × Session} (hf : Settles f s (.ok a, t))
    (hg : Settles (fun n => g n a) t x) : Settles (fun n => f n >>= g n) s x := by
  obtain ⟨i, hi⟩ := hf
  obtain ⟨j, hj⟩ := hg
  refine ⟨max i j, fun n hn => ?_⟩
  exact (bind_ok (hi n (by omega))).trans (hj n (by omega))

theorem Settles.unwind {v : Value} (hf : Settles f s (.error v, t)) :
    Settles (fun n => f n >>= g n) s (.error v, t) := by
  obtain ⟨i, hi⟩ := hf
  exact ⟨i, fun n hn => bind_error (hi n hn)⟩

end Run

/-! ## Terms -/

/-- The sorts of terms. -/
inductive TermSort where
  | expression
  | statement
  | block

/-- What has a value. -/
abbrev Term : TermSort → Type
  | .expression => Expr
  | .statement => Stmt
  | .block => Block

/-- The value that a run has come to, whether it is gone on with or unwound with. -/
def Run.valueOf : Except Value Value → Value
  | .ok v => v
  | .error v => v

theorem Value.IsData.outcome_eq {v : Value} (hv : v.IsData) : v.outcome = .ok v :=
  if_neg (Bool.eq_false_iff.mp hv)

theorem Value.outcome_of_unwinds {v : Value} (hv : v.unwinds) : v.outcome = .error v := if_pos hv

theorem Value.valueOf_outcome (v : Value) : Run.valueOf v.outcome = v := by
  rw [outcome]
  split <;> rfl

theorem Value.outcome_injective {v w : Value} (h : v.outcome = w.outcome) : v = w := by
  rw [← v.valueOf_outcome, h, w.valueOf_outcome]

theorem Value.IsData.unwrap_eq {v : Value} (hv : v.IsData) : v.unwrap = v := by
  cases v with
  | returned | error => cases hv
  | integer | boolean | string | null | function => rfl

theorem Run.settle_eq (v : Value) (s : Session) :
    (Machine.settle v : Run Value) s = some (v.outcome, s) := by
  rw [Machine.settle, Value.outcome]
  split <;> rfl

namespace Term

variable {k : TermSort} {t : Term k} {scope : ScopeId} {s s' s'' : Session} {v w : Value}

/-- A term in a scope, evaluated at a depth. -/
def run : {k : TermSort} → Term k → Nat → ScopeId → Run Value
  | .expression, e, n, scope => Run.expression n e scope
  | .statement, st, n, scope => Run.statement n st scope
  | .block, b, n, scope => Run.block n b scope

/-- In a scope the term evaluates to a value, and this leads from one session to another. -/
def Evaluates (t : Term k) (scope : ScopeId) (s : Session) (v : Value) (s' : Session) : Prop :=
  ∃ depth r, t.run depth scope s = some (r, s') ∧ Run.valueOf r = v

theorem refines_run (t : Term k) (n : Nat) (scope : ScopeId) :
    Run.Refines (t.run n scope) (t.run (n + 1) scope) := by
  cases k with
  | expression => exact Run.refines_of_runs ((Run.alongAt_succ n).expression (w := ()) rfl rfl)
  | statement => exact Run.refines_of_runs ((Run.alongAt_succ n).statement (w := ()) rfl rfl)
  | block => exact Run.refines_of_runs ((Run.alongAt_succ n).block (w := ()) rfl rfl)

/-- Whether a value unwinds decides whether it is unwound with: this holds in all sessions. -/
def anySession : Invariant where
  Holds _ := True
  Exits v := v.unwinds
  Fails v := v.unwinds
  insert _ _ := trivial
  enclose _ := trivial
  exits_of_find? _ _ h := h
  exits_returned _ := rfl
  exits_of_fails h := h
  fails_error _ := rfl
  fails_of_exits _ h := h
  unwinds_of_exits h := h

/-- The invariants of evaluation hold of terms of all sorts. -/
theorem keeps_run (I : Invariant) (t : Term k) (n : Nat) (scope : ScopeId) :
    Run.Keeps I Value.IsData I.Exits (t.run n scope) := by
  have halong := I.simulation.along n
  have hrun : Run.Keeps I (fun v => ∃ u, v = u ∧ v.IsData) I.Exits (t.run n scope) := by
    cases k with
    | expression => exact halong.expression (w := ()) rfl rfl
    | statement => exact halong.statement (w := ()) rfl rfl
    | block => exact halong.block (w := ()) rfl rfl
  exact hrun.mono (fun _ ⟨_, _, hdata⟩ => hdata) fun _ h => h

/-- What a term goes on with is data. -/
theorem isData_of_run {n : Nat} (h : t.run n scope s = some (.ok v, s')) : v.IsData :=
  (t.keeps_run anySession n scope s _ s' trivial h).2

theorem eq_outcome_of_run {n : Nat} {r : Except Value Value}
    (h : t.run n scope s = some (r, s')) : r = (Run.valueOf r).outcome := by
  obtain ⟨-, hends⟩ := t.keeps_run anySession n scope s r s' trivial h
  cases r with
  | ok v => exact (Value.IsData.outcome_eq hends).symm
  | error v => exact (Value.outcome_of_unwinds hends).symm

theorem evaluates_iff :
    t.Evaluates scope s v s' ↔ Run.Settles (t.run · scope) s (v.outcome, s') := by
  constructor
  · rintro ⟨depth, r, hrun, rfl⟩
    rw [← eq_outcome_of_run hrun]
    exact Run.settles_of_refines (fun n => t.refines_run n scope) hrun
  · rintro ⟨depth, hrun⟩
    exact ⟨depth, v.outcome, hrun depth (Nat.le_refl depth), Value.valueOf_outcome v⟩

theorem evaluates_iff_of_isData (hv : v.IsData) :
    t.Evaluates scope s v s' ↔ Run.Settles (t.run · scope) s (.ok v, s') := by
  rw [evaluates_iff, hv.outcome_eq]

theorem evaluates_iff_of_unwinds (hv : v.unwinds) :
    t.Evaluates scope s v s' ↔ Run.Settles (t.run · scope) s (.error v, s') := by
  rw [evaluates_iff, Value.outcome_of_unwinds hv]

/-- **A term evaluates to one value at most, and leads to one session at most.** -/
theorem Evaluates.unique (h : t.Evaluates scope s v s') (h' : t.Evaluates scope s w s'') :
    v = w ∧ s' = s'' := by
  obtain ⟨houtcome, hsession⟩ :=
    Prod.mk.inj ((evaluates_iff.mp h).unique (evaluates_iff.mp h'))
  exact ⟨Value.outcome_injective houtcome, hsession⟩

/-- What a term evaluates to is all that it evaluates to. -/
theorem Evaluates.iff_eq (h : t.Evaluates scope s v s') (w : Value) (s'' : Session) :
    t.Evaluates scope s w s'' ↔ w = v ∧ s'' = s' := by
  constructor
  · intro h'
    exact h'.unique h
  · rintro ⟨rfl, rfl⟩
    exact h

/-- Terms of one sort are evaluated one after the other, and none of them unwinds. -/
inductive EvaluateAll (scope : ScopeId) :
    List (Term k) → Session → List Value → Session → Prop where
  | nil (s : Session) : EvaluateAll scope [] s [] s
  | cons {t : Term k} {ts : List (Term k)} {s s' s'' : Session} {v : Value} {vs : List Value} :
      t.Evaluates scope s v s' → v.IsData → EvaluateAll scope ts s' vs s'' →
      EvaluateAll scope (t :: ts) s (v :: vs) s''

theorem EvaluateAll.isData {ts : List (Term k)} {vs : List Value}
    (h : EvaluateAll scope ts s vs s') : ∀ v ∈ vs, v.IsData := by
  induction h with
  | nil => exact fun v hv => absurd hv List.not_mem_nil
  | cons _ hv _ ih => exact List.forall_mem_cons.mpr ⟨hv, ih⟩

end Term

/-- In a scope the expression evaluates to a value. -/
abbrev Expr.Evaluates (e : Expr) := Term.Evaluates (k := .expression) e

/-- In a scope the statement evaluates to a value. -/
abbrev Stmt.Evaluates (st : Stmt) := Term.Evaluates (k := .statement) st

/-- In a scope the block evaluates to a value. -/
abbrev Block.Evaluates (b : Block) := Term.Evaluates (k := .block) b

/-- Expressions are evaluated one after the other, and none of them unwinds. -/
abbrev Expr.EvaluateAll := Term.EvaluateAll (k := .expression)

/-- Statements are evaluated one after the other, and none of them unwinds. -/
abbrev Stmt.EvaluateAll := Term.EvaluateAll (k := .statement)

end ScriptLang
