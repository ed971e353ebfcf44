import ScriptLang.Proofs.Eval.Evaluates

/-!
# Unwinding

An error or a returned value that turns up in a term is what the whole term evaluates to, and the
session stays as it was when the value turned up. This holds however deep the place is at which it
turns up, and whatever would have been evaluated after it. Only a call and the end of the program
stop a returned value, and they take off one layer of `returned`.

A place in a term is a `Context`, which has the terms on the way to the place that are evaluated
before it. What else the whole term consists of is not part of the context but its `Rest`.
-/

namespace ScriptLang

/-! ## Places in a term -/

/-- A term with a hole, up to the hole. `Hole a b` makes terms of sort `b` from those of sort
`a`. -/
inductive Hole : TermSort → TermSort → Type where
  | operand (origin : Origin) (operator : TokenKind) : Hole .expression .expression
  | left (origin : Origin) (operator : TokenKind) : Hole .expression .expression
  | right (origin : Origin) (operator : TokenKind) (left : Expr) : Hole .expression .expression
  | condition (origin : Origin) : Hole .expression .expression
  | consequence (origin : Origin) (condition : Expr) : Hole .block .expression
  | alternative (origin : Origin) (condition : Expr) : Hole .block .expression
  | callee (origin : Origin) : Hole .expression .expression
  | argument (origin : Origin) (callee : Expr) (before : List Expr) : Hole .expression .expression
  | bound (origin : Origin) (name : Ident) : Hole .expression .statement
  | returned (origin : Origin) : Hole .expression .statement
  | alone (origin : Origin) : Hole .expression .statement
  | nested : Hole .block .statement
  | member (origin : Origin) (before : List Stmt) : Hole .statement .block

namespace Hole

variable {a b : TermSort}

/-- What a term with a hole has besides what is evaluated before the hole: what comes after it, or
the branch that is not taken. -/
abbrev Rest : Hole a b → Type
  | left _ _ => Expr
  | condition _ => Block × Option Block
  | consequence _ _ => Option Block
  | alternative _ _ => Block
  | callee _ => List Expr
  | argument _ _ _ => List Expr
  | member _ _ => List Stmt
  | _ => Unit

/-- The whole term. -/
def fill : {a b : TermSort} → (hole : Hole a b) → hole.Rest → Term a → Term b
  | _, _, operand origin operator, _, e => Expr.unary origin operator e
  | _, _, left origin operator, after, e => Expr.binary origin operator e after
  | _, _, right origin operator before, _, e => Expr.binary origin operator before e
  | _, _, condition origin, rest, e => Expr.conditional origin e rest.1 rest.2
  | _, _, consequence origin e, other, block => Expr.conditional origin e block other
  | _, _, alternative origin e, other, block => Expr.conditional origin e other (some block)
  | _, _, callee origin, after, e => Expr.call origin e after
  | _, _, argument origin f before, after, e => Expr.call origin f (before ++ e :: after)
  | _, _, bound origin name, _, e => Stmt.binding origin name e
  | _, _, returned origin, _, e => Stmt.returning origin e
  | _, _, alone origin, _, e => Stmt.expression origin e
  | _, _, nested, _, b => Stmt.block b
  | _, _, member origin before, after, st => Block.mk origin (before ++ st :: after)

/-- Evaluation gets to the hole: nothing that comes before it unwinds, and the branch that it is in
is taken. This leads from one session to another. -/
def Arrives (scope : ScopeId) : Hole a b → Session → Session → Prop
  | right _ _ before, s, t => ∃ v, before.Evaluates scope s v t ∧ v.IsData
  | consequence _ e, s, t => ∃ v, e.Evaluates scope s v t ∧ v.IsData ∧ v.isTruthy = true
  | alternative _ e, s, t => ∃ v, e.Evaluates scope s v t ∧ v.IsData ∧ v.isTruthy = false
  | argument _ f before, s, t =>
    ∃ v m values, f.Evaluates scope s v m ∧ v.IsData ∧ Expr.EvaluateAll scope before m values t
  | member _ before, s, t => ∃ values, Stmt.EvaluateAll scope before s values t
  | _, s, t => s = t

end Hole

/-- Terms with a hole one inside the other. -/
inductive Context (a : TermSort) : TermSort → Type where
  | here : Context a a
  | inside {b c : TermSort} (hole : Hole b c) (inner : Context a b) : Context a c

namespace Context

variable {a : TermSort}

/-- What the whole term has besides what is evaluated before the place. -/
def Rest : {b : TermSort} → Context a b → Type
  | _, here => Unit
  | _, inside hole inner => hole.Rest × inner.Rest

/-- The whole term. -/
def fill : {b : TermSort} → (context : Context a b) → context.Rest → Term a → Term b
  | _, here, _, t => t
  | _, inside hole inner, rest, t =>
    let (outer, rest) : hole.Rest × inner.Rest := rest
    hole.fill outer (inner.fill rest t)

/-- Evaluation gets to the place, and this leads from one session to another. -/
def Arrives (scope : ScopeId) : {b : TermSort} → Context a b → Session → Session → Prop
  | _, here, s, t => s = t
  | _, inside hole inner, s, t => ∃ m, hole.Arrives scope s m ∧ inner.Arrives scope m t

end Context

/-! ## Lists of terms -/

section Lists

variable {scope : ScopeId} {s s' m : Session} {v : Value} {vs : List Value}

/-- Arguments that do not unwind. -/
theorem settles_expressions {es : List (Term .expression)}
    (h : Expr.EvaluateAll scope es s vs s') :
    Run.Settles (Run.expressions · es scope) s (.ok vs, s') := by
  induction h with
  | nil s =>
    refine .succ ?_
    simp only [Run.expressions, Machine.expressions]
    exact Run.settles_pure [] s
  | cons he hv _ ih =>
    have hfirst := (Term.evaluates_iff_of_isData hv).mp he
    refine .succ ?_
    simp only [Run.expressions, Machine.expressions]
    exact hfirst.bind (ih.bind (Run.settles_pure _ _))

/-- An argument that unwinds after others that do not. -/
theorem settles_expressions_unwind {before : List (Term .expression)}
    (h : Expr.EvaluateAll scope before s vs m) {e : Expr} (he : e.Evaluates scope m v s')
    (hv : v.unwinds) (after : List Expr) :
    Run.Settles (Run.expressions · (before ++ e :: after) scope) s (.error v, s') := by
  induction h with
  | nil s =>
    have hfirst := (Term.evaluates_iff_of_unwinds hv).mp he
    refine .succ ?_
    simp only [List.nil_append, Run.expressions, Machine.expressions]
    exact hfirst.unwind
  | cons hd hw _ ih =>
    have hfirst := (Term.evaluates_iff_of_isData hw).mp hd
    refine .succ ?_
    simp only [List.cons_append, Run.expressions, Machine.expressions]
    exact hfirst.bind (ih he).unwind

/-- A statement that unwinds after others that do not. -/
theorem settles_statements_unwind {before : List (Term .statement)}
    (h : Stmt.EvaluateAll scope before s vs m) {st : Stmt} (hst : st.Evaluates scope m v s')
    (hv : v.unwinds) (after : List Stmt) (last : Value) :
    Run.Settles (Run.statements · last (before ++ st :: after) scope) s (.error v, s') := by
  induction h generalizing last with
  | nil s =>
    have hfirst := (Term.evaluates_iff_of_unwinds hv).mp hst
    refine .succ ?_
    simp only [List.nil_append, Run.statements, Machine.statements]
    exact hfirst.unwind
  | cons hd hw _ ih =>
    have hfirst := (Term.evaluates_iff_of_isData hw).mp hd
    refine .succ ?_
    simp only [List.cons_append, Run.statements, Machine.statements]
    exact hfirst.bind (ih hst _)

end Lists

/-! ## Unwinding in a term -/

variable {a b : TermSort} {scope : ScopeId} {s s' m : Session} {v w : Value}

/-- What unwinds in a hole is what the whole term evaluates to. -/
theorem Hole.evaluates_fill {hole : Hole a b} {t : Term a} (harrives : hole.Arrives scope s m)
    (ht : t.Evaluates scope m v s') (hv : v.unwinds) (rest : hole.Rest) :
    (hole.fill rest t).Evaluates scope s v s' := by
  have hhole := (Term.evaluates_iff_of_unwinds hv).mp ht
  rw [Term.evaluates_iff_of_unwinds hv]
  refine .succ ?_
  cases hole with
  | operand | left | callee =>
    obtain rfl : s = m := harrives
    simp only [fill, Term.run, Run.expression, Machine.expression]
    exact hhole.unwind
  | right origin operator left =>
    obtain ⟨w, hleft, hw⟩ := harrives
    simp only [fill, Term.run, Run.expression, Machine.expression]
    exact ((Term.evaluates_iff_of_isData hw).mp hleft).bind hhole.unwind
  | condition origin =>
    obtain rfl : s = m := harrives
    simp only [fill, Term.run, Run.expression, Machine.expression_conditional]
    exact hhole.unwind
  | consequence origin condition =>
    obtain ⟨w, hcondition, hw, htruthy⟩ := harrives
    simp only [fill, Term.run, Run.expression, Machine.expression_conditional]
    refine ((Term.evaluates_iff_of_isData hw).mp hcondition).bind ?_
    simp only [htruthy, if_true]
    exact hhole
  | alternative origin condition =>
    obtain ⟨w, hcondition, hw, htruthy⟩ := harrives
    simp only [fill, Term.run, Run.expression, Machine.expression_conditional]
    refine ((Term.evaluates_iff_of_isData hw).mp hcondition).bind ?_
    simp only [htruthy, Bool.false_eq_true, if_false]
    exact hhole
  | argument origin callee before =>
    obtain ⟨f, n, values, hcallee, hf, hbefore⟩ := harrives
    simp only [fill, Term.run, Run.expression, Machine.expression]
    refine ((Term.evaluates_iff_of_isData hf).mp hcallee).bind ?_
    exact (settles_expressions_unwind hbefore ht hv rest).unwind
  | bound | returned =>
    obtain rfl : s = m := harrives
    simp only [fill, Term.run, Run.statement, Machine.statement]
    exact hhole.unwind
  | alone | nested =>
    obtain rfl : s = m := harrives
    simp only [fill, Term.run, Run.statement, Machine.statement]
    exact hhole
  | member origin before =>
    obtain ⟨values, hbefore⟩ := harrives
    simp only [fill, Term.run, Run.block, Machine.block]
    exact settles_statements_unwind hbefore ht hv rest .null

/-- What unwinds in a context is what the whole term evaluates to. -/
theorem Context.evaluates_fill {context : Context a b} {t : Term a}
    (harrives : context.Arrives scope s m) (ht : t.Evaluates scope m v s') (hv : v.unwinds)
    (rest : context.Rest) : (context.fill rest t).Evaluates scope s v s' := by
  induction context generalizing s with
  | here =>
    obtain rfl : s = m := harrives
    exact ht
  | inside hole inner ih =>
    obtain ⟨n, hhole, hinner⟩ := harrives
    exact hole.evaluates_fill hhole (ih hinner _) hv _

/-! ## Calls and programs -/

/-- The scope that a call is evaluated in and the session that has it: its parameters are bound to
the arguments. -/
def Session.enter (s : Session) (f : Closure) (values : List Value) : ScopeId × Session :=
  let (id, s) := s.enclose f.scope
  (id, (f.parameters.zip values).foldl (fun s binding => s.insert id binding.1.name binding.2) s)

theorem Run.assignAll_eq (id : ScopeId) (names : List Ident) (values : List Value) (s : Session) :
    (Machine.assignAll id names values : Run Unit) s = some (.ok (), (names.zip values).foldl
      (fun s binding => s.insert id binding.1.name binding.2) s) := by
  induction names generalizing values s with
  | nil => rfl
  | cons name names ih =>
    cases values with
    | nil => rfl
    | cons value values =>
      have hassign : assign id name.name value s = some (.ok (), s.insert id name.name value) := rfl
      rw [Machine.assignAll]
      exact (bind_ok hassign).trans (ih values _)

theorem Run.catchReturned_congr {run run' : Run Value} {t : Session} (h : run s = run' t) :
    catchReturned run s = catchReturned run' t := by
  rw [catchReturned, catchReturned, h]

/-- A call evaluates the body of the function. -/
theorem Run.apply_eq {f : Closure} {values : List Value}
    (hlength : f.parameters.length = values.length) (n : Nat) (s : Session) :
    apply (n + 1) (.function f) values s =
      catchReturned (block n f.body (s.enter f values).1) (s.enter f values).2 := by
  have henclose : enclose f.scope s = some (.ok (s.enclose f.scope).1, (s.enclose f.scope).2) := rfl
  rw [apply, Machine.apply, if_pos hlength]
  refine (bind_ok henclose).trans (catchReturned_congr ?_)
  exact bind_ok (assignAll_eq _ _ _ _)

/-- A call takes one layer of `returned` off. -/
theorem Run.catchReturned_eq {run : Run Value} (h : run s = some (v.outcome, s')) :
    catchReturned run s = some (v.unwrap.outcome, s') := by
  rw [catchReturned, h]
  cases v with
  | returned v => rfl
  | integer | boolean | string | null | function | error => rfl

/-- The end of a call leaves the session as it is. -/
theorem Run.exists_of_catchReturned {run : Run Value} {r : Except Value Value}
    (h : catchReturned run s = some (r, s')) : ∃ r', run s = some (r', s') := by
  unfold catchReturned at h
  split at h
  next v t hreturned =>
    obtain ⟨⟩ := h
    exact ⟨_, hreturned⟩
  next => exact ⟨r, h⟩

/-- **A call evaluates to what its body evaluates to, less one layer of `returned`.** -/
theorem Expr.evaluates_call_iff {origin : Origin} {callee : Expr} {arguments : List Expr}
    {f : Closure} {values : List Value} {n : Session}
    (hcallee : callee.Evaluates scope s (.function f) m)
    (harguments : Expr.EvaluateAll scope arguments m values n)
    (hlength : f.parameters.length = values.length) :
    (Expr.call origin callee arguments).Evaluates scope s w s' ↔
      ∃ v, f.body.Evaluates (n.enter f values).1 (n.enter f values).2 v s' ∧ w = v.unwrap := by
  have hfunction : (Value.function f).IsData := rfl
  obtain ⟨i, hi⟩ := (Term.evaluates_iff_of_isData hfunction).mp hcallee
  obtain ⟨j, hj⟩ := settles_expressions harguments
  -- From some depth on the call is the body of the function two levels deeper.
  have hcall : ∀ depth, max i j ≤ depth →
      Term.run (k := .expression) (Expr.call origin callee arguments) (depth + 2) scope s =
        Run.catchReturned (Run.block depth f.body (n.enter f values).1) (n.enter f values).2 := by
    intro depth hdepth
    have hc : Run.expression (depth + 1) callee scope s = some (.ok (.function f), m) :=
      hi (depth + 1) (by omega)
    have ha := hj (depth + 1) (by omega)
    rw [Term.run, Run.expression, Machine.expression, Run.bind_ok hc, Run.bind_ok ha]
    exact Run.apply_eq hlength depth n
  constructor
  · intro h
    obtain ⟨k, hk⟩ := Term.evaluates_iff.mp h
    have hend := (hcall (max k (max i j)) (by omega)).symm.trans (hk _ (by omega))
    obtain ⟨r, hr⟩ := Run.exists_of_catchReturned hend
    have hbody : f.body.Evaluates _ _ (Run.valueOf r) s' := ⟨_, r, hr, rfl⟩
    refine ⟨Run.valueOf r, hbody, ?_⟩
    have houtcome := Term.eq_outcome_of_run (k := .block) hr
    rw [houtcome] at hr
    rw [Run.catchReturned_eq hr] at hend
    obtain ⟨heq, -⟩ := Prod.mk.inj (Option.some.inj hend)
    exact (Value.outcome_injective heq).symm
  · rintro ⟨v, hbody, rfl⟩
    obtain ⟨k, hk⟩ := Term.evaluates_iff.mp hbody
    refine Term.evaluates_iff.mpr (.succ (.succ ⟨max k (max i j), fun depth hdepth => ?_⟩))
    exact (hcall depth (by omega)).trans (Run.catchReturned_eq (hk depth (by omega)))

namespace Program

/-- The program evaluates to a value, and this leads from one session to another. -/
def Evaluates (p : Program) (s : Session) (v : Value) (s' : Session) : Prop :=
  ∃ depth, Run.program depth p s = some (v, s')

/-- The statements of a program as a block. -/
def body (p : Program) : Block := .mk default p.statements

/-- The end of the program takes one layer of `returned` off. -/
theorem run_eq (p : Program) (n : Nat) (s : Session) :
    Run.program n p s = (Run.block (n + 1) p.body Store.root s).map fun x =>
      ((Run.valueOf x.1).unwrap, x.2) := by
  have hbody : Run.block (n + 1) p.body Store.root =
      Run.statements n .null p.statements Store.root := by
    rw [Run.block, Machine.block]
    rfl
  rw [Run.program, ← hbody]
  rcases hrun : Run.block (n + 1) p.body Store.root s with _ | ⟨v | v, t⟩
  · rfl
  · rfl
  · have hdata : v.IsData := Term.isData_of_run (k := .block) hrun
    exact congrArg (fun w => some (w, t)) hdata.unwrap_eq.symm

/-- **A program evaluates to what its statements evaluate to, less one layer of `returned`.** -/
theorem evaluates_iff {p : Program} :
    p.Evaluates s w s' ↔ ∃ v, p.body.Evaluates Store.root s v s' ∧ w = v.unwrap := by
  constructor
  · rintro ⟨n, h⟩
    rw [run_eq] at h
    obtain ⟨⟨r, t⟩, hrun, heq⟩ := Option.map_eq_some_iff.mp h
    obtain ⟨rfl, rfl⟩ := Prod.mk.inj heq
    exact ⟨_, ⟨n + 1, r, hrun, rfl⟩, rfl⟩
  · rintro ⟨v, h, rfl⟩
    obtain ⟨n, hn⟩ := Term.evaluates_iff.mp h
    refine ⟨n, ?_⟩
    rw [run_eq, show Run.block (n + 1) p.body Store.root s = some (v.outcome, s') from
      hn (n + 1) (by omega)]
    exact congrArg (fun w => some (Value.unwrap w, s')) v.valueOf_outcome

end Program

/-! ## Exactness -/

/-- **Unwinding is exact.** Let evaluation get to some place in a term, and let the term at that
place evaluate to an error or to a returned value. Then the whole term evaluates to this value, it
leads to the session in which the value turned up, and it evaluates to nothing else; what else the
whole term consists of makes no difference. A call evaluates to what the body of the function does,
and a program to what its statements do, but for one layer of `returned`: errors stay as they
are. -/
theorem unwinding_exact :
    (∀ {a b : TermSort} (context : Context a b) (t : Term a) (scope : ScopeId)
      (s m s' : Session) (v : Value),
      context.Arrives scope s m → t.Evaluates scope m v s' → v.unwinds →
      ∀ rest w s'', (context.fill rest t).Evaluates scope s w s'' ↔ w = v ∧ s'' = s') ∧
    (∀ (origin : Origin) (callee : Expr) (arguments : List Expr) (scope : ScopeId)
      (s m n : Session) (f : Closure) (values : List Value),
      callee.Evaluates scope s (.function f) m → Expr.EvaluateAll scope arguments m values n →
      f.parameters.length = values.length →
      ∀ w s', (Expr.call origin callee arguments).Evaluates scope s w s' ↔
        ∃ v, f.body.Evaluates (n.enter f values).1 (n.enter f values).2 v s' ∧ w = v.unwrap) ∧
    ∀ (p : Program) (s : Session) (w : Value) (s' : Session),
      p.Evaluates s w s' ↔ ∃ v, p.body.Evaluates Store.root s v s' ∧ w = v.unwrap := by
  refine ⟨?_, ?_, ?_⟩
  · intro a b context t scope s m s' v harrives ht hv rest w s''
    exact (context.evaluates_fill harrives ht hv rest).iff_eq w s''
  · intro origin callee arguments scope s m n f values hcallee harguments hlength w s'
    exact Expr.evaluates_call_iff hcallee harguments hlength
  · intro p s w s'
    exact Program.evaluates_iff

/-- `{ let z = 3; let y = x + fn() { }(z, if (x) { ... }, ...); ... }` -/
def argumentBranch : Context .statement .block :=
  let name : String → Ident := fun text => ⟨⟨⟨.ident, text⟩, default⟩⟩
  .inside (.member default [.binding default (name "z") (.integer default 3)]) <|
    .inside (.bound default (name "y")) <|
      .inside (.right default .plus (.ident (name "x"))) <|
        .inside (.argument default (.function default [] default) [.ident (name "z")]) <|
          .inside (.consequence default (.ident (name "x"))) <|
            .inside (.member default []) .here

/-- A name that is bound nowhere, wherever something can stand after the place. -/
def argumentBranchRest : argumentBranch.Rest :=
  let unbound : Expr := .ident ⟨⟨⟨.ident, "nowhere"⟩, default⟩⟩
  ([.expression default unbound], (), (), [unbound], none, [.expression default unbound], ())

/-- A root scope that binds one name. -/
def Session.binding (name : String) (value : Value) : Session :=
  ⟨⟨#[some ⟨[(name, value)], none⟩], #[]⟩, #[]⟩

/-- The value is returned from the innermost place, and what was bound on the way there stays. -/
theorem unwinding_exact_argumentBranch :
    let s := Session.binding "x" (.integer 7)
    (argumentBranch.fill argumentBranchRest (Stmt.returning default (.integer default 2))).Evaluates
      Store.root s (.returned (.integer 2)) (s.insert Store.root "z" (.integer 3)) := by
  intro s
  let t := s.insert Store.root "z" (.integer 3)
  let name : String → Ident := fun text => ⟨⟨⟨.ident, text⟩, default⟩⟩
  have hlet : Stmt.Evaluates (.binding default (name "z") (.integer default 3)) Store.root s
      .null t := by
    refine ⟨2, .ok .null, ?_, rfl⟩
    simp only [Term.run, Run.statement, Machine.statement, Machine.expression]
    rfl
  have hx : Expr.Evaluates (.ident (name "x")) Store.root t (.integer 7) t := by
    refine ⟨1, .ok (.integer 7), ?_, rfl⟩
    simp only [Term.run, Run.expression, Machine.expression]
    rfl
  have hz : Expr.Evaluates (.ident (name "z")) Store.root t (.integer 3) t := by
    refine ⟨1, .ok (.integer 3), ?_, rfl⟩
    simp only [Term.run, Run.expression, Machine.expression]
    rfl
  have hfn : Expr.Evaluates (.function default [] default) Store.root t
      (.function ⟨[], default, Store.root⟩) t := by
    refine ⟨1, .ok (.function ⟨[], default, Store.root⟩), ?_, rfl⟩
    simp only [Term.run, Run.expression, Machine.expression]
    rfl
  have harrives : argumentBranch.Arrives Store.root s t :=
    ⟨t, ⟨_, .cons hlet rfl (.nil t)⟩, t, rfl, t, ⟨_, hx, rfl⟩, t,
      ⟨_, t, _, hfn, rfl, .cons hz rfl (.nil t)⟩, t, ⟨_, hx, rfl, rfl⟩, t, ⟨_, .nil t⟩, rfl⟩
  have hreturn : Stmt.Evaluates (.returning default (.integer default 2)) Store.root t
      (.returned (.integer 2)) t := by
    refine ⟨2, .error (.returned (.integer 2)), ?_, rfl⟩
    simp only [Term.run, Run.statement, Machine.statement, Machine.expression]
    rfl
  obtain ⟨hcontext, -, -⟩ := unwinding_exact
  exact (hcontext argumentBranch _ _ _ _ _ _ harrives hreturn rfl argumentBranchRest _ _).mpr
    ⟨rfl, rfl⟩

end ScriptLang
