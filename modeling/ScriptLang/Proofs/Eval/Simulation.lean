import Mathlib.Data.List.Forall2
import ScriptLang.Eval
import ScriptLang.Proofs.Store.Sound

/-!
# Evaluation by two machines

Two machines that go along with each other in every step go along in all of evaluation. What it is
to go along is up to a `Simulation`, which has a rule for each step that a machine can take. The
rules may depend on what is known when the step is taken, the *world*, and what is known grows in
the course of evaluation. A rule about one machine is one about two of which the second is not
looked at.

The terms that the machines evaluate need not be the same either, as long as they are built alike.

`Simulation.along` is the induction on the depth that all properties of evaluation share.
-/

namespace ScriptLang

/-! ## Data -/

namespace Value

/-- A value that evaluation goes on with. -/
def IsData (v : Value) : Prop := v.unwinds = false

theorem unwinds_eq_of_type_eq {u v : Value} (h : u.type = v.type) : u.unwinds = v.unwinds := by
  cases u <;> cases v <;> first | rfl | cases h

/-- What unwinds is an error or on its way out of a function. -/
theorem exists_of_unwinds {v : Value} (h : v.unwinds) :
    (∃ w, v = .returned w) ∨ ∃ cause, v = .error cause := by
  cases v with
  | returned w => exact Or.inl ⟨w, rfl⟩
  | error cause => exact Or.inr ⟨cause, rfl⟩
  | integer | boolean | string | null | function => cases h

/-- A unary operator gives data or an error. -/
theorem isData_or_error_applyUnary (operator : TokenKind) (v : Value) :
    (applyUnary operator v).IsData ∨ ∃ cause, applyUnary operator v = .error cause := by
  rw [applyUnary.eq_def]
  split
  · exact Or.inl rfl
  · exact Or.inl rfl
  · exact Or.inr ⟨_, rfl⟩

/-- A binary operator gives data or an error. -/
theorem isData_or_error_applyBinary (operator : TokenKind) (a b : Value) :
    (applyBinary operator a b).IsData ∨ ∃ cause, applyBinary operator a b = .error cause := by
  rw [applyBinary.eq_def]
  split
  · rw [applyInteger.eq_def]
    split <;> (try split) <;> first | exact Or.inl rfl | exact Or.inr ⟨_, rfl⟩
  · rw [applyString.eq_def]
    split
    · exact Or.inl rfl
    · exact Or.inr ⟨_, rfl⟩
  · unfold applyOther
    split
    · exact Or.inl rfl
    · split
      · exact Or.inl rfl
      · split <;> exact Or.inr ⟨_, rfl⟩

theorem isPlain_or_error_applyUnary (operator : TokenKind) (v : Value) :
    (applyUnary operator v).IsData ∧ (applyUnary operator v).scope? = none ∨
      ∃ cause, applyUnary operator v = .error cause :=
  (isData_or_error_applyUnary operator v).imp_left fun h => ⟨h, scope?_applyUnary operator v⟩

theorem isPlain_or_error_applyBinary (operator : TokenKind) (a b : Value) :
    (applyBinary operator a b).IsData ∧ (applyBinary operator a b).scope? = none ∨
      ∃ cause, applyBinary operator a b = .error cause :=
  (isData_or_error_applyBinary operator a b).imp_left fun h => ⟨h, scope?_applyBinary operator a b⟩

end Value

namespace Machine

variable {m : Type → Type} [Machine m]

/-- A conditional evaluates its condition, and then the branch that is taken. -/
theorem expression_conditional (n : Nat) (origin : Origin) (condition : Expr)
    (consequence : Block) (alternative : Option Block) (scope : ScopeId) :
    expression (m := m) (n + 1) (.conditional origin condition consequence alternative) scope =
      expression n condition scope >>= fun v =>
        if v.isTruthy then block n consequence scope
        else alternative.elim (pure .null) (block n · scope) := by
  cases alternative <;> rw [expression] <;> rfl

/-- What is no function cannot be called. -/
theorem apply_of_type_ne {v : Value} (h : v.type ≠ .function) (n : Nat) (values : List Value) :
    apply (m := m) (n + 1) v values = unwind (.error (.notFunction v.type)) := by
  cases v with
  | function f => exact absurd rfl h
  | _ =>
    rw [apply]
    rintro f ⟨⟩

end Machine

/-! ## Terms that are built alike -/

/-- Relations between terms, and between the parameters of functions. -/
structure TermRelation where
  names : List Ident → List Ident → Prop
  expr : Expr → Expr → Prop
  stmt : Stmt → Stmt → Prop
  block : Block → Block → Prop

/-- The expressions are built alike of terms that are related. Where they come from does not
matter. -/
inductive Expr.Alike (T : TermRelation) : Expr → Expr → Prop where
  | ident {i j} : i.name = j.name → Alike T (.ident i) (.ident j)
  | integer {o p} (value) : Alike T (.integer o value) (.integer p value)
  | string {o p} : o.token.literal = p.token.literal → Alike T (.string o) (.string p)
  | boolean {o p} (value) : Alike T (.boolean o value) (.boolean p value)
  | unary {o p e f} (operator) :
      T.expr e f → Alike T (.unary o operator e) (.unary p operator f)
  | binary {o p e f e' f'} (operator) :
      T.expr e f → T.expr e' f' → Alike T (.binary o operator e e') (.binary p operator f f')
  | conditional {o p e f b c b' c'} :
      T.expr e f → T.block b c → Option.Rel T.block b' c' →
      Alike T (.conditional o e b b') (.conditional p f c c')
  | function {o p is js b c} :
      T.names is js → T.block b c → Alike T (.function o is b) (.function p js c)
  | call {o p e f es fs} :
      T.expr e f → List.Forall₂ T.expr es fs → Alike T (.call o e es) (.call p f fs)

/-- The statements are built alike of terms that are related. -/
inductive Stmt.Alike (T : TermRelation) : Stmt → Stmt → Prop where
  | binding {o p i j e f} :
      i.name = j.name → T.expr e f → Alike T (.binding o i e) (.binding p j f)
  | returning {o p e f} : T.expr e f → Alike T (.returning o e) (.returning p f)
  | expression {o p e f} : T.expr e f → Alike T (.expression o e) (.expression p f)
  | block {b c} : T.block b c → Alike T (.block b) (.block c)

/-- A relation between terms that are built alike. -/
structure Likeness extends TermRelation where
  names_alike : ∀ {is js}, names is js → is.map Ident.name = js.map Ident.name
  expr_alike : ∀ {e f}, expr e f → Expr.Alike toTermRelation e f
  stmt_alike : ∀ {s t}, stmt s t → Stmt.Alike toTermRelation s t
  block_alike : ∀ {b c}, block b c → List.Forall₂ stmt b.statements c.statements

/-- Every term is like itself. -/
def Likeness.same : Likeness where
  names := Eq
  expr := Eq
  stmt := Eq
  block := Eq
  names_alike := by
    rintro is _ rfl
    rfl
  expr_alike := by
    rintro e _ rfl
    cases e with
    | ident => exact .ident rfl
    | integer => exact .integer _
    | string => exact .string rfl
    | boolean => exact .boolean _
    | unary => exact .unary _ rfl
    | binary => exact .binary _ rfl rfl
    | conditional _ _ _ alternative =>
      cases alternative with
      | none => exact .conditional rfl rfl .none
      | some => exact .conditional rfl rfl (.some rfl)
    | function => exact .function rfl rfl
    | call => exact .call rfl (List.forall₂_refl _)
  stmt_alike := by
    rintro s _ rfl
    cases s with
    | binding => exact .binding rfl rfl
    | returning => exact .returning rfl
    | expression => exact .expression rfl
    | block => exact .block rfl
  block_alike := by
    rintro b _ rfl
    exact List.forall₂_refl _

theorem Likeness.forall₂_same (ss : List Stmt) : List.Forall₂ Likeness.same.stmt ss ss :=
  List.forall₂_same.mpr fun _ _ => rfl

/-! ## Machines that go along -/

/-- Values that may be called: functions with related bodies in related scopes, or no functions. -/
inductive Value.Callees (T : TermRelation) (scope : ScopeId → ScopeId → Prop) :
    Value → Value → Prop where
  | function {is js b c x y} :
      T.names is js → T.block b c → scope x y →
      Callees T scope (.function ⟨is, b, x⟩) (.function ⟨js, c, y⟩)
  | other {u v} : u.type = v.type → u.type ≠ .function → Callees T scope u v

theorem Value.Callees.refl (scope : ScopeId → ScopeId → Prop) {v : Value}
    (h : ∀ id, v.scope? = some id → scope id id) :
    Callees Likeness.same.toTermRelation scope v v := by
  cases v with
  | function f => exact .function rfl rfl (h f.scope rfl)
  | _ => exact .other rfl (by rintro ⟨⟩)

/-- What it is for evaluation by one machine to go along with evaluation by another one. -/
structure Simulation (M N : Type → Type) [Machine M] [Machine N] where
  /-- What is known when a step is taken. -/
  World : Type
  /-- What is known may change like this. -/
  Later : World → World → Prop
  /-- The terms that the two machines evaluate. -/
  likeness : Likeness
  /-- The scopes that they evaluate them in. -/
  Scopes : World → ScopeId → ScopeId → Prop
  /-- The values that they go on with. -/
  Values : World → Value → Value → Prop
  /-- Code in two scopes goes along, with such results. -/
  Code : World → ScopeId → ScopeId → {α : Type} → (World → α → α → Prop) → M α → N α → Prop
  /-- Two calls go along. -/
  Calls : World → M Value → N Value → Prop
  scopes_later : ∀ {w w' x y}, Later w w' → Scopes w x y → Scopes w' x y
  values_later : ∀ {w w' u v}, Later w w' → Values w u v → Values w' u v
  values_self : ∀ {w v}, v.IsData → v.scope? = none → Values w v v
  values_function : ∀ {w is js b c x y}, likeness.names is js → likeness.block b c →
    Scopes w x y → Values w (.function ⟨is, b, x⟩) (.function ⟨js, c, y⟩)
  callees : ∀ {w u v}, Values w u v → Value.Callees likeness.toTermRelation (Scopes w) u v
  applyUnary_eq : ∀ {w u v}, Values w u v → ∀ operator,
    Value.applyUnary operator u = Value.applyUnary operator v
  applyBinary_eq : ∀ {w u v u' v'}, Values w u v → Values w u' v' → ∀ operator,
    Value.applyBinary operator u u' = Value.applyBinary operator v v'
  pure : ∀ {w x y} {α : Type} {R : World → α → α → Prop} {a b}, R w a b →
    Code w x y R (Pure.pure a) (Pure.pure b)
  bind : ∀ {w x y} {α β : Type} {R : World → α → α → Prop} {Q : World → β → β → Prop}
    {p : M α} {q : N α} {f : α → M β} {g : α → N β}, Code w x y R p q →
    (∀ {w' a b}, Later w w' → R w' a b → Code w' x y Q (f a) (g b)) →
    Code w x y Q (p >>= f) (q >>= g)
  tooDeep : ∀ {w x y} {α : Type} {R : World → α → α → Prop},
    Code w x y R Machine.tooDeep Machine.tooDeep
  error : ∀ {w x y} {α : Type} {R : World → α → α → Prop} (cause),
    Code w x y R (Machine.unwind (.error cause)) (Machine.unwind (.error cause))
  returned : ∀ {w x y} {α : Type} {R : World → α → α → Prop} {u v}, Values w u v →
    Code w x y R (Machine.unwind (.returned u)) (Machine.unwind (.returned v))
  lookup : ∀ {w x y}, Scopes w x y → ∀ name,
    Code w x y Values (Machine.lookup x name) (Machine.lookup y name)
  assign : ∀ {w x y u v}, Scopes w x y → Values w u v → ∀ name,
    Code w x y (fun _ _ _ => True) (Machine.assign x name u) (Machine.assign y name v)
  code_of_calls : ∀ {w x y p q}, Calls w p q → Code w x y Values p q
  call : ∀ {w x y f g}, Scopes w x y →
    (∀ w' x' y', Later w w' → Scopes w' x' y' → Code w' x' y' Values (f x') (g y')) →
    Calls w (Machine.call x f) (Machine.call y g)
  call_tooDeep : ∀ {w}, Calls w Machine.tooDeep Machine.tooDeep
  call_error : ∀ {w} (cause),
    Calls w (Machine.unwind (.error cause)) (Machine.unwind (.error cause))

namespace Simulation

variable {M N : Type → Type} [Machine M] [Machine N] (σ : Simulation M N)

/-- Evaluation by the two machines, each to its own depth, goes along. -/
structure AlongAt (n k : Nat) : Prop where
  expression : ∀ {w x y e f}, σ.Scopes w x y → σ.likeness.expr e f →
    σ.Code w x y σ.Values (Machine.expression n e x) (Machine.expression k f y)
  expressions : ∀ {w x y es fs}, σ.Scopes w x y → List.Forall₂ σ.likeness.expr es fs →
    σ.Code w x y (fun w => List.Forall₂ (σ.Values w)) (Machine.expressions n es x)
      (Machine.expressions k fs y)
  apply : ∀ {w u v us vs}, σ.Values w u v → List.Forall₂ (σ.Values w) us vs →
    σ.Calls w (Machine.apply n u us) (Machine.apply k v vs)
  block : ∀ {w x y b c}, σ.Scopes w x y → σ.likeness.block b c →
    σ.Code w x y σ.Values (Machine.block n b x) (Machine.block k c y)
  statements : ∀ {w x y u v ss ts}, σ.Scopes w x y → σ.Values w u v →
    List.Forall₂ σ.likeness.stmt ss ts →
    σ.Code w x y σ.Values (Machine.statements n u ss x) (Machine.statements k v ts y)
  statement : ∀ {w x y s t}, σ.Scopes w x y → σ.likeness.stmt s t →
    σ.Code w x y σ.Values (Machine.statement n s x) (Machine.statement k t y)

section Rules

variable {σ} {w : σ.World} {x y : ScopeId} {u v u' v' : Value}

theorem isTruthy_eq (h : σ.Values w u v) : u.isTruthy = v.isTruthy := by
  have hnot := σ.applyUnary_eq h .bang
  simpa [Value.applyUnary] using hnot

/-- What an operator gives. -/
theorem settle (h : v.IsData ∧ v.scope? = none ∨ ∃ cause, v = .error cause) :
    σ.Code w x y σ.Values (Machine.settle v) (Machine.settle v) := by
  rcases h with ⟨hdata, hscope⟩ | ⟨cause, rfl⟩
  · have hgoes : ¬v.unwinds := Bool.eq_false_iff.mp hdata
    rw [Machine.settle, Machine.settle, if_neg hgoes, if_neg hgoes]
    exact σ.pure (σ.values_self hdata hscope)
  · exact σ.error cause

theorem assignAll {is js : List Ident} {us vs : List Value} (hscope : σ.Scopes w x y)
    (hnames : is.map Ident.name = js.map Ident.name) (hvalues : List.Forall₂ (σ.Values w) us vs) :
    σ.Code w x y (fun _ _ _ => True) (Machine.assignAll x is us) (Machine.assignAll y js vs) := by
  induction is generalizing w js us vs with
  | nil =>
    obtain rfl := List.map_eq_nil_iff.mp hnames.symm
    cases hvalues <;> exact σ.pure trivial
  | cons i is ih =>
    obtain ⟨j, js, rfl, hname, hnames⟩ := List.map_eq_cons_iff.mp hnames.symm
    cases hvalues with
    | nil => exact σ.pure trivial
    | cons hvalue hvalues =>
      rw [Machine.assignAll, Machine.assignAll, hname]
      refine σ.bind (σ.assign hscope hvalue i.name) fun hlater _ => ?_
      exact ih (σ.scopes_later hlater hscope) hnames.symm
        (hvalues.imp fun _ _ => σ.values_later hlater)

end Rules

/-! ## One more level of depth -/

namespace AlongAt

variable {σ} {n k : Nat} (ih : σ.AlongAt n k) {w : σ.World} {x y : ScopeId}
include ih

theorem expression_succ {e f : Expr} (hscope : σ.Scopes w x y) (h : σ.likeness.expr e f) :
    σ.Code w x y σ.Values (Machine.expression (n + 1) e x) (Machine.expression (k + 1) f y) := by
  cases σ.likeness.expr_alike h with
  | ident hname =>
    simp only [Machine.expression, hname]
    exact σ.lookup hscope _
  | integer value =>
    simp only [Machine.expression]
    exact σ.pure (σ.values_self rfl rfl)
  | string hliteral =>
    simp only [Machine.expression, hliteral]
    exact σ.pure (σ.values_self rfl rfl)
  | boolean value =>
    simp only [Machine.expression]
    exact σ.pure (σ.values_self rfl rfl)
  | unary operator he =>
    simp only [Machine.expression]
    refine σ.bind (ih.expression hscope he) fun _ hvalue => ?_
    rw [σ.applyUnary_eq hvalue]
    exact settle (Value.isPlain_or_error_applyUnary operator _)
  | binary operator he he' =>
    simp only [Machine.expression]
    refine σ.bind (ih.expression hscope he) fun hlater hleft => ?_
    refine σ.bind (ih.expression (σ.scopes_later hlater hscope) he') fun hlater' hright => ?_
    rw [σ.applyBinary_eq (σ.values_later hlater' hleft) hright]
    exact settle (Value.isPlain_or_error_applyBinary operator _ _)
  | conditional he hconsequence halternative =>
    rw [Machine.expression_conditional, Machine.expression_conditional]
    refine σ.bind (ih.expression hscope he) fun hlater hvalue => ?_
    have hscope' := σ.scopes_later hlater hscope
    rw [isTruthy_eq hvalue]
    split
    · exact ih.block hscope' hconsequence
    · cases halternative with
      | none => exact σ.pure (σ.values_self rfl rfl)
      | some halternative => exact ih.block hscope' halternative
  | function hnames hbody =>
    simp only [Machine.expression]
    exact σ.pure (σ.values_function hnames hbody hscope)
  | call he hes =>
    simp only [Machine.expression]
    refine σ.bind (ih.expression hscope he) fun hlater hcallee => ?_
    refine σ.bind (ih.expressions (σ.scopes_later hlater hscope) hes) fun hlater' hvalues => ?_
    exact σ.code_of_calls (ih.apply (σ.values_later hlater' hcallee) hvalues)

theorem expressions_succ {es fs : List Expr} (hscope : σ.Scopes w x y)
    (hes : List.Forall₂ σ.likeness.expr es fs) :
    σ.Code w x y (fun w => List.Forall₂ (σ.Values w)) (Machine.expressions (n + 1) es x)
      (Machine.expressions (k + 1) fs y) := by
  cases hes with
  | nil =>
    rw [Machine.expressions, Machine.expressions]
    exact σ.pure .nil
  | cons he hes =>
    rw [Machine.expressions, Machine.expressions]
    refine σ.bind (ih.expression hscope he) fun hlater hvalue => ?_
    refine σ.bind (ih.expressions (σ.scopes_later hlater hscope) hes) fun hlater' hvalues => ?_
    exact σ.pure (.cons (σ.values_later hlater' hvalue) hvalues)

theorem apply_succ {u v : Value} {us vs : List Value} (hcallee : σ.Values w u v)
    (hvalues : List.Forall₂ (σ.Values w) us vs) :
    σ.Calls w (Machine.apply (n + 1) u us) (Machine.apply (k + 1) v vs) := by
  cases σ.callees hcallee with
  | @function is js _ _ _ _ hnames hbody hscope =>
    have hname := σ.likeness.names_alike hnames
    have hlength : is.length = js.length := by
      rw [← List.length_map Ident.name, hname, List.length_map]
    rw [Machine.apply, Machine.apply, hvalues.length_eq, hlength]
    split
    · refine σ.call hscope fun _ _ _ hlater hscope' => ?_
      have hvalues' := hvalues.imp fun _ _ => σ.values_later hlater
      refine σ.bind (assignAll hscope' hname hvalues') fun hlater' _ => ?_
      exact ih.block (σ.scopes_later hlater' hscope') hbody
    · exact σ.call_error _
  | other htype hne =>
    rw [Machine.apply_of_type_ne hne, Machine.apply_of_type_ne (htype ▸ hne), htype]
    exact σ.call_error _

theorem statement_succ {s t : Stmt} (hscope : σ.Scopes w x y) (hst : σ.likeness.stmt s t) :
    σ.Code w x y σ.Values (Machine.statement (n + 1) s x) (Machine.statement (k + 1) t y) := by
  cases σ.likeness.stmt_alike hst with
  | binding hname he =>
    rw [Machine.statement, Machine.statement, hname]
    refine σ.bind (ih.expression hscope he) fun hlater hvalue => ?_
    refine σ.bind (σ.assign (σ.scopes_later hlater hscope) hvalue _) fun _ _ => ?_
    exact σ.pure (σ.values_self rfl rfl)
  | returning he =>
    rw [Machine.statement, Machine.statement]
    exact σ.bind (ih.expression hscope he) fun _ hvalue => σ.returned hvalue
  | expression he =>
    rw [Machine.statement, Machine.statement]
    exact ih.expression hscope he
  | block hblock =>
    rw [Machine.statement, Machine.statement]
    exact ih.block hscope hblock

theorem succ : σ.AlongAt (n + 1) (k + 1) where
  expression := ih.expression_succ
  expressions := ih.expressions_succ
  apply := ih.apply_succ
  block hscope hblock := by
    rw [Machine.block, Machine.block]
    exact ih.statements hscope (σ.values_self rfl rfl) (σ.likeness.block_alike hblock)
  statements hscope hlast hss := by
    cases hss with
    | nil =>
      rw [Machine.statements, Machine.statements]
      exact σ.pure hlast
    | cons hst hss =>
      rw [Machine.statements, Machine.statements]
      refine σ.bind (ih.statement hscope hst) fun hlater hvalue => ?_
      exact ih.statements (σ.scopes_later hlater hscope) hvalue hss
  statement := ih.statement_succ

end AlongAt

/-- Evaluation that nests too deep at once goes along with any, if nesting too deep does. -/
theorem alongAt_zero (k : Nat)
    (hcode : ∀ {w x y} {α : Type} {R : σ.World → α → α → Prop} (q : N α),
      σ.Code w x y R Machine.tooDeep q)
    (hcalls : ∀ {w} (q : N Value), σ.Calls w Machine.tooDeep q) : σ.AlongAt 0 k := by
  constructor
  case expression => intros; rw [Machine.expression]; exact hcode _
  case expressions => intros; rw [Machine.expressions]; exact hcode _
  case apply => intros; rw [Machine.apply]; exact hcalls _
  case block => intros; rw [Machine.block]; exact hcode _
  case statements => intros; rw [Machine.statements]; exact hcode _
  case statement => intros; rw [Machine.statement]; exact hcode _

/-- **What goes along in every step goes along in all of evaluation.** -/
theorem along (n : Nat) : σ.AlongAt n n := by
  induction n with
  | zero =>
    constructor
    case expression => intros; rw [Machine.expression, Machine.expression]; exact σ.tooDeep
    case expressions => intros; rw [Machine.expressions, Machine.expressions]; exact σ.tooDeep
    case apply => intros; rw [Machine.apply, Machine.apply]; exact σ.call_tooDeep
    case block => intros; rw [Machine.block, Machine.block]; exact σ.tooDeep
    case statements => intros; rw [Machine.statements, Machine.statements]; exact σ.tooDeep
    case statement => intros; rw [Machine.statement, Machine.statement]; exact σ.tooDeep
  | succ n ih => exact ih.succ

end Simulation

end ScriptLang
