import ScriptLang.Proofs.Eval.Bindings

/-!
# Arithmetic

Integers have 64 bits, so every operator reduces what it gives modulo `2 ^ 64`. Sums, differences
and products come out as if this were done once, at the end: the value of an expression of these is
its exact value reduced, whatever has overflowed on the way. A quotient is that of its operands as
they have come out. It goes toward zero, and the only thing that can go wrong in arithmetic is that
a divisor comes out as zero; this ends the evaluation, which goes from left to right.
-/

namespace ScriptLang

open Term (Visits)

variable {scope scope' : ScopeId} {s s' m : Session}

/-! ## Operators and what they are applied to -/

/-- A unary operator is applied to what its operand evaluates to. -/
theorem Expr.evaluates_unary {operand : Expr} {v : Value} (origin : Origin) (operator : TokenKind)
    (h : operand.Evaluates scope s v s') (hv : v.IsData) :
    (Expr.unary origin operator operand).Evaluates scope s (Value.applyUnary operator v) s' := by
  have hoperand := (Term.evaluates_iff_of_isData hv).mp h
  refine Term.evaluates_iff.mpr (.succ ?_)
  simp only [Term.run, Run.expression, Machine.expression]
  exact hoperand.bind ⟨0, fun _ _ => Run.settle_eq _ _⟩

/-- A binary operator is applied to what its operands evaluate to, the left one first. -/
theorem Expr.evaluates_binary {left right : Expr} {v w : Value} (origin : Origin)
    (operator : TokenKind) (hleft : left.Evaluates scope s v m) (hv : v.IsData)
    (hright : right.Evaluates scope m w s') (hw : w.IsData) :
    (Expr.binary origin operator left right).Evaluates scope s
      (Value.applyBinary operator v w) s' := by
  have hfirst := (Term.evaluates_iff_of_isData hv).mp hleft
  have hsecond := (Term.evaluates_iff_of_isData hw).mp hright
  refine Term.evaluates_iff.mpr (.succ ?_)
  simp only [Term.run, Run.expression, Machine.expression]
  exact hfirst.bind (hsecond.bind ⟨0, fun _ _ => Run.settle_eq _ _⟩)

/-- A name evaluates to what it is bound to. -/
theorem Expr.evaluates_ident {name : Ident} {v : Value}
    (h : s.store.find? scope name.name = some v) :
    (Expr.ident name).Evaluates scope s v s := by
  refine Term.evaluates_iff.mpr (.succ ⟨0, fun n _ => ?_⟩)
  have hlookup : Run.lookup scope name.name s = some (v.outcome, s) := by rw [Run.lookup, h]; rfl
  simp only [Term.run, Run.expression, Machine.expression]
  exact hlookup

theorem Expr.evaluates_integer (origin : Origin) (n : Int64) (scope : ScopeId) (s : Session) :
    (Expr.integer origin n).Evaluates scope s (.integer n) s := by
  refine Term.evaluates_iff.mpr (.succ ⟨0, fun _ _ => ?_⟩)
  simp only [Term.run, Run.expression, Machine.expression]
  rfl

/-- An error that turns up where evaluation gets to is what it all evaluates to. -/
theorem Term.Visits.evaluates_error {a b : TermSort} {t : Term a} {u : Term b}
    {cause : RuntimeError} (h : t.Visits scope s u scope' m)
    (hu : u.Evaluates scope' m (.error cause) s') : t.Evaluates scope s (.error cause) s' := by
  induction h with
  | here => exact hu
  | inside harrives _ ih => exact Hole.evaluates_fill harrives (ih hu) rfl _
  | call hcallee harguments hlength _ ih =>
    exact (Expr.evaluates_call_iff hcallee harguments hlength).mpr ⟨_, ih hu, rfl⟩

/-! ## Expressions of arithmetic -/

namespace Arithmetic

/-- The operators between integers that give integers. -/
inductive Operator where
  | sum
  | difference
  | product
  | quotient
  deriving DecidableEq

namespace Operator

/-- The token of an operator. -/
def kind : Operator → TokenKind
  | sum => .plus
  | difference => .minus
  | product => .asterisk
  | quotient => .slash

/-- What an operator gives, not reduced. The operands of a quotient are reduced beforehand. -/
def exact : Operator → Int → Int → Int
  | sum, x, y => x + y
  | difference, x, y => x - y
  | product, x, y => x * y
  | quotient, x, y => (x.bmod Int64.size).tdiv (y.bmod Int64.size)

end Operator

end Arithmetic

/-- Expressions of integers, names, unary minus and the operators between integers. -/
inductive Arithmetic where
  | literal (origin : Origin) (n : Int64)
  | ident (name : Ident)
  | negation (origin : Origin) (operand : Arithmetic)
  | binary (origin : Origin) (operator : Arithmetic.Operator) (left right : Arithmetic)

namespace Arithmetic

/-- The expression itself. -/
def expr : Arithmetic → Expr
  | literal origin n => .integer origin n
  | ident name => .ident name
  | negation origin operand => .unary origin .minus operand.expr
  | binary origin operator left right => .binary origin operator.kind left.expr right.expr

/-- The names in it. -/
def names : Arithmetic → List String
  | literal _ _ => []
  | ident name => [name.name]
  | negation _ operand => operand.names
  | binary _ _ left right => left.names ++ right.names

/-- Whether there is a quotient in it. -/
def hasQuotient : Arithmetic → Bool
  | literal _ _ => false
  | ident _ => false
  | negation _ operand => operand.hasQuotient
  | binary _ operator left right =>
    operator = .quotient || left.hasQuotient || right.hasQuotient

variable (bound : String → Int64)

/-- Its value if names stand for the given integers. Nothing is reduced but the operands of
quotients. -/
def exact : Arithmetic → Int
  | literal _ n => n.toInt
  | ident name => (bound name.name).toInt
  | negation _ operand => -operand.exact
  | binary _ operator left right => operator.exact left.exact right.exact

/-- Whether a divisor in it is zero. -/
def dividesByZero : Arithmetic → Bool
  | literal _ _ => false
  | ident _ => false
  | negation _ operand => operand.dividesByZero
  | binary _ operator left right =>
    left.dividesByZero || right.dividesByZero ||
      (operator = .quotient && Int64.ofInt (right.exact bound) = 0)

/-- What it evaluates to: its value reduced, unless a divisor is zero. -/
def value (a : Arithmetic) : Value :=
  if a.dividesByZero bound then .error .divisionByZero else .integer (Int64.ofInt (a.exact bound))

variable {bound} {a operand left right : Arithmetic}

theorem dividesByZero_of_hasQuotient_eq_false (h : a.hasQuotient = false) :
    a.dividesByZero bound = false := by
  induction a with
  | literal | ident => rfl
  | negation _ operand ih => exact ih h
  | binary _ operator left right ihl ihr =>
    simp only [hasQuotient, Bool.or_eq_false_iff] at h
    simp only [dividesByZero, ihl h.1.2, ihr h.2, h.1.1, Bool.or_false, Bool.false_and]

theorem value_of_dividesByZero (h : a.dividesByZero bound = true) :
    a.value bound = .error .divisionByZero := if_pos h

theorem value_of_not_dividesByZero (h : a.dividesByZero bound = false) :
    a.value bound = .integer (Int64.ofInt (a.exact bound)) := if_neg (Bool.eq_false_iff.mp h)

theorem isData_value (h : a.dividesByZero bound = false) : (a.value bound).IsData := by
  rw [value_of_not_dividesByZero h]
  rfl

/-! ## Reducing at the end -/

/-- **An operator between integers that have been reduced gives what it gives between the integers
themselves, reduced**, unless it divides by zero. -/
theorem applyBinary_ofInt (operator : Operator) (x y : Int)
    (h : ¬(operator = .quotient ∧ Int64.ofInt y = 0)) :
    Value.applyBinary operator.kind (.integer (Int64.ofInt x)) (.integer (Int64.ofInt y)) =
      .integer (Int64.ofInt (operator.exact x y)) := by
  cases operator with
  | sum => exact congrArg Value.integer (Int64.ofInt_add x y).symm
  | difference => exact congrArg Value.integer (Int64.ofInt_sub x y).symm
  | product => exact congrArg Value.integer (Int64.ofInt_mul x y).symm
  | quotient =>
    have hne : Int64.ofInt y ≠ 0 := fun hy => h ⟨rfl, hy⟩
    have hdiv : Int64.ofInt x / Int64.ofInt y = Int64.ofInt (Operator.quotient.exact x y) := by
      rw [← Int64.toInt_inj, Int64.toInt_div, Int64.toInt_ofInt, Int64.toInt_ofInt,
        Int64.toInt_ofInt]
      rfl
    show (if Int64.ofInt y = 0 then _ else _) = _
    rw [if_neg hne, hdiv]

theorem value_negation (origin : Origin) (h : operand.dividesByZero bound = false) :
    (negation origin operand).value bound = Value.applyUnary .minus (operand.value bound) := by
  have hnegation : (negation origin operand).dividesByZero bound = false := h
  rw [value_of_not_dividesByZero h, value_of_not_dividesByZero hnegation, exact, Int64.ofInt_neg]
  rfl

theorem value_binary (origin : Origin) (operator : Operator)
    (hleft : left.dividesByZero bound = false) (hright : right.dividesByZero bound = false) :
    (binary origin operator left right).value bound =
      Value.applyBinary operator.kind (left.value bound) (right.value bound) := by
  rw [value_of_not_dividesByZero hleft, value_of_not_dividesByZero hright]
  by_cases hzero : operator = .quotient ∧ Int64.ofInt (right.exact bound) = 0
  · have hdivides : (binary origin operator left right).dividesByZero bound = true := by
      simp [dividesByZero, hzero]
    rw [value_of_dividesByZero hdivides, hzero.1, hzero.2]
    rfl
  · have hdivides : (binary origin operator left right).dividesByZero bound = false := by
      simpa [dividesByZero, hleft, hright] using hzero
    rw [value_of_not_dividesByZero hdivides, applyBinary_ofInt _ _ _ hzero, exact]

/-! ## Evaluation -/

section Evaluation

variable (hnames : ∀ x ∈ a.names, s.store.find? scope x = some (.integer (bound x)))
include hnames

/-- **Evaluation comes to the exact value reduced, or to the error of a division by zero**, and it
leaves the session as it is. -/
theorem evaluates_value : a.expr.Evaluates scope s (a.value bound) s := by
  induction a with
  | literal origin n =>
    rw [value_of_not_dividesByZero rfl, exact, Int64.ofInt_toInt]
    exact Expr.evaluates_integer origin n scope s
  | ident name =>
    rw [value_of_not_dividesByZero rfl, exact, Int64.ofInt_toInt]
    exact Expr.evaluates_ident (hnames name.name List.mem_cons_self)
  | negation origin operand ih =>
    have hoperand := ih hnames
    cases hzero : operand.dividesByZero bound with
    | true =>
      have hnegation : (negation origin operand).dividesByZero bound = true := hzero
      rw [value_of_dividesByZero hzero] at hoperand
      rw [value_of_dividesByZero hnegation]
      exact (Hole.operand origin .minus).evaluates_fill rfl hoperand rfl ()
    | false =>
      rw [value_negation origin hzero]
      exact Expr.evaluates_unary origin .minus hoperand (isData_value hzero)
  | binary origin operator left right ihl ihr =>
    have hleft := ihl fun x hx => hnames x (List.mem_append_left _ hx)
    have hright := ihr fun x hx => hnames x (List.mem_append_right _ hx)
    cases hl : left.dividesByZero bound with
    | true =>
      have hbinary : (binary origin operator left right).dividesByZero bound = true := by
        simp [dividesByZero, hl]
      rw [value_of_dividesByZero hl] at hleft
      rw [value_of_dividesByZero hbinary]
      exact (Hole.left origin operator.kind).evaluates_fill rfl hleft rfl right.expr
    | false =>
      cases hr : right.dividesByZero bound with
      | true =>
        have hbinary : (binary origin operator left right).dividesByZero bound = true := by
          simp [dividesByZero, hr]
        rw [value_of_dividesByZero hr] at hright
        rw [value_of_dividesByZero hbinary]
        exact (Hole.right origin operator.kind left.expr).evaluates_fill
          ⟨_, hleft, isData_value hl⟩ hright rfl ()
      | false =>
        rw [value_binary origin operator hl hr]
        exact Expr.evaluates_binary origin operator.kind hleft (isData_value hl) hright
          (isData_value hr)

/-- If a divisor is zero, evaluation gets to a quotient whose divisor comes out as zero. -/
theorem exists_visits_of_dividesByZero (h : a.dividesByZero bound = true) :
    ∃ origin left right, Visits (a := .expression) (b := .expression) a.expr scope s
        (Expr.binary origin .slash left right) scope s ∧
      (∃ n, left.Evaluates scope s (.integer n) s) ∧ right.Evaluates scope s (.integer 0) s := by
  induction a with
  | literal | ident => cases h
  | negation origin operand ih =>
    obtain ⟨origin', left, right, hvisits, hdivides⟩ := ih hnames h
    have hinside : Visits ((Hole.operand origin .minus).fill () operand.expr) scope s _ scope s :=
      .inside rfl hvisits
    exact ⟨origin', left, right, hinside, hdivides⟩
  | binary origin operator left right ihl ihr =>
    have hnamesl : ∀ x ∈ left.names, s.store.find? scope x = some (.integer (bound x)) :=
      fun x hx => hnames x (List.mem_append_left _ hx)
    have hnamesr : ∀ x ∈ right.names, s.store.find? scope x = some (.integer (bound x)) :=
      fun x hx => hnames x (List.mem_append_right _ hx)
    have hleft := evaluates_value hnamesl
    cases hl : left.dividesByZero bound with
    | true =>
      obtain ⟨origin', l, r, hvisits, hdivides⟩ := ihl hnamesl hl
      have hinside : Visits ((Hole.left origin operator.kind).fill right.expr left.expr) scope s _
          scope s := .inside rfl hvisits
      exact ⟨origin', l, r, hinside, hdivides⟩
    | false =>
      cases hr : right.dividesByZero bound with
      | true =>
        obtain ⟨origin', l, r, hvisits, hdivides⟩ := ihr hnamesr hr
        have hinside : Visits ((Hole.right origin operator.kind left.expr).fill () right.expr) scope
            s _ scope s := .inside ⟨_, hleft, isData_value hl⟩ hvisits
        exact ⟨origin', l, r, hinside, hdivides⟩
      | false =>
        have hright := evaluates_value hnamesr
        simp only [dividesByZero, hl, hr, Bool.false_or, Bool.and_eq_true, decide_eq_true_eq] at h
        obtain ⟨rfl, hzero⟩ := h
        rw [value_of_not_dividesByZero hl] at hleft
        rw [value_of_not_dividesByZero hr, hzero] at hright
        exact ⟨origin, left.expr, right.expr, .here _ _ _, ⟨_, hleft⟩, hright⟩

end Evaluation

/-- **Arithmetic is exact modulo `2 ^ 64`.** Let the names in an expression of arithmetic be bound
to integers. If there is no quotient in it, it evaluates to its exact value, reduced once. In any
case it evaluates to the error of a division by zero just if evaluation, which goes from left to
right, gets to a quotient whose divisor evaluates to zero. If it does not, then the expression
evaluates to its value reduced, where a quotient is that of its operands, reduced and truncated
toward zero. The session stays as it is. -/
theorem evaluates_exact (a : Arithmetic) (s : Session) (scope : ScopeId) (bound : String → Int64)
    (hnames : ∀ x ∈ a.names, s.store.find? scope x = some (.integer (bound x))) :
    (a.hasQuotient = false →
      a.expr.Evaluates scope s (.integer (Int64.ofInt (a.exact bound))) s) ∧
    (a.expr.Evaluates scope s (.error .divisionByZero) s ↔
      ∃ origin left right, Visits (a := .expression) (b := .expression) a.expr scope s
          (Expr.binary origin .slash left right) scope s ∧
        (∃ n, left.Evaluates scope s (.integer n) s) ∧ right.Evaluates scope s (.integer 0) s) ∧
    (¬a.expr.Evaluates scope s (.error .divisionByZero) s →
      a.expr.Evaluates scope s (.integer (Int64.ofInt (a.exact bound))) s) ∧
    RuntimeError.message .divisionByZero = "division by zero" := by
  have hvalue := evaluates_value hnames
  refine ⟨fun h => ?_, ⟨fun h => ?_, ?_⟩, fun h => ?_, rfl⟩
  · rwa [value_of_not_dividesByZero (dividesByZero_of_hasQuotient_eq_false h)] at hvalue
  · cases hzero : a.dividesByZero bound with
    | true => exact exists_visits_of_dividesByZero hnames hzero
    | false =>
      -- It would evaluate to an integer as well.
      rw [value_of_not_dividesByZero hzero] at hvalue
      cases (h.unique hvalue).1
  · rintro ⟨origin, left, right, hvisits, ⟨n, hleft⟩, hright⟩
    exact hvisits.evaluates_error (Expr.evaluates_binary origin .slash hleft rfl hright rfl)
  · cases hzero : a.dividesByZero bound with
    | true => exact absurd (value_of_dividesByZero hzero ▸ hvalue) h
    | false => rwa [value_of_not_dividesByZero hzero] at hvalue

/-- The least integer less one plus one, divided by minus one, and divided by zero. -/
theorem evaluates_exact_least :
    let least := Int64.minValue
    let s := Session.binding "x" (.integer least)
    let x : Arithmetic := .ident ⟨⟨⟨.ident, "x"⟩, default⟩⟩
    let one : Arithmetic := .literal default 1
    let around := binary default .sum (binary default .difference x one) one
    let opposite := binary default .quotient x (negation default one)
    let zero := binary default .difference x x
    s.store.find? Store.root "x" = some (.integer least) ∧
      around.expr.Evaluates Store.root s (.integer least) s ∧
      opposite.expr.Evaluates Store.root s (.integer least) s ∧
      (binary default .quotient x zero).expr.Evaluates Store.root s (.error .divisionByZero) s := by
  intro least s x one around opposite zero
  have hx : s.store.find? Store.root "x" = some (.integer least) := rfl
  have hbound : ∀ a : Arithmetic, (∀ y ∈ a.names, y = "x") →
      ∀ y ∈ a.names, s.store.find? Store.root y = some (.integer least) := by
    intro a ha y hy
    rw [ha y hy]
    exact hx
  have haround := hbound around fun y hy => List.mem_singleton.mp hy
  have hopposite := hbound opposite fun y hy => List.mem_singleton.mp hy
  have hzero := hbound zero fun y hy => by simpa [zero, x, names, Ident.name] using hy
  have hquotient := hbound (binary default .quotient x zero) fun y hy => by
    simpa [zero, x, names, Ident.name] using hy
  obtain ⟨hsum, -⟩ := evaluates_exact around s Store.root (fun _ => least) haround
  obtain ⟨-, -, hdivided, -⟩ := evaluates_exact opposite s Store.root (fun _ => least) hopposite
  obtain ⟨hdifference, -⟩ := evaluates_exact zero s Store.root (fun _ => least) hzero
  obtain ⟨-, herror, -⟩ := evaluates_exact _ s Store.root (fun _ => least) hquotient
  refine ⟨hx, hsum rfl, hdivided fun hfails => ?_, herror.mpr ?_⟩
  · have hvalue : opposite.expr.Evaluates Store.root s (opposite.value fun _ => least) s :=
      evaluates_value hopposite
    cases (hfails.unique hvalue).1
  · exact ⟨default, x.expr, zero.expr, .here _ _ _, ⟨least, Expr.evaluates_ident hx⟩,
      hdifference rfl⟩

end Arithmetic

end ScriptLang
