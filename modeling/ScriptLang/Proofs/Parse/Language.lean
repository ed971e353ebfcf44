import ScriptLang.Token
import ScriptLang.Text.Decimal

/-!
# The language of token sequences

The grammar of the language, as a relation between its phrases and the token sequences that they
derive:

    program    = statement*
    statement  = LET IDENT '=' expression [';'] | RETURN expression [';'] | block | expression [';']
    block      = '{' statement* '}'
    expression = unary (binary unary)*
    unary      = ('!' | '-')* primary
    primary    = atom ('(' [expression (',' expression)*] ')')*
    atom       = IDENT | INT | STRING | TRUE | FALSE | '(' expression ')'
               | IF '(' expression ')' block [ELSE block]
               | FUNCTION '(' [IDENT (',' IDENT)*] ')' block

The number that an integer spells has to fit in 64 bits. As semicolons may be left out, a sequence
can be derived in several ways: two statements can also be one, if the second one starts with a
parenthesis or a minus sign.
-/

namespace ScriptLang

/-- The sorts of phrases. -/
inductive Phrase where
  /-- `statement*` -/
  | statements
  | statement
  /-- `[';']` -/
  | ending
  | block
  | expression
  | unary
  | primary
  | atom
  /-- `[ELSE block]` -/
  | alternative
  /-- `[expression (',' expression)*]` -/
  | arguments
  /-- `expression (',' expression)*` -/
  | values
  /-- `[IDENT (',' IDENT)*]` -/
  | parameters
  /-- `IDENT (',' IDENT)*` -/
  | names

/-- The operators that stand between operands. -/
def TokenKind.binaryOperators : List TokenKind :=
  [.plus, .minus, .asterisk, .slash, .equal, .notEqual, .lessThan, .greaterThan]

/-- The operators that stand before an operand. -/
def TokenKind.unaryOperators : List TokenKind := [.bang, .minus]

theorem TokenKind.mem_unaryOperators {kind : TokenKind} :
    kind ∈ unaryOperators ↔ kind = .bang ∨ kind = .minus := by
  rw [unaryOperators, List.mem_cons, List.mem_singleton]

/-- A token of digits whose number fits in 64 bits with a sign. -/
def Token.Fits (t : Token) : Prop :=
  ∃ n : Nat, Text.natOfDigits? t.literal.toList = some n ∧ n ≤ Int64.maxValue.toInt

/-- The token sequences that a phrase derives. -/
inductive Derives : Phrase → List Token → Prop where
  | noStatements : Derives .statements []
  | moreStatements {s rest : List Token} :
      Derives .statement s → Derives .statements rest → Derives .statements (s ++ rest)
  | binding {word name assign : Token} {value ending : List Token} :
      word.kind = .kwLet → name.kind = .ident → assign.kind = .assign →
      Derives .expression value → Derives .ending ending →
      Derives .statement (word :: name :: assign :: (value ++ ending))
  | returning {word : Token} {value ending : List Token} :
      word.kind = .kwReturn → Derives .expression value → Derives .ending ending →
      Derives .statement (word :: (value ++ ending))
  | nested {body : List Token} : Derives .block body → Derives .statement body
  | evaluation {value ending : List Token} :
      Derives .expression value → Derives .ending ending → Derives .statement (value ++ ending)
  | noEnding : Derives .ending []
  | semicolon {mark : Token} : mark.kind = .semicolon → Derives .ending [mark]
  | braces {opening closing : Token} {body : List Token} :
      opening.kind = .leftBrace → closing.kind = .rightBrace → Derives .statements body →
      Derives .block (opening :: (body ++ [closing]))
  | operand {u : List Token} : Derives .unary u → Derives .expression u
  | binary {operator : Token} {left right : List Token} :
      operator.kind ∈ TokenKind.binaryOperators → Derives .expression left → Derives .unary right →
      Derives .expression (left ++ operator :: right)
  | plain {p : List Token} : Derives .primary p → Derives .unary p
  | signed {operator : Token} {u : List Token} :
      operator.kind ∈ TokenKind.unaryOperators → Derives .unary u → Derives .unary (operator :: u)
  | single {a : List Token} : Derives .atom a → Derives .primary a
  | call {opening closing : Token} {callee arguments : List Token} :
      opening.kind = .leftParen → closing.kind = .rightParen → Derives .primary callee →
      Derives .arguments arguments →
      Derives .primary (callee ++ opening :: (arguments ++ [closing]))
  | ident {t : Token} : t.kind = .ident → Derives .atom [t]
  | integer {t : Token} : t.kind = .int → t.Fits → Derives .atom [t]
  | string {t : Token} : t.kind = .string → Derives .atom [t]
  | boolean {t : Token} : t.kind = .kwTrue ∨ t.kind = .kwFalse → Derives .atom [t]
  | grouped {opening closing : Token} {inner : List Token} :
      opening.kind = .leftParen → closing.kind = .rightParen → Derives .expression inner →
      Derives .atom (opening :: (inner ++ [closing]))
  | conditional {word opening closing : Token} {condition consequence alternative : List Token} :
      word.kind = .kwIf → opening.kind = .leftParen → closing.kind = .rightParen →
      Derives .expression condition → Derives .block consequence →
      Derives .alternative alternative →
      Derives .atom (word :: opening :: (condition ++ closing :: (consequence ++ alternative)))
  | function {word opening closing : Token} {parameters body : List Token} :
      word.kind = .kwFn → opening.kind = .leftParen → closing.kind = .rightParen →
      Derives .parameters parameters → Derives .block body →
      Derives .atom (word :: opening :: (parameters ++ closing :: body))
  | noAlternative : Derives .alternative []
  | otherwise {word : Token} {body : List Token} :
      word.kind = .kwElse → Derives .block body → Derives .alternative (word :: body)
  | noArguments : Derives .arguments []
  | someArguments {values : List Token} : Derives .values values → Derives .arguments values
  | lastValue {value : List Token} : Derives .expression value → Derives .values value
  | moreValues {comma : Token} {value rest : List Token} :
      comma.kind = .comma → Derives .expression value → Derives .values rest →
      Derives .values (value ++ comma :: rest)
  | noParameters : Derives .parameters []
  | someParameters {names : List Token} : Derives .names names → Derives .parameters names
  | lastName {name : Token} : name.kind = .ident → Derives .names [name]
  | moreNames {name comma : Token} {rest : List Token} :
      name.kind = .ident → comma.kind = .comma → Derives .names rest →
      Derives .names (name :: comma :: rest)

/-! ## Integers -/

/-- Digits without a sign denote the number that they spell. -/
theorem Text.int64OfDecimal?_of_digits {text : String} {n : Nat}
    (h : natOfDigits? text.toList = some n) : int64OfDecimal? text = int64OfInt? n := by
  unfold int64OfDecimal?
  split
  · next digits htext =>
    rw [htext, natOfDigits?, if_neg (by simp)] at h
    cases h
  · next digits htext =>
    rw [htext, natOfDigits?, if_neg (by simp)] at h
    cases h
  · rw [h, Option.bind_some]

/-- A number without a sign is in range if it is not above the largest one. -/
theorem Text.exists_int64OfInt?_natCast {n : Nat} :
    (∃ value, int64OfInt? n = some value) ↔ n ≤ Int64.maxValue.toInt := by
  unfold int64OfInt?
  constructor
  · rintro ⟨value, hvalue⟩
    split at hvalue
    · next hrange => exact hrange.2
    · cases hvalue
  · intro hn
    have hmin : Int64.minValue.toInt ≤ 0 := by decide
    rw [if_pos ⟨Int.le_trans hmin (Int.natCast_nonneg n), hn⟩]
    exact ⟨_, rfl⟩

/-! ## First tokens -/

/-- Whether a token can start an expression. -/
def TokenKind.startsExpression (kind : TokenKind) : Bool :=
  match kind with
  | .ident | .int | .string | .kwTrue | .kwFalse | .bang | .minus | .leftParen | .kwIf | .kwFn =>
    true
  | _ => false

/-- Whether a token can start a statement. -/
def TokenKind.startsStatement (kind : TokenKind) : Bool :=
  kind.startsExpression || kind = .kwLet || kind = .kwReturn || kind = .leftBrace

/-- A token that starts an expression is not of a kind that does not. -/
theorem TokenKind.ne_of_startsExpression {kind other : TokenKind} (h : kind.startsExpression)
    (hother : other.startsExpression = false) : kind ≠ other := by
  rintro rfl
  rw [hother] at h
  cases h

/-- What starts an expression goes on as it started. -/
theorem headD_append_of_starts {ts : List Token} (us : List Token)
    (h : (ts.headD Token.eof).kind.startsExpression) :
    (ts ++ us).headD Token.eof = ts.headD Token.eof := by
  cases ts with
  | nil => cases h
  | cons t ts => rfl

namespace Derives

/-! ## Induction -/

/-- Induction on the arguments that follow an atom. -/
theorem primary_induction {motive : ∀ p, Derives .primary p → Prop}
    (single : ∀ {a} (ha : Derives .atom a), motive a (.single ha))
    (call : ∀ {opening closing : Token} {callee arguments : List Token}
      (hopening : opening.kind = .leftParen) (hclosing : closing.kind = .rightParen)
      (hcallee : Derives .primary callee) (harguments : Derives .arguments arguments),
      motive callee hcallee → motive _ (.call hopening hclosing hcallee harguments))
    {p : List Token} (h : Derives .primary p) : motive p h := by
  suffices hall : ∀ phrase ts, Derives phrase ts → phrase = .primary →
      ∃ h : Derives .primary ts, motive ts h from (hall _ _ h rfl).2
  intro phrase ts hts hphrase
  induction hts with
  | single ha _ => exact ⟨_, single ha⟩
  | call hopening hclosing hcallee harguments ih _ =>
    exact ⟨_, call hopening hclosing hcallee harguments (ih rfl).2⟩
  | _ => cases hphrase

/-- Induction on the signs before a primary. -/
theorem unary_induction {motive : ∀ u, Derives .unary u → Prop}
    (plain : ∀ {p} (hp : Derives .primary p), motive p (.plain hp))
    (signed : ∀ {operator : Token} {u : List Token} (ho : operator.kind ∈ TokenKind.unaryOperators)
      (hu : Derives .unary u), motive u hu → motive _ (.signed ho hu))
    {u : List Token} (h : Derives .unary u) : motive u h := by
  suffices hall : ∀ phrase ts, Derives phrase ts → phrase = .unary →
      ∃ h : Derives .unary ts, motive ts h from (hall _ _ h rfl).2
  intro phrase ts hts hphrase
  induction hts with
  | plain hp _ => exact ⟨_, plain hp⟩
  | signed ho hu ih => exact ⟨_, signed ho hu (ih rfl).2⟩
  | _ => cases hphrase

/-- Induction on the operators of an expression. -/
theorem expression_induction {motive : ∀ e, Derives .expression e → Prop}
    (operand : ∀ {u} (hu : Derives .unary u), motive u (.operand hu))
    (binary : ∀ {operator : Token} {left right : List Token}
      (ho : operator.kind ∈ TokenKind.binaryOperators) (hl : Derives .expression left)
      (hr : Derives .unary right), motive left hl → motive _ (.binary ho hl hr))
    {e : List Token} (h : Derives .expression e) : motive e h := by
  suffices hall : ∀ phrase ts, Derives phrase ts → phrase = .expression →
      ∃ h : Derives .expression ts, motive ts h from (hall _ _ h rfl).2
  intro phrase ts hts hphrase
  induction hts with
  | operand hu _ => exact ⟨_, operand hu⟩
  | binary ho hl hr ih _ => exact ⟨_, binary ho hl hr (ih rfl).2⟩
  | _ => cases hphrase

/-! ## First tokens of phrases -/

theorem starts_atom {a : List Token} (h : Derives .atom a) :
    (a.headD Token.eof).kind.startsExpression := by
  cases h with
  | ident ht => rw [List.headD_cons, ht]; rfl
  | integer ht _ => rw [List.headD_cons, ht]; rfl
  | string ht => rw [List.headD_cons, ht]; rfl
  | boolean ht =>
    rw [List.headD_cons]
    rcases ht with ht | ht
    · rw [ht]; rfl
    · rw [ht]; rfl
  | grouped ht _ _ => rw [List.headD_cons, ht]; rfl
  | conditional ht _ _ _ _ _ => rw [List.headD_cons, ht]; rfl
  | function ht _ _ _ _ => rw [List.headD_cons, ht]; rfl

theorem starts_primary {p : List Token} (h : Derives .primary p) :
    (p.headD Token.eof).kind.startsExpression := by
  induction h using primary_induction with
  | single ha => exact ha.starts_atom
  | call _ _ _ _ ih => rwa [headD_append_of_starts _ ih]

theorem starts_unary {u : List Token} (h : Derives .unary u) :
    (u.headD Token.eof).kind.startsExpression := by
  cases h with
  | plain hp => exact hp.starts_primary
  | signed ho _ =>
    rw [List.headD_cons]
    rcases TokenKind.mem_unaryOperators.mp ho with ho | ho
    · rw [ho]; rfl
    · rw [ho]; rfl

/-- Every expression starts with a token that can start one. -/
theorem starts_expression {e : List Token} (h : Derives .expression e) :
    (e.headD Token.eof).kind.startsExpression := by
  induction h using expression_induction with
  | operand hu => exact hu.starts_unary
  | binary _ _ _ ih => rwa [headD_append_of_starts _ ih]

theorem starts_values {vs : List Token} (h : Derives .values vs) :
    (vs.headD Token.eof).kind.startsExpression := by
  cases h with
  | lastValue he => exact he.starts_expression
  | moreValues _ he _ =>
    rw [headD_append_of_starts _ he.starts_expression]
    exact he.starts_expression

theorem starts_block {b : List Token} (h : Derives .block b) :
    (b.headD Token.eof).kind = .leftBrace := by
  cases h with
  | braces hopening _ _ => exact hopening

/-- Every statement starts with a token that can start one. -/
theorem starts_statement {s : List Token} (h : Derives .statement s) :
    (s.headD Token.eof).kind.startsStatement := by
  cases h with
  | binding hword _ _ _ _ => rw [List.headD_cons, hword]; rfl
  | returning hword _ _ => rw [List.headD_cons, hword]; rfl
  | nested hbody => rw [hbody.starts_block]; rfl
  | evaluation hvalue _ =>
    rw [headD_append_of_starts _ hvalue.starts_expression, TokenKind.startsStatement,
      hvalue.starts_expression]
    rfl

/-! ## What expressions are closed under -/

/-- An atom is an expression. -/
theorem atom_expression {a : List Token} (h : Derives .atom a) : Derives .expression a :=
  .operand (.plain (.single h))

/-- A sign before an expression is a sign of its first operand. -/
theorem signed_expression {operator : Token} {e : List Token}
    (ho : operator.kind ∈ TokenKind.unaryOperators)
    (h : Derives .expression e) : Derives .expression (operator :: e) := by
  induction h using expression_induction with
  | operand hu => exact .operand (.signed ho hu)
  | binary hb _ hr ih => exact .binary hb ih hr

/-- An operator between expressions is one between their operands next to it. -/
theorem binary_expression {operator : Token} {l r : List Token}
    (ho : operator.kind ∈ TokenKind.binaryOperators)
    (hl : Derives .expression l) (hr : Derives .expression r) :
    Derives .expression (l ++ operator :: r) := by
  induction hr using expression_induction with
  | operand hu => exact .binary ho hl hu
  | binary hb _ hr ih =>
    rw [← List.cons_append, ← List.append_assoc]
    exact .binary hb ih hr

section Calls

variable {opening closing : Token} {arguments : List Token} (hopening : opening.kind = .leftParen)
  (hclosing : closing.kind = .rightParen) (harguments : Derives .arguments arguments)
include hopening hclosing harguments

theorem call_unary {u : List Token} (h : Derives .unary u) :
    Derives .unary (u ++ opening :: (arguments ++ [closing])) := by
  induction h using unary_induction with
  | plain hp => exact .plain (.call hopening hclosing hp harguments)
  | signed ho _ ih => exact .signed ho ih

/-- Arguments after an expression are those of a call of its last operand. -/
theorem call_expression {e : List Token} (h : Derives .expression e) :
    Derives .expression (e ++ opening :: (arguments ++ [closing])) := by
  cases h with
  | operand hu => exact .operand (call_unary hopening hclosing harguments hu)
  | binary ho hl hr =>
    rw [List.append_assoc]
    exact .binary ho hl (call_unary hopening hclosing harguments hr)

end Calls

/-! ## Two expressions that are one -/

/-- The tokens that can both start an expression and go on with one. -/
def joining : List TokenKind := [.leftParen, .minus]

/-- A parenthesis that starts an atom can be that of a call. -/
theorem join_atom {e a : List Token} (he : Derives .expression e) (ha : Derives .atom a)
    (hjoin : (a.headD Token.eof).kind ∈ joining) : Derives .expression (e ++ a) := by
  cases ha with
  | grouped hopening hclosing hinner =>
    exact call_expression hopening hclosing (.someArguments (.lastValue hinner)) he
  | ident ht => simp [joining, ht] at hjoin
  | integer ht _ => simp [joining, ht] at hjoin
  | string ht => simp [joining, ht] at hjoin
  | boolean ht => rcases ht with ht | ht <;> simp [joining, ht] at hjoin
  | conditional ht _ _ _ _ _ => simp [joining, ht] at hjoin
  | function ht _ _ _ _ => simp [joining, ht] at hjoin

theorem join_primary {e p : List Token} (he : Derives .expression e) (hp : Derives .primary p)
    (hjoin : (p.headD Token.eof).kind ∈ joining) : Derives .expression (e ++ p) := by
  induction hp using primary_induction with
  | single ha => exact join_atom he ha hjoin
  | call hopening hclosing hcallee harguments ih =>
    rw [headD_append_of_starts _ hcallee.starts_primary] at hjoin
    rw [← List.append_assoc]
    exact call_expression hopening hclosing harguments (ih hjoin)

/-- A minus sign before an operand can be one between operands. -/
theorem join_unary {e u : List Token} (he : Derives .expression e) (hu : Derives .unary u)
    (hjoin : (u.headD Token.eof).kind ∈ joining) : Derives .expression (e ++ u) := by
  cases hu with
  | plain hp => exact join_primary he hp hjoin
  | signed ho hu =>
    rw [List.headD_cons] at hjoin
    refine .binary ?_ he hu
    rcases TokenKind.mem_unaryOperators.mp ho with ho | ho
    · simp [joining, ho] at hjoin
    · rw [ho]
      decide

/-- **An expression and one that starts with a parenthesis or a minus sign are one expression.** -/
theorem join_expression {e f : List Token} (he : Derives .expression e) (hf : Derives .expression f)
    (hjoin : (f.headD Token.eof).kind ∈ joining) : Derives .expression (e ++ f) := by
  induction hf using expression_induction with
  | operand hu => exact join_unary he hu hjoin
  | binary ho hl hr ih =>
    rw [headD_append_of_starts _ hl.starts_expression] at hjoin
    rw [← List.append_assoc]
    exact .binary ho (ih hjoin) hr

/-- A statement that starts with such a token is an expression. -/
theorem exists_evaluation {s : List Token} (h : Derives .statement s)
    (hjoin : (s.headD Token.eof).kind ∈ joining) :
    ∃ value ending, s = value ++ ending ∧ Derives .expression value ∧ Derives .ending ending ∧
      (value.headD Token.eof).kind ∈ joining := by
  cases h with
  | binding hword _ _ _ _ => simp [joining, hword] at hjoin
  | returning hword _ _ => simp [joining, hword] at hjoin
  | nested hbody =>
    rw [hbody.starts_block] at hjoin
    exact absurd hjoin (by decide)
  | evaluation hvalue hending =>
    rw [headD_append_of_starts _ hvalue.starts_expression] at hjoin
    exact ⟨_, _, rfl, hvalue, hending, hjoin⟩

end Derives

end ScriptLang
