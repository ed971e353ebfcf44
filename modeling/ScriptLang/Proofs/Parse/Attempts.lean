import ScriptLang.Proofs.Parse.Concatenation

/-!
# Attempts at statements

Whatever the tokens are, parsing comes to an end, and each attempt at a statement has a token of its
own that is not the end token: the one it starts with. So there are at most as many statements, at
any depth, and errors together as there are such tokens.

The tokens are what statements and errors are paid with. `Affords c w p` says that with `c` tokens
in hand and those that `p` reads, one each can be given for the errors that `p` recovers from, and
`w a` for its result `a`. A statement that starts with a token pays for all that is in it out of the
tokens after the first one, and so the first one is left for the statement itself, or for the error
if there is no statement.
-/

namespace ScriptLang

open ScriptLang.Parser

/-! ## How many statements there are -/

mutual

/-- How many statements there are in an expression. -/
def Expr.inside : Expr → Nat
  | .ident _ => 0
  | .integer _ _ => 0
  | .string _ => 0
  | .boolean _ _ => 0
  | .unary _ _ operand => operand.inside
  | .binary _ _ left right => left.inside + right.inside
  | .conditional _ condition consequence none => condition.inside + consequence.inside
  | .conditional _ condition consequence (some alternative) =>
    condition.inside + consequence.inside + alternative.inside
  | .function _ _ body => body.inside
  | .call _ callee arguments => callee.inside + Expr.insideAll arguments

/-- How many statements there are in some expressions. -/
def Expr.insideAll : List Expr → Nat
  | [] => 0
  | e :: es => e.inside + Expr.insideAll es

/-- How many statements there are in a statement, itself not counted. -/
def Stmt.inside : Stmt → Nat
  | .binding _ _ value => value.inside
  | .returning _ value => value.inside
  | .expression _ value => value.inside
  | .block body => body.inside

/-- How many statements there are in a block. -/
def Block.inside : Block → Nat
  | .mk _ statements => Stmt.count statements

/-- How many statements some statements are, with those in them. -/
def Stmt.count : List Stmt → Nat
  | [] => 0
  | t :: ts => 1 + t.inside + Stmt.count ts

end

/-- How many statements there are in a clause. -/
def Clause.inside : Clause → Nat
  | .binding _ value => value.inside
  | .returning value => value.inside
  | .expression value => value.inside

/-- How many statements there are in a program, at any depth. -/
def Program.count (p : Program) : Nat := Stmt.count p.statements

theorem Stmt.count_append (ts us : List Stmt) :
    Stmt.count (ts ++ us) = Stmt.count ts + Stmt.count us := by
  induction ts with
  | nil => simp [Stmt.count]
  | cons t ts ih => simp [Stmt.count, ih, Nat.add_assoc]

/-! ## Tokens to pay with -/

/-- How many of the tokens are not the end token. -/
def words (tokens : List Lexeme) : Nat := tokens.countP fun x => x.kind ≠ .eof

namespace TokenStream

/-- How many of the tokens to come are not the end token. -/
def words (s : TokenStream) : Nat := ScriptLang.words s.rest

theorem words_advance_le (s : TokenStream) : s.advance.words ≤ s.words :=
  (List.tail_sublist s.rest).countP_le

/-- A token that is not the end token is one less afterwards. -/
theorem words_advance {s : TokenStream} (h : s.peek.kind ≠ .eof) :
    s.advance.words + 1 = s.words := by
  obtain ⟨last, rest⟩ := s
  cases rest with
  | nil => exact absurd rfl h
  | cons x rest =>
    have hx : x.kind ≠ .eof := h
    show ScriptLang.words rest + 1 = ScriptLang.words (x :: rest)
    simp [ScriptLang.words, hx]

theorem words_skip_le (kind : TokenKind) (s : TokenStream) : (s.skip kind).words ≤ s.words :=
  skip_of_advance (I := fun s' => s'.words ≤ s.words)
    (fun s' hs' => (words_advance_le s').trans hs') le_rfl

end TokenStream

namespace Reply

variable {α : Type}

/-- The errors recovered from, the weight of the result if there is one, and the tokens left. -/
def charge (w : α → Nat) (r : Reply α) : Nat :=
  r.faults.length + r.outcome.toOption.elim 0 w + r.stream.words

theorem charge_of_ok {r : Reply α} {a : α} (w : α → Nat) (h : r.outcome = .ok a) :
    r.charge w = r.faults.length + w a + r.stream.words := by
  rw [charge, h]
  rfl

theorem charge_of_error {r : Reply α} {e : ParseError} (w : α → Nat) (h : r.outcome = .error e) :
    r.charge w = r.faults.length + r.stream.words := by
  rw [charge, h]
  rfl

end Reply

namespace Parser

variable {α β : Type}

/-- With `c` tokens in hand, the parser pays for errors and for its result by what it reads. -/
def Affords (c : Nat) (w : α → Nat) (p : Parser α) : Prop := ∀ s, (p s).charge w ≤ c + s.words

/-- The parser reads a token, and pays by what it reads after it. -/
def AffordsAfter (c : Nat) (w : α → Nat) (p : Parser α) : Prop :=
  ∀ s, (p s).charge w ≤ c + s.advance.words

section Rules

variable {c : Nat} {w : α → Nat} {v : β → Nat}

/-- The result of the first parser is in hand for the second one. -/
theorem charge_bind_le {p : Parser α} {f : α → Parser β} {s : TokenStream}
    (hp : (p s).charge w ≤ c) (hf : ∀ a, Affords (w a) v (f a)) : ((p >>= f) s).charge v ≤ c := by
  cases h : (p s).outcome with
  | ok a =>
    have hsecond := hf a (p s).stream
    rw [Reply.charge_of_ok w h] at hp
    rw [bind_of_ok h]
    simp only [Reply.charge, List.length_append] at hsecond ⊢
    omega
  | error e =>
    rw [Reply.charge_of_error w h] at hp
    rw [bind_of_error h]
    exact hp

theorem Affords.bind {p : Parser α} {f : α → Parser β} (hp : Affords c w p)
    (hf : ∀ a, Affords (w a) v (f a)) : Affords c v (p >>= f) :=
  fun s => charge_bind_le (hp s) hf

theorem AffordsAfter.bind {p : Parser α} {f : α → Parser β} (hp : AffordsAfter c w p)
    (hf : ∀ a, Affords (w a) v (f a)) : AffordsAfter c v (p >>= f) :=
  fun s => charge_bind_le (hp s) hf

theorem AffordsAfter.affords {p : Parser α} (hp : AffordsAfter c w p) : Affords c w p :=
  fun s => (hp s).trans (Nat.add_le_add_left s.words_advance_le c)

/-- What else is in hand is kept. -/
theorem Affords.frame {p : Parser α} (hp : Affords c w p) (d : Nat) :
    Affords (d + c) (fun a => d + w a) p := by
  intro s
  have hs := hp s
  cases h : (p s).outcome with
  | ok a =>
    rw [Reply.charge_of_ok _ h] at hs ⊢
    omega
  | error e =>
    -- what was in hand is not asked for any more
    rw [Reply.charge_of_error _ h] at hs ⊢
    omega

/-- A parser of which nothing is asked but that it recovers from no errors. -/
theorem Affords.keep {p : Parser α} (hp : Affords 0 (fun _ => 0) p) (d : Nat) :
    Affords d (fun _ => d) p :=
  hp.frame d

theorem Affords.ite {b : Prop} [Decidable b] {p q : Parser α} (hp : Affords c w p)
    (hq : Affords c w q) : Affords c w (if b then p else q) := by
  split
  · exact hp
  · exact hq

theorem affords_pure {a : α} (h : w a ≤ c) : Affords c w (pure a : Parser α) := by
  intro s
  show 0 + w a + s.words ≤ c + s.words
  omega

theorem affords_fail (cause : ParseError.Cause) (span : Span) :
    Affords c w (fail cause span : Parser α) := by
  intro s
  show 0 + 0 + s.words ≤ c + s.words
  omega

theorem affords_peek : Affords 0 (fun _ => 0) peek := fun _ => le_rfl

theorem affordsAfter_next : AffordsAfter 0 (fun _ => 0) next := fun _ => le_rfl

theorem affords_next : Affords 0 (fun _ => 0) next := affordsAfter_next.affords

theorem AffordsAfter.peek_bind {f : Lexeme → Parser β} (hf : ∀ x, AffordsAfter c v (f x)) :
    AffordsAfter c v (peek >>= f) := fun s => hf s.peek s

theorem affords_expect (kind : TokenKind) (opened : Option Span) :
    Affords 0 (fun _ => 0) (expect kind opened) := by
  intro s
  have hle := s.words_advance_le
  unfold expect
  split
  · show 0 + 0 + s.advance.words ≤ 0 + s.words
    omega
  · show 0 + 0 + s.words ≤ 0 + s.words
    exact le_rfl

theorem affords_finish : Affords 0 (fun _ => 0) finish := by
  intro s
  have hle := s.words_skip_le .semicolon
  show 0 + 0 + (s.skip .semicolon).words ≤ 0 + s.words
  omega

theorem affordsAfter_tooDeep : AffordsAfter 0 w (tooDeep : Parser α) :=
  affordsAfter_next.bind fun _ => affords_fail _ _

theorem affords_tooDeep : Affords c w (tooDeep : Parser α) := by
  have h : Affords 0 w (tooDeep : Parser α) := affordsAfter_tooDeep.affords
  exact fun s => (h s).trans (Nat.add_le_add_right (Nat.zero_le c) _)

theorem affords_integer (token : Lexeme) : Affords 0 Expr.inside (integer token) := by
  unfold integer
  split
  · exact affords_pure le_rfl
  · exact affords_fail _ _

/-- The first token of a statement pays for the statement, or for the error in its place. -/
theorem charge_recovering_le {p : Parser Stmt} {s : TokenStream}
    (hp : AffordsAfter 0 Stmt.inside p) (hs : s.peek.kind ≠ .eof) :
    (recovering p s).charge (fun o => Stmt.count o.toList) ≤ s.words := by
  have hpaid := hp s
  have hfirst := TokenStream.words_advance hs
  unfold recovering
  generalize p s = reply at hpaid
  obtain ⟨e | t, stream, faults⟩ := reply
  · have hle := stream.words_skip_le .semicolon
    rw [Reply.charge_of_error _ rfl] at hpaid
    rw [Reply.charge_of_ok _ rfl]
    simp only [Option.toList, Stmt.count, List.length_append, List.length_singleton] at hpaid ⊢
    omega
  · rw [Reply.charge_of_ok _ rfl] at hpaid ⊢
    simp only [Option.toList, Stmt.count] at hpaid ⊢
    omega

end Rules

/-! ## The productions -/

/-- The productions pay for the statements in their results. Expressions and statements leave their
first token. -/
structure AffordsAt (P : Productions) : Prop where
  moreParameters : Affords 0 (fun _ => 0) P.moreParameters
  expression : ∀ level, AffordsAfter 0 Expr.inside (P.expression level)
  operand : AffordsAfter 0 Expr.inside P.operand
  unary : ∀ first, Affords 0 Expr.inside (P.unary first)
  grouped : ∀ first, Affords 0 Expr.inside (P.grouped first)
  conditional : ∀ first, Affords 0 Expr.inside (P.conditional first)
  function : ∀ first, Affords 0 Expr.inside (P.function first)
  operators : ∀ level left, Affords left.inside Expr.inside (P.operators level left)
  arguments : ∀ opening, Affords 0 (fun r => Expr.insideAll r.1) (P.arguments opening)
  moreArguments : Affords 0 Expr.insideAll P.moreArguments
  block : ∀ opening, Affords 0 Block.inside (P.block opening)
  statement : AffordsAfter 0 Stmt.inside P.statement
  statements : ∀ enclosure, Affords 0 Stmt.count (P.statements enclosure)

namespace AffordsAt

variable {P : Productions} (ih : AffordsAt P)
include ih

theorem parameters (opening : Lexeme) : Affords 0 (fun _ => 0) (P.parameters opening) := by
  refine affords_peek.bind fun x => .ite ?_ ?_
  · exact affords_next.bind fun _ => affords_pure le_rfl
  · refine (affords_expect _ _).bind fun _ => ih.moreParameters.bind fun _ => ?_
    exact (affords_expect _ _).bind fun _ => affords_pure le_rfl

theorem operandFrom (first : Lexeme) : Affords 0 Expr.inside (P.operandFrom first) := by
  unfold Productions.operandFrom
  split
  · exact affords_pure le_rfl
  · exact affords_integer first
  · exact affords_pure le_rfl
  · exact affords_pure le_rfl
  · exact affords_pure le_rfl
  · exact ih.unary first
  · exact ih.unary first
  · exact ih.grouped first
  · exact ih.conditional first
  · exact ih.function first
  · exact affords_fail _ _

theorem clause (first : Lexeme) : AffordsAfter 0 Clause.inside (P.clause first) := by
  unfold Productions.clause
  split
  · refine affordsAfter_next.bind fun _ => (affords_expect _ _).bind fun _ => ?_
    refine (affords_expect _ _).bind fun _ => (ih.expression _).affords.bind fun value => ?_
    exact affords_pure le_rfl
  · refine affordsAfter_next.bind fun _ => (ih.expression _).affords.bind fun value => ?_
    exact affords_pure le_rfl
  · exact (ih.expression _).bind fun value => affords_pure le_rfl

/-! ### One more level of calls -/

theorem unfold_moreParameters : Affords 0 (fun _ => 0) P.unfold.moreParameters := by
  refine affords_peek.bind fun x => .ite ?_ (affords_pure le_rfl)
  refine affords_next.bind fun _ => (affords_expect _ _).bind fun _ => ?_
  exact ih.moreParameters.bind fun _ => affords_pure le_rfl

theorem unfold_conditional (first : Lexeme) :
    Affords 0 Expr.inside (P.unfold.conditional first) := by
  refine (affords_expect _ _).bind fun _ => (ih.expression _).affords.bind fun condition => ?_
  refine ((affords_expect _ _).keep _).bind fun _ => ?_
  refine ((affords_expect _ _).keep _).bind fun brace => ?_
  refine ((ih.block brace).frame _).bind fun consequence => ?_
  refine (affords_peek.keep _).bind fun x => .ite ?_ (affords_pure le_rfl)
  refine (affords_next.keep _).bind fun _ => ((affords_expect _ _).keep _).bind fun brace => ?_
  exact ((ih.block brace).frame _).bind fun alternative => affords_pure le_rfl

theorem unfold_function (first : Lexeme) : Affords 0 Expr.inside (P.unfold.function first) := by
  refine (affords_expect _ _).bind fun opening => (ih.parameters opening).bind fun _ => ?_
  exact (affords_expect _ _).bind fun brace => (ih.block brace).bind fun _ => affords_pure le_rfl

theorem unfold_operators (level : Precedence) (left : Expr) :
    Affords left.inside Expr.inside (P.unfold.operators level left) := by
  refine (affords_peek.keep _).bind fun x => .ite ?_ (affords_pure le_rfl)
  refine (affords_next.keep _).bind fun operator => .ite ?_ ?_
  · exact ((ih.arguments operator).frame _).bind fun _ => ih.operators level _
  · exact ((ih.expression _).affords.frame _).bind fun _ => ih.operators level _

theorem unfold_arguments (opening : Lexeme) :
    Affords 0 (fun r => Expr.insideAll r.1) (P.unfold.arguments opening) := by
  refine affords_peek.bind fun x => .ite ?_ ?_
  · exact affords_next.bind fun _ => affords_pure le_rfl
  · refine (ih.expression _).affords.bind fun value => ?_
    refine (ih.moreArguments.frame _).bind fun values => ?_
    exact ((affords_expect _ _).keep _).bind fun _ => affords_pure le_rfl

theorem unfold_moreArguments : Affords 0 Expr.insideAll P.unfold.moreArguments := by
  refine affords_peek.bind fun x => .ite ?_ (affords_pure le_rfl)
  refine affords_next.bind fun _ => (ih.expression _).affords.bind fun value => ?_
  exact (ih.moreArguments.frame _).bind fun values => affords_pure le_rfl

theorem unfold_statement : AffordsAfter 0 Stmt.inside P.unfold.statement := by
  refine AffordsAfter.peek_bind fun first => ?_
  split
  · exact affordsAfter_next.bind fun _ => (ih.block first).bind fun _ => affords_pure le_rfl
  · refine (ih.clause first).bind fun clause => (affords_finish.keep _).bind fun _ => ?_
    exact affords_pure (by cases clause <;> exact le_rfl)

theorem unfold_statements (enclosure : Enclosure) :
    Affords 0 Stmt.count (P.unfold.statements enclosure) := by
  intro s
  by_cases hends : enclosure.endsAt s.peek.kind
  · rw [unfold_statements_of_endsAt P hends]
    exact affords_pure (c := 0) (w := Stmt.count) le_rfl s
  · rw [unfold_statements_of_not_endsAt P hends, Nat.zero_add]
    have hend := Enclosure.ne_eof_of_not_endsAt hends
    refine charge_bind_le (charge_recovering_le ih.statement hend) fun o => ?_
    refine ((ih.statements enclosure).frame _).bind fun others => affords_pure ?_
    rw [Stmt.count_append]

theorem unfold : AffordsAt P.unfold where
  moreParameters := ih.unfold_moreParameters
  expression level := ih.operand.bind fun left => ih.operators level left
  operand := affordsAfter_next.bind fun first => ih.operandFrom first
  unary _ := (ih.expression _).affords.bind fun _ => affords_pure le_rfl
  grouped _ := (ih.expression _).affords.bind fun _ =>
    ((affords_expect _ _).keep _).bind fun _ => affords_pure le_rfl
  conditional := ih.unfold_conditional
  function := ih.unfold_function
  operators := ih.unfold_operators
  arguments := ih.unfold_arguments
  moreArguments := ih.unfold_moreArguments
  block _ := (ih.statements _).bind fun _ => (affords_next.keep _).bind fun _ => affords_pure le_rfl
  statement := ih.unfold_statement
  statements := ih.unfold_statements

end AffordsAt

/-- **Every production pays for what it gives.** -/
theorem affordsAt (n : Nat) : AffordsAt (productions n) := by
  induction n with
  | zero =>
    constructor <;> intros <;> first | exact affordsAfter_tooDeep | exact affords_tooDeep
  | succ n ih => exact ih.unfold

/-! ## Whether there is anything -/

/-- Without a result there is an error. -/
theorem faults_recovering_ne_nil {p : Parser α} {s : TokenStream}
    (h : (recovering p s).outcome = .ok none) : (recovering p s).faults ≠ [] := by
  unfold recovering at h ⊢
  generalize p s = reply at h ⊢
  obtain ⟨outcome | a, stream, faults⟩ := reply
  · exact List.append_ne_nil_of_right_ne_nil faults (List.cons_ne_nil _ _)
  · cases h

/-- Where a statement is attempted, there is one or there is an error. -/
theorem statements_eq_nil_iff {n : Nat} {enclosure : Enclosure} {s s' : TokenStream}
    {body : List Stmt} {faults : List Fault}
    (h : (productions (n + 1)).statements enclosure s = ⟨.ok body, s', faults⟩) :
    body = [] ∧ faults = [] ↔ enclosure.endsAt s.peek.kind := by
  rw [productions_succ] at h
  by_cases hends : enclosure.endsAt s.peek.kind
  · rw [unfold_statements_of_endsAt _ hends] at h
    cases h
    exact iff_of_true ⟨rfl, rfl⟩ hends
  · refine iff_of_false ?_ hends
    rintro ⟨rfl, rfl⟩
    obtain ⟨first, hfirst⟩ := exists_ok_recovering (productions n).statement s
    rw [unfold_statements_of_not_endsAt _ hends, bind_of_ok hfirst] at h
    have hfaults := (List.append_eq_nil_iff.mp (congrArg Reply.faults h)).1
    obtain ⟨others, -, hbody⟩ := exists_ok_of_bind (congrArg Reply.outcome h)
    cases first with
    | none => exact faults_recovering_ne_nil hfirst hfaults
    | some t => cases hbody

end Parser

/-! ## Parsing -/

/-- Nothing comes next if there are no tokens or the first one is the end token. -/
theorem TokenStream.peek_ofLexemes_eq_eof_iff (tokens : List Lexeme) :
    (TokenStream.ofLexemes tokens).peek.kind = .eof ↔
      tokens = [] ∨ ∃ x rest, tokens = x :: rest ∧ x.kind = .eof := by
  cases tokens with
  | nil => exact ⟨fun _ => .inl rfl, fun _ => rfl⟩
  | cons x rest =>
    constructor
    · exact fun h => .inr ⟨x, rest, rfl, h⟩
    · rintro (h | ⟨y, ys, h, hy⟩)
      · cases h
      · cases h
        exact hy

/-- **Parsing ends, and each attempt at a statement has a token of its own.** With a number of
levels of calls that is enough for the tokens, or more, the productions give the program and its
errors whatever stands below, so calls do not nest any deeper. The errors, and the statements at any
depth, are together no more than the tokens other than the end token. There are neither just if
there are no tokens or the end token comes first. -/
theorem parseTokens_attempts (warnings : List (Option LogRecord)) (tokens : List Lexeme) :
    (∀ (P : Productions) (k : Nat),
      ((P.unfolded (depth tokens.length + k)).program (TokenStream.ofLexemes tokens)).outcome =
          .ok (parseTokens warnings tokens).program ∧
        ((P.unfolded (depth tokens.length + k)).program
            (TokenStream.ofLexemes tokens)).faults.map Fault.error =
          (parseTokens warnings tokens).errors) ∧
      (parseTokens warnings tokens).errors.length + (parseTokens warnings tokens).program.count ≤
        words tokens ∧
      ((parseTokens warnings tokens).program.statements = [] ∧
          (parseTokens warnings tokens).errors = [] ↔
        tokens = [] ∨ ∃ x rest, tokens = x :: rest ∧ x.kind = .eof) := by
  obtain ⟨body, s, faults, h⟩ := exists_statements_eq tokens
  obtain ⟨hbody, herrors⟩ := parseTokens_of_statements warnings h
  refine ⟨fun P k => ?_, ?_, ?_⟩
  · have hends : (P.unfolded (depth tokens.length + k)).program (TokenStream.ofLexemes tokens) =
        (productions (depth tokens.length)).program (TokenStream.ofLexemes tokens) :=
      program_unfolded P (s := TokenStream.ofLexemes tokens) (Nat.le_add_right _ k)
    rw [hends, parseTokens, program_of_statements h]
    exact ⟨rfl, rfl⟩
  · have hpaid := (affordsAt (depth tokens.length)).statements .file (TokenStream.ofLexemes tokens)
    rw [h, Reply.charge_of_ok _ rfl, Nat.zero_add] at hpaid
    rw [Program.count, hbody, herrors, List.length_map]
    exact Nat.le_of_add_right_le hpaid
  · rw [hbody, herrors, List.map_eq_nil_iff, statements_eq_nil_iff h,
      ← TokenStream.peek_ofLexemes_eq_eof_iff]
    exact decide_eq_true_iff

-- An end token in the middle closes the block, and the semicolon after it is an error.
example :
    let symbol (kind : TokenKind) : Lexeme := ⟨Token.ofSymbol kind, Span.empty 0⟩
    let parsed := parseLexemes [symbol .leftBrace, Lexeme.eof 0, symbol .semicolon]
    parsed.program.count = 1 ∧ parsed.errors.length = 1 := by
  decide +kernel

end ScriptLang
