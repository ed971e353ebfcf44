import ScriptLang.Proofs.Parse.Parallel
import Mathlib.Data.Nat.Basic

/-!
# Progress of the productions

A parser changes its stream only by advancing it, so it keeps every property of streams that
advancing keeps, whether it succeeds or fails. Expressions and statements read at least one token,
again whether they succeed or fail; this is why reading goes on after an error and ends.
-/

namespace ScriptLang

/-! ## Streams -/

namespace TokenStream

/-- A token other than the end token stands in the stream. -/
theorem rest_ne_nil_of_peek {s : TokenStream} (h : s.peek.kind ≠ .eof) : s.rest ≠ [] := by
  intro hnil
  apply h
  rw [peek, hnil]
  rfl

/-- Advancing drops one token, if there is one. -/
theorem length_advance (s : TokenStream) : s.advance.rest.length = s.rest.length - 1 :=
  List.length_tail

end TokenStream

/-- Statements end at the end of the source, whatever encloses them. -/
theorem Enclosure.ne_eof_of_not_endsAt {enclosure : Enclosure} {kind : TokenKind}
    (h : ¬enclosure.endsAt kind = true) : kind ≠ .eof := by
  rintro rfl
  cases enclosure <;> exact h rfl

namespace Parser

variable {α β : Type}

/-! ## One parser after the other -/

/-- After a success the second parser goes on where the first one stopped. -/
theorem bind_of_ok {p : Parser α} {f : α → Parser β} {s : TokenStream} {a : α}
    (h : (p s).outcome = .ok a) :
    (p >>= f) s = ⟨(f a (p s).stream).outcome, (f a (p s).stream).stream,
      (p s).faults ++ (f a (p s).stream).faults⟩ := by
  show Parser.bind p f s = _
  unfold Parser.bind
  generalize p s = reply at h ⊢
  obtain ⟨outcome, stream, faults⟩ := reply
  cases h
  rfl

/-- After a failure the second parser does nothing. -/
theorem bind_of_error {p : Parser α} {f : α → Parser β} {s : TokenStream} {e : ParseError}
    (h : (p s).outcome = .error e) :
    (p >>= f) s = ⟨.error e, (p s).stream, (p s).faults⟩ := by
  show Parser.bind p f s = _
  unfold Parser.bind
  generalize p s = reply at h ⊢
  obtain ⟨outcome, stream, faults⟩ := reply
  cases h
  rfl

/-- If both succeed, so does the first one. -/
theorem exists_ok_of_bind {p : Parser α} {f : α → Parser β} {s : TokenStream} {b : β}
    (h : ((p >>= f) s).outcome = .ok b) :
    ∃ a, (p s).outcome = .ok a ∧ (f a (p s).stream).outcome = .ok b := by
  cases hp : (p s).outcome with
  | ok a =>
    rw [bind_of_ok hp] at h
    exact ⟨a, rfl, h⟩
  | error e =>
    rw [bind_of_error hp] at h
    cases h

/-- What an expected token is, once it has been found. -/
theorem expect_ok {kind : TokenKind} {opened : Option Span} {s : TokenStream} {x : Lexeme}
    (h : (expect kind opened s).outcome = .ok x) :
    s.peek.kind = kind ∧ x = s.peek ∧ (expect kind opened s).stream = s.advance := by
  unfold expect at h ⊢
  by_cases hk : s.peek.kind = kind
  · rw [if_pos hk] at h ⊢
    cases h
    exact ⟨hk, rfl, rfl⟩
  · rw [if_neg hk] at h
    cases h

/-! ## What parsers keep -/

/-- The parser keeps a property of streams. -/
def Keeps (I : TokenStream → Prop) (p : Parser α) : Prop := ∀ s, I s → I (p s).stream

/-- The parser reads a token, and keeps a property from there on. -/
def KeepsAfter (I : TokenStream → Prop) (p : Parser α) : Prop :=
  ∀ s, I s.advance → I (p s).stream

/-- The streams of both parsers have the property. -/
theorem Keeps.bind {I : TokenStream → Prop} {p : Parser α} {f : α → Parser β} (hp : Keeps I p)
    (hf : ∀ a, Keeps I (f a)) : Keeps I (p >>= f) := by
  intro s hs
  cases h : (p s).outcome with
  | ok a =>
    rw [bind_of_ok h]
    exact hf a _ (hp s hs)
  | error e =>
    rw [bind_of_error h]
    exact hp s hs

/-- It is the first parser that reads a token. -/
theorem KeepsAfter.bind {I : TokenStream → Prop} {p : Parser α} {f : α → Parser β}
    (hp : KeepsAfter I p) (hf : ∀ a, Keeps I (f a)) : KeepsAfter I (p >>= f) := by
  intro s hs
  cases h : (p s).outcome with
  | ok a =>
    rw [bind_of_ok h]
    exact hf a _ (hp s hs)
  | error e =>
    rw [bind_of_error h]
    exact hp s hs

/-- Looking at the next token reads nothing. -/
theorem KeepsAfter.peek_bind {I : TokenStream → Prop} {f : Lexeme → Parser β}
    (hf : ∀ x, KeepsAfter I (f x)) : KeepsAfter I (peek >>= f) := fun s hs => hf s.peek s hs

section Primitives

variable (I : TokenStream → Prop)

theorem keeps_pure (a : α) : Keeps I (pure a : Parser α) := fun _ hs => hs

theorem keeps_fail (cause : ParseError.Cause) (span : Span) :
    Keeps I (fail cause span : Parser α) :=
  fun _ hs => hs

theorem keeps_peek : Keeps I peek := fun _ hs => hs

theorem keepsAfter_next : KeepsAfter I next := fun _ hs => hs

theorem keepsAfter_tooDeep : KeepsAfter I (tooDeep : Parser α) :=
  (keepsAfter_next I).bind fun _ => keeps_fail I _ _

variable {I} (hI : ∀ s, I s → I s.advance)
include hI

theorem KeepsAfter.keeps {p : Parser α} (hp : KeepsAfter I p) : Keeps I p :=
  fun s hs => hp s (hI s hs)

theorem keeps_next : Keeps I next := (keepsAfter_next I).keeps hI

theorem keeps_expect (kind : TokenKind) (opened : Option Span) : Keeps I (expect kind opened) := by
  intro s hs
  unfold expect
  split
  · exact hI s hs
  · exact hs

/-- A token is skipped or left. -/
theorem skip_of_advance {kind : TokenKind} {s : TokenStream} (hs : I s) : I (s.skip kind) := by
  unfold TokenStream.skip
  split
  · exact hI s hs
  · exact hs

theorem keeps_finish : Keeps I finish := fun _ hs => skip_of_advance hI hs

theorem Keeps.recovering {p : Parser α} (hp : Keeps I p) : Keeps I (recovering p) := by
  intro s hs
  have hkept := hp s hs
  unfold Parser.recovering
  generalize p s = reply at hkept
  obtain ⟨outcome | outcome, stream, faults⟩ := reply
  · exact skip_of_advance hI hkept
  · exact hkept

end Primitives

/-! ## The productions -/

section Productions

variable {I : TokenStream → Prop} (hI : ∀ s, I s → I s.advance)

include hI

/-- **What is put together keeps what advancing keeps.** -/
theorem Parallel.keeps {d : Nat} {place : Place} {f : α → α} {p q : Parser α}
    (h : Parallel d place f p q) : Keeps I p := by
  induction h with
  | pure a => exact keeps_pure I a
  | bind _ _ hp hk => exact hp.bind hk
  | peek => exact keeps_peek I
  | next => exact keeps_next hI
  | next_bind _ hk => exact (keeps_next hI).bind hk
  | expect kind => exact keeps_expect hI kind none
  | opening_bind _ hk => exact (keeps_expect hI _ _).bind hk
  | closing x => exact keeps_expect hI _ _
  | fault _ => exact keeps_fail I _ _
  | finish => exact keeps_finish hI
  | recovering _ hp => exact hp.recovering hI
  | forget _ hp => exact hp
  | enclosed _ _ hp => exact hp

/-- An operand reads at least one token. -/
theorem keepsAfter_operand (n : Nat) : KeepsAfter I (productions n).operand := by
  cases n with
  | zero => exact keepsAfter_tooDeep I
  | succ n =>
    exact (keepsAfter_next I).bind fun first => ((parallelAt 0 n).operandFrom first).keeps hI

/-- An expression starts with an operand. -/
theorem keepsAfter_expression (n : Nat) (level : Precedence) :
    KeepsAfter I ((productions n).expression level) := by
  cases n with
  | zero => exact keepsAfter_tooDeep I
  | succ n =>
    refine (keepsAfter_operand hI n).bind fun left => ?_
    exact ((parallelAt 0 n).operators level left).keeps hI

/-- A clause starts with its keyword or with an expression. -/
theorem keepsAfter_clause (n : Nat) (first : Lexeme) :
    KeepsAfter I ((productions n).clause first) := by
  have hvalue : Keeps I ((productions n).expression .lowest) :=
    ((parallelAt 0 n).expression .lowest).keeps hI
  unfold Productions.clause
  split
  · refine (keepsAfter_next I).bind fun _ => (keeps_expect hI _ _).bind fun _ => ?_
    exact (keeps_expect hI _ _).bind fun _ => hvalue.bind fun _ => keeps_pure I _
  · exact (keepsAfter_next I).bind fun _ => hvalue.bind fun _ => keeps_pure I _
  · exact (keepsAfter_expression hI n .lowest).bind fun _ => keeps_pure I _

/-- A statement reads at least one token. -/
theorem keepsAfter_statement (n : Nat) : KeepsAfter I (productions n).statement := by
  cases n with
  | zero => exact keepsAfter_tooDeep I
  | succ n =>
    refine KeepsAfter.peek_bind fun first => ?_
    split
    · refine (keepsAfter_next I).bind fun _ => ?_
      exact (((parallelAt 0 n).block first).keeps hI).bind fun _ => keeps_pure I _
    · refine (keepsAfter_clause hI n first).bind fun _ => ?_
      exact (keeps_finish hI).bind fun _ => keeps_pure I _

end Productions

/-! ## What statements are -/

/-- A statement that is a block. -/
theorem unfold_statement_of_leftBrace (P : Productions) {s : TokenStream}
    (h : s.peek.kind = .leftBrace) :
    P.unfold.statement s =
      (next >>= fun _ => P.block s.peek >>= fun body => pure (.block body)) s := by
  have hpeek : (peek s).outcome = .ok s.peek := rfl
  refine (bind_of_ok hpeek).trans ?_
  rw [if_pos h]
  rfl

/-- A statement that is not a block. -/
theorem unfold_statement_of_ne_leftBrace (P : Productions) {s : TokenStream}
    (h : s.peek.kind ≠ .leftBrace) :
    P.unfold.statement s = (P.clause s.peek >>= fun clause => finish >>= fun stop =>
      pure (clause.statement ⟨s.peek.token, s.peek.span.start, stop⟩)) s := by
  have hpeek : (peek s).outcome = .ok s.peek := rfl
  refine (bind_of_ok hpeek).trans ?_
  rw [if_neg h]
  rfl

/-- There are no statements at the end. -/
theorem unfold_statements_of_endsAt (P : Productions) {enclosure : Enclosure} {s : TokenStream}
    (h : enclosure.endsAt s.peek.kind) : P.unfold.statements enclosure s = ⟨.ok [], s, []⟩ := by
  have hpeek : (peek s).outcome = .ok s.peek := rfl
  refine (bind_of_ok hpeek).trans ?_
  rw [if_pos h]
  rfl

/-- Before the end there is a statement. -/
theorem unfold_statements_of_not_endsAt (P : Productions) {enclosure : Enclosure} {s : TokenStream}
    (h : ¬enclosure.endsAt s.peek.kind) :
    P.unfold.statements enclosure s = (recovering P.statement >>= fun first =>
      P.statements enclosure >>= fun others => pure (first.toList ++ others)) s := by
  have hpeek : (peek s).outcome = .ok s.peek := rfl
  refine (bind_of_ok hpeek).trans ?_
  rw [if_neg h]
  rfl

end Parser
end ScriptLang
