import ScriptLang.Parse
import ScriptLang.Proofs.Parse.Depth
import ScriptLang.Proofs.Tree.Shift

/-!
# Parsing tokens further on

No production looks at offsets. If all tokens stand `d` bytes further on, then so does everything in
the reply: the result, the errors and the tokens that are left.

`Shifts d f p q` says this of a parser `p` and of `q`, which is `p` with its arguments moved; `f`
moves the result.
-/

namespace ScriptLang

variable {α β : Type} {d : Nat}

/-- The stream whose tokens stand `d` bytes further on. -/
def TokenStream.shift (d : Nat) (s : TokenStream) : TokenStream :=
  ⟨s.last + d, s.rest.map (Lexeme.shift d)⟩

/-- The fault that stands `d` bytes further on. -/
def Fault.shift (d : Nat) (f : Fault) : Fault := { f with error := f.error.shift d }

/-- The reply that stands `d` bytes further on, where `f` moves a result. -/
def Reply.shift (d : Nat) (f : α → α) (r : Reply α) : Reply α where
  outcome := (r.outcome.map f).mapError (ParseError.shift d)
  stream := r.stream.shift d
  faults := r.faults.map (Fault.shift d)

namespace TokenStream

theorem peek_shift (s : TokenStream) : (s.shift d).peek = s.peek.shift d := by
  obtain ⟨last, rest⟩ := s
  cases rest <;> rfl

theorem advance_shift (s : TokenStream) : (s.shift d).advance = s.advance.shift d := by
  obtain ⟨last, rest⟩ := s
  cases rest <;> rfl

theorem skip_shift (kind : TokenKind) (s : TokenStream) :
    (s.shift d).skip kind = (s.skip kind).shift d := by
  unfold skip
  rw [peek_shift, Lexeme.kind_shift, advance_shift]
  split <;> rfl

theorem length_rest_shift (s : TokenStream) : (s.shift d).rest.length = s.rest.length :=
  List.length_map ..

end TokenStream

namespace Parser

/-! ## The rules -/

/-- On tokens further on, the second parser does what the first one does. -/
def Shifts (d : Nat) (f : α → α) (p q : Parser α) : Prop := ∀ s, q (s.shift d) = (p s).shift d f

namespace Shifts

variable {f : α → α} {g : β → β} {p q : Parser α}

theorem pure (a : α) : Shifts d f (Pure.pure a) (Pure.pure (f a)) := fun _ => rfl

theorem bind {k k' : α → Parser β} (hp : Shifts d f p q) (hk : ∀ a, Shifts d g (k a) (k' (f a))) :
    Shifts d g (p >>= k) (q >>= k') := by
  intro s
  rcases hreply : p s with ⟨e | a, m, faults⟩
  · have hq : q (s.shift d) = ⟨.error (e.shift d), m.shift d, faults.map (Fault.shift d)⟩ := by
      rw [hp s, hreply]
      rfl
    show Parser.bind q k' (s.shift d) = (Parser.bind p k s).shift d g
    rw [Parser.bind, Parser.bind, hq, hreply]
    rfl
  · have hq : q (s.shift d) = ⟨.ok (f a), m.shift d, faults.map (Fault.shift d)⟩ := by
      rw [hp s, hreply]
      rfl
    show Parser.bind q k' (s.shift d) = (Parser.bind p k s).shift d g
    rw [Parser.bind, Parser.bind, hq, hreply]
    dsimp only
    rw [hk a m, Reply.shift, Reply.shift, List.map_append]

theorem fail (cause : ParseError.Cause) (span : Span) :
    Shifts d f (Parser.fail cause span) (Parser.fail cause (span.shift d)) := fun _ => rfl

theorem peek : Shifts d (Lexeme.shift d) Parser.peek Parser.peek := by
  intro s
  show Reply.mk (.ok (s.shift d).peek) (s.shift d) [] = _
  rw [TokenStream.peek_shift]
  rfl

theorem next : Shifts d (Lexeme.shift d) Parser.next Parser.next := by
  intro s
  show Reply.mk (.ok (s.shift d).peek) (s.shift d).advance [] = _
  rw [TokenStream.peek_shift, TokenStream.advance_shift]
  rfl

theorem expect (kind : TokenKind) (opened : Option Span) :
    Shifts d (Lexeme.shift d) (Parser.expect kind opened)
      (Parser.expect kind (opened.map (Span.shift d))) := by
  intro s
  unfold Parser.expect
  rw [TokenStream.peek_shift, TokenStream.advance_shift, Lexeme.kind_shift]
  split <;> rfl

theorem finish : Shifts d (· + d) Parser.finish Parser.finish := by
  intro s
  show Reply.mk (.ok ((s.shift d).skip .semicolon).last) ((s.shift d).skip .semicolon) [] = _
  rw [TokenStream.skip_shift]
  rfl

theorem recovering (hp : Shifts d f p q) :
    Shifts d (Option.map f) (Parser.recovering p) (Parser.recovering q) := by
  intro s
  unfold Parser.recovering
  rw [hp s]
  rcases p s with ⟨e | a, m, faults⟩
  · show Reply.mk _ ((m.shift d).skip .semicolon) (_ ++ [⟨_, (m.shift d).rest.length - 1⟩]) = _
    rw [TokenStream.skip_shift, TokenStream.length_rest_shift, Reply.shift, List.map_append]
    rfl
  · rfl

end Shifts

/-- **What is put together does not look at offsets.** -/
theorem Parallel.shifts {place : Place} {f : α → α} {p q : Parser α}
    (h : Parallel d place f p q) : Shifts d f p q := by
  induction h with
  | pure a => exact .pure a
  | bind _ _ hp hk => exact hp.bind hk
  | peek => exact .peek
  | next => exact .next
  | next_bind _ hk => exact Shifts.next.bind hk
  | expect kind => exact .expect kind none
  | opening_bind _ hk => exact (Shifts.expect .leftParen none).bind hk
  | closing x => exact .expect .rightParen (some x.span)
  | fault _ => exact .fail _ _
  | finish => exact .finish
  | recovering _ hp => exact hp.recovering
  | forget _ hp => exact hp
  | enclosed _ _ hp => exact hp

end Parser
end ScriptLang
