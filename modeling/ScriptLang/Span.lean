/-!
# Spans

A span is a stretch of source text given by byte offsets. Every token and every node of a syntax
tree carries one, and so do parse errors.
-/

namespace ScriptLang

/-- The stretch of source text from the byte offset `start` up to, but not including, `stop`. -/
structure Span where
  /-- Offset of the first byte. -/
  start : Nat
  /-- Offset just past the last byte. -/
  stop : Nat
  deriving DecidableEq, Repr, Inhabited

namespace Span

/-- The empty span at an offset. -/
def empty (offset : Nat) : Span := ⟨offset, offset⟩

/-- The least span that covers both spans. -/
def merge (a b : Span) : Span := ⟨min a.start b.start, max a.stop b.stop⟩

/-- A span in text, as in `4..9`. -/
def form (s : Span) : String := toString s.start ++ ".." ++ toString s.stop

end Span

end ScriptLang
