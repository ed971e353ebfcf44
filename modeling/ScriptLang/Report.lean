import ScriptLang.Span

/-!
# Reports

What a user is told about an error: a title, notes and, if the error has a place in a source, an
excerpt of that source with marks in it.
-/

namespace ScriptLang

/-- A stretch of source and what to say about it. -/
structure Mark where
  text : String
  span : Span
  deriving DecidableEq, Repr, Inhabited

/-- The part of a source that a report shows. -/
structure Excerpt where
  /-- Where the source was found. -/
  path : String
  source : String
  /-- The place of the error. -/
  primary : Mark
  /-- A place in one line, not after the error, that helps to explain it. -/
  secondary : Option Mark
  deriving Inhabited

/-- A report. -/
structure Report where
  title : String
  notes : List String
  excerpt : Option Excerpt
  deriving Inhabited

end ScriptLang
