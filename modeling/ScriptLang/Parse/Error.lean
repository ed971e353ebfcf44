import ScriptLang.Token

/-!
# Parse errors

What can be wrong with a sequence of tokens, and the words for it.
-/

namespace ScriptLang

/-- Why a statement could not be read. -/
inductive ParseError.Cause where
  /-- Another token should have come next. -/
  | unexpected (expected found : TokenKind)
  /-- An expression should have started here. -/
  | noExpression (found : TokenKind)
  /-- The digits of an integer give none of 64 bits. -/
  | badInteger (literal : String)
  deriving DecidableEq, Repr, Inhabited

/-- A cause and its place. -/
structure ParseError where
  cause : ParseError.Cause
  /-- The token that is at fault. -/
  span : Span
  /-- The delimiter left open, if the closing one was expected. -/
  opened : Option Span
  deriving DecidableEq, Repr, Inhabited

/-- A kind of token in a sentence. -/
def TokenKind.description (kind : TokenKind) : String :=
  match kind with
  | .eof => "the end of input"
  | .ident => "an Identifier"
  | .int => "an Integer"
  | .string => "a String"
  | .illegal => "an illegal character"
  | kind =>
    match kind.keyword? with
    | some word => "the keyword `" ++ word ++ "`"
    | none => "`" ++ kind.name ++ "`"

namespace ParseError

/-- The error in one line. -/
def message (e : ParseError) : String :=
  match e.cause with
  | .unexpected expected found =>
    "expected next token to be " ++ expected.name ++ ", got " ++ found.name ++ " instead"
  | .noExpression found => "no prefix parse function for " ++ found.name ++ " found"
  | .badInteger literal => "could not parse " ++ literal ++ " as integer"

/-- What to write at the place of the error. -/
def label (e : ParseError) : String :=
  match e.cause with
  | .unexpected _ _ => "Not expected this"
  | .noExpression _ => "Expected an expression"
  | .badInteger _ => "Integer literal is out of range"

/-- What else there is to say. -/
def hints (e : ParseError) : List String :=
  match e.cause with
  | .unexpected expected found =>
    ["Found " ++ found.description ++ ", expected `" ++ expected.name ++ "`"]
  | .noExpression .illegal => ["This character is not part of the language"]
  | .noExpression found => ["`" ++ found.name ++ "` cannot start an expression"]
  | .badInteger _ => ["Integers must fit in 64 bits"]

end ParseError

end ScriptLang
