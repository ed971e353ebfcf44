import ScriptLang.Token
import ScriptLang.Text.Escape

/-!
# Log records

What the library notes down while it works. A record changes no result; a caller shows the records
of the levels it is interested in.
-/

namespace ScriptLang

/-- How much a record matters. -/
inductive LogLevel where
  /-- Something in the input or in the use of the library looks wrong. -/
  | warn
  /-- What the library has just done. -/
  | debug
  deriving DecidableEq, Repr, Inhabited

/-- One line of the log. -/
structure LogRecord where
  level : LogLevel
  text : String
  deriving DecidableEq, Repr, Inhabited

namespace LogRecord

/-- A warning. -/
def warn (text : String) : LogRecord := ⟨.warn, text⟩

/-- A note on what has been done. -/
def debug (text : String) : LogRecord := ⟨.debug, text⟩

end LogRecord

/-- The warning that goes with reading a lexeme: a character that starts no token is reported. -/
def Lexeme.warning? (x : Lexeme) : Option LogRecord :=
  if x.kind = .illegal then
    let shown := String.join (x.token.literal.toList.map Text.escapeChar)
    some (.warn ("illegal character `" ++ shown ++ "` at offset " ++ toString x.span.start))
  else none

end ScriptLang
