import ScriptLang.Text.Visible

/-!
# Escapes

Two ways to show text that may hold characters one cannot see: `escapeChar` leaves only visible
ASCII characters as they are, and `quote` puts a text between quotes and leaves all visible
characters as they are.
-/

namespace ScriptLang.Text

/-- A character by its number in base 16, as in `\u{e9}`. -/
def numericEscape (c : Char) : String :=
  "\\u\x7b" ++ String.ofList (Nat.toDigits 16 c.toNat) ++ "\x7d"

/-- A character in visible ASCII characters. -/
def escapeChar (c : Char) : String :=
  match c with
  | '\t' => "\\t"
  | '\r' => "\\r"
  | '\n' => "\\n"
  | '\'' => "\\'"
  | '"' => "\\\""
  | '\\' => "\\\\"
  | c => if isPlain c then String.singleton c else numericEscape c

/-- A character between quotes. -/
def quoteChar (c : Char) : String :=
  match c with
  | '\x00' => "\\0"
  | '\t' => "\\t"
  | '\r' => "\\r"
  | '\n' => "\\n"
  | '"' => "\\\""
  | '\\' => "\\\\"
  | c => if isVisible c then String.singleton c else numericEscape c

/-- A text between quotes. -/
def quote (s : String) : String :=
  "\"" ++ String.join (s.toList.map quoteChar) ++ "\""

end ScriptLang.Text
