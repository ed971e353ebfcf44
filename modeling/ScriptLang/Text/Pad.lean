/-!
# Padding

Texts of a given length.
-/

namespace ScriptLang.Text

/-- A text several times. -/
def times (n : Nat) (text : String) : String := String.join (List.replicate n text)

/-- A text with spaces in front, so that it is at least `n` characters long. -/
def padLeft (n : Nat) (text : String) : String := times (n - text.length) " " ++ text

end ScriptLang.Text
