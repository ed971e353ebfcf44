/-!
# Decimal integers

Reading 64-bit integers in decimal.
-/

namespace ScriptLang.Text

/-- The number with the given decimal digits, at least one. -/
def natOfDigits? (digits : List Char) : Option Nat :=
  if digits ≠ [] ∧ digits.all Char.isDigit then
    some (digits.foldl (fun n c => 10 * n + (c.toNat - '0'.toNat)) 0)
  else none

/-- An integer as a 64-bit one, if it is in range. -/
def int64OfInt? (n : Int) : Option Int64 :=
  if Int64.minValue.toInt ≤ n ∧ n ≤ Int64.maxValue.toInt then some (Int64.ofInt n) else none

/-- The 64-bit integer that a text denotes: decimal digits after at most one sign. -/
def int64OfDecimal? (text : String) : Option Int64 :=
  match text.toList with
  | '-' :: digits => (natOfDigits? digits).bind fun n => int64OfInt? (-n)
  | '+' :: digits => (natOfDigits? digits).bind fun n => int64OfInt? n
  | digits => (natOfDigits? digits).bind fun n => int64OfInt? n

/-- A 64-bit integer in decimal. -/
def int64Form (n : Int64) : String := toString n.toInt

end ScriptLang.Text
