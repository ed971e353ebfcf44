/-!
# Ranges

Properties of characters given by tables of code points.
-/

namespace ScriptLang.Text

/-- Whether a character lies in one of the given ranges. The ends of a range belong to it. -/
def inRanges (ranges : List (Nat × Nat)) (c : Char) : Bool :=
  ranges.any fun (low, high) => low ≤ c.toNat && c.toNat ≤ high

/-- Whether a character is one of the printable ASCII characters, the space among them. -/
def isPlain (c : Char) : Bool := 0x20 ≤ c.toNat && c.toNat ≤ 0x7e

end ScriptLang.Text
