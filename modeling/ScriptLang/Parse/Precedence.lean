import ScriptLang.Token

/-!
# Precedence

How tightly operators bind. A call binds as an operator does, by its opening parenthesis.
-/

namespace ScriptLang

/-- Levels of precedence, from the loosest to the tightest. -/
inductive Precedence where
  | lowest
  | equality
  | comparison
  | sum
  | product
  | unary
  | call
  deriving DecidableEq, Repr, Inhabited

/-- The place of a level in the order. -/
def Precedence.rank : Precedence → Nat
  | lowest => 0
  | equality => 1
  | comparison => 2
  | sum => 3
  | product => 4
  | unary => 5
  | call => 6

/-- The level of a token that follows an operand. Tokens that are no operators have the lowest. -/
def TokenKind.precedence : TokenKind → Precedence
  | .equal => .equality
  | .notEqual => .equality
  | .lessThan => .comparison
  | .greaterThan => .comparison
  | .plus => .sum
  | .minus => .sum
  | .asterisk => .product
  | .slash => .product
  | .leftParen => .call
  | _ => .lowest

end ScriptLang
