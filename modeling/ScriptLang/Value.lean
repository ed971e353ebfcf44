import ScriptLang.Tree.Form
import ScriptLang.Text.Decimal

/-!
# Values

What programs compute. Errors and values on their way out of a function are values too, because
they can be bound to a name from outside; evaluation never goes on with one but *unwinds*.
-/

namespace ScriptLang

/-- The slot of a scope in the store. -/
abbrev ScopeId : Type := Nat

/-- The sorts of values. -/
inductive ValueType where
  | integer
  | boolean
  | string
  | null
  | returned
  | function
  | error
  deriving DecidableEq, Repr, Inhabited

/-- The name by which messages call a sort of values. -/
def ValueType.name : ValueType → String
  | integer => "INTEGER"
  | boolean => "BOOLEAN"
  | string => "STRING"
  | null => "NULL"
  | returned => "RETURN_VALUE"
  | function => "FUNCTION"
  | error => "ERROR"

/-- What can go wrong in an evaluation. -/
inductive RuntimeError where
  /-- A name that no scope binds. -/
  | unbound (name : String)
  /-- A unary operator that does not apply to such values. -/
  | badOperand (operator : TokenKind) (operand : ValueType)
  /-- A binary operator that does not apply to such values. -/
  | badOperands (operator : TokenKind) (left right : ValueType)
  /-- A binary operator between values of different sorts. -/
  | mismatch (operator : TokenKind) (left right : ValueType)
  | divisionByZero
  /-- A call of a value that is no function. -/
  | notFunction (callee : ValueType)
  /-- A call with a wrong number of arguments. -/
  | wrongCount (want got : Nat)
  /-- An error given from outside. -/
  | custom (message : String)
  deriving DecidableEq, Repr, Inhabited

/-- An error in words. -/
def RuntimeError.message : RuntimeError → String
  | unbound name => "identifier not found: " ++ name
  | badOperand operator operand => "unknown operator: " ++ operator.name ++ operand.name
  | badOperands operator left right =>
    "unknown operator: " ++ left.name ++ " " ++ operator.name ++ " " ++ right.name
  | mismatch operator left right =>
    "type mismatch: " ++ left.name ++ " " ++ operator.name ++ " " ++ right.name
  | divisionByZero => "division by zero"
  | notFunction callee => "not a function: " ++ callee.name
  | wrongCount want got =>
    "wrong number of arguments: want=" ++ toString want ++ ", got=" ++ toString got
  | custom message => message

/-- A function together with the scope it was made in. -/
structure Closure where
  parameters : List Ident
  body : Block
  scope : ScopeId
  deriving Inhabited

/-- Values. -/
inductive Value where
  | integer (value : Int64)
  | boolean (value : Bool)
  | string (value : String)
  | null
  /-- A value on its way out of a function. -/
  | returned (value : Value)
  | function (closure : Closure)
  | error (cause : RuntimeError)
  deriving Inhabited

namespace Value

/-- The sort of a value. -/
def type : Value → ValueType
  | integer _ => .integer
  | boolean _ => .boolean
  | string _ => .string
  | null => .null
  | returned _ => .returned
  | function _ => .function
  | error _ => .error

/-- A value in text. -/
def form : Value → String
  | integer value => Text.int64Form value
  | boolean value => if value then "true" else "false"
  | string value => value
  | null => "null"
  | returned value => value.form
  | function closure => "fn" ++ Ident.listForm closure.parameters ++ " " ++ closure.body.form
  | error cause => "ERROR: " ++ cause.message

/-- What counts as true in a condition: everything but null and false. -/
def isTruthy : Value → Bool
  | null => false
  | boolean value => value
  | _ => true

/-- Whether evaluation stops where it meets this value. -/
def unwinds : Value → Bool
  | returned _ => true
  | error _ => true
  | _ => false

/-- The scope that a value keeps alive. -/
def scope? : Value → Option ScopeId
  | function closure => some closure.scope
  | returned value => value.scope?
  | _ => none

/-- Takes off one layer of `returned`. -/
def unwrap : Value → Value
  | returned value => value
  | v => v

/-! ## Operators -/

/-- Values that are compared by identity: all but integers and strings. -/
def hasIdentity : Value → Bool
  | integer _ => false
  | string _ => false
  | _ => true

/-- Whether two values are one: there is one null, one true and one false, and every other value is
different from all others. -/
def same : Value → Value → Bool
  | boolean a, boolean b => a = b
  | null, null => true
  | _, _ => false

/-- A unary operator applied to a value. -/
def applyUnary (operator : TokenKind) (operand : Value) : Value :=
  match operator, operand with
  | .bang, operand => boolean !operand.isTruthy
  | .minus, integer n => integer (-n)
  | operator, operand => error (.badOperand operator operand.type)

/-- A binary operator applied to integers. Arithmetic is modulo `2 ^ 64`, and division goes toward
zero. -/
def applyInteger (operator : TokenKind) (a b : Int64) : Value :=
  match operator with
  | .plus => integer (a + b)
  | .minus => integer (a - b)
  | .asterisk => integer (a * b)
  | .slash => if b = 0 then error .divisionByZero else integer (a / b)
  | .lessThan => boolean (a < b)
  | .greaterThan => boolean (b < a)
  | .equal => boolean (a = b)
  | .notEqual => boolean (a ≠ b)
  | operator => error (.badOperands operator .integer .integer)

/-- A binary operator applied to strings. -/
def applyString (operator : TokenKind) (a b : String) : Value :=
  match operator with
  | .plus => string (a ++ b)
  | operator => error (.badOperands operator .string .string)

/-- A binary operator applied to values of which at least one is neither an integer nor a string,
or which are of different sorts. -/
def applyOther (operator : TokenKind) (a b : Value) : Value :=
  if a.hasIdentity && b.hasIdentity && operator = .equal then boolean (a.same b)
  else if a.hasIdentity && b.hasIdentity && operator = .notEqual then boolean !a.same b
  else if a.type ≠ b.type then error (.mismatch operator a.type b.type)
  else error (.badOperands operator a.type b.type)

/-- A binary operator applied to values. -/
def applyBinary (operator : TokenKind) (a b : Value) : Value :=
  match a, b with
  | integer a, integer b => applyInteger operator a b
  | string a, string b => applyString operator a b
  | a, b => applyOther operator a b

end Value

end ScriptLang
