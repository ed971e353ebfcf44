import ScriptLang.Tree

/-!
# Canonical form

How a tree is written in source text. Every operator stands in parentheses with its operands, so
that the text can be read in one way only, and every statement but a block ends in a semicolon.
-/

namespace ScriptLang

/-- Parameters between their parentheses, separated by commas. -/
def Ident.listForm (names : List Ident) : String :=
  "(" ++ String.intercalate ", " (names.map Ident.name) ++ ")"

mutual

/-- The canonical form of an expression. -/
def Expr.form : Expr → String
  | .ident name => name.name
  | .integer origin _ => origin.token.literal
  | .string origin => "\"" ++ origin.token.literal ++ "\""
  | .boolean _ value => if value then "true" else "false"
  | .unary _ operator operand => "(" ++ operator.name ++ operand.form ++ ")"
  | .binary _ operator left right =>
    "(" ++ left.form ++ " " ++ operator.name ++ " " ++ right.form ++ ")"
  | .conditional _ condition consequence alternative =>
    "if (" ++ condition.form ++ ") " ++ consequence.form ++ Block.elseForm alternative
  | .function origin parameters body =>
    origin.token.literal ++ Ident.listForm parameters ++ " " ++ body.form
  | .call _ callee arguments =>
    callee.form ++ "(" ++ String.intercalate ", " (Expr.forms arguments) ++ ")"

/-- The canonical forms of expressions. -/
def Expr.forms : List Expr → List String
  | [] => []
  | e :: es => e.form :: Expr.forms es

/-- The canonical form of a statement, without the semicolon after an expression. -/
def Stmt.form : Stmt → String
  | .binding origin name value =>
    origin.token.literal ++ " " ++ name.name ++ " = " ++ value.form ++ ";"
  | .returning origin value => origin.token.literal ++ " " ++ value.form ++ ";"
  | .expression _ value => value.form
  | .block body => body.form

/-- The canonical form of a block: its statements, each followed by a space. -/
def Block.form : Block → String
  | .mk _ statements => "\x7b " ++ Stmt.spacedForms statements ++ "\x7d"

/-- The alternative of a conditional, if there is one. -/
def Block.elseForm : Option Block → String
  | none => ""
  | some body => " else " ++ body.form

/-- Statements of a block, each ended and followed by a space. -/
def Stmt.spacedForms : List Stmt → String
  | [] => ""
  | .expression origin value :: rest =>
    Stmt.form (.expression origin value) ++ "; " ++ Stmt.spacedForms rest
  | s :: rest => s.form ++ " " ++ Stmt.spacedForms rest

end

/-- The canonical form of a statement together with the semicolon that may have to end it. -/
def Stmt.endedForm : Stmt → String
  | .expression origin value => Stmt.form (.expression origin value) ++ ";"
  | s => s.form

/-- The canonical form of a program. -/
def Program.form (p : Program) : String :=
  String.intercalate " " (p.statements.map Stmt.endedForm)

end ScriptLang
