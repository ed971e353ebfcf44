import ScriptLang.Tree
import ScriptLang.Text.Decimal
import ScriptLang.Text.Escape

/-!
# Dumps

A tree in text with all that its nodes hold, for those who want to see how a source was understood.
A dump is made of lines: a node takes a line to open, a line to close, and in between its parts,
each indented and ended by a comma.
-/

namespace ScriptLang

namespace Dump

/-- Lines with a text put in front of the first one. -/
def lead (text : String) : List String → List String
  | [] => []
  | line :: lines => (text ++ line) :: lines

/-- Lines with a comma after the last one. -/
def comma : List String → List String
  | [] => []
  | [line] => [line ++ ","]
  | line :: lines => line :: comma lines

/-- Parts between an opening and a closing line. -/
def enclose (opening : String) (parts : List (List String)) (closing : String) : List String :=
  opening :: parts.flatMap (fun part => (comma part).map ("    " ++ ·)) ++ [closing]

/-- A list of parts. -/
def list (parts : List (List String)) : List String :=
  if parts.isEmpty then ["[]"] else enclose "[" parts "]"

/-- Something with a name and named parts. -/
def record (name : String) (fields : List (String × List String)) : List String :=
  enclose (name ++ " \x7b") (fields.map fun (field, part) => lead (field ++ ": ") part) "\x7d"

/-- Something with a name and one part. -/
def wrap (name : String) (part : List String) : List String := enclose (name ++ "(") [part] ")"

/-- The name of a kind of tokens in a dump. -/
def kindName : TokenKind → String
  | .illegal => "Illegal"
  | .eof => "Eof"
  | .ident => "Ident"
  | .int => "Int"
  | .string => "String"
  | .assign => "Assign"
  | .plus => "Plus"
  | .minus => "Minus"
  | .bang => "Bang"
  | .asterisk => "Asterisk"
  | .slash => "Slash"
  | .lessThan => "LessThan"
  | .greaterThan => "GreaterThan"
  | .equal => "Equal"
  | .notEqual => "NotEqual"
  | .comma => "Comma"
  | .semicolon => "Semicolon"
  | .leftParen => "LParen"
  | .rightParen => "RParen"
  | .leftBrace => "LBrace"
  | .rightBrace => "RBrace"
  | .kwFn => "Function"
  | .kwLet => "Let"
  | .kwTrue => "True"
  | .kwFalse => "False"
  | .kwIf => "If"
  | .kwElse => "Else"
  | .kwReturn => "Return"

/-- A token. -/
def token (t : Token) : List String :=
  record "Token" [("kind", [kindName t.kind]), ("literal", [Text.quote t.literal])]

/-- A span. -/
def span (s : Span) : List String :=
  record "SrcSpan" [("start", [toString s.start]), ("end", [toString s.stop])]

/-- A node: its token, its own parts and its span. -/
def node (name : String) (origin : Origin) (parts : List (String × List String)) : List String :=
  record name (("token", token origin.token) :: parts ++ [("location", span origin.span)])

/-- An identifier. -/
def ident (i : Ident) : List String := node "Identifier" i.origin [("value", [Text.quote i.name])]

mutual

/-- An expression. -/
def expr : Expr → List String
  | .ident name => wrap "Identifier" (ident name)
  | .integer origin value =>
    wrap "Integer" (node "IntegerLiteral" origin [("value", [Text.int64Form value])])
  | .string origin =>
    wrap "String" (node "StringLiteral" origin [("value", [Text.quote origin.token.literal])])
  | .boolean origin value =>
    wrap "Boolean" (node "BooleanLiteral" origin [("value", [if value then "true" else "false"])])
  | .unary origin operator operand =>
    wrap "Prefix" (node "PrefixExpression" origin
      [("operator", [kindName operator]), ("right", expr operand)])
  | .binary origin operator left right =>
    wrap "Infix" (node "InfixExpression" origin
      [("left", expr left), ("operator", [kindName operator]), ("right", expr right)])
  | .conditional origin condition consequence alternative =>
    wrap "If" (node "IfExpression" origin
      [("condition", expr condition), ("consequence", block consequence),
        ("alternative", option alternative)])
  | .function origin parameters body =>
    wrap "Function" (node "FunctionLiteral" origin
      [("parameters", list (parameters.map ident)), ("body", block body)])
  | .call origin callee arguments =>
    wrap "Call" (node "CallExpression" origin
      [("function", expr callee), ("arguments", list (exprs arguments))])

/-- Expressions. -/
def exprs : List Expr → List (List String)
  | [] => []
  | e :: es => expr e :: exprs es

/-- A statement. -/
def stmt : Stmt → List String
  | .binding origin name value =>
    wrap "Let" (node "LetStatement" origin [("name", ident name), ("value", expr value)])
  | .returning origin value =>
    wrap "Return" (node "ReturnStatement" origin [("value", expr value)])
  | .expression origin value =>
    wrap "Expression" (node "ExpressionStatement" origin [("expression", expr value)])
  | .block body => wrap "Block" (block body)

/-- Statements. -/
def stmts : List Stmt → List (List String)
  | [] => []
  | s :: ss => stmt s :: stmts ss

/-- A block. -/
def block : Block → List String
  | .mk origin statements => node "BlockStatement" origin [("statements", list (stmts statements))]

/-- A block that may be missing. -/
def option : Option Block → List String
  | none => ["None"]
  | some body => wrap "Some" (block body)

end

end Dump

/-- The dump of a program. -/
def Program.dump (p : Program) : String :=
  String.intercalate "\n" (Dump.record "Program"
    [("statements", Dump.list (Dump.stmts p.statements)), ("location", Dump.span p.span)])

end ScriptLang
