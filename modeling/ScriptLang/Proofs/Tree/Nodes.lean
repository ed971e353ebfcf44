import ScriptLang.Tree

/-!
# The nodes of a tree

Names, expressions, blocks and statements as nodes of one tree, so that something can be said of all
of them at once. The children of a node are in the order in which they are written.
-/

namespace ScriptLang

/-- A node of a tree. -/
inductive Node where
  | ident (name : Ident)
  | expr (e : Expr)
  | block (b : Block)
  | stmt (s : Stmt)

namespace Node

/-- The source that a node covers. -/
def span : Node → Span
  | ident name => name.origin.span
  | expr e => e.span
  | block b => b.span
  | stmt s => s.span

/-- The nodes right below a node. -/
def children : Node → List Node
  | ident _ => []
  | expr (.ident name) => [ident name]
  | expr (.integer _ _) => []
  | expr (.string _) => []
  | expr (.boolean _ _) => []
  | expr (.unary _ _ operand) => [expr operand]
  | expr (.binary _ _ left right) => [expr left, expr right]
  | expr (.conditional _ condition consequence alternative) =>
    expr condition :: block consequence :: alternative.toList.map block
  | expr (.function _ parameters body) => parameters.map ident ++ [block body]
  | expr (.call _ callee arguments) => expr callee :: arguments.map expr
  | block (.mk _ statements) => statements.map stmt
  | stmt (.binding _ name value) => [ident name, expr value]
  | stmt (.returning _ value) => [expr value]
  | stmt (.expression _ value) => [expr value]
  | stmt (.block body) => [block body]

/-- The token of a node that is written as this token and nothing else. Strings are not: they have
quotes. -/
def word? : Node → Option Token
  | ident name => some name.origin.token
  | expr (.ident name) => some name.origin.token
  | expr (.integer origin _) => some origin.token
  | expr (.boolean origin _) => some origin.token
  | _ => none

/-- The second node is the first one, or somewhere below it. -/
inductive Contains : Node → Node → Prop where
  | self (x : Node) : Contains x x
  | child {x y z : Node} : y ∈ x.children → Contains y z → Contains x z

end Node

/-- The node is one of the program's statements, or somewhere below one. -/
def Program.Contains (p : Program) (x : Node) : Prop := ∃ s ∈ p.statements, (Node.stmt s).Contains x

end ScriptLang
