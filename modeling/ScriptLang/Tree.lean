import ScriptLang.Token

/-!
# Syntax trees

Expressions, statements, blocks and programs. Every node keeps the token it came from and the span
of source that it covers.
-/

namespace ScriptLang

/-- Where a node comes from. -/
structure Origin where
  /-- The token that gives the node its sort: a keyword, an operator, or the node's only token. -/
  token : Token
  /-- The source that the node covers. -/
  span : Span
  deriving DecidableEq, Repr, Inhabited

/-- The origin of a node that consists of one token. -/
def Lexeme.origin (x : Lexeme) : Origin := ⟨x.token, x.span⟩

/-- An identifier. -/
structure Ident where
  origin : Origin
  deriving DecidableEq, Repr, Inhabited

/-- The name that an identifier stands for. -/
def Ident.name (i : Ident) : String := i.origin.token.literal

mutual

/-- Expressions. -/
inductive Expr where
  | ident (name : Ident)
  | integer (origin : Origin) (value : Int64)
  | string (origin : Origin)
  | boolean (origin : Origin) (value : Bool)
  | unary (origin : Origin) (operator : TokenKind) (operand : Expr)
  | binary (origin : Origin) (operator : TokenKind) (left right : Expr)
  | conditional (origin : Origin) (condition : Expr) (consequence : Block)
      (alternative : Option Block)
  | function (origin : Origin) (parameters : List Ident) (body : Block)
  | call (origin : Origin) (callee : Expr) (arguments : List Expr)

/-- Statements. -/
inductive Stmt where
  | binding (origin : Origin) (name : Ident) (value : Expr)
  | returning (origin : Origin) (value : Expr)
  | expression (origin : Origin) (value : Expr)
  | block (body : Block)

/-- Statements between braces. -/
inductive Block where
  | mk (origin : Origin) (statements : List Stmt)

end

instance : Inhabited Expr := ⟨.ident default⟩

instance : Inhabited Stmt := ⟨.expression default default⟩

instance : Inhabited Block := ⟨.mk default []⟩

namespace Block

/-- Where a block comes from; its token is the opening brace. -/
def origin : Block → Origin
  | mk origin _ => origin

/-- The statements of a block. -/
def statements : Block → List Stmt
  | mk _ statements => statements

/-- The source from brace to brace. -/
def span (b : Block) : Span := b.origin.span

end Block

namespace Expr

/-- Where an expression comes from. -/
def origin : Expr → Origin
  | ident name => name.origin
  | integer origin _ => origin
  | string origin => origin
  | boolean origin _ => origin
  | unary origin _ _ => origin
  | binary origin _ _ _ => origin
  | conditional origin _ _ _ => origin
  | function origin _ _ => origin
  | call origin _ _ => origin

/-- The source that an expression covers. -/
def span (e : Expr) : Span := e.origin.span

end Expr

namespace Stmt

/-- Where a statement comes from. -/
def origin : Stmt → Origin
  | binding origin _ _ => origin
  | returning origin _ => origin
  | expression origin _ => origin
  | block body => body.origin

/-- The source that a statement covers. -/
def span (s : Stmt) : Span := s.origin.span

end Stmt

/-- A whole source. -/
structure Program where
  statements : List Stmt
  span : Span
  deriving Inhabited

/-- The literal of the first token of a program, or nothing if the program is empty. -/
def Program.literal (p : Program) : String :=
  match p.statements with
  | [] => ""
  | s :: _ => s.origin.token.literal

end ScriptLang
