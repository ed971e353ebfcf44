import ScriptLang.Parse.Error
import ScriptLang.Tree

/-!
# Moving places

Where a text stands in a larger one decides the offsets in everything that is read from it: tokens,
trees and errors. Shifting moves all places by the same number of bytes and changes nothing else.
-/

namespace ScriptLang

/-- The span that stands `d` bytes further on. -/
def Span.shift (d : Nat) (s : Span) : Span := ⟨s.start + d, s.stop + d⟩

/-- The lexeme that stands `d` bytes further on. -/
def Lexeme.shift (d : Nat) (x : Lexeme) : Lexeme := { x with span := x.span.shift d }

/-- The error that stands `d` bytes further on, with the delimiter that was left open. -/
def ParseError.shift (d : Nat) (e : ParseError) : ParseError :=
  { e with span := e.span.shift d, opened := e.opened.map (Span.shift d) }

/-- The origin that stands `d` bytes further on. -/
def Origin.shift (d : Nat) (o : Origin) : Origin := { o with span := o.span.shift d }

/-- The identifier that stands `d` bytes further on. -/
def Ident.shift (d : Nat) (i : Ident) : Ident := ⟨i.origin.shift d⟩

mutual

/-- The expression that stands `d` bytes further on. -/
def Expr.shift (d : Nat) : Expr → Expr
  | .ident name => .ident (name.shift d)
  | .integer origin value => .integer (origin.shift d) value
  | .string origin => .string (origin.shift d)
  | .boolean origin value => .boolean (origin.shift d) value
  | .unary origin operator operand => .unary (origin.shift d) operator (operand.shift d)
  | .binary origin operator left right =>
    .binary (origin.shift d) operator (left.shift d) (right.shift d)
  | .conditional origin condition consequence alternative =>
    .conditional (origin.shift d) (condition.shift d) (consequence.shift d)
      (Block.shiftElse d alternative)
  | .function origin parameters body =>
    .function (origin.shift d) (parameters.map (Ident.shift d)) (body.shift d)
  | .call origin callee arguments =>
    .call (origin.shift d) (callee.shift d) (Expr.shiftAll d arguments)

/-- Expressions that stand `d` bytes further on. -/
def Expr.shiftAll (d : Nat) : List Expr → List Expr
  | [] => []
  | e :: es => e.shift d :: Expr.shiftAll d es

/-- The statement that stands `d` bytes further on. -/
def Stmt.shift (d : Nat) : Stmt → Stmt
  | .binding origin name value => .binding (origin.shift d) (name.shift d) (value.shift d)
  | .returning origin value => .returning (origin.shift d) (value.shift d)
  | .expression origin value => .expression (origin.shift d) (value.shift d)
  | .block body => .block (body.shift d)

/-- The block that stands `d` bytes further on. -/
def Block.shift (d : Nat) : Block → Block
  | .mk origin statements => .mk (origin.shift d) (Stmt.shiftAll d statements)

/-- The alternative of a conditional that stands `d` bytes further on. -/
def Block.shiftElse (d : Nat) : Option Block → Option Block
  | none => none
  | some body => some (body.shift d)

/-- Statements that stand `d` bytes further on. -/
def Stmt.shiftAll (d : Nat) : List Stmt → List Stmt
  | [] => []
  | s :: rest => s.shift d :: Stmt.shiftAll d rest

end

variable (d : Nat)

/-! ## Places of what has been moved -/

theorem Span.shift_merge (a b : Span) :
    (a.merge b).shift d = (a.shift d).merge (b.shift d) := by
  unfold merge shift
  rw [Nat.add_min_add_right, Nat.add_max_add_right]

theorem Lexeme.token_shift (x : Lexeme) : (x.shift d).token = x.token := rfl

theorem Lexeme.kind_shift (x : Lexeme) : (x.shift d).kind = x.kind := rfl

theorem Lexeme.shift_zero (x : Lexeme) : x.shift 0 = x := rfl

theorem Block.span_shift (b : Block) : (b.shift d).span = b.span.shift d := by
  cases b
  rfl

theorem Expr.span_shift (e : Expr) : (e.shift d).span = e.span.shift d := by
  cases e <;> rfl

theorem Stmt.shiftAll_eq_map (body : List Stmt) : shiftAll d body = body.map (shift d) := by
  induction body with
  | nil => rfl
  | cons s rest ih => rw [shiftAll, ih, List.map_cons]

end ScriptLang
