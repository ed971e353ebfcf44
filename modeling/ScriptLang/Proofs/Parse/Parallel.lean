import ScriptLang.Parse.Grammar
import ScriptLang.Proofs.Tree.Shift

/-!
# How the productions are put together

A production is put together out of a few parsers: it gives results, looks at the next token, reads
it, expects it to be of some kind, finds fault with it, and it recovers from errors. `Parallel` says
this of a parser, with a rule for each of them, and at once of two parsers that are put together in
the same way: the second one has places `d` bytes further on where the first one has places.

So what these parsers have in common, and keep when one comes after the other, all productions have.
That is one induction for each such property, and none of them goes through the productions again.
-/

namespace ScriptLang

/-- What a cause says about a token is so. -/
def ParseError.Cause.Concerns (x : Lexeme) : ParseError.Cause → Prop
  | .unexpected _ found => found = x.kind
  | .noExpression found => found = x.kind
  | .badInteger literal => literal = x.token.literal

/-- The clause that stands `d` bytes further on. -/
def Clause.shift (d : Nat) : Clause → Clause
  | binding name value => .binding (name.shift d) (value.shift d)
  | returning value => .returning (value.shift d)
  | expression value => .expression (value.shift d)

namespace Parser

/-- What is known to have been read before a parser runs. -/
inductive Place where
  /-- Nothing. -/
  | anywhere
  /-- The token `x`, last of all. -/
  | after (x : Lexeme)
  /-- The parenthesis `x`, which is still open. -/
  | within (x : Lexeme)

/-- What is known after another parser. -/
def Place.further : Place → Place
  | anywhere => anywhere
  | after _ => anywhere
  | within x => within x

/-- The two parsers are put together in the same way, and stand at the given place. If the first one
gives a result `a` then the second one gives `f a`. -/
inductive Parallel (d : Nat) : {α : Type} → Place → (α → α) → Parser α → Parser α → Prop where
  | pure {α : Type} {f : α → α} {place : Place} (a : α) :
      Parallel d place f (Pure.pure a) (Pure.pure (f a))
  | bind {α β : Type} {f : α → α} {g : β → β} {place : Place} {p q : Parser α}
      {k k' : α → Parser β} :
      Parallel d place f p q → (∀ a, Parallel d place.further g (k a) (k' (f a))) →
      Parallel d place g (p >>= k) (q >>= k')
  | peek : Parallel d .anywhere (Lexeme.shift d) Parser.peek Parser.peek
  | next : Parallel d .anywhere (Lexeme.shift d) Parser.next Parser.next
  | next_bind {β : Type} {g : β → β} {k k' : Lexeme → Parser β} :
      (∀ x, Parallel d (.after x) g (k x) (k' (x.shift d))) →
      Parallel d .anywhere g (Parser.next >>= k) (Parser.next >>= k')
  | expect (kind : TokenKind) :
      Parallel d .anywhere (Lexeme.shift d) (Parser.expect kind none) (Parser.expect kind none)
  | opening_bind {β : Type} {g : β → β} {k k' : Lexeme → Parser β} :
      (∀ x, Parallel d (.within x) g (k x) (k' (x.shift d))) →
      Parallel d .anywhere g (Parser.expect .leftParen none >>= k)
        (Parser.expect .leftParen none >>= k')
  | closing (x : Lexeme) :
      Parallel d (.within x) (Lexeme.shift d) (Parser.expect .rightParen (some x.span))
        (Parser.expect .rightParen (some (x.shift d).span))
  | fault {α : Type} {f : α → α} {x : Lexeme} {cause : ParseError.Cause} :
      cause.Concerns x →
      Parallel d (.after x) f (Parser.fail cause x.span) (Parser.fail cause (x.shift d).span)
  | finish : Parallel d .anywhere (· + d) Parser.finish Parser.finish
  | recovering {α : Type} {f : α → α} {p q : Parser α} :
      Parallel d .anywhere f p q →
      Parallel d .anywhere (Option.map f) (Parser.recovering p) (Parser.recovering q)
  | forget {α : Type} {f : α → α} {place : Place} {p q : Parser α} :
      Parallel d .anywhere f p q → Parallel d place f p q
  | enclosed {α : Type} {f : α → α} {x : Lexeme} {p q : Parser α} :
      x.kind = .leftParen → Parallel d (.within x) f p q → Parallel d (.after x) f p q

namespace Parallel

variable {α : Type} {d : Nat} {f : α → α} {p q : Parser α}

theorem ite {place : Place} {c : Prop} [Decidable c] {p' q' : Parser α}
    (h : Parallel d place f p q) (h' : Parallel d place f p' q') :
    Parallel d place f (if c then p else p') (if c then q else q') := by
  split
  · exact h
  · exact h'

theorem tooDeep : Parallel d .anywhere f Parser.tooDeep Parser.tooDeep :=
  next_bind fun _ => fault rfl

theorem integer (x : Lexeme) :
    Parallel d (.after x) (Expr.shift d) (Parser.integer x) (Parser.integer (x.shift d)) := by
  unfold Parser.integer
  rw [Lexeme.token_shift]
  cases Text.int64OfDecimal? x.token.literal with
  | some value => exact pure _
  | none => exact fault rfl

end Parallel

/-- The parsers of `P` and those of `Q` are put together in the same way. -/
structure ParallelAt (d : Nat) (P Q : Productions) : Prop where
  moreParameters :
    Parallel d .anywhere (List.map (Ident.shift d)) P.moreParameters Q.moreParameters
  expression : ∀ level,
    Parallel d .anywhere (Expr.shift d) (P.expression level) (Q.expression level)
  operand : Parallel d .anywhere (Expr.shift d) P.operand Q.operand
  unary : ∀ first, Parallel d .anywhere (Expr.shift d) (P.unary first) (Q.unary (first.shift d))
  grouped : ∀ first,
    Parallel d (.within first) (Expr.shift d) (P.grouped first) (Q.grouped (first.shift d))
  conditional : ∀ first,
    Parallel d .anywhere (Expr.shift d) (P.conditional first) (Q.conditional (first.shift d))
  function : ∀ first,
    Parallel d .anywhere (Expr.shift d) (P.function first) (Q.function (first.shift d))
  operators : ∀ level left,
    Parallel d .anywhere (Expr.shift d) (P.operators level left) (Q.operators level (left.shift d))
  arguments : ∀ opening,
    Parallel d (.within opening) (Prod.map (Expr.shiftAll d) (Lexeme.shift d))
      (P.arguments opening) (Q.arguments (opening.shift d))
  moreArguments : Parallel d .anywhere (Expr.shiftAll d) P.moreArguments Q.moreArguments
  block : ∀ opening,
    Parallel d .anywhere (Block.shift d) (P.block opening) (Q.block (opening.shift d))
  statement : Parallel d .anywhere (Stmt.shift d) P.statement Q.statement
  statements : ∀ enclosure,
    Parallel d .anywhere (Stmt.shiftAll d) (P.statements enclosure) (Q.statements enclosure)

namespace ParallelAt

variable {d : Nat}

theorem exhausted : ParallelAt d Productions.exhausted Productions.exhausted := by
  constructor <;> intros <;> first | exact .tooDeep | exact .forget .tooDeep

variable {P Q : Productions} (h : ParallelAt d P Q)
include h

theorem parameters (opening : Lexeme) :
    Parallel d (.within opening) (List.map (Ident.shift d)) (P.parameters opening)
      (Q.parameters (opening.shift d)) := by
  refine Parallel.peek.forget.bind fun _ => .ite (Parallel.next.forget.bind fun _ => .pure []) ?_
  refine (Parallel.expect .ident).forget.bind fun name => ?_
  refine h.moreParameters.forget.bind fun names => ?_
  exact (Parallel.closing opening).bind fun _ => .pure (⟨name.origin⟩ :: names)

theorem operandFrom (first : Lexeme) :
    Parallel d (.after first) (Expr.shift d) (P.operandFrom first)
      (Q.operandFrom (first.shift d)) := by
  unfold Productions.operandFrom
  rw [Lexeme.kind_shift]
  split
  · exact .pure _
  · exact .integer first
  · exact .pure _
  · exact .pure _
  · exact .pure _
  · exact (h.unary first).forget
  · exact (h.unary first).forget
  · next hkind => exact .enclosed hkind (h.grouped first)
  · exact (h.conditional first).forget
  · exact (h.function first).forget
  · exact .fault rfl

theorem clause (first : Lexeme) :
    Parallel d .anywhere (Clause.shift d) (P.clause first) (Q.clause (first.shift d)) := by
  unfold Productions.clause
  rw [Lexeme.kind_shift]
  split
  · refine Parallel.next.bind fun _ => (Parallel.expect .ident).bind fun name => ?_
    refine (Parallel.expect .assign).bind fun _ => (h.expression .lowest).bind fun value => ?_
    exact .pure (Clause.binding ⟨name.origin⟩ value)
  · refine Parallel.next.bind fun _ => (h.expression .lowest).bind fun value => ?_
    exact .pure (Clause.returning value)
  · exact (h.expression .lowest).bind fun value => .pure (Clause.expression value)

/-! ## One more level of calls -/

theorem unfold_moreParameters :
    Parallel d .anywhere (List.map (Ident.shift d)) P.unfold.moreParameters
      Q.unfold.moreParameters := by
  refine Parallel.peek.bind fun _ => .ite ?_ (.pure [])
  refine Parallel.next.bind fun _ => (Parallel.expect .ident).bind fun name => ?_
  exact h.moreParameters.bind fun names => .pure (⟨name.origin⟩ :: names)

theorem unfold_unary (first : Lexeme) :
    Parallel d .anywhere (Expr.shift d) (P.unfold.unary first)
      (Q.unfold.unary (first.shift d)) := by
  refine (h.expression .unary).bind fun right => ?_
  rw [Expr.span_shift]
  exact .pure _

theorem unfold_grouped (first : Lexeme) :
    Parallel d (.within first) (Expr.shift d) (P.unfold.grouped first)
      (Q.unfold.grouped (first.shift d)) := by
  refine (h.expression .lowest).forget.bind fun inner => ?_
  exact (Parallel.closing first).bind fun _ => .pure inner

theorem unfold_conditional (first : Lexeme) :
    Parallel d .anywhere (Expr.shift d) (P.unfold.conditional first)
      (Q.unfold.conditional (first.shift d)) := by
  refine .opening_bind fun opening => (h.expression .lowest).forget.bind fun condition => ?_
  refine (Parallel.closing opening).bind fun _ => .forget ?_
  refine (Parallel.expect .leftBrace).bind fun brace => (h.block brace).bind fun consequence => ?_
  refine Parallel.peek.bind fun _ => .ite ?_ ?_
  · refine Parallel.next.bind fun _ => (Parallel.expect .leftBrace).bind fun brace => ?_
    refine (h.block brace).bind fun alternative => ?_
    rw [Block.span_shift]
    exact .pure _
  · rw [Block.span_shift]
    exact .pure _

theorem unfold_function (first : Lexeme) :
    Parallel d .anywhere (Expr.shift d) (P.unfold.function first)
      (Q.unfold.function (first.shift d)) := by
  refine .opening_bind fun opening => (h.parameters opening).bind fun names => .forget ?_
  refine (Parallel.expect .leftBrace).bind fun brace => (h.block brace).bind fun body => ?_
  rw [Block.span_shift]
  exact .pure _

theorem unfold_operators (level : Precedence) (left : Expr) :
    Parallel d .anywhere (Expr.shift d) (P.unfold.operators level left)
      (Q.unfold.operators level (left.shift d)) := by
  refine Parallel.peek.bind fun _ => .ite (.next_bind fun operator => ?_) (.pure left)
  rw [Lexeme.kind_shift]
  split
  · next hkind =>
    refine .enclosed hkind ((h.arguments operator).bind fun x => .forget ?_)
    obtain ⟨values, closing⟩ := x
    have hcall := h.operators level
      (.call ⟨operator.token, left.span.start, closing.span.stop⟩ left values)
    dsimp only [Prod.map]
    rw [Expr.span_shift]
    exact hcall
  · refine .forget ((h.expression operator.kind.precedence).bind fun right => ?_)
    have hbinary := h.operators level
      (.binary ⟨operator.token, left.span.merge right.span⟩ operator.kind left right)
    rw [Expr.span_shift, Expr.span_shift, ← Span.shift_merge]
    exact hbinary

theorem unfold_arguments (opening : Lexeme) :
    Parallel d (.within opening) (Prod.map (Expr.shiftAll d) (Lexeme.shift d))
      (P.unfold.arguments opening) (Q.unfold.arguments (opening.shift d)) := by
  refine Parallel.peek.forget.bind fun _ => .ite ?_ ?_
  · exact Parallel.next.forget.bind fun closing => .pure ([], closing)
  · refine (h.expression .lowest).forget.bind fun value => ?_
    refine h.moreArguments.forget.bind fun values => ?_
    exact (Parallel.closing opening).bind fun closing => .pure (value :: values, closing)

theorem unfold_moreArguments :
    Parallel d .anywhere (Expr.shiftAll d) P.unfold.moreArguments Q.unfold.moreArguments := by
  refine Parallel.peek.bind fun _ => .ite ?_ (.pure [])
  refine Parallel.next.bind fun _ => (h.expression .lowest).bind fun value => ?_
  exact h.moreArguments.bind fun values => .pure (value :: values)

theorem unfold_block (opening : Lexeme) :
    Parallel d .anywhere (Block.shift d) (P.unfold.block opening)
      (Q.unfold.block (opening.shift d)) :=
  (h.statements .braces).bind fun _ => Parallel.next.bind fun _ => .pure _

theorem unfold_statement :
    Parallel d .anywhere (Stmt.shift d) P.unfold.statement Q.unfold.statement := by
  refine Parallel.peek.bind fun first => .ite ?_ ?_
  · exact Parallel.next.bind fun _ => (h.block first).bind fun body => .pure (Stmt.block body)
  · refine (h.clause first).bind fun clause => Parallel.finish.bind fun stop => ?_
    have hstatement : (clause.shift d).statement ⟨first.token, first.span.start + d, stop + d⟩ =
        (clause.statement ⟨first.token, first.span.start, stop⟩).shift d := by cases clause <;> rfl
    exact hstatement ▸ .pure _

theorem unfold_statements (enclosure : Enclosure) :
    Parallel d .anywhere (Stmt.shiftAll d) (P.unfold.statements enclosure)
      (Q.unfold.statements enclosure) := by
  refine Parallel.peek.bind fun _ => .ite (.pure []) ?_
  refine h.statement.recovering.bind fun first => (h.statements enclosure).bind fun others => ?_
  have hbody : (first.map (Stmt.shift d)).toList ++ Stmt.shiftAll d others =
      Stmt.shiftAll d (first.toList ++ others) := by cases first <;> rfl
  exact hbody ▸ .pure _

theorem unfold : ParallelAt d P.unfold Q.unfold where
  moreParameters := h.unfold_moreParameters
  expression level := h.operand.bind fun left => h.operators level left
  operand := .next_bind fun first => h.operandFrom first
  unary := h.unfold_unary
  grouped := h.unfold_grouped
  conditional := h.unfold_conditional
  function := h.unfold_function
  operators := h.unfold_operators
  arguments := h.unfold_arguments
  moreArguments := h.unfold_moreArguments
  block := h.unfold_block
  statement := h.unfold_statement
  statements := h.unfold_statements

end ParallelAt

/-- One more level of calls. -/
theorem productions_succ (n : Nat) : productions (n + 1) = (productions n).unfold := rfl

/-- **The productions are put together in the same way whatever the places.** -/
theorem parallelAt (d n : Nat) : ParallelAt d (productions n) (productions n) := by
  induction n with
  | zero => exact .exhausted
  | succ n ih => exact ih.unfold

end Parser
end ScriptLang
