import ScriptLang.Parse.Basic
import ScriptLang.Parse.Precedence
import ScriptLang.Tree
import ScriptLang.Text.Decimal

/-!
# Productions

A parser for each sort of phrase. An expression is an operand followed by operators, each of which
is taken as long as it binds tighter than the level asked for.

The productions call each other. `Productions.unfold` says what each of them does, given parsers to
call in place of the others, and `productions n` are the productions with `n` levels of calls. The
number `Parser.depth` of levels is enough for a stream of a given length, because at most five
productions call each other before a token is read.
-/

namespace ScriptLang

/-- Where statements stand, which decides where they end. -/
inductive Enclosure where
  /-- In a source, up to its end. -/
  | file
  /-- Between braces, up to the closing one or the end of the source. -/
  | braces
  deriving DecidableEq, Repr, Inhabited

/-- Whether statements end before a token of this kind. -/
def Enclosure.endsAt (enclosure : Enclosure) (kind : TokenKind) : Bool :=
  match enclosure with
  | file => kind = .eof
  | braces => kind = .eof || kind = .rightBrace

/-- A statement other than a block, without where it stands. -/
inductive Clause where
  | binding (name : Ident) (value : Expr)
  | returning (value : Expr)
  | expression (value : Expr)

/-- The statement that stands at the given place. -/
def Clause.statement (origin : Origin) : Clause → Stmt
  | binding name value => .binding origin name value
  | returning value => .returning origin value
  | expression value => .expression origin value

namespace Parser

/-- A depth that parsing a stream of `n` tokens does not exceed. -/
def depth (n : Nat) : Nat := 5 * n + 5

/-- What comes of a production that is called too deep: the next token is taken as a fault. -/
def tooDeep {α : Type} : Parser α := do
  let first ← next
  fail (.noExpression first.kind) first.span

/-- The integer that a token denotes. -/
def integer (token : Lexeme) : Parser Expr :=
  match Text.int64OfDecimal? token.token.literal with
  | some value => return .integer token.origin value
  | none => fail (.badInteger token.token.literal) token.span

/-- A parser for each production that another one calls. -/
structure Productions where
  /-- Further parameters, each after a comma. -/
  moreParameters : Parser (List Ident)
  /-- An expression whose operators bind tighter than a level. -/
  expression : Precedence → Parser Expr
  /-- An expression up to its first binary operator or call. -/
  operand : Parser Expr
  /-- The operand of a unary operator that has been read. -/
  unary : Lexeme → Parser Expr
  /-- An expression in parentheses, after the opening one. -/
  grouped : Lexeme → Parser Expr
  /-- A conditional, after its keyword. -/
  conditional : Lexeme → Parser Expr
  /-- A function literal, after its keyword. -/
  function : Lexeme → Parser Expr
  /-- Binary operators and calls that follow an expression and bind tighter than a level. -/
  operators : Precedence → Expr → Parser Expr
  /-- The arguments of a call, after the opening parenthesis, and the closing one. -/
  arguments : Lexeme → Parser (List Expr × Lexeme)
  /-- Further arguments, each after a comma. -/
  moreArguments : Parser (List Expr)
  /-- A block, after its opening brace. The token that ends it, be it the closing brace or the end
  of the source, is part of it. -/
  block : Lexeme → Parser Block
  /-- A statement. -/
  statement : Parser Stmt
  /-- Statements up to the end of what encloses them. Those that cannot be read are left out. -/
  statements : Enclosure → Parser (List Stmt)

namespace Productions

/-- The parameters of a function, after the opening parenthesis. -/
def parameters (P : Productions) (opening : Lexeme) : Parser (List Ident) := do
  if (← peek).kind = .rightParen then
    let _ ← next
    return []
  else
    let name ← expect .ident none
    let names ← P.moreParameters
    let _ ← expect .rightParen (some opening.span)
    return ⟨name.origin⟩ :: names

/-- An operand whose first token has been read. -/
def operandFrom (P : Productions) (first : Lexeme) : Parser Expr :=
  match first.kind with
  | .ident => return .ident ⟨first.origin⟩
  | .int => integer first
  | .string => return .string first.origin
  | .kwTrue => return .boolean first.origin true
  | .kwFalse => return .boolean first.origin false
  | .bang => P.unary first
  | .minus => P.unary first
  | .leftParen => P.grouped first
  | .kwIf => P.conditional first
  | .kwFn => P.function first
  | kind => fail (.noExpression kind) first.span

/-- A statement other than a block, which starts with `first`, up to the semicolon that may end
it. -/
def clause (P : Productions) (first : Lexeme) : Parser Clause := do
  match first.kind with
  | .kwLet =>
    let _ ← next
    let name ← expect .ident none
    let _ ← expect .assign none
    let value ← P.expression .lowest
    return .binding ⟨name.origin⟩ value
  | .kwReturn =>
    let _ ← next
    let value ← P.expression .lowest
    return .returning value
  | _ =>
    let value ← P.expression .lowest
    return .expression value

/-- A whole source. Its span runs from the first token to the end token, which is left unread. -/
def program (P : Productions) : Parser Program := do
  let first ← peek
  let body ← P.statements .file
  let ending ← peek
  return ⟨body, first.span.start, ending.span.stop⟩

/-- What the productions do, where they call the given parsers. -/
def unfold (P : Productions) : Productions where
  moreParameters := do
    if (← peek).kind = .comma then
      let _ ← next
      let name ← expect .ident none
      let names ← P.moreParameters
      return ⟨name.origin⟩ :: names
    else
      return []
  expression level := do
    let left ← P.operand
    P.operators level left
  operand := do
    let first ← next
    P.operandFrom first
  unary first := do
    let right ← P.expression .unary
    return .unary ⟨first.token, first.span.start, right.span.stop⟩ first.kind right
  grouped first := do
    let inner ← P.expression .lowest
    let _ ← expect .rightParen (some first.span)
    return inner
  conditional first := do
    let opening ← expect .leftParen none
    let condition ← P.expression .lowest
    let _ ← expect .rightParen (some opening.span)
    let brace ← expect .leftBrace none
    let consequence ← P.block brace
    if (← peek).kind = .kwElse then
      let _ ← next
      let brace ← expect .leftBrace none
      let alternative ← P.block brace
      return .conditional ⟨first.token, first.span.start, alternative.span.stop⟩ condition
        consequence (some alternative)
    else
      return .conditional ⟨first.token, first.span.start, consequence.span.stop⟩ condition
        consequence none
  function first := do
    let opening ← expect .leftParen none
    let names ← P.parameters opening
    let brace ← expect .leftBrace none
    let body ← P.block brace
    return .function ⟨first.token, first.span.start, body.span.stop⟩ names body
  operators level left := do
    if level.rank < (← peek).kind.precedence.rank then
      let operator ← next
      if operator.kind = .leftParen then
        let (values, closing) ← P.arguments operator
        P.operators level
          (.call ⟨operator.token, left.span.start, closing.span.stop⟩ left values)
      else
        let right ← P.expression operator.kind.precedence
        P.operators level
          (.binary ⟨operator.token, left.span.merge right.span⟩ operator.kind left right)
    else
      return left
  arguments opening := do
    if (← peek).kind = .rightParen then
      let closing ← next
      return ([], closing)
    else
      let value ← P.expression .lowest
      let values ← P.moreArguments
      let closing ← expect .rightParen (some opening.span)
      return (value :: values, closing)
  moreArguments := do
    if (← peek).kind = .comma then
      let _ ← next
      let value ← P.expression .lowest
      let values ← P.moreArguments
      return value :: values
    else
      return []
  block opening := do
    let body ← P.statements .braces
    let closing ← next
    return ⟨⟨opening.token, opening.span.start, closing.span.stop⟩, body⟩
  statement := do
    let first ← peek
    if first.kind = .leftBrace then
      let _ ← next
      let body ← P.block first
      return .block body
    else
      let clause ← P.clause first
      let stop ← finish
      return clause.statement ⟨first.token, first.span.start, stop⟩
  statements enclosure := do
    if enclosure.endsAt (← peek).kind then
      return []
    else
      let first ← recovering P.statement
      let others ← P.statements enclosure
      return first.toList ++ others

/-- The productions with `n` levels of calls above the given parsers. -/
def unfolded (P : Productions) : Nat → Productions
  | 0 => P
  | n + 1 => (P.unfolded n).unfold

/-- Below the last level nothing can be read. -/
def exhausted : Productions where
  moreParameters := tooDeep
  expression _ := tooDeep
  operand := tooDeep
  unary _ := tooDeep
  grouped _ := tooDeep
  conditional _ := tooDeep
  function _ := tooDeep
  operators _ _ := tooDeep
  arguments _ := tooDeep
  moreArguments := tooDeep
  block _ := tooDeep
  statement := tooDeep
  statements _ := tooDeep

end Productions

/-- The productions with `n` levels of calls. -/
def productions (n : Nat) : Productions := Productions.exhausted.unfolded n

end Parser

end ScriptLang
