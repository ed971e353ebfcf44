import ScriptLang.Proofs.Parse.Parenthesized

/-!
# Reading the tokens of a tree

The canonical form is in the full style: the parentheses that go with every operator leave the
precedence of operators nothing to decide. So the tokens of a well-formed tree are read as the tree
itself, up to places.
-/

namespace ScriptLang

open ScriptLang.Parser

mutual

/-- The tokens of an expression are those of the full style, wherever it stands. -/
theorem Expr.tokens_eq (e : Expr) (position : Position) : e.tokens = e.tokensAt .full position := by
  match e with
  | .ident name => rfl
  | .integer origin value => rfl
  | .string origin => rfl
  | .boolean origin value => rfl
  | .unary origin operator operand =>
    simp only [Expr.tokens, Expr.tokensAt, Expr.tokensIn, operand.tokens_eq .operand]
    rfl
  | .binary origin operator left right =>
    simp only [Expr.tokens, Expr.tokensAt, Expr.tokensIn, left.tokens_eq (.left operator),
      right.tokens_eq (.right operator), Style.full, Token.bracket, if_true, List.append_assoc,
      List.cons_append]
  | .conditional origin condition consequence alternative =>
    simp only [Expr.tokens, Expr.tokensAt, Expr.tokensIn, condition.tokens_eq .whole,
      consequence.tokens_eq, Block.elseTokens_eq alternative]
    rfl
  | .function origin parameters body =>
    simp only [Expr.tokens, Expr.tokensAt, Expr.tokensIn, body.tokens_eq]
    rfl
  | .call origin callee arguments =>
    simp only [Expr.tokens, Expr.tokensAt, Expr.tokensIn, callee.tokens_eq .callee,
      Expr.listTokens_eq arguments]
    rfl

theorem Expr.listTokens_eq (es : List Expr) : Expr.listTokens es = Expr.listTokensIn .full es := by
  match es with
  | [] => rfl
  | e :: es =>
    rw [Expr.listTokens, Expr.listTokensIn, e.tokens_eq .whole, Expr.moreTokens_eq es]
    rfl

theorem Expr.moreTokens_eq (es : List Expr) : Expr.moreTokens es = Expr.moreTokensIn .full es := by
  match es with
  | [] => rfl
  | e :: es =>
    rw [Expr.moreTokens, Expr.moreTokensIn, e.tokens_eq .whole, Expr.moreTokens_eq es]
    rfl

theorem Stmt.tokens_eq (s : Stmt) : s.tokens = s.tokensIn .full := by
  match s with
  | .binding origin name value =>
    rw [Stmt.tokens, Stmt.tokensIn, value.tokens_eq .whole]
    rfl
  | .returning origin value =>
    rw [Stmt.tokens, Stmt.tokensIn, value.tokens_eq .whole]
    rfl
  | .expression origin value =>
    rw [Stmt.tokens, Stmt.tokensIn, value.tokens_eq .whole]
    rfl
  | .block body => rw [Stmt.tokens, Stmt.tokensIn, body.tokens_eq]

theorem Block.tokens_eq (b : Block) : b.tokens = b.tokensIn .full := by
  match b with
  | .mk origin statements => rw [Block.tokens, Block.tokensIn, Stmt.listTokens_eq statements]

theorem Block.elseTokens_eq (b : Option Block) :
    Block.elseTokens b = Block.elseTokensIn .full b := by
  match b with
  | none => rfl
  | some body => rw [Block.elseTokens, Block.elseTokensIn, body.tokens_eq]

theorem Stmt.listTokens_eq (ss : List Stmt) : Stmt.listTokens ss = Stmt.listTokensIn .full ss := by
  match ss with
  | [] => rfl
  | s :: rest => rw [Stmt.listTokens, Stmt.listTokensIn, s.tokens_eq, Stmt.listTokens_eq rest]

end

/-- **The tokens of statements are read as the statements.** -/
theorem Stmt.listIsRead (ss : List Stmt) (hss : Stmt.AllWellFormed ss) (enclosure : Enclosure)
    (m : List Token) (hm : enclosure.endsAt (m.headD Token.eof).kind) :
    Reads (·.statements enclosure) (Stmt.listTokens ss ++ m)
      (fun ss' => Stmt.eraseAll ss' = Stmt.eraseAll ss) m := by
  rw [Stmt.listTokens_eq]
  exact Stmt.listIsReadIn Style.suffices_full ss hss enclosure m hm

end ScriptLang
