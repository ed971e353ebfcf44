import ScriptLang.Proofs.Tree.Tokens

/-!
# Parentheses

Trees written with more or with fewer parentheses. A style says which expressions stand in
parentheses, depending on where they stand. The canonical form is written in the full style, which
has parentheses around every operator; the sparse style only has those without which an expression
would be read as another one.

How tightly operators bind, from the loosest to the tightest: `==` and `!=`, `<` and `>`, `+` and
`-`, `*` and `/`, the unary operators, calls. Operators that bind alike group to the left.
-/

namespace ScriptLang

/-! ## Styles -/

/-- How tightly an operator between operands binds. -/
def TokenKind.tightness : TokenKind → Nat
  | .equal | .notEqual => 1
  | .lessThan | .greaterThan => 2
  | .plus | .minus => 3
  | .asterisk | .slash => 4
  | _ => 0

/-- Where an expression stands. -/
inductive Position where
  /-- On its own, between marks that no expression reaches across. -/
  | whole
  /-- To the left of a binary operator. -/
  | left (parent : TokenKind)
  /-- To the right of a binary operator. -/
  | right (parent : TokenKind)
  /-- After a unary operator. -/
  | operand
  /-- Before the arguments of a call. -/
  | callee

/-- Which expressions are written in parentheses. -/
abbrev Style : Type := Position → Expr → Bool

namespace Style

/-- Parentheses only where an operator would lose an operand to the one next to it. -/
def sparse : Style
  | .left parent, .binary _ operator _ _ => operator.tightness < parent.tightness
  | .right parent, .binary _ operator _ _ => operator.tightness ≤ parent.tightness
  | .operand, .binary _ _ _ _ => true
  | .callee, .unary _ _ _ => true
  | .callee, .binary _ _ _ _ => true
  | _, _ => false

/-- Parentheses around every operator. -/
def full : Style
  | _, .unary _ _ _ => true
  | _, .binary _ _ _ _ => true
  | _, _ => false

/-- A style that has at least the parentheses that are needed. -/
def Suffices (style : Style) : Prop := ∀ position e, sparse position e → style position e

theorem suffices_sparse : sparse.Suffices := fun _ _ h => h

theorem suffices_full : full.Suffices := by
  intro position e h
  cases e with
  | unary | binary => rfl
  | _ => cases position <;> cases h

end Style

/-! ## Tokens -/

/-- Tokens, between parentheses or not. -/
def Token.bracket (parens : Bool) (ts : List Token) : List Token :=
  if parens then Token.ofSymbol .leftParen :: (ts ++ [Token.ofSymbol .rightParen]) else ts

mutual

/-- The tokens of an expression in a style. Whether there are parentheses around all of them
depends on where the expression stands. -/
def Expr.tokensIn (style : Style) : Expr → List Token
  | .ident name => [name.origin.token]
  | .integer origin _ => [origin.token]
  | .string origin => [origin.token]
  | .boolean origin _ => [origin.token]
  | .unary origin _ operand =>
    origin.token :: Token.bracket (style .operand operand) (operand.tokensIn style)
  | .binary origin operator left right =>
    Token.bracket (style (.left operator) left) (left.tokensIn style) ++
      origin.token :: Token.bracket (style (.right operator) right) (right.tokensIn style)
  | .conditional origin condition consequence alternative =>
    origin.token :: Token.ofSymbol .leftParen ::
      (Token.bracket (style .whole condition) (condition.tokensIn style) ++
        Token.ofSymbol .rightParen ::
          (consequence.tokensIn style ++ Block.elseTokensIn style alternative))
  | .function origin parameters body =>
    origin.token :: Token.ofSymbol .leftParen ::
      (Ident.listTokens parameters ++ Token.ofSymbol .rightParen :: body.tokensIn style)
  | .call origin callee arguments =>
    Token.bracket (style .callee callee) (callee.tokensIn style) ++
      origin.token :: (Expr.listTokensIn style arguments ++ [Token.ofSymbol .rightParen])

/-- The tokens of expressions separated by commas. -/
def Expr.listTokensIn (style : Style) : List Expr → List Token
  | [] => []
  | e :: es => Token.bracket (style .whole e) (e.tokensIn style) ++ Expr.moreTokensIn style es

/-- The tokens of expressions, each after a comma. -/
def Expr.moreTokensIn (style : Style) : List Expr → List Token
  | [] => []
  | e :: es =>
    Token.ofSymbol .comma ::
      (Token.bracket (style .whole e) (e.tokensIn style) ++ Expr.moreTokensIn style es)

/-- The tokens of a statement. All but blocks end in a semicolon. -/
def Stmt.tokensIn (style : Style) : Stmt → List Token
  | .binding origin name value =>
    origin.token :: name.origin.token :: Token.ofSymbol .assign ::
      (Token.bracket (style .whole value) (value.tokensIn style) ++ [Token.ofSymbol .semicolon])
  | .returning origin value =>
    origin.token ::
      (Token.bracket (style .whole value) (value.tokensIn style) ++ [Token.ofSymbol .semicolon])
  | .expression _ value =>
    Token.bracket (style .whole value) (value.tokensIn style) ++ [Token.ofSymbol .semicolon]
  | .block body => body.tokensIn style

/-- The tokens of a block. -/
def Block.tokensIn (style : Style) : Block → List Token
  | .mk origin statements =>
    origin.token :: (Stmt.listTokensIn style statements ++ [Token.ofSymbol .rightBrace])

/-- The tokens of the alternative of a conditional. -/
def Block.elseTokensIn (style : Style) : Option Block → List Token
  | none => []
  | some body => ⟨.kwElse, "else"⟩ :: body.tokensIn style

/-- The tokens of statements. -/
def Stmt.listTokensIn (style : Style) : List Stmt → List Token
  | [] => []
  | s :: rest => s.tokensIn style ++ Stmt.listTokensIn style rest

end

/-- The tokens of an expression where it stands. -/
def Expr.tokensAt (style : Style) (position : Position) (e : Expr) : List Token :=
  Token.bracket (style position e) (e.tokensIn style)

/-- An expression with as few parentheses as can be, its tokens separated by blanks. -/
def Expr.sparseForm (e : Expr) : String :=
  String.intercalate " " ((e.tokensAt .sparse .whole).map Token.spelling)

/-- The tokens of a block, from brace to brace. -/
theorem Block.tokensIn_eq (style : Style) (b : Block) : b.tokensIn style =
    b.origin.token :: (Stmt.listTokensIn style b.statements ++ [Token.ofSymbol .rightBrace]) := by
  cases b
  rw [Block.tokensIn]
  rfl

/-! ## The tokens can be spelled -/

/-- An operator is spelled by its name. -/
theorem Token.wellFormed_operator {kind : TokenKind}
    (h : kind ∈ TokenKind.unaryOperators ∨ kind ∈ TokenKind.binaryOperators) :
    (Token.ofSymbol kind).WellFormed := by
  cases kind <;> first | rfl | exact absurd h (by decide)

theorem Token.wellFormed_bracket {ts : List Token} (h : ∀ t ∈ ts, t.WellFormed) (parens : Bool) :
    ∀ t ∈ Token.bracket parens ts, t.WellFormed := by
  unfold Token.bracket
  split
  · simp only [List.forall_mem_cons, List.forall_mem_append]
    exact ⟨rfl, h, rfl, List.forall_mem_nil _⟩
  · exact h

theorem Ident.wellFormed_moreTokens {names : List Ident} (h : ∀ i ∈ names, i.WellFormed) :
    ∀ t ∈ Ident.moreTokens names, t.WellFormed := by
  intro t ht
  obtain ⟨i, hi, ht⟩ := List.mem_flatMap.mp ht
  rcases List.mem_cons.mp ht with rfl | ht
  · rfl
  · rw [List.mem_singleton.mp ht]
    exact (h i hi).2

theorem Ident.wellFormed_listTokens {names : List Ident} (h : ∀ i ∈ names, i.WellFormed) :
    ∀ t ∈ Ident.listTokens names, t.WellFormed := by
  cases names with
  | nil => exact fun _ ht => absurd ht List.not_mem_nil
  | cons i rest =>
    obtain ⟨hi, hrest⟩ := List.forall_mem_cons.mp h
    exact List.forall_mem_cons.mpr ⟨hi.2, Ident.wellFormed_moreTokens hrest⟩

mutual

/-- The tokens of a well-formed expression are well formed in every style. -/
theorem Expr.wellFormed_tokensIn (style : Style) (e : Expr) (he : e.WellFormed) :
    ∀ t ∈ e.tokensIn style, t.WellFormed := by
  match e with
  | .ident name => simpa [Expr.tokensIn] using he.2
  | .integer origin value => simpa [Expr.tokensIn] using he.2.1
  | .string origin => simpa [Expr.tokensIn] using he.2
  | .boolean origin value =>
    rw [Expr.WellFormed] at he
    simp only [Expr.tokensIn, List.forall_mem_singleton, he]
    cases value <;> rfl
  | .unary origin operator operand =>
    obtain ⟨hoperator, htoken, hoperand⟩ := he
    have hsign : origin.token.WellFormed := by
      rw [htoken]
      exact Token.wellFormed_operator (Or.inl hoperator)
    simp only [Expr.tokensIn, List.forall_mem_cons]
    exact ⟨hsign, Token.wellFormed_bracket (operand.wellFormed_tokensIn style hoperand) _⟩
  | .binary origin operator left right =>
    obtain ⟨hoperator, htoken, hleft, hright⟩ := he
    have hsign : origin.token.WellFormed := by
      rw [htoken]
      exact Token.wellFormed_operator (Or.inr hoperator)
    simp only [Expr.tokensIn, List.forall_mem_append, List.forall_mem_cons]
    exact ⟨Token.wellFormed_bracket (left.wellFormed_tokensIn style hleft) _, hsign,
      Token.wellFormed_bracket (right.wellFormed_tokensIn style hright) _⟩
  | .conditional origin condition consequence alternative =>
    obtain ⟨htoken, hcondition, hconsequence, halternative⟩ := he
    simp only [Expr.tokensIn, List.forall_mem_append, List.forall_mem_cons]
    exact ⟨by rw [htoken]; rfl, rfl,
      Token.wellFormed_bracket (condition.wellFormed_tokensIn style hcondition) _, rfl,
      consequence.wellFormed_tokensIn style hconsequence,
      Block.wellFormed_elseTokensIn style alternative halternative⟩
  | .function origin parameters body =>
    obtain ⟨htoken, hparameters, hbody⟩ := he
    simp only [Expr.tokensIn, List.forall_mem_append, List.forall_mem_cons]
    exact ⟨by rw [htoken]; rfl, rfl, Ident.wellFormed_listTokens hparameters, rfl,
      body.wellFormed_tokensIn style hbody⟩
  | .call origin callee arguments =>
    obtain ⟨htoken, hcallee, harguments⟩ := he
    simp only [Expr.tokensIn, List.forall_mem_append, List.forall_mem_cons]
    exact ⟨Token.wellFormed_bracket (callee.wellFormed_tokensIn style hcallee) _,
      by rw [htoken]; rfl, Expr.wellFormed_listTokensIn style arguments harguments, rfl,
      List.forall_mem_nil _⟩

theorem Expr.wellFormed_listTokensIn (style : Style) (es : List Expr)
    (hes : Expr.AllWellFormed es) : ∀ t ∈ Expr.listTokensIn style es, t.WellFormed := by
  match es with
  | [] => simp [Expr.listTokensIn]
  | e :: es =>
    simp only [Expr.listTokensIn, List.forall_mem_append]
    exact ⟨Token.wellFormed_bracket (e.wellFormed_tokensIn style hes.1) _,
      Expr.wellFormed_moreTokensIn style es hes.2⟩

theorem Expr.wellFormed_moreTokensIn (style : Style) (es : List Expr)
    (hes : Expr.AllWellFormed es) : ∀ t ∈ Expr.moreTokensIn style es, t.WellFormed := by
  match es with
  | [] => simp [Expr.moreTokensIn]
  | e :: es =>
    simp only [Expr.moreTokensIn, List.forall_mem_append, List.forall_mem_cons]
    exact ⟨rfl, Token.wellFormed_bracket (e.wellFormed_tokensIn style hes.1) _,
      Expr.wellFormed_moreTokensIn style es hes.2⟩

theorem Stmt.wellFormed_tokensIn (style : Style) (s : Stmt) (hs : s.WellFormed) :
    ∀ t ∈ s.tokensIn style, t.WellFormed := by
  match s with
  | .binding origin name value =>
    obtain ⟨htoken, hname, hvalue⟩ := hs
    simp only [Stmt.tokensIn, List.forall_mem_append, List.forall_mem_cons]
    exact ⟨by rw [htoken]; rfl, hname.2, rfl,
      Token.wellFormed_bracket (value.wellFormed_tokensIn style hvalue) _, rfl,
      List.forall_mem_nil _⟩
  | .returning origin value =>
    obtain ⟨htoken, hvalue⟩ := hs
    simp only [Stmt.tokensIn, List.forall_mem_append, List.forall_mem_cons]
    exact ⟨by rw [htoken]; rfl,
      Token.wellFormed_bracket (value.wellFormed_tokensIn style hvalue) _, rfl,
      List.forall_mem_nil _⟩
  | .expression origin value =>
    simp only [Stmt.tokensIn, List.forall_mem_append, List.forall_mem_cons]
    exact ⟨Token.wellFormed_bracket (value.wellFormed_tokensIn style hs) _, rfl,
      List.forall_mem_nil _⟩
  | .block body =>
    rw [Stmt.tokensIn]
    exact body.wellFormed_tokensIn style hs

theorem Block.wellFormed_tokensIn (style : Style) (b : Block) (hb : b.WellFormed) :
    ∀ t ∈ b.tokensIn style, t.WellFormed := by
  match b with
  | .mk origin statements =>
    obtain ⟨htoken, hstatements⟩ := hb
    simp only [Block.tokensIn, List.forall_mem_append, List.forall_mem_cons]
    exact ⟨by rw [htoken]; rfl, Stmt.wellFormed_listTokensIn style statements hstatements, rfl,
      List.forall_mem_nil _⟩

theorem Block.wellFormed_elseTokensIn (style : Style) (b : Option Block)
    (hb : Block.ElseWellFormed b) : ∀ t ∈ Block.elseTokensIn style b, t.WellFormed := by
  match b with
  | none => simp [Block.elseTokensIn]
  | some body =>
    simp only [Block.elseTokensIn, List.forall_mem_cons]
    exact ⟨rfl, body.wellFormed_tokensIn style hb⟩

theorem Stmt.wellFormed_listTokensIn (style : Style) (ss : List Stmt)
    (hss : Stmt.AllWellFormed ss) : ∀ t ∈ Stmt.listTokensIn style ss, t.WellFormed := by
  match ss with
  | [] => simp [Stmt.listTokensIn]
  | s :: rest =>
    simp only [Stmt.listTokensIn, List.forall_mem_append]
    exact ⟨s.wellFormed_tokensIn style hss.1, Stmt.wellFormed_listTokensIn style rest hss.2⟩

end

end ScriptLang
