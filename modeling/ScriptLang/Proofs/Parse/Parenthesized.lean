import ScriptLang.Proofs.Parse.Productions
import ScriptLang.Proofs.Tree.Parentheses

/-!
# Reading trees that have enough parentheses

In every style that has the parentheses that are needed, the tokens of a well-formed tree are read
as the tree itself, up to places.

An expression without parentheses is read by a loop over operators that takes those which bind
tighter than some level. Two things can go wrong. The loop may end before it comes to the operator
of the expression, if that binds too loosely; or the token that follows may bind tighter than this
operator, and would then be taken together with its last operand. The parentheses of the sparse
style are there where one of these would happen.
-/

namespace ScriptLang

open ScriptLang.Parser

/-! ## What an expression may stand between -/

/-- The levels of the parser are those of the operators. -/
theorem TokenKind.rank_precedence {kind : TokenKind} (h : kind ∈ TokenKind.binaryOperators) :
    kind.precedence.rank = kind.tightness := by
  cases kind <;> first | rfl | exact absurd h (by decide)

/-- Without parentheses the expression is read as a whole where operators have to bind tighter than
`level` and where `next` follows. -/
def Expr.Fits (level : Precedence) (next : TokenKind) : Expr → Prop
  | .binary _ operator _ _ =>
    level.rank < operator.tightness ∧ next.precedence.rank ≤ operator.tightness
  | .unary _ _ _ =>
    level.rank < Precedence.call.rank ∧ next.precedence.rank ≤ Precedence.unary.rank
  | _ => level.rank < Precedence.call.rank

namespace Expr

variable {e : Expr} {level : Precedence} {parent next : TokenKind}

/-- An expression on its own ends where no operator follows. -/
theorem fits_whole (he : e.WellFormed) (hnext : next.precedence = .lowest) :
    e.Fits .lowest next := by
  cases e with
  | binary origin operator left right =>
    have hrank := (rank_of_mem_binaryOperators he.1).1
    rw [TokenKind.rank_precedence he.1] at hrank
    exact ⟨hrank, by rw [hnext]; exact Nat.zero_le _⟩
  | unary => exact ⟨by decide, by rw [hnext]; decide⟩
  | _ => exact (by decide : Precedence.lowest.rank < Precedence.call.rank)

theorem fits_left (h : Style.sparse (.left parent) e = false)
    (hparent : parent ∈ TokenKind.binaryOperators) (hlevel : level.rank < parent.tightness) :
    e.Fits level parent := by
  have htight := (rank_of_mem_binaryOperators hparent).2
  have hcall : Precedence.unary.rank < Precedence.call.rank := by decide
  rw [TokenKind.rank_precedence hparent] at htight
  cases e with
  | binary origin operator left right =>
    simp only [Style.sparse, decide_eq_false_iff_not] at h
    rw [Fits, TokenKind.rank_precedence hparent]
    omega
  | unary =>
    rw [Fits, TokenKind.rank_precedence hparent]
    omega
  | _ =>
    show level.rank < Precedence.call.rank
    omega

/-- The operator to the left of an expression is the level at which this is read. -/
theorem fits_right (h : Style.sparse (.right parent) e = false)
    (hparent : parent ∈ TokenKind.binaryOperators)
    (hnext : next.precedence.rank ≤ parent.tightness) : e.Fits parent.precedence next := by
  have htight := (rank_of_mem_binaryOperators hparent).2
  have hcall : Precedence.unary.rank < Precedence.call.rank := by decide
  cases e with
  | binary origin operator left right =>
    simp only [Style.sparse, decide_eq_false_iff_not] at h
    rw [Fits, TokenKind.rank_precedence hparent]
    omega
  | unary =>
    rw [TokenKind.rank_precedence hparent] at htight
    rw [Fits, TokenKind.rank_precedence hparent]
    omega
  | _ => exact Nat.lt_trans htight hcall

theorem fits_operand (h : Style.sparse .operand e = false)
    (hnext : next.precedence.rank ≤ Precedence.unary.rank) : e.Fits .unary next := by
  cases e with
  | binary => cases h
  | unary => exact ⟨by decide, hnext⟩
  | _ => exact (by decide : Precedence.unary.rank < Precedence.call.rank)

/-- A callee with no operator of its own may stand before anything, arguments among them. -/
theorem fits_callee (h : Style.sparse .callee e = false)
    (hlevel : level.rank < Precedence.call.rank) : e.Fits level next := by
  cases e with
  | binary => cases h
  | unary => cases h
  | _ => exact hlevel

end Expr

/-! ## First tokens -/

/-- Parentheses start an expression too. -/
theorem Token.startsExpression_bracket {ts : List Token}
    (h : (ts.headD Token.eof).kind.startsExpression) (parens : Bool) (m : List Token) :
    ((Token.bracket parens ts ++ m).headD Token.eof).kind.startsExpression := by
  cases parens with
  | true => rfl
  | false =>
    show ((ts ++ m).headD Token.eof).kind.startsExpression
    rw [headD_append_of_starts m h]
    exact h

/-- An expression starts with a token that can start one. -/
theorem Expr.startsExpression_tokensIn (style : Style) (e : Expr) (he : e.WellFormed) :
    ((e.tokensIn style).headD Token.eof).kind.startsExpression := by
  cases e with
  | ident name => simp [Expr.tokensIn, he.1, TokenKind.startsExpression]
  | integer origin value => simp [Expr.tokensIn, he.1, TokenKind.startsExpression]
  | string origin => simp [Expr.tokensIn, he.1, TokenKind.startsExpression]
  | boolean origin value =>
    rw [Expr.WellFormed] at he
    cases value <;> simp [Expr.tokensIn, he, TokenKind.startsExpression]
  | unary origin operator operand =>
    obtain ⟨hoperator, htoken, -⟩ := he
    rw [Expr.tokensIn, List.headD_cons, htoken]
    rcases TokenKind.mem_unaryOperators.mp hoperator with rfl | rfl <;> rfl
  | binary origin operator left right =>
    rw [Expr.tokensIn]
    exact Token.startsExpression_bracket (left.startsExpression_tokensIn style he.2.2.1) _ _
  | conditional origin condition consequence alternative =>
    simp [Expr.tokensIn, he.1, TokenKind.startsExpression]
  | function origin parameters body => simp [Expr.tokensIn, he.1, TokenKind.startsExpression]
  | call origin callee arguments =>
    rw [Expr.tokensIn]
    exact Token.startsExpression_bracket (callee.startsExpression_tokensIn style he.2.1) _ _

theorem Expr.startsExpression_tokensAt {e : Expr} (he : e.WellFormed) (style : Style)
    (position : Position) (m : List Token) :
    ((e.tokensAt style position ++ m).headD Token.eof).kind.startsExpression :=
  Token.startsExpression_bracket (e.startsExpression_tokensIn style he) _ m

/-- The first token of a statement is neither the end nor a closing brace. -/
theorem Stmt.head_tokensIn {s : Stmt} (hs : s.WellFormed) (style : Style) (m : List Token) :
    ((s.tokensIn style ++ m).headD Token.eof).kind ≠ .eof ∧
      ((s.tokensIn style ++ m).headD Token.eof).kind ≠ .rightBrace := by
  cases s with
  | binding origin name value => simp [Stmt.tokensIn, hs.1]
  | returning origin value => simp [Stmt.tokensIn, hs.1]
  | expression origin value =>
    have hstarts := Expr.startsExpression_tokensAt hs style .whole
      ([Token.ofSymbol .semicolon] ++ m)
    rw [Stmt.tokensIn, List.append_assoc]
    exact ⟨TokenKind.ne_of_startsExpression hstarts rfl,
      TokenKind.ne_of_startsExpression hstarts rfl⟩
  | block body =>
    obtain ⟨origin, statements⟩ := body
    simp [Stmt.tokensIn, Block.tokensIn, hs.1, Token.ofSymbol]

/-- A block starts with a brace. -/
theorem Block.WellFormed.kind_eq {b : Block} (hb : b.WellFormed) :
    b.origin.token.kind = .leftBrace := by
  obtain ⟨origin, statements⟩ := b
  rw [Block.origin, hb.1]
  rfl

/-- An argument is followed by a comma or the closing parenthesis. -/
theorem Expr.head_moreTokensIn (style : Style) (es : List Expr) (m : List Token) :
    ((Expr.moreTokensIn style es ++ Token.ofSymbol .rightParen :: m).headD
        Token.eof).kind.precedence = .lowest ∧
      ((Expr.moreTokensIn style es ++ Token.ofSymbol .rightParen :: m).headD Token.eof).kind ≠
        .kwElse := by
  cases es with
  | nil => simp [Expr.moreTokensIn, Token.ofSymbol, TokenKind.precedence]
  | cons e es => simp [Expr.moreTokensIn, Token.ofSymbol, TokenKind.precedence]

/-! ## Names -/

/-- The origin of a token. -/
theorem Origin.erase_eq {o o' : Origin} (h : o.token = o'.token) : o.erase = o'.erase := by
  rw [Origin.erase, Origin.erase, h]

/-- The names of parameters, each after a comma. -/
theorem Ident.reads_moreTokens {names : List Ident} (hnames : ∀ i ∈ names, i.WellFormed)
    (m : List Token) :
    Reads (·.moreParameters) (Ident.moreTokens names ++ Token.ofSymbol .rightParen :: m)
      (fun names' => names'.map Ident.erase = names.map Ident.erase)
      (Token.ofSymbol .rightParen :: m) := by
  induction names with
  | nil => exact Reads.moreParameters_stop (by simp [moreTokens, Token.ofSymbol]) rfl
  | cons i rest ih =>
    have hrest := ih fun j hj => hnames j (List.mem_cons_of_mem i hj)
    have hi := hnames i List.mem_cons_self
    refine (Reads.moreParameters_comma rfl hi.1 hrest).imp fun names' hnames' => ?_
    obtain ⟨x, rest', hx, rfl, hrest'⟩ := hnames'
    rw [List.map_cons, List.map_cons, hrest']
    exact congrArg (· :: _) (congrArg Ident.mk (Origin.erase_eq hx))

/-- The names of parameters and the closing parenthesis. -/
theorem Ident.reads_listTokens {names : List Ident} (hnames : ∀ i ∈ names, i.WellFormed)
    (x : Lexeme) (m : List Token) :
    Reads (·.parameters x) (Ident.listTokens names ++ Token.ofSymbol .rightParen :: m)
      (fun names' => names'.map Ident.erase = names.map Ident.erase) m := by
  cases names with
  | nil => exact Reads.parameters_none rfl rfl
  | cons i rest =>
    have hrest := Ident.reads_moreTokens (fun j hj => hnames j (List.mem_cons_of_mem i hj)) m
    have hi := hnames i List.mem_cons_self
    refine (Reads.parameters_some hi.1 rfl hrest).imp fun names' hnames' => ?_
    obtain ⟨y, rest', hy, rfl, hrest'⟩ := hnames'
    rw [List.map_cons, List.map_cons, hrest']
    exact congrArg (· :: _) (congrArg Ident.mk (Origin.erase_eq hy))

/-! ## Expressions -/

/-- The tokens of an expression are read as this expression, and reading goes on with the operators
that follow. What follows may not be an `else`, which could become part of the expression. -/
def Expr.IsReadIn (style : Style) (e : Expr) : Prop :=
  ∀ (level : Precedence) (m : List Token) (Q : Expr → Prop) (v : List Token),
    e.Fits level (m.headD Token.eof).kind → (m.headD Token.eof).kind ≠ .kwElse →
    (∀ left : Expr, left.erase = e.erase → Reads (·.operators level left) m Q v) →
    Reads (·.expression level) (e.tokensIn style ++ m) Q v

namespace Expr.IsReadIn

variable {style : Style} {e : Expr} {position : Position} {level : Precedence} {m : List Token}

/-- An expression that is an operand, whatever follows. -/
theorem of_operand (h : ∀ m : List Token, (m.headD Token.eof).kind ≠ .kwElse →
    Reads (·.operand) (e.tokensIn style ++ m) (fun e' => e'.erase = e.erase) m) :
    e.IsReadIn style :=
  fun _ m _ _ _ helse hm => Reads.expression (h m helse) hm

/-- An expression where it stands. If there are no parentheses around it, it has to fit there. -/
theorem at_position (h : e.IsReadIn style) (he : e.WellFormed) (hstyle : style.Suffices)
    {Q : Expr → Prop} {v : List Token}
    (hfits : Style.sparse position e = false → e.Fits level (m.headD Token.eof).kind)
    (helse : (m.headD Token.eof).kind ≠ .kwElse)
    (hm : ∀ left : Expr, left.erase = e.erase → Reads (·.operators level left) m Q v) :
    Reads (·.expression level) (e.tokensAt style position ++ m) Q v := by
  unfold tokensAt
  cases hparens : style position e with
  | true =>
    -- The closing parenthesis ends the loop at the lowest level.
    have hinner := h .lowest (Token.ofSymbol .rightParen :: m) (fun e' => e'.erase = e.erase) _
      (fits_whole he rfl) (by simp [Token.ofSymbol]) fun left hleft =>
        Reads.operators_stop (Nat.zero_le _) hleft
    have hgrouped := Reads.operand_grouped (t := Token.ofSymbol .leftParen) rfl rfl hinner
    simp only [Token.bracket, if_true, List.cons_append, List.append_assoc, List.nil_append]
    exact Reads.expression hgrouped hm
  | false =>
    have hsparse : Style.sparse position e = false := by
      by_contra hneeded
      have hneeds := hstyle position e (by simpa using hneeded)
      rw [hparens] at hneeds
      cases hneeds
    exact h level m Q v (hfits hsparse) helse hm

/-- An expression that no operator of the loop follows. -/
theorem alone (h : e.IsReadIn style) (he : e.WellFormed) (hstyle : style.Suffices)
    (hfits : Style.sparse position e = false → e.Fits level (m.headD Token.eof).kind)
    (helse : (m.headD Token.eof).kind ≠ .kwElse)
    (hm : (m.headD Token.eof).kind.precedence.rank ≤ level.rank) :
    Reads (·.expression level) (e.tokensAt style position ++ m)
      (fun e' => e'.erase = e.erase) m :=
  h.at_position he hstyle hfits helse fun _ hleft => Reads.operators_stop hm hleft

/-- An expression on its own. -/
theorem whole (h : e.IsReadIn style) (he : e.WellFormed) (hstyle : style.Suffices)
    (hm : (m.headD Token.eof).kind.precedence = .lowest)
    (helse : (m.headD Token.eof).kind ≠ .kwElse) :
    Reads (·.expression .lowest) (e.tokensAt style .whole ++ m)
      (fun e' => e'.erase = e.erase) m :=
  h.alone he hstyle (fun _ => fits_whole he hm) helse (by rw [hm])

end Expr.IsReadIn

/-! ## Trees -/

mutual

/-- **The tokens of an expression are read as the expression** in every style that suffices. -/
theorem Expr.isReadIn {style : Style} (hstyle : style.Suffices) (e : Expr) (he : e.WellFormed) :
    e.IsReadIn style := by
  match e with
  | .ident name =>
    refine .of_operand fun m _ => (Reads.operand_ident he.1).imp ?_
    rintro e' ⟨x, hx, rfl⟩
    exact congrArg (Expr.ident ⟨·⟩) (Origin.erase_eq hx)
  | .integer origin value =>
    refine .of_operand fun m _ => (Reads.operand_int he.1 he.2.2).imp ?_
    rintro e' ⟨x, hx, rfl⟩
    exact congrArg (Expr.integer · value) (Origin.erase_eq hx)
  | .string origin =>
    refine .of_operand fun m _ => (Reads.operand_string he.1).imp ?_
    rintro e' ⟨x, hx, rfl⟩
    exact congrArg Expr.string (Origin.erase_eq hx)
  | .boolean origin value =>
    have hkind : origin.token.kind = if value then .kwTrue else .kwFalse := by
      rw [Expr.WellFormed] at he
      rw [he]
      cases value <;> rfl
    refine .of_operand fun m _ => (Reads.operand_boolean hkind).imp ?_
    rintro e' ⟨x, hx, rfl⟩
    exact congrArg (Expr.boolean · value) (Origin.erase_eq hx)
  | .unary origin operator operand =>
    obtain ⟨hoperator, htoken, hoperand⟩ := he
    have hkind : origin.token.kind = operator := by rw [htoken]; rfl
    have hunary : origin.token.kind ∈ TokenKind.unaryOperators := by rw [hkind]; exact hoperator
    intro level m Q v hfits helse hm
    have hright := (Expr.isReadIn hstyle operand hoperand).alone hoperand hstyle
      (fun h => Expr.fits_operand h hfits.2) helse hfits.2
    simp only [Expr.tokensIn, List.cons_append]
    refine Reads.expression (Reads.operand_unary hunary hright) ?_
    rintro e' ⟨origin', right, horigin, rfl, hright'⟩
    refine hm _ ?_
    rw [Expr.erase, Expr.erase, hkind, hright', Origin.erase_eq horigin]
  | .binary origin operator left right =>
    obtain ⟨hoperator, htoken, hleft, hright⟩ := he
    obtain rfl : origin.token.kind = operator := by rw [htoken]; rfl
    have hrank := TokenKind.rank_precedence hoperator
    have hne : origin.token.kind ≠ .leftParen ∧ origin.token.kind ≠ .kwElse := by
      constructor <;> intro h <;> rw [h] at hoperator <;> exact absurd hoperator (by decide)
    intro level m Q v hfits helse hm
    -- The left operand, and then the loop takes the operator.
    simp only [Expr.tokensIn, List.cons_append, List.append_assoc]
    refine (Expr.isReadIn hstyle left hleft).at_position hleft hstyle
      (fun h => Expr.fits_left h hoperator hfits.1) hne.2 fun left' hleft' => ?_
    -- The right operand is read at the level of the operator. That is why operators of one level
    -- group to the left.
    have hr := (Expr.isReadIn hstyle right hright).alone hright hstyle
      (fun h => Expr.fits_right h hoperator hfits.2) helse (by rw [hrank]; exact hfits.2)
    refine Reads.operators_binary hne.1 (by rw [hrank]; exact hfits.1) hr
      fun origin' right' horigin hright' => hm _ ?_
    rw [Expr.erase, Expr.erase, hleft', hright', Origin.erase_eq horigin]
  | .conditional origin condition consequence alternative =>
    obtain ⟨htoken, hcondition, hconsequence, halternative⟩ := he
    refine .of_operand fun m helse => ?_
    have hc := (Expr.isReadIn hstyle condition hcondition).whole hcondition hstyle
      (m := Token.ofSymbol .rightParen ::
        (consequence.tokensIn style ++ (Block.elseTokensIn style alternative ++ m)))
      rfl (by simp [Token.ofSymbol])
    have hb := Block.isReadIn hstyle consequence hconsequence
      (Block.elseTokensIn style alternative ++ m)
    have ha := Block.elseIsReadIn hstyle alternative halternative m helse
    simp only [Expr.tokensIn, consequence.tokensIn_eq, List.cons_append, List.append_assoc] at hc ⊢
    refine (Reads.operand_conditional (by rw [htoken]) rfl rfl hconsequence.kind_eq hc hb ha).imp ?_
    rintro e' ⟨origin', condition', consequence', alternative', horigin, rfl, hc', hb', ha'⟩
    rw [Expr.erase, Expr.erase, hc', hb', ha', Origin.erase_eq horigin]
  | .function origin parameters body =>
    obtain ⟨htoken, hparameters, hbody⟩ := he
    refine .of_operand fun m _ => ?_
    have hnames := fun x => Ident.reads_listTokens hparameters x (body.tokensIn style ++ m)
    simp only [Expr.tokensIn, body.tokensIn_eq, List.cons_append, List.append_assoc] at hnames ⊢
    refine (Reads.operand_function (by rw [htoken]) rfl hbody.kind_eq hnames
      (Block.isReadIn hstyle body hbody m)).imp ?_
    rintro e' ⟨origin', names, body', horigin, rfl, hnames', hbody'⟩
    rw [Expr.erase, Expr.erase, hnames', hbody', Origin.erase_eq horigin]
  | .call origin callee arguments =>
    obtain ⟨htoken, hcallee, harguments⟩ := he
    have hkind : origin.token.kind = .leftParen := by rw [htoken]; rfl
    intro level m Q v hlevel helse hm
    simp only [Expr.tokensIn, List.cons_append, List.append_assoc, List.nil_append]
    -- The callee, and then the loop takes the arguments and goes on with what follows the call.
    have hfits : Style.sparse .callee callee = false → callee.Fits level origin.token.kind := by
      rw [hkind]
      exact fun h => Expr.fits_callee h hlevel
    refine (Expr.isReadIn hstyle callee hcallee).at_position hcallee hstyle hfits
      (by rw [List.headD_cons, hkind]; decide) fun callee' hcallee' => ?_
    refine Reads.operators_call (P := fun es => Expr.eraseAll es = Expr.eraseAll arguments) hkind
      hlevel (Expr.listIsReadIn hstyle arguments harguments m)
      fun origin' arguments' horigin harguments' => hm _ ?_
    rw [Expr.erase, Expr.erase, hcallee', harguments', Origin.erase_eq horigin]

/-- The tokens of arguments are read as the arguments. -/
theorem Expr.listIsReadIn {style : Style} (hstyle : style.Suffices) (es : List Expr)
    (hes : Expr.AllWellFormed es) (m : List Token) (x : Lexeme) :
    Reads (·.arguments x)
      (Expr.listTokensIn style es ++ Token.ofSymbol .rightParen :: m)
      (fun r => Expr.eraseAll r.1 = Expr.eraseAll es) m := by
  match es with
  | [] => exact Reads.arguments_none (Q := fun es => Expr.eraseAll es = []) rfl rfl
  | e :: es =>
    obtain ⟨he, hes⟩ := hes
    obtain ⟨hlowest, helse⟩ := Expr.head_moreTokensIn style es m
    have hvalue := (Expr.isReadIn hstyle e he).whole he hstyle hlowest helse
    have hstarts := Expr.startsExpression_tokensAt he style .whole
      (Expr.moreTokensIn style es ++ Token.ofSymbol .rightParen :: m)
    rw [Expr.listTokensIn, List.append_assoc]
    refine (Reads.arguments_some (TokenKind.ne_of_startsExpression hstarts rfl) rfl hvalue
      (Expr.moreIsReadIn hstyle es hes m)).imp ?_
    rintro ⟨values, closing⟩ ⟨value, rest, hvalues, hvalue', hrest⟩
    obtain rfl : values = value :: rest := hvalues
    rw [Expr.eraseAll, Expr.eraseAll, hvalue', hrest]

/-- The tokens of further arguments are read as the arguments. -/
theorem Expr.moreIsReadIn {style : Style} (hstyle : style.Suffices) (es : List Expr)
    (hes : Expr.AllWellFormed es) (m : List Token) :
    Reads (·.moreArguments) (Expr.moreTokensIn style es ++ Token.ofSymbol .rightParen :: m)
      (fun es' => Expr.eraseAll es' = Expr.eraseAll es) (Token.ofSymbol .rightParen :: m) := by
  match es with
  | [] => exact Reads.moreArguments_stop (by simp [Expr.moreTokensIn, Token.ofSymbol]) rfl
  | e :: es =>
    obtain ⟨he, hes⟩ := hes
    obtain ⟨hlowest, helse⟩ := Expr.head_moreTokensIn style es m
    have hvalue := (Expr.isReadIn hstyle e he).whole he hstyle hlowest helse
    rw [Expr.moreTokensIn, List.cons_append, List.append_assoc]
    refine (Reads.moreArguments_comma rfl hvalue (Expr.moreIsReadIn hstyle es hes m)).imp ?_
    rintro es' ⟨value, rest, rfl, hvalue', hrest⟩
    rw [Expr.eraseAll, Expr.eraseAll, hvalue', hrest]

/-- The tokens of an alternative are read as the alternative. -/
theorem Block.elseIsReadIn {style : Style} (hstyle : style.Suffices) (b : Option Block)
    (hb : Block.ElseWellFormed b) (m : List Token) (helse : (m.headD Token.eof).kind ≠ .kwElse) :
    Reads.Alternative (Block.elseTokensIn style b ++ m)
      (fun b' => Block.eraseElse b' = Block.eraseElse b) m := by
  match b with
  | none => exact Or.inl ⟨rfl, helse, rfl⟩
  | some body =>
    have hbody := fun x hx =>
      (Block.isReadIn hstyle body hb m x hx).imp fun _ h => congrArg some h
    refine Or.inr ⟨⟨.kwElse, "else"⟩, _, _, ?_, rfl, Block.WellFormed.kind_eq hb, hbody⟩
    simp only [Block.elseTokensIn, body.tokensIn_eq, List.cons_append, List.append_assoc,
      List.nil_append]

/-- The tokens of a block are read as the block. -/
theorem Block.isReadIn {style : Style} (hstyle : style.Suffices) (b : Block) (hb : b.WellFormed)
    (m : List Token) (x : Lexeme) (hx : x.token = b.origin.token) :
    Reads (·.block x)
      (Stmt.listTokensIn style b.statements ++ Token.ofSymbol .rightBrace :: m)
      (fun b' => b'.erase = b.erase) m := by
  match b with
  | .mk origin statements =>
    have hbody := Stmt.listIsReadIn hstyle statements hb.2 .braces
      (Token.ofSymbol .rightBrace :: m) rfl
    refine (Reads.block hbody).imp ?_
    rintro ⟨origin', statements'⟩ ⟨horigin, hstatements⟩
    have horigin' : origin'.erase = origin.erase := Origin.erase_eq (horigin.trans hx)
    have hstatements' : Stmt.eraseAll statements' = Stmt.eraseAll statements := hstatements
    rw [Block.erase, Block.erase, horigin', hstatements']

/-- The tokens of statements are read as the statements. -/
theorem Stmt.listIsReadIn {style : Style} (hstyle : style.Suffices) (ss : List Stmt)
    (hss : Stmt.AllWellFormed ss) (enclosure : Enclosure) (m : List Token)
    (hm : enclosure.endsAt (m.headD Token.eof).kind) :
    Reads (·.statements enclosure) (Stmt.listTokensIn style ss ++ m)
      (fun ss' => Stmt.eraseAll ss' = Stmt.eraseAll ss) m := by
  match ss with
  | [] => exact Reads.statements_stop hm rfl
  | s :: rest =>
    obtain ⟨hs, hrest⟩ := hss
    obtain ⟨heof, hbrace⟩ := Stmt.head_tokensIn hs style (Stmt.listTokensIn style rest ++ m)
    rw [Stmt.listTokensIn, List.append_assoc]
    refine (Reads.statements_cons heof hbrace (Stmt.isReadIn hstyle s hs _)
      (Stmt.listIsReadIn hstyle rest hrest enclosure m hm)).imp ?_
    rintro ss' ⟨s', rest', rfl, hs', hrest'⟩
    rw [Stmt.eraseAll, Stmt.eraseAll, hs', hrest']

/-- The tokens of a statement are read as the statement. -/
theorem Stmt.isReadIn {style : Style} (hstyle : style.Suffices) (s : Stmt) (hs : s.WellFormed)
    (m : List Token) :
    Reads (·.statement) (s.tokensIn style ++ m) (fun s' => s'.erase = s.erase) m := by
  match s with
  | .binding origin name value =>
    obtain ⟨htoken, hname, hvalue⟩ := hs
    have hread := (Expr.isReadIn hstyle value hvalue).whole hvalue hstyle
      (m := Token.ofSymbol .semicolon :: m) rfl (by simp [Token.ofSymbol])
    simp only [Stmt.tokensIn, List.cons_append, List.append_assoc]
    refine (Reads.statement_binding (by rw [htoken]) hname.1 rfl hread
      (Reads.finish_semicolon rfl)).imp ?_
    rintro s' ⟨origin', x, value', horigin, hx, rfl, hvalue'⟩
    have hname' : Ident.erase ⟨x.origin⟩ = name.erase := congrArg Ident.mk (Origin.erase_eq hx)
    rw [Stmt.erase, Stmt.erase, hname', hvalue', Origin.erase_eq horigin]
  | .returning origin value =>
    obtain ⟨htoken, hvalue⟩ := hs
    have hread := (Expr.isReadIn hstyle value hvalue).whole hvalue hstyle
      (m := Token.ofSymbol .semicolon :: m) rfl (by simp [Token.ofSymbol])
    simp only [Stmt.tokensIn, List.cons_append, List.append_assoc]
    refine (Reads.statement_returning (by rw [htoken]) hread (Reads.finish_semicolon rfl)).imp ?_
    rintro s' ⟨origin', value', horigin, rfl, hvalue'⟩
    rw [Stmt.erase, Stmt.erase, hvalue', Origin.erase_eq horigin]
  | .expression origin value =>
    have hread := (Expr.isReadIn hstyle value hs).whole hs hstyle
      (m := Token.ofSymbol .semicolon :: m) rfl (by simp [Token.ofSymbol])
    simp only [Stmt.tokensIn, List.append_assoc]
    refine (Reads.statement_expression (Expr.startsExpression_tokensAt hs style .whole _) hread
      (Reads.finish_semicolon rfl)).imp ?_
    rintro s' ⟨origin', value', rfl, hvalue'⟩
    rw [Stmt.erase, Stmt.erase, hvalue']
  | .block body =>
    simp only [Stmt.tokensIn, body.tokensIn_eq, List.cons_append, List.append_assoc]
    refine (Reads.statement_block (Block.WellFormed.kind_eq hs)
      (Block.isReadIn hstyle body hs m)).imp ?_
    rintro s' ⟨body, rfl, hbody'⟩
    rw [Stmt.erase, Stmt.erase, hbody']

end

/-! ## Sparse forms -/

/-- **Operators have the operands that their precedence gives them.** Written with only those
parentheses that are needed, every well-formed expression is parsed without errors, and as the
expression that it is. -/
theorem parse_sparseForm (e : Expr) (he : e.WellFormed) :
    (parse e.sparseForm).errors = [] ∧
      (parse e.sparseForm).program.erase = ⟨[.expression default e.erase], default⟩ := by
  have hwf : ∀ t ∈ e.tokensAt .sparse .whole, t.WellFormed :=
    Token.wellFormed_bracket (e.wellFormed_tokensIn .sparse he) _
  have hvalue := (Expr.isReadIn Style.suffices_sparse e he).whole (m := []) he
    Style.suffices_sparse rfl (by decide)
  have hstarts := Expr.startsExpression_tokensAt he .sparse .whole []
  -- The expression is the only statement, and the end of the source ends it.
  have hstatement := Reads.statement_expression hstarts hvalue (Reads.finish_open (by decide))
  have hend : Reads (·.statements .file) [] (· = []) [] := Reads.statements_stop rfl rfl
  have hstatements := Reads.statements_cons (TokenKind.ne_of_startsExpression hstarts rfl)
    (TokenKind.ne_of_startsExpression hstarts rfl) hstatement hend
  rw [List.append_nil] at hstatements
  have hlex : (lex e.sparseForm).map Lexeme.token = e.tokensAt .sparse .whole ++ [Token.eof] :=
    (readsAs_spaced hwf).map_lex
  obtain ⟨herrors, s, rest, hprogram, ⟨origin, value, rfl, hvalue⟩, rfl⟩ :=
    parse_of_reads hlex hstatements
  refine ⟨herrors, ?_⟩
  rw [Program.erase, hprogram, Stmt.eraseAll, Stmt.eraseAll, Stmt.erase, hvalue]

/-- A sum with products, signs and calls among its operands. -/
def Expr.mixedOperators : Expr :=
  let name (text : String) : Expr := .ident ⟨⟨⟨.ident, text⟩, default⟩⟩
  let origin (kind : TokenKind) : Origin := ⟨Token.ofSymbol kind, default⟩
  let difference : Expr := .binary (origin .minus) .minus (name "b") (name "c")
  let negative : Expr :=
    .unary (origin .minus) .minus (.call (origin .leftParen) (name "f") [name "x"])
  let product : Expr := .binary (origin .asterisk) .asterisk difference negative
  let call : Expr :=
    .call (origin .leftParen) (.unary (origin .bang) .bang (name "g")) [name "y", difference]
  .binary (origin .equal) .equal (.binary (origin .minus) .minus (name "a") product) call

theorem parse_sparseForm_mixedOperators :
    let text := "a - ( b - c ) * - f ( x ) == ( ! g ) ( y , b - c )"
    Expr.mixedOperators.WellFormed ∧ Expr.mixedOperators.sparseForm = text ∧
      (parse text).errors = [] ∧
      (parse text).program.erase = ⟨[.expression default Expr.mixedOperators.erase], default⟩ := by
  have hname : ∀ text : String, text.toList.isEmpty = false → text.toList.all isWordChar = true →
      TokenKind.ofWord text = .ident → (Expr.ident ⟨⟨⟨.ident, text⟩, default⟩⟩).WellFormed :=
    fun text hne hall hword =>
      ⟨rfl, ⟨List.isEmpty_eq_false_iff.mp hne, List.all_eq_true.mp hall⟩, hword⟩
  have hdifference : (Expr.binary ⟨Token.ofSymbol .minus, default⟩ .minus
      (.ident ⟨⟨⟨.ident, "b"⟩, default⟩⟩) (.ident ⟨⟨⟨.ident, "c"⟩, default⟩⟩)).WellFormed :=
    ⟨by decide, rfl, hname "b" rfl rfl rfl, hname "c" rfl rfl rfl⟩
  have hwf : Expr.mixedOperators.WellFormed :=
    ⟨by decide, rfl,
      ⟨by decide, rfl, hname "a" rfl rfl rfl, by decide, rfl, hdifference, by decide, rfl, rfl,
        hname "f" rfl rfl rfl, hname "x" rfl rfl rfl, trivial⟩,
      rfl, ⟨by decide, rfl, hname "g" rfl rfl rfl⟩, hname "y" rfl rfl rfl, hdifference, trivial⟩
  have hform : Expr.mixedOperators.sparseForm =
      "a - ( b - c ) * - f ( x ) == ( ! g ) ( y , b - c )" := by
    rfl
  have hparse := parse_sparseForm Expr.mixedOperators hwf
  rw [hform] at hparse
  exact ⟨hwf, hform, hparse⟩

end ScriptLang
