import ScriptLang.Proofs.Parse.Language
import ScriptLang.Proofs.Parse.Reading
import ScriptLang.Tree

/-!
# Rules for the productions

What each production reads, in terms of what the productions that it calls read. The results are
described up to their spans.
-/

namespace ScriptLang

/-- How tightly a binary operator binds. -/
theorem rank_of_mem_binaryOperators {kind : TokenKind} (h : kind ∈ TokenKind.binaryOperators) :
    Precedence.lowest.rank < kind.precedence.rank ∧
      kind.precedence.rank < Precedence.unary.rank := by
  cases kind <;> first | decide | exact absurd h (by decide)

namespace Parser.Reads

variable {α β : Type} {t : Token} {u v w : List Token} {Q : α → Prop}

/-! ## Operands -/

/-- The first token of an operand, by its kind. -/
theorem operand_next {f : Productions → Lexeme → Parser α} {kind : TokenKind} (ht : t.kind = kind)
    (hkind : kind ≠ .rightBrace)
    (h : ∀ x : Lexeme, x.token = t → x.kind = kind → Reads (fun P => f P x) u Q v) :
    Reads (fun P => Parser.next >>= f P) (t :: u) Q v := by
  refine bind next fun x hx => ?_
  exact h x (hx.token_eq ht hkind) (hx.kind_eq ht hkind)

/-- A name. -/
theorem operand_ident (ht : t.kind = .ident) :
    Reads (·.operand) (t :: u) (fun e => ∃ x : Lexeme, x.token = t ∧ e = .ident ⟨x.origin⟩) u := by
  apply of_unfold
  refine operand_next ht (by decide) fun x hx hkind => ?_
  simp only [Productions.operandFrom, hkind]
  exact pure ⟨x, hx, rfl⟩

/-- An integer in range. -/
theorem operand_int (ht : t.kind = .int) {value : Int64}
    (hvalue : Text.int64OfDecimal? t.literal = some value) :
    Reads (·.operand) (t :: u) (fun e => ∃ x : Lexeme, x.token = t ∧ e = .integer x.origin value)
      u := by
  apply of_unfold
  refine operand_next ht (by decide) fun x hx hkind => ?_
  simp only [Productions.operandFrom, hkind, integer, hx, hvalue]
  exact pure ⟨x, hx, rfl⟩

/-- A string. -/
theorem operand_string (ht : t.kind = .string) :
    Reads (·.operand) (t :: u) (fun e => ∃ x : Lexeme, x.token = t ∧ e = .string x.origin) u := by
  apply of_unfold
  refine operand_next ht (by decide) fun x hx hkind => ?_
  simp only [Productions.operandFrom, hkind]
  exact pure ⟨x, hx, rfl⟩

/-- A truth value. -/
theorem operand_boolean {value : Bool} (ht : t.kind = if value then .kwTrue else .kwFalse) :
    Reads (·.operand) (t :: u) (fun e => ∃ x : Lexeme, x.token = t ∧ e = .boolean x.origin value)
      u := by
  apply of_unfold
  cases value with
  | true =>
    refine operand_next ht (by decide) fun x hx hkind => ?_
    simp only [Productions.operandFrom, hkind]
    exact pure ⟨x, hx, rfl⟩
  | false =>
    refine operand_next ht (by decide) fun x hx hkind => ?_
    simp only [Productions.operandFrom, hkind]
    exact pure ⟨x, hx, rfl⟩

/-- An operator before its operand. -/
theorem operand_unary {Q : Expr → Prop} (ht : t.kind ∈ TokenKind.unaryOperators)
    (hright : Reads (·.expression .unary) u Q v) :
    Reads (·.operand) (t :: u)
      (fun e => ∃ origin right, origin.token = t ∧ e = .unary origin t.kind right ∧ Q right) v := by
  have hunary : ∀ x : Lexeme, x.token = t → Reads (·.unary x) u
      (fun e => ∃ origin right, origin.token = t ∧ e = .unary origin t.kind right ∧ Q right) v := by
    intro x hx
    apply of_unfold
    refine bind hright fun right hQ => ?_
    exact pure ⟨⟨x.token, _, _⟩, right, hx, by rw [Lexeme.kind, hx], hQ⟩
  apply of_unfold
  rcases TokenKind.mem_unaryOperators.mp ht with ht | ht
  · refine operand_next ht (by decide) fun x hx hkind => ?_
    simp only [Productions.operandFrom, hkind]
    exact hunary x hx
  · refine operand_next ht (by decide) fun x hx hkind => ?_
    simp only [Productions.operandFrom, hkind]
    exact hunary x hx

/-- An expression in parentheses. -/
theorem operand_grouped {Q : Expr → Prop} {closing : Token} (ht : t.kind = .leftParen)
    (hclosing : closing.kind = .rightParen)
    (hinner : Reads (·.expression .lowest) u Q (closing :: v)) :
    Reads (·.operand) (t :: u) Q v := by
  apply of_unfold
  refine operand_next ht (by decide) fun x hx hkind => ?_
  simp only [Productions.operandFrom, hkind]
  apply of_unfold
  refine bind hinner fun inner hQ => ?_
  refine bind (expect hclosing (by decide)) fun _ _ => ?_
  exact pure hQ

/-- What follows the consequence of a conditional: an alternative, or a token that starts none. -/
def Alternative (w : List Token) (E : Option Block → Prop) (m : List Token) : Prop :=
  (m = w ∧ (w.headD Token.eof).kind ≠ .kwElse ∧ E none) ∨
    ∃ word brace w', w = word :: brace :: w' ∧ word.kind = .kwElse ∧ brace.kind = .leftBrace ∧
      ∀ x : Lexeme, x.token = brace → Reads (·.block x) w' (fun b => E (some b)) m

/-- A conditional. -/
theorem operand_conditional {P : Expr → Prop} {R : Block → Prop} {E : Option Block → Prop}
    {opening closing brace : Token} (ht : t.kind = .kwIf) (hopening : opening.kind = .leftParen)
    (hclosing : closing.kind = .rightParen) (hbrace : brace.kind = .leftBrace)
    (hcondition : Reads (·.expression .lowest) u P (closing :: brace :: v))
    (hconsequence : ∀ x : Lexeme, x.token = brace → Reads (·.block x) v R w)
    {m : List Token} (halternative : Alternative w E m) :
    Reads (·.operand) (t :: opening :: u)
      (fun e => ∃ origin condition consequence alternative, origin.token = t ∧
        e = .conditional origin condition consequence alternative ∧ P condition ∧
        R consequence ∧ E alternative) m := by
  apply of_unfold
  refine operand_next ht (by decide) fun x hx hkind => ?_
  simp only [Productions.operandFrom, hkind]
  apply of_unfold
  refine bind (expect hopening (by decide)) fun _ _ => ?_
  refine bind hcondition fun condition hP => ?_
  refine bind (expect hclosing (by decide)) fun _ _ => ?_
  refine bind (expect hbrace (by decide)) fun y hy => ?_
  refine bind (hconsequence y hy) fun consequence hR => ?_
  refine peek_bind fun z hz => ?_
  rcases halternative with ⟨rfl, hnext, hnone⟩ | ⟨word, other, w', rfl, hword, hother, hblock⟩
  · -- The next token is only looked at, and it may be a brace that stands for the end.
    refine ite_neg (hz.kind_ne (by decide) hnext) ?_
    exact pure ⟨_, condition, consequence, none, hx, rfl, hP, hR, hnone⟩
  · refine ite_pos (hz.kind_eq hword (by decide)) ?_
    refine bind next fun _ _ => ?_
    refine bind (expect hother (by decide)) fun o ho => ?_
    refine bind (hblock o ho) fun alternative hE => ?_
    exact pure ⟨_, condition, consequence, some alternative, hx, rfl, hP, hR, hE⟩

/-! ## Parameters and functions -/

/-- No further parameters. -/
theorem moreParameters_stop {Q : List Ident → Prop} (hu : (u.headD Token.eof).kind ≠ .comma)
    (hQ : Q []) : Reads (·.moreParameters) u Q u := by
  apply of_unfold
  refine peek_bind fun x hx => ?_
  exact ite_neg (hx.kind_ne (by decide) hu) (pure hQ)

/-- A further parameter. -/
theorem moreParameters_comma {Q : List Ident → Prop} {comma : Token} (hcomma : comma.kind = .comma)
    (ht : t.kind = .ident) (hrest : Reads (·.moreParameters) u Q v) :
    Reads (·.moreParameters) (comma :: t :: u)
      (fun names => ∃ (x : Lexeme) (rest : List Ident),
        x.token = t ∧ names = ⟨x.origin⟩ :: rest ∧ Q rest) v := by
  apply of_unfold
  refine peek_bind fun x hx => ?_
  refine ite_pos (hx.kind_eq hcomma (by decide)) ?_
  refine bind next fun _ _ => ?_
  refine bind (expect ht (by decide)) fun name hname => ?_
  refine bind hrest fun names hnames => ?_
  exact pure ⟨name, names, hname, rfl, hnames⟩

/-- No parameters. -/
theorem parameters_none {Q : List Ident → Prop} {opening : Lexeme} (ht : t.kind = .rightParen)
    (hQ : Q []) : Reads (·.parameters opening) (t :: u) Q u := by
  refine peek_bind fun x hx => ?_
  refine ite_pos (hx.kind_eq ht (by decide)) ?_
  exact bind next fun _ _ => pure hQ

/-- Some parameters. -/
theorem parameters_some {Q : List Ident → Prop} {opening : Lexeme} {closing : Token}
    (ht : t.kind = .ident) (hclosing : closing.kind = .rightParen)
    (hrest : Reads (·.moreParameters) u Q (closing :: v)) :
    Reads (·.parameters opening) (t :: u)
      (fun names => ∃ (x : Lexeme) (rest : List Ident),
        x.token = t ∧ names = ⟨x.origin⟩ :: rest ∧ Q rest) v := by
  refine peek_bind fun x hx => ?_
  refine ite_neg (by rw [hx.kind_eq ht (by decide)]; decide) ?_
  refine bind (expect ht (by decide)) fun name hname => ?_
  refine bind hrest fun names hnames => ?_
  refine bind (expect hclosing (by decide)) fun _ _ => ?_
  exact pure ⟨name, names, hname, rfl, hnames⟩

/-- A function. -/
theorem operand_function {P : List Ident → Prop} {R : Block → Prop} {opening brace : Token}
    (ht : t.kind = .kwFn) (hopening : opening.kind = .leftParen) (hbrace : brace.kind = .leftBrace)
    (hnames : ∀ x : Lexeme, Reads (·.parameters x) u P (brace :: v))
    (hbody : ∀ x : Lexeme, x.token = brace → Reads (·.block x) v R w) :
    Reads (·.operand) (t :: opening :: u)
      (fun e => ∃ origin names body, origin.token = t ∧ e = .function origin names body ∧
        P names ∧ R body) w := by
  apply of_unfold
  refine operand_next ht (by decide) fun x hx hkind => ?_
  simp only [Productions.operandFrom, hkind]
  apply of_unfold
  refine bind (expect hopening (by decide)) fun y _ => ?_
  refine bind (hnames y) fun names hP => ?_
  refine bind (expect hbrace (by decide)) fun z hz => ?_
  refine bind (hbody z hz) fun body hR => ?_
  exact pure ⟨_, names, body, hx, rfl, hP, hR⟩

/-! ## Expressions and their operators -/

/-- An operand and the operators after it. -/
theorem expression {P Q : Expr → Prop} {level : Precedence} (hoperand : Reads (·.operand) u P v)
    (hoperators : ∀ left, P left → Reads (·.operators level left) v Q w) :
    Reads (·.expression level) u Q w := by
  apply of_unfold
  exact bind hoperand hoperators

/-- No operator that binds tighter than the level. -/
theorem operators_stop {Q : Expr → Prop} {level : Precedence} {left : Expr}
    (hu : (u.headD Token.eof).kind.precedence.rank ≤ level.rank) (hQ : Q left) :
    Reads (·.operators level left) u Q u := by
  apply of_unfold
  refine peek_bind fun x hx => ?_
  refine ite_neg ?_ (pure hQ)
  rcases hx.kind_eq_or with hkind | hkind
  · rw [hkind]
    exact Nat.not_lt.mpr hu
  · rw [hkind]
    exact Nat.not_lt_zero _

/-- A binary operator that binds tighter than the level, and its right operand. -/
theorem operators_binary {P Q : Expr → Prop} {level : Precedence} {left : Expr}
    (ht : t.kind ≠ .leftParen) (hlevel : level.rank < t.kind.precedence.rank)
    (hright : Reads (·.expression t.kind.precedence) u P v)
    (hmore : ∀ origin right, origin.token = t → P right →
      Reads (·.operators level (.binary origin t.kind left right)) v Q w) :
    Reads (·.operators level left) (t :: u) Q w := by
  apply of_unfold
  refine peek_bind fun x hx => ?_
  -- An operator is no brace, so that it is the very token that is shown.
  have hbrace : t.kind ≠ .rightBrace := by
    intro h
    rw [h] at hlevel
    exact Nat.not_lt_zero _ hlevel
  refine ite_pos (by rw [hx.kind_eq rfl hbrace]; exact hlevel) ?_
  refine bind next fun y hy => ?_
  rw [hy.kind_eq rfl hbrace]
  refine ite_neg ht ?_
  exact bind hright fun right hP => hmore _ right (hy.token_eq rfl hbrace) hP

/-- A call, if the level is looser than that. -/
theorem operators_call {P : List Expr → Prop} {Q : Expr → Prop} {level : Precedence} {left : Expr}
    (ht : t.kind = .leftParen) (hlevel : level.rank < Precedence.call.rank)
    (hvalues : ∀ x : Lexeme, Reads (·.arguments x) u (fun r => P r.1) v)
    (hmore : ∀ origin values, origin.token = t → P values →
      Reads (·.operators level (.call origin left values)) v Q w) :
    Reads (·.operators level left) (t :: u) Q w := by
  apply of_unfold
  refine peek_bind fun x hx => ?_
  refine ite_pos (by rw [hx.kind_eq ht (by decide)]; exact hlevel) ?_
  refine bind next fun y hy => ?_
  refine ite_pos (hy.kind_eq ht (by decide)) ?_
  exact bind (hvalues y) fun r hP => hmore _ r.1 (hy.token_eq ht (by decide)) hP

/-- No further arguments. -/
theorem moreArguments_stop {Q : List Expr → Prop} (hu : (u.headD Token.eof).kind ≠ .comma)
    (hQ : Q []) : Reads (·.moreArguments) u Q u := by
  apply of_unfold
  refine peek_bind fun x hx => ?_
  exact ite_neg (hx.kind_ne (by decide) hu) (pure hQ)

/-- A further argument. -/
theorem moreArguments_comma {P : Expr → Prop} {Q : List Expr → Prop} {comma : Token}
    (hcomma : comma.kind = .comma) (hvalue : Reads (·.expression .lowest) u P v)
    (hrest : Reads (·.moreArguments) v Q w) :
    Reads (·.moreArguments) (comma :: u)
      (fun values => ∃ value rest, values = value :: rest ∧ P value ∧ Q rest) w := by
  apply of_unfold
  refine peek_bind fun x hx => ?_
  refine ite_pos (hx.kind_eq hcomma (by decide)) ?_
  refine bind next fun _ _ => ?_
  refine bind hvalue fun value hP => ?_
  refine bind hrest fun values hQ => ?_
  exact pure ⟨value, values, rfl, hP, hQ⟩

/-- No arguments. -/
theorem arguments_none {Q : List Expr → Prop} {opening : Lexeme} (ht : t.kind = .rightParen)
    (hQ : Q []) : Reads (·.arguments opening) (t :: u) (fun r => Q r.1) u := by
  apply of_unfold
  refine peek_bind fun x hx => ?_
  refine ite_pos (hx.kind_eq ht (by decide)) ?_
  exact bind next fun _ _ => pure hQ

/-- Some arguments. -/
theorem arguments_some {P : Expr → Prop} {Q : List Expr → Prop} {opening : Lexeme}
    {closing : Token} (hu : (u.headD Token.eof).kind ≠ .rightParen)
    (hclosing : closing.kind = .rightParen)
    (hvalue : Reads (·.expression .lowest) u P v)
    (hrest : Reads (·.moreArguments) v Q (closing :: w)) :
    Reads (·.arguments opening) u
      (fun r => ∃ value rest, r.1 = value :: rest ∧ P value ∧ Q rest) w := by
  apply of_unfold
  refine peek_bind fun x hx => ?_
  refine ite_neg (hx.kind_ne (by decide) hu) ?_
  refine bind hvalue fun value hP => ?_
  refine bind hrest fun values hQ => ?_
  refine bind (expect hclosing (by decide)) fun _ _ => ?_
  exact pure ⟨value, values, rfl, hP, hQ⟩

/-! ## Statements and blocks -/

/-- A statement other than a block. -/
theorem statement_clause {P : Clause → Prop} (hu : (u.headD Token.eof).kind ≠ .leftBrace)
    (hclause : ∀ x, TokenStream.StandsFor x (u.headD Token.eof) → Reads (·.clause x) u P v)
    (hfinish : Reads (fun _ => finish) v (fun _ => True) w) :
    Reads (·.statement) u
      (fun s => ∃ (x : Lexeme) (stop : Nat) (clause : Clause),
        TokenStream.StandsFor x (u.headD Token.eof) ∧
        s = clause.statement ⟨x.token, x.span.start, stop⟩ ∧ P clause) w := by
  apply of_unfold
  refine peek_bind fun x hx => ?_
  refine ite_neg (hx.kind_ne (by decide) hu) ?_
  refine bind (hclause x hx) fun clause hP => ?_
  refine bind hfinish fun stop _ => ?_
  exact pure ⟨x, stop, clause, hx, rfl, hP⟩

/-- A binding. -/
theorem statement_binding {P : Expr → Prop} {name assign : Token} (ht : t.kind = .kwLet)
    (hname : name.kind = .ident) (hassign : assign.kind = .assign)
    (hvalue : Reads (·.expression .lowest) u P v)
    (hfinish : Reads (fun _ => finish) v (fun _ => True) w) :
    Reads (·.statement) (t :: name :: assign :: u)
      (fun s => ∃ (origin : Origin) (x : Lexeme) (value : Expr), origin.token = t ∧ x.token = name ∧
        s = .binding origin ⟨x.origin⟩ value ∧ P value) w := by
  have hclause : ∀ x, TokenStream.StandsFor x t →
      Reads (·.clause x) (t :: name :: assign :: u)
        (fun c => ∃ (y : Lexeme) (value : Expr), y.token = name ∧
          c = .binding ⟨y.origin⟩ value ∧ P value) v := by
    intro x hx
    simp only [Productions.clause, hx.kind_eq ht (by decide)]
    refine bind next fun _ _ => ?_
    refine bind (expect hname (by decide)) fun y hy => ?_
    refine bind (expect hassign (by decide)) fun _ _ => ?_
    refine bind hvalue fun value hP => ?_
    exact pure ⟨y, value, hy, rfl, hP⟩
  have hne : t.kind ≠ .leftBrace := by rw [ht]; decide
  refine (statement_clause (u := t :: name :: assign :: u) hne hclause hfinish).imp ?_
  rintro _ ⟨x, stop, _, hx, rfl, y, value, hy, rfl, hP⟩
  exact ⟨_, y, value, hx.token_eq ht (by decide), hy, rfl, hP⟩

/-- A return. -/
theorem statement_returning {P : Expr → Prop} (ht : t.kind = .kwReturn)
    (hvalue : Reads (·.expression .lowest) u P v)
    (hfinish : Reads (fun _ => finish) v (fun _ => True) w) :
    Reads (·.statement) (t :: u)
      (fun s => ∃ origin value, origin.token = t ∧ s = .returning origin value ∧ P value) w := by
  have hclause : ∀ x, TokenStream.StandsFor x t →
      Reads (·.clause x) (t :: u) (fun c => ∃ value, c = .returning value ∧ P value) v := by
    intro x hx
    simp only [Productions.clause, hx.kind_eq ht (by decide)]
    refine bind next fun _ _ => ?_
    refine bind hvalue fun value hP => ?_
    exact pure ⟨value, rfl, hP⟩
  have hne : t.kind ≠ .leftBrace := by rw [ht]; decide
  refine (statement_clause (u := t :: u) hne hclause hfinish).imp ?_
  rintro _ ⟨x, stop, _, hx, rfl, value, rfl, hP⟩
  exact ⟨_, value, hx.token_eq ht (by decide), rfl, hP⟩

/-- A block in place of a statement. -/
theorem statement_block {R : Block → Prop} (ht : t.kind = .leftBrace)
    (hbody : ∀ x : Lexeme, x.token = t → Reads (·.block x) u R v) :
    Reads (·.statement) (t :: u) (fun s => ∃ body, s = .block body ∧ R body) v := by
  apply of_unfold
  refine peek_bind fun x hx => ?_
  refine ite_pos (hx.kind_eq ht (by decide)) ?_
  refine bind next fun _ _ => ?_
  refine bind (hbody x (hx.token_eq ht (by decide))) fun body hR => ?_
  exact pure ⟨body, rfl, hR⟩

/-- An expression in place of a statement. -/
theorem statement_expression {P : Expr → Prop}
    (hu : (u.headD Token.eof).kind.startsExpression)
    (hvalue : Reads (·.expression .lowest) u P v)
    (hfinish : Reads (fun _ => finish) v (fun _ => True) w) :
    Reads (·.statement) u (fun s => ∃ origin value, s = .expression origin value ∧ P value) w := by
  have hbrace : (u.headD Token.eof).kind ≠ .rightBrace := TokenKind.ne_of_startsExpression hu rfl
  have hrest : Reads (fun P => do return Clause.expression (← P.expression .lowest)) u
      (fun c => ∃ value, c = .expression value ∧ P value) v :=
    bind hvalue fun value hP => pure ⟨value, rfl, hP⟩
  have hclause : ∀ x, TokenStream.StandsFor x (u.headD Token.eof) →
      Reads (·.clause x) u (fun c => ∃ value, c = .expression value ∧ P value) v := by
    intro x hx
    have hstarts : x.kind.startsExpression := by rw [hx.kind_eq rfl hbrace]; exact hu
    unfold Productions.clause
    -- The kinds that start another statement do not start an expression.
    generalize x.kind = kind at hstarts
    cases kind
    case kwLet => exact absurd hstarts (by decide)
    case kwReturn => exact absurd hstarts (by decide)
    all_goals exact hrest
  have hne : (u.headD Token.eof).kind ≠ .leftBrace := TokenKind.ne_of_startsExpression hu rfl
  refine (statement_clause hne hclause hfinish).imp ?_
  rintro _ ⟨x, stop, _, -, rfl, value, rfl, hP⟩
  exact ⟨_, value, rfl, hP⟩

/-- No statements. -/
theorem statements_stop {Q : List Stmt → Prop} {enclosure : Enclosure}
    (hu : enclosure.endsAt (u.headD Token.eof).kind) (hQ : Q []) :
    Reads (·.statements enclosure) u Q u := by
  apply of_unfold
  refine peek_bind fun x hx => ?_
  refine ite_pos ?_ (pure hQ)
  rcases hx.kind_eq_or with hkind | hkind
  · rw [hkind]
    exact hu
  · rw [hkind]
    cases enclosure <;> rfl

/-- A statement and those after it. -/
theorem statements_cons {P : Stmt → Prop} {Q : List Stmt → Prop} {enclosure : Enclosure}
    (heof : (u.headD Token.eof).kind ≠ .eof) (hbrace : (u.headD Token.eof).kind ≠ .rightBrace)
    (hfirst : Reads (·.statement) u P v) (hothers : Reads (·.statements enclosure) v Q w) :
    Reads (·.statements enclosure) u
      (fun ss => ∃ s rest, ss = s :: rest ∧ P s ∧ Q rest) w := by
  apply of_unfold
  refine peek_bind fun x hx => ?_
  have hends : ¬enclosure.endsAt x.kind = true := by
    rw [hx.kind_eq rfl hbrace]
    generalize (u.headD Token.eof).kind = kind at heof hbrace
    cases enclosure with
    | file => simp [Enclosure.endsAt, heof]
    | braces => simp [Enclosure.endsAt, heof, hbrace]
  refine ite_neg hends ?_
  refine bind hfirst.recovering fun first hP => ?_
  obtain ⟨s, rfl, hs⟩ := hP
  refine bind hothers fun others hQ => ?_
  exact pure ⟨s, others, rfl, hs, hQ⟩

/-- The statements of a block and the token that ends it. -/
theorem block {Q : List Stmt → Prop} {opening : Lexeme}
    (hbody : Reads (·.statements .braces) u Q (t :: v)) :
    Reads (·.block opening) u
      (fun b => b.origin.token = opening.token ∧ Q b.statements) v := by
  apply of_unfold
  refine bind hbody fun body hQ => ?_
  refine bind next fun _ _ => ?_
  exact pure ⟨rfl, hQ⟩

end Parser.Reads

end ScriptLang
