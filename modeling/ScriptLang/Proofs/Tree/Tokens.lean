import ScriptLang.Proofs.Parse.Language
import ScriptLang.Proofs.Token.Spelling
import ScriptLang.Proofs.Tree.Erase

/-!
# The tokens of a tree

A tree is well formed if its tokens are those that its nodes are written with. Such a tree has a
sequence of tokens, with all parentheses and semicolons that its canonical form has, and its
canonical form reads as this sequence.
-/

namespace ScriptLang

/-! ## Well-formed trees -/

/-- An identifier that is no keyword. -/
def Ident.WellFormed (i : Ident) : Prop :=
  i.origin.token.kind = .ident ∧ i.origin.token.WellFormed

mutual

/-- An expression whose tokens are those that it is written with. -/
def Expr.WellFormed : Expr → Prop
  | .ident name => name.WellFormed
  | .integer origin value =>
    origin.token.kind = .int ∧ origin.token.WellFormed ∧
      Text.int64OfDecimal? origin.token.literal = some value
  | .string origin => origin.token.kind = .string ∧ origin.token.WellFormed
  | .boolean origin value => origin.token = if value then ⟨.kwTrue, "true"⟩ else ⟨.kwFalse, "false"⟩
  | .unary origin operator operand =>
    operator ∈ TokenKind.unaryOperators ∧ origin.token = Token.ofSymbol operator ∧
      operand.WellFormed
  | .binary origin operator left right =>
    operator ∈ TokenKind.binaryOperators ∧ origin.token = Token.ofSymbol operator ∧
      left.WellFormed ∧ right.WellFormed
  | .conditional origin condition consequence alternative =>
    origin.token = ⟨.kwIf, "if"⟩ ∧ condition.WellFormed ∧ consequence.WellFormed ∧
      Block.ElseWellFormed alternative
  | .function origin parameters body =>
    origin.token = ⟨.kwFn, "fn"⟩ ∧ (∀ i ∈ parameters, i.WellFormed) ∧ body.WellFormed
  | .call origin callee arguments =>
    origin.token = Token.ofSymbol .leftParen ∧ callee.WellFormed ∧ Expr.AllWellFormed arguments

/-- All expressions are well formed. -/
def Expr.AllWellFormed : List Expr → Prop
  | [] => True
  | e :: es => e.WellFormed ∧ Expr.AllWellFormed es

/-- A statement whose tokens are those that it is written with. The token of an expression
statement is that of its expression and not asked for. -/
def Stmt.WellFormed : Stmt → Prop
  | .binding origin name value =>
    origin.token = ⟨.kwLet, "let"⟩ ∧ name.WellFormed ∧ value.WellFormed
  | .returning origin value => origin.token = ⟨.kwReturn, "return"⟩ ∧ value.WellFormed
  | .expression _ value => value.WellFormed
  | .block body => body.WellFormed

/-- A block whose tokens are those that it is written with. -/
def Block.WellFormed : Block → Prop
  | .mk origin statements =>
    origin.token = Token.ofSymbol .leftBrace ∧ Stmt.AllWellFormed statements

/-- The alternative of a conditional is well formed, if there is one. -/
def Block.ElseWellFormed : Option Block → Prop
  | none => True
  | some body => body.WellFormed

/-- All statements are well formed. -/
def Stmt.AllWellFormed : List Stmt → Prop
  | [] => True
  | s :: rest => s.WellFormed ∧ Stmt.AllWellFormed rest

end

/-! ## Tokens -/

/-- Names, each after a comma. -/
def Ident.moreTokens (names : List Ident) : List Token :=
  names.flatMap fun i => [Token.ofSymbol .comma, i.origin.token]

/-- Names separated by commas. -/
def Ident.listTokens : List Ident → List Token
  | [] => []
  | i :: rest => i.origin.token :: Ident.moreTokens rest

mutual

/-- The tokens of an expression. -/
def Expr.tokens : Expr → List Token
  | .ident name => [name.origin.token]
  | .integer origin _ => [origin.token]
  | .string origin => [origin.token]
  | .boolean origin _ => [origin.token]
  | .unary origin _ operand =>
    Token.ofSymbol .leftParen :: origin.token :: (operand.tokens ++ [Token.ofSymbol .rightParen])
  | .binary origin _ left right =>
    Token.ofSymbol .leftParen ::
      (left.tokens ++ origin.token :: (right.tokens ++ [Token.ofSymbol .rightParen]))
  | .conditional origin condition consequence alternative =>
    origin.token :: Token.ofSymbol .leftParen ::
      (condition.tokens ++ Token.ofSymbol .rightParen ::
        (consequence.tokens ++ Block.elseTokens alternative))
  | .function origin parameters body =>
    origin.token :: Token.ofSymbol .leftParen ::
      (Ident.listTokens parameters ++ Token.ofSymbol .rightParen :: body.tokens)
  | .call origin callee arguments =>
    callee.tokens ++ origin.token :: (Expr.listTokens arguments ++ [Token.ofSymbol .rightParen])

/-- The tokens of expressions separated by commas. -/
def Expr.listTokens : List Expr → List Token
  | [] => []
  | e :: es => e.tokens ++ Expr.moreTokens es

/-- The tokens of expressions, each after a comma. -/
def Expr.moreTokens : List Expr → List Token
  | [] => []
  | e :: es => Token.ofSymbol .comma :: (e.tokens ++ Expr.moreTokens es)

/-- The tokens of a statement. All but blocks end in a semicolon. -/
def Stmt.tokens : Stmt → List Token
  | .binding origin name value =>
    origin.token :: name.origin.token :: Token.ofSymbol .assign ::
      (value.tokens ++ [Token.ofSymbol .semicolon])
  | .returning origin value => origin.token :: (value.tokens ++ [Token.ofSymbol .semicolon])
  | .expression _ value => value.tokens ++ [Token.ofSymbol .semicolon]
  | .block body => body.tokens

/-- The tokens of a block. -/
def Block.tokens : Block → List Token
  | .mk origin statements =>
    origin.token :: (Stmt.listTokens statements ++ [Token.ofSymbol .rightBrace])

/-- The tokens of the alternative of a conditional. -/
def Block.elseTokens : Option Block → List Token
  | none => []
  | some body => ⟨.kwElse, "else"⟩ :: body.tokens

/-- The tokens of statements. -/
def Stmt.listTokens : List Stmt → List Token
  | [] => []
  | s :: rest => s.tokens ++ Stmt.listTokens rest

end

/-! ## What a token may be followed by -/

/-- The next character, if there is one, joins no token. -/
def Separated (cs : List Char) : Prop :=
  ∀ c ∈ cs.head?, isWordChar c = false ∧ c.isDigit = false ∧ c ≠ '='

/-- Blanks, brackets, commas and semicolons join no token. -/
theorem separated_cons {c : Char} (hc : isWordChar c = false ∧ c.isDigit = false ∧ c ≠ '=')
    (cs : List Char) : Separated (c :: cs) := by
  intro d hd
  cases hd
  exact hc

/-- What joins no token does not join a token of a given kind. -/
theorem Separated.joins {cs : List Char} (h : Separated cs) (kind : TokenKind) :
    ∀ c ∈ cs.head?, kind.joins c = false := by
  intro c hc
  obtain ⟨hword, hdigit, hequals⟩ := h c hc
  unfold TokenKind.joins
  split
  · exact hdigit
  · exact hword
  · simp [hword, hequals]

/-- A token other than a string is spelled by its text. -/
theorem Token.spelling_of_ne {t : Token} (h : t.kind ≠ .string) : t.spelling = t.literal :=
  if_neg h

/-- A string is spelled between quotes. -/
theorem Token.spelling_of_string {t : Token} (h : t.kind = .string) :
    t.spelling = "\"" ++ t.literal ++ "\"" :=
  if_pos h

namespace ReadsAs

variable {cs : List Char} {ts : List Token}

/-- A symbol made of one character, which an equals sign does not join. -/
theorem plainSymbol {c : Char} {kind : TokenKind} (hc : TokenKind.ofSymbol? c = some kind)
    (hplain : kind.withEquals? = none) (h : ReadsAs cs ts) :
    ReadsAs (c :: cs) (Token.ofSymbol kind :: ts) :=
  symbol hc (fun hsome => by rw [hplain] at hsome; cases hsome) h

/-- An operator between its operands, which blanks set off. -/
theorem binaryOperator {kind : TokenKind} (hkind : kind ∈ TokenKind.binaryOperators)
    (hcs : Separated cs) (h : ReadsAs cs ts) :
    ReadsAs (kind.name.toList ++ cs) (Token.ofSymbol kind :: ts) := by
  have hwf : (Token.ofSymbol kind).WellFormed := by
    cases kind <;> first | rfl | exact absurd hkind (by decide)
  have hspell : (Token.ofSymbol kind).spelling = kind.name :=
    Token.spelling_of_ne (by rintro rfl; exact absurd hkind (by decide))
  have htoken := token hwf (hcs.joins kind) h
  rwa [hspell] at htoken

/-- An operator before its operand. -/
theorem unaryOperator {kind : TokenKind} (hkind : kind ∈ TokenKind.unaryOperators)
    (hcs : cs.head? ≠ some '=') (h : ReadsAs cs ts) :
    ReadsAs (kind.name.toList ++ cs) (Token.ofSymbol kind :: ts) := by
  rcases TokenKind.mem_unaryOperators.mp hkind with rfl | rfl
  · exact symbol (c := '!') rfl (fun _ => hcs) h
  · exact symbol (c := '-') rfl (fun _ => hcs) h

end ReadsAs

/-! ## The canonical form -/

/-- The text of a well-formed number consists of digits. -/
theorem Token.isRun_digits {t : Token} (hkind : t.kind = .int) (ht : t.WellFormed) :
    IsRun Char.isDigit t.literal := by
  unfold Token.WellFormed at ht
  rwa [hkind] at ht

/-- A well-formed name is a word. -/
theorem Ident.isRun_name {i : Ident} (hi : i.WellFormed) : IsRun isWordChar i.name := by
  obtain ⟨hkind, hwf⟩ := hi
  unfold Token.WellFormed at hwf
  rw [hkind] at hwf
  exact hwf.1

/-- A well-formed name reads as its token. -/
theorem Ident.readsAs {i : Ident} (hi : i.WellFormed) {cs : List Char} {ts : List Token}
    (hcs : Separated cs) (h : ReadsAs cs ts) :
    ReadsAs (i.name.toList ++ cs) (i.origin.token :: ts) := by
  have htoken := ReadsAs.token hi.2 (hcs.joins _) h
  rwa [Token.spelling_of_ne (by rw [hi.1]; decide)] at htoken

/-- Names separated by commas. -/
theorem Ident.listReadsAs {names : List Ident} (hnames : ∀ i ∈ names, i.WellFormed)
    {cs : List Char} {ts : List Token} (hcs : Separated cs) (h : ReadsAs cs ts) :
    ReadsAs ((String.intercalate ", " (names.map Ident.name)).toList ++ cs)
      (Ident.listTokens names ++ ts) := by
  induction names with
  | nil => simpa [Ident.listTokens] using h
  | cons i rest ih =>
    have hi := hnames i List.mem_cons_self
    cases rest with
    | nil => simpa [Ident.listTokens, Ident.moreTokens] using i.readsAs hi hcs h
    | cons j rest =>
      have hrest := ih fun k hk => hnames k (List.mem_cons_of_mem i hk)
      have hcomma := (hrest.blank (c := ' ') rfl).plainSymbol (c := ',') rfl rfl
      have hname := i.readsAs hi (separated_cons (by decide) _) hcomma
      simpa [Ident.listTokens, Ident.moreTokens, String.intercalate_cons_cons] using hname

/-- An expression starts with a letter, a digit, a quote or a parenthesis. -/
theorem Expr.head?_form (e : Expr) (he : e.WellFormed) (cs : List Char) :
    (e.form.toList ++ cs).head? ≠ some '=' := by
  match e with
  | .ident name => exact (name.isRun_name he).head?_ne rfl cs
  | .integer origin value => exact (Token.isRun_digits he.1 he.2.1).head?_ne rfl cs
  | .string origin => simp [Expr.form]
  | .boolean origin value => cases value <;> simp [Expr.form]
  | .unary origin operator operand => simp [Expr.form]
  | .binary origin operator left right => simp [Expr.form]
  | .conditional origin condition consequence alternative => simp [Expr.form]
  | .function origin parameters body =>
    have hfn : origin.token.literal = "fn" := by rw [he.1]
    simp [Expr.form, hfn]
  | .call origin callee arguments =>
    have hcallee := callee.head?_form he.2.1
    simp only [Expr.form, String.toList_append, List.append_assoc]
    exact hcallee _

mutual

/-- **The canonical form of an expression reads as its tokens.** -/
theorem Expr.readsAs (e : Expr) (he : e.WellFormed) {cs : List Char} {ts : List Token}
    (hcs : Separated cs) (h : ReadsAs cs ts) :
    ReadsAs (e.form.toList ++ cs) (e.tokens ++ ts) := by
  -- Each form is read from its end: what follows a token must be known before the token is.
  match e with
  | .ident name => exact name.readsAs he hcs h
  | .integer origin value =>
    have htoken := ReadsAs.token he.2.1 (hcs.joins _) h
    rwa [Token.spelling_of_ne (by rw [he.1]; decide)] at htoken
  | .string origin =>
    have htoken := ReadsAs.token he.2 (hcs.joins _) h
    rwa [Token.spelling_of_string he.1] at htoken
  | .boolean origin value =>
    have htoken : origin.token = if value then ⟨.kwTrue, "true"⟩ else ⟨.kwFalse, "false"⟩ := he
    cases value with
    | true => simpa [Expr.form, Expr.tokens, htoken] using h.keyword .kwTrue rfl (hcs.joins _)
    | false => simpa [Expr.form, Expr.tokens, htoken] using h.keyword .kwFalse rfl (hcs.joins _)
  | .unary origin operator operand =>
    obtain ⟨hop, htoken, hoperand⟩ := he
    have hclose := h.plainSymbol (c := ')') rfl rfl
    have hright := operand.readsAs hoperand (separated_cons (by decide) _) hclose
    have hall := (hright.unaryOperator hop (operand.head?_form hoperand _)).plainSymbol
      (c := '(') rfl rfl
    simpa [Expr.form, Expr.tokens, htoken] using hall
  | .binary origin operator left right =>
    obtain ⟨hop, htoken, hleft, hright⟩ := he
    have hclose := h.plainSymbol (c := ')') rfl rfl
    have hr := right.readsAs hright (separated_cons (by decide) _) hclose
    have hopr := (hr.blank (c := ' ') rfl).binaryOperator hop (separated_cons (by decide) _)
    have hl := left.readsAs hleft (separated_cons (by decide) _) (hopr.blank (c := ' ') rfl)
    simpa [Expr.form, Expr.tokens, htoken] using hl.plainSymbol (c := '(') rfl rfl
  | .conditional origin condition consequence alternative =>
    obtain ⟨htoken, hcond, hcons, halt⟩ := he
    have helse := Block.elseReadsAs alternative halt h
    have hthen := consequence.readsAs hcons helse
    have hclose := (hthen.blank (c := ' ') rfl).plainSymbol (c := ')') rfl rfl
    have hc := condition.readsAs hcond (separated_cons (by decide) _) hclose
    have hopen := (hc.plainSymbol (c := '(') rfl rfl).blank (c := ' ') rfl
    have hall := hopen.keyword .kwIf rfl ((separated_cons (by decide) _).joins _)
    simpa [Expr.form, Expr.tokens, htoken] using hall
  | .function origin parameters body =>
    obtain ⟨htoken, hnames, hbody⟩ := he
    have hb := (body.readsAs hbody h).blank (c := ' ') rfl
    have hclose := hb.plainSymbol (c := ')') rfl rfl
    have hlist := Ident.listReadsAs hnames (separated_cons (by decide) _) hclose
    have hopen := hlist.plainSymbol (c := '(') rfl rfl
    have hall := hopen.keyword .kwFn rfl ((separated_cons (by decide) _).joins _)
    simpa [Expr.form, Expr.tokens, htoken, Ident.listForm] using hall
  | .call origin callee arguments =>
    obtain ⟨htoken, hcallee, hargs⟩ := he
    have hclose := h.plainSymbol (c := ')') rfl rfl
    have hlist := Expr.listReadsAs arguments hargs (separated_cons (by decide) _) hclose
    have hopen := hlist.plainSymbol (c := '(') rfl rfl
    have hall := callee.readsAs hcallee (separated_cons (by decide) _) hopen
    simpa [Expr.form, Expr.tokens, htoken] using hall

/-- Expressions separated by commas. -/
theorem Expr.listReadsAs (es : List Expr) (hes : Expr.AllWellFormed es) {cs : List Char}
    {ts : List Token} (hcs : Separated cs) (h : ReadsAs cs ts) :
    ReadsAs ((String.intercalate ", " (Expr.forms es)).toList ++ cs)
      (Expr.listTokens es ++ ts) := by
  match es with
  | [] => simpa [Expr.forms, Expr.listTokens] using h
  | [e] => simpa [Expr.forms, Expr.listTokens, Expr.moreTokens] using e.readsAs hes.1 hcs h
  | e :: f :: rest =>
    have hrest := Expr.listReadsAs (f :: rest) hes.2 hcs h
    have hcomma := (hrest.blank (c := ' ') rfl).plainSymbol (c := ',') rfl rfl
    have he := e.readsAs hes.1 (separated_cons (by decide) _) hcomma
    simpa [Expr.forms, Expr.listTokens, Expr.moreTokens, String.intercalate_cons_cons] using he

/-- The canonical form of a statement, with its semicolon, reads as its tokens. -/
theorem Stmt.readsAs (s : Stmt) (hs : s.WellFormed) {cs : List Char} {ts : List Token}
    (h : ReadsAs cs ts) : ReadsAs (s.endedForm.toList ++ cs) (s.tokens ++ ts) := by
  match s with
  | .binding origin name value =>
    obtain ⟨htoken, hname, hvalue⟩ := hs
    have hend := h.plainSymbol (c := ';') rfl rfl
    have hv := (value.readsAs hvalue (separated_cons (by decide) _) hend).blank (c := ' ') rfl
    have hassign := (hv.symbol (c := '=') rfl (by simp)).blank (c := ' ') rfl
    have hn := (name.readsAs hname (separated_cons (by decide) _) hassign).blank (c := ' ') rfl
    have hall := hn.keyword .kwLet rfl ((separated_cons (by decide) _).joins _)
    simpa [Stmt.endedForm, Stmt.form, Stmt.tokens, htoken] using hall
  | .returning origin value =>
    obtain ⟨htoken, hvalue⟩ := hs
    have hend := h.plainSymbol (c := ';') rfl rfl
    have hv := (value.readsAs hvalue (separated_cons (by decide) _) hend).blank (c := ' ') rfl
    have hall := hv.keyword .kwReturn rfl ((separated_cons (by decide) _).joins _)
    simpa [Stmt.endedForm, Stmt.form, Stmt.tokens, htoken] using hall
  | .expression origin value =>
    have hend := h.plainSymbol (c := ';') rfl rfl
    have hall := value.readsAs hs (separated_cons (by decide) _) hend
    simpa [Stmt.endedForm, Stmt.form, Stmt.tokens] using hall
  | .block body => exact body.readsAs hs h

/-- The canonical form of a block reads as its tokens. -/
theorem Block.readsAs (b : Block) (hb : b.WellFormed) {cs : List Char} {ts : List Token}
    (h : ReadsAs cs ts) : ReadsAs (b.form.toList ++ cs) (b.tokens ++ ts) := by
  match b with
  | .mk origin statements =>
    obtain ⟨htoken, hstatements⟩ := hb
    have hclose := h.plainSymbol (c := '\x7d') rfl rfl
    have hlist := (Stmt.listReadsAs statements hstatements hclose).blank (c := ' ') rfl
    have hall := hlist.plainSymbol (c := '\x7b') rfl rfl
    simpa [Block.form, Block.tokens, htoken] using hall

/-- The alternative of a conditional reads as its tokens. -/
theorem Block.elseReadsAs (b : Option Block) (hb : Block.ElseWellFormed b) {cs : List Char}
    {ts : List Token} (h : ReadsAs cs ts) :
    ReadsAs ((Block.elseForm b).toList ++ cs) (Block.elseTokens b ++ ts) := by
  match b with
  | none => simpa [Block.elseForm, Block.elseTokens] using h
  | some body =>
    have hbody := (body.readsAs hb h).blank (c := ' ') rfl
    have helse := hbody.keyword .kwElse rfl ((separated_cons (by decide) _).joins _)
    simpa [Block.elseForm, Block.elseTokens] using helse.blank (c := ' ') rfl

/-- The statements of a block read as their tokens. -/
theorem Stmt.listReadsAs (ss : List Stmt) (hss : Stmt.AllWellFormed ss) {cs : List Char}
    {ts : List Token} (h : ReadsAs cs ts) :
    ReadsAs ((Stmt.spacedForms ss).toList ++ cs) (Stmt.listTokens ss ++ ts) := by
  match ss with
  | [] => simpa [Stmt.spacedForms, Stmt.listTokens] using h
  | s :: rest =>
    have hrest := (Stmt.listReadsAs rest hss.2 h).blank (c := ' ') rfl
    have hall := s.readsAs hss.1 hrest
    simpa [Stmt.spacedForms_cons, Stmt.listTokens] using hall

end

/-- **The canonical form of a program reads as the tokens of its statements.** -/
theorem Program.readsAs (p : Program) (hp : Stmt.AllWellFormed p.statements) :
    ReadsAs p.form.toList (Stmt.listTokens p.statements ++ [Token.eof]) := by
  obtain ⟨statements, span⟩ := p
  show ReadsAs (String.intercalate " " (statements.map Stmt.endedForm)).toList _
  induction statements with
  | nil => exact readsAs_nil
  | cons s rest ih =>
    have hrest := ih hp.2
    cases rest with
    | nil => simpa [Stmt.listTokens] using s.readsAs hp.1 readsAs_nil
    | cons t rest =>
      have hall := s.readsAs hp.1 (hrest.blank (c := ' ') rfl)
      rw [List.map_cons, List.map_cons, String.intercalate_cons_cons, ← List.map_cons]
      simpa [Stmt.listTokens] using hall

end ScriptLang
