import ScriptLang.Proofs.Parse.Acceptance
import ScriptLang.Proofs.Parse.RoundTrip

/-!
# Parsing keeps the tokens

The canonical form of a program puts parentheses and semicolons where they may be left out, and
closes blocks that the end of the input closed. These delimiters apart, it has the tokens of the
source that the program was read from.

Each result has the tokens that it was read off, up to delimiters, if it was read without any
recovery. So no production reads a token too many, or drops one.
-/

namespace ScriptLang

open ScriptLang.Parser

/-! ## Tokens without delimiters -/

/-- The kinds of tokens that only say where something starts or ends. An opening brace is none: it
tells a block from the statements in it. -/
def TokenKind.isDelimiter : TokenKind → Bool
  | .leftParen | .rightParen | .semicolon | .rightBrace | .eof => true
  | _ => false

/-- The tokens that are no delimiters. -/
def core (ts : List Token) : List Token := ts.filter fun t => !t.kind.isDelimiter

/-- A token, unless it is a delimiter. -/
def Token.core (t : Token) : List Token := ScriptLang.core [t]

@[simp] theorem core_nil : core [] = [] := rfl

@[simp] theorem core_append (ts us : List Token) : core (ts ++ us) = core ts ++ core us :=
  List.filter_append ts us

@[simp] theorem core_cons (t : Token) (ts : List Token) : core (t :: ts) = t.core ++ core ts :=
  core_append [t] ts

theorem Token.core_of_isDelimiter {t : Token} (h : t.kind.isDelimiter) : t.core = [] :=
  List.filter_eq_nil_iff.mpr (by simp [h])

@[simp] theorem Token.core_leftParen : (Token.ofSymbol .leftParen).core = [] := rfl

@[simp] theorem Token.core_rightParen : (Token.ofSymbol .rightParen).core = [] := rfl

@[simp] theorem Token.core_semicolon : (Token.ofSymbol .semicolon).core = [] := rfl

@[simp] theorem Token.core_rightBrace : (Token.ofSymbol .rightBrace).core = [] := rfl

/-- What is left in a stream, without delimiters. -/
def TokenStream.core (s : TokenStream) : List Token := ScriptLang.core (s.rest.map Lexeme.token)

/-- Advancing takes the next token off. At the end of the input there is none, and the end token
is a delimiter. -/
theorem TokenStream.core_eq_append (s : TokenStream) :
    s.core = s.peek.token.core ++ s.advance.core := by
  unfold TokenStream.core TokenStream.advance TokenStream.peek
  cases s.rest with
  | nil => rfl
  | cons x rest => exact core_cons x.token _

/-- Advancing over a delimiter changes nothing. -/
theorem TokenStream.core_advance_of_isDelimiter {s : TokenStream} (h : s.peek.kind.isDelimiter) :
    s.advance.core = s.core := by
  rw [s.core_eq_append, Token.core_of_isDelimiter h, List.nil_append]

namespace Parser

/-! ## Results -/

/-- The tokens of a result, of which the given one is the first. -/
def Piece.tokens (first : Token) : Piece → List Token
  | .names is => Ident.moreTokens is
  | .parameters is => Ident.listTokens is
  | .expr e => e.tokens
  | .values es => Expr.moreTokens es
  | .arguments es => Expr.listTokens es
  | .block b => b.tokens
  | .alternative b => Block.elseTokens b
  | .clause c => (c.statement ⟨first, default⟩).tokens
  | .stmt t => t.tokens
  | .stmts _ ts => Stmt.listTokens ts

/-- A token that has been read is one of those of the stream. -/
theorem core_of_token_eq {s : TokenStream} {t : Token} (h : s.peek.token = t) :
    s.core = t.core ++ s.advance.core := by
  rw [s.core_eq_append, h]

/-- A delimiter that has been read need not be accounted for. -/
theorem core_of_delimiter {s : TokenStream} {kind : TokenKind} (hkind : s.peek.kind = kind)
    (h : kind.isDelimiter) : s.core = s.advance.core :=
  (TokenStream.core_advance_of_isDelimiter (by rw [hkind]; exact h)).symm

/-- The semicolon that ends a statement is a delimiter. -/
theorem core_skip_semicolon (s : TokenStream) : (s.skip .semicolon).core = s.core := by
  unfold TokenStream.skip
  split
  · next hkind => exact (core_of_delimiter hkind rfl).symm
  · rfl

/-- **The tokens of a result are those that have been read**, delimiters apart. -/
theorem Derivation.core_eq {s m : TokenStream} {x : Piece} (h : Derivation False s x m)
    (hs : s.IsClosed) : s.core = core (x.tokens s.peek.token) ++ m.core := by
  have hI : ∀ s : TokenStream, s.IsClosed → s.advance.IsClosed := fun _ hs => hs.advance
  induction h with
  | noNames | noAlternative | noValues | noStmts _ => rfl
  | moreNames hcomma _ _ ih =>
    have htoken : _ = Token.ofSymbol .comma := hs.2.peek.token_eq hcomma rfl
    rw [core_of_token_eq htoken, core_of_token_eq rfl, ih hs.advance.advance]
    simp [Piece.tokens, Ident.moreTokens, Lexeme.origin]
  | noParameters hclosing | noArguments hclosing =>
    rw [core_of_delimiter hclosing rfl]
    rfl
  | someParameters _ _ hclosing ih =>
    rw [core_of_token_eq rfl, ih hs.advance, core_of_delimiter hclosing rfl]
    simp [Piece.tokens, Ident.listTokens, Lexeme.origin]
  | ident _ | integer _ _ | string _ | boolean _ =>
    rw [core_of_token_eq rfl]
    rfl
  | unary _ _ ih =>
    rw [core_of_token_eq rfl, ih hs.advance]
    simp [Piece.tokens, Expr.tokens]
  | grouped hopening _ hclosing ih =>
    rw [core_of_delimiter hopening rfl, ih hs.advance, core_of_delimiter hclosing rfl]
    rfl
  | conditional hkind hopening hcondition hclosing hconsequence _ ih₁ ih₂ ih₃ =>
    have hs₁ := hcondition.keeps hI hs.advance.advance
    have hs₂ := hconsequence.keeps hI hs₁.advance
    rw [core_of_token_eq rfl, core_of_delimiter hopening rfl, ih₁ hs.advance.advance,
      core_of_delimiter hclosing rfl, ih₂ hs₁.advance, ih₃ hs₂]
    simp [Piece.tokens, Expr.tokens]
  | otherwise helse _ ih =>
    have htoken : _ = Token.mk .kwElse "else" := hs.2.peek.token_eq helse rfl
    rw [core_of_token_eq htoken, ih hs.advance]
    simp [Piece.tokens, Block.elseTokens]
  | function _ hopening hnames _ ih₁ ih₂ =>
    have hs₁ := hnames.keeps hI hs.advance.advance
    rw [core_of_token_eq rfl, core_of_delimiter hopening rfl, ih₁ hs.advance.advance, ih₂ hs₁]
    simp [Piece.tokens, Expr.tokens]
  | call hleft _ _ ih₁ ih₂ | binary hleft _ _ ih₁ ih₂ =>
    rw [ih₁ hs, core_of_token_eq rfl, ih₂ (hleft.keeps hI hs).advance]
    simp [Piece.tokens, Expr.tokens]
  | moreValues hcomma hvalue _ ih₁ ih₂ =>
    have htoken : _ = Token.ofSymbol .comma := hs.2.peek.token_eq hcomma rfl
    rw [core_of_token_eq htoken, ih₁ hs.advance, ih₂ (hvalue.keeps hI hs.advance)]
    simp [Piece.tokens, Expr.moreTokens]
  | someArguments hvalue _ hclosing ih₁ ih₂ =>
    rw [ih₁ hs, ih₂ (hvalue.keeps hI hs), core_of_delimiter hclosing rfl]
    simp [Piece.tokens, Expr.listTokens]
  | @block s m ts _ hbody ih =>
    -- The token that ends a block is a delimiter, be it a brace or the end of the input.
    have hends : m.peek.kind.isDelimiter := by
      have hends : m.peek.kind = .eof ∨ m.peek.kind = .rightBrace := by
        simpa [Enclosure.endsAt] using hbody.endsAt
      rcases hends with hkind | hkind
      · rw [hkind]
        rfl
      · rw [hkind]
        rfl
    rw [core_of_token_eq rfl, ih hs.advance, core_of_delimiter rfl hends]
    simp [Piece.tokens, Block.tokens]
  | binding _ _ hassign _ ih =>
    have htoken : _ = Token.ofSymbol .assign := hs.advance.advance.2.peek.token_eq hassign rfl
    rw [core_of_token_eq rfl, core_of_token_eq rfl, core_of_token_eq htoken,
      ih hs.advance.advance.advance]
    simp [Piece.tokens, Clause.statement, Stmt.tokens, Lexeme.origin]
  | returning _ _ ih =>
    rw [core_of_token_eq rfl, ih hs.advance]
    simp [Piece.tokens, Clause.statement, Stmt.tokens]
  | evaluation _ ih =>
    rw [ih hs]
    simp [Piece.tokens, Clause.statement, Stmt.tokens]
  | nested _ _ ih => exact ih hs
  | @ended s m n clause t ht _ _ ih =>
    rw [ih hs, core_skip_semicolon, ht]
    cases clause <;> rfl
  | moreStmts hfirst _ ih₁ ih₂ =>
    rw [ih₁ hs, ih₂ (hfirst.keeps hI hs)]
    simp [Piece.tokens, Stmt.listTokens]
  | gap hfalse _ _ _ => exact hfalse.elim

end Parser

/-! ## Sources -/

/-- The tokens of a source that are no delimiters. -/
def coreTokens (source : String) : List Token := core ((lex source).map Lexeme.token)

/-- No phrase of the language has an illegal token. -/
theorem Derives.kind_ne_illegal {phrase : Phrase} {ts : List Token} (h : Derives phrase ts) :
    ∀ t ∈ ts, t.kind ≠ .illegal := by
  have hbinary : TokenKind.illegal ∉ TokenKind.binaryOperators := by decide
  have hunary : TokenKind.illegal ∉ TokenKind.unaryOperators := by decide
  induction h with
  | _ => grind

/-- The tokens of a source are well formed, up to the end of the input. -/
theorem isClosed_lex (source : String) : (TokenStream.ofLexemes (lex source)).IsClosed :=
  ⟨⟨_, holds_sourceTokens source⟩, (CharStream.ofChars source.toList).wellFormed_of_mem_lexemes⟩

/-- A stream at the end of the input has nothing left. -/
theorem TokenStream.IsClosed.core_eq_nil {s : TokenStream} (hs : s.IsClosed)
    (heof : s.peek.kind = .eof) : s.core = [] := by
  unfold TokenStream.core
  rcases (hs.holds_nil heof).2 with hrest | hrest
  · rw [hrest]
    rfl
  · rw [hrest]
    rfl

/-- The canonical form of a program that was parsed has the tokens of its statements. -/
theorem coreTokens_form (source : String) :
    coreTokens (parse source).program.form =
      core (Stmt.listTokens (parse source).program.statements) := by
  have hlex := ((parse source).program.readsAs (wellFormed_parse source)).map_lex
  rw [coreTokens, hlex, core_append]
  exact List.append_nil _

/-- The statements of a source without errors account for its tokens. -/
theorem coreTokens_eq_of_errors_eq_nil {source : String} (h : (parse source).errors = []) :
    coreTokens source = core (Stmt.listTokens (parse source).program.statements) := by
  obtain ⟨body, s', hyields⟩ := yields_of_errors_eq_nil h
  have hprogram : (parse source).program.statements = body := by
    rw [parse, parseRead, parseTokens, program_of_statements hyields]
    rfl
  have hderived := (derivedAt False _).statements hyields.gives
  have hclosed := hderived.keeps (fun _ hs => hs.advance) (isClosed_lex source)
  have hcore := hderived.core_eq (isClosed_lex source)
  -- The statements of a file end where the input does.
  have heof : s'.peek.kind = .eof := of_decide_eq_true hderived.endsAt
  rw [hclosed.core_eq_nil heof, List.append_nil] at hcore
  rw [hprogram]
  exact hcore

/-- A source without errors has no illegal tokens. -/
theorem kind_ne_illegal_of_errors_eq_nil {source : String} (h : (parse source).errors = []) :
    ∀ x ∈ lex source, x.kind ≠ .illegal := by
  obtain ⟨body, s', hyields⟩ := yields_of_errors_eq_nil h
  have hderived := (derivedAt False _).statements hyields.gives
  have hclosed := hderived.keeps (fun _ hs => hs.advance) (isClosed_lex source)
  obtain ⟨ts, hts, hshows⟩ := hderived.language (isClosed_lex source)
  have heof : s'.peek.kind = .eof := of_decide_eq_true hderived.endsAt
  obtain ⟨held, k, hholds, heq⟩ := hshows [] (hclosed.holds_nil heof).shows
  rw [List.append_nil] at heq
  intro x hx hillegal
  -- The end token apart, what the source has is what has been read.
  have hmem : x.token ∈ held := by
    rw [hholds.eq_filter]
    refine List.mem_filter.mpr ⟨List.mem_map.mpr ⟨x, hx, rfl⟩, ?_⟩
    rw [← Lexeme.kind, hillegal]
    rfl
  exact hts.kind_ne_illegal x.token (heq ▸ List.mem_append_left _ hmem) hillegal

/-- **Parsing loses, invents and reorders nothing.** A source that is parsed without errors and the
canonical form of its program have the same tokens in the same order, delimiters apart. It has no
illegal token: where a character outside of strings belongs to no token, there is an error. -/
theorem coreTokens_form_parse (source : String) (h : (parse source).errors = []) :
    coreTokens source = coreTokens (parse source).program.form ∧
      ∀ x ∈ lex source, x.kind ≠ .illegal :=
  ⟨(coreTokens_eq_of_errors_eq_nil h).trans (coreTokens_form source).symm,
    kind_ne_illegal_of_errors_eq_nil h⟩

/-- Parentheses that are not needed, statements without semicolons and a block left open. -/
theorem coreTokens_form_parse_openBlock :
    let source := "let x = (1) \x7b f((x), \"a\")"
    (parse source).errors = [] ∧
      coreTokens source = coreTokens (parse source).program.form ∧
      ∀ x ∈ lex source, x.kind ≠ .illegal := by
  intro source
  have h : (parse source).errors = [] := by decide +kernel
  exact ⟨h, coreTokens_form_parse source h⟩

end ScriptLang
