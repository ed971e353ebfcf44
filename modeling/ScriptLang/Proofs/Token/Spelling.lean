import ScriptLang.Proofs.Token.Lexer

/-!
# Spelling tokens

A well-formed token is one that a source can hold, and its spelling is the text that it is read
from. Characters *read as* tokens if the lexer gives these tokens wherever the characters stand.
A spelled token reads as itself, unless what comes right after joins it. So tokens with blanks
between them are read back, and the tokens of a source are read again from their spelling.
-/

namespace ScriptLang

/-! ## Well-formed tokens -/

/-- A text of at least one character, all of which satisfy `p`. -/
def IsRun (p : Char → Bool) (text : String) : Prop :=
  text.toList ≠ [] ∧ ∀ c ∈ text.toList, p c

/-- A run starts with one of its characters, whatever follows it. -/
theorem IsRun.head?_ne {p : Char → Bool} {text : String} (h : IsRun p text) {c : Char}
    (hc : p c = false) (cs : List Char) : (text.toList ++ cs).head? ≠ some c := by
  obtain ⟨d, ds, htext⟩ := List.exists_cons_of_ne_nil h.1
  have hd : p d = true := h.2 d (by rw [htext]; exact List.mem_cons_self)
  rw [htext]
  rintro ⟨⟩
  exact Bool.false_ne_true (hc.symm.trans hd)

/-- Whether a character neither starts a token nor separates tokens. -/
def isForeign (c : Char) : Bool :=
  !isBlank c && (TokenKind.ofSymbol? c).isNone && c ≠ '"' && !isWordChar c && !c.isDigit

/-- Tokens that a source can hold, the end token apart. Keywords and symbols have one spelling. -/
def Token.WellFormed (t : Token) : Prop :=
  match t.kind with
  | .eof => False
  | .illegal => ∃ c, t.literal = String.singleton c ∧ isForeign c
  | .ident => IsRun isWordChar t.literal ∧ TokenKind.ofWord t.literal = .ident
  | .int => IsRun Char.isDigit t.literal
  | .string => ∀ c ∈ t.literal.toList, isStringChar c
  | kind => t.literal = kind.keyword?.getD kind.name

/-- The text that a token is read from. -/
def Token.spelling (t : Token) : String :=
  if t.kind = .string then "\"" ++ t.literal ++ "\"" else t.literal

/-- Whether a character right after a token of this kind becomes part of the token. -/
def TokenKind.joins (kind : TokenKind) (c : Char) : Bool :=
  match kind with
  | .int => c.isDigit
  | .ident => isWordChar c
  | kind => (kind.keyword?.isSome && isWordChar c) || (kind.withEquals?.isSome && c = '=')

/-! ## Character classes -/

/-- The symbols are no blanks, no letters, no digits and no quotes. -/
theorem isForeign_classes_of_ofSymbol? {c : Char} {kind : TokenKind}
    (h : TokenKind.ofSymbol? c = some kind) :
    isBlank c = false ∧ isWordChar c = false ∧ c.isDigit = false ∧ c ≠ '"' := by
  unfold TokenKind.ofSymbol? at h
  split at h <;> first | decide | cases h

/-- A character of a word starts no symbol and no string, and is no blank. -/
theorem classes_of_isWordChar {c : Char} (h : isWordChar c) :
    isBlank c = false ∧ TokenKind.ofSymbol? c = none ∧ c ≠ '"' := by
  refine ⟨?_, ?_, ?_⟩
  · by_contra hb
    simp only [Bool.not_eq_false, isBlank, Bool.or_eq_true, decide_eq_true_eq] at hb
    rcases hb with ((rfl | rfl) | rfl) | rfl <;> exact absurd h (by decide)
  · cases hs : TokenKind.ofSymbol? c with
    | none => rfl
    | some kind =>
      rw [(isForeign_classes_of_ofSymbol? hs).2.1] at h
      exact absurd h (by decide)
  · rintro rfl
    exact absurd h (by decide)

/-- A digit is no letter. -/
theorem isWordChar_eq_false_of_isDigit {c : Char} (h : c.isDigit) : isWordChar c = false := by
  -- All digits come before the first letter, and that before the underscore.
  have hdigit : ¬('A'.val ≤ c.val) := fun hc =>
    absurd (UInt32.le_trans hc (of_decide_eq_true (Bool.and_eq_true_iff.mp h).2)) (by decide)
  simp only [isWordChar, Bool.or_eq_false_iff, decide_eq_false_iff_not]
  constructor
  · refine Bool.eq_false_iff.mpr fun hc => hdigit ?_
    rcases Bool.or_eq_true_iff.mp hc with hupper | hlower
    · exact (of_decide_eq_true hupper).1
    · exact UInt32.le_trans (by decide) (of_decide_eq_true (Bool.and_eq_true_iff.mp hlower).1)
  · rintro rfl
    exact hdigit (by decide)

/-- A digit starts no symbol and no string, and is no blank. -/
theorem classes_of_isDigit {c : Char} (h : c.isDigit) :
    isBlank c = false ∧ TokenKind.ofSymbol? c = none ∧ c ≠ '"' := by
  refine ⟨?_, ?_, ?_⟩
  · by_contra hb
    simp only [Bool.not_eq_false, isBlank, Bool.or_eq_true, decide_eq_true_eq] at hb
    rcases hb with ((rfl | rfl) | rfl) | rfl <;> exact absurd h (by decide)
  · cases hs : TokenKind.ofSymbol? c with
    | none => rfl
    | some kind =>
      rw [(isForeign_classes_of_ofSymbol? hs).2.2.1] at h
      exact absurd h (by decide)
  · rintro rfl
    exact absurd h (by decide)

/-! ## What the lexer gives is well formed -/

/-- The token of a symbol is well formed. -/
theorem wellFormed_ofSymbol {c : Char} {kind : TokenKind} (h : TokenKind.ofSymbol? c = some kind) :
    (Token.ofSymbol kind).WellFormed := by
  unfold TokenKind.ofSymbol? at h
  split at h <;> cases h <;> rfl

/-- The token of a symbol that an equals sign has joined is well formed. -/
theorem wellFormed_ofSymbol_joined {kind joined : TokenKind} (h : kind.withEquals? = some joined) :
    (Token.ofSymbol joined).WellFormed := by
  unfold TokenKind.withEquals? at h
  split at h <;> cases h <;> rfl

/-- A word is a keyword that is spelled so, or an identifier. -/
theorem ofWord_eq_ident_or_keyword (word : String) :
    TokenKind.ofWord word = .ident ∨ (TokenKind.ofWord word).keyword? = some word := by
  unfold TokenKind.ofWord
  split <;> first | exact Or.inr rfl | exact Or.inl rfl

/-- The token of a word is well formed. -/
theorem wellFormed_ofWord {word : String} (h : IsRun isWordChar word) :
    (Token.ofWord word).WellFormed := by
  rcases ofWord_eq_ident_or_keyword word with hident | hkey
  · rw [Token.ofWord, hident]
    exact ⟨h, hident⟩
  · rw [Token.ofWord]
    generalize TokenKind.ofWord word = kind at hkey
    cases kind <;> cases hkey <;> rfl

/-- The stretch of a stream that starts with the next character is a run. -/
theorem isRun_takeWhile {p : Char → Bool} {s : CharStream} {g : Glyph} {rest : List Glyph}
    (hs : s.rest = g :: rest) (hg : p g.char) : IsRun p (s.takeWhile p) := by
  have hchars : s.chars = g.char :: rest.map Glyph.char := by rw [CharStream.chars, hs]; rfl
  rw [IsRun, CharStream.takeWhile_eq, String.toList_ofList]
  constructor
  · rw [hchars, List.takeWhile_cons, if_pos hg]
    exact List.cons_ne_nil _ _
  · intro c hc
    exact List.mem_takeWhile_imp hc

namespace CharStream

/-- A token that starts with a character other than a blank is well formed. -/
theorem wellFormed_readToken {s : CharStream} {g : Glyph} {rest : List Glyph}
    (hs : s.rest = g :: rest) (hg : isBlank g.char = false) : s.readToken.1.WellFormed := by
  rw [readToken, hs]
  dsimp only
  split
  · next kind hkind =>
    rw [readSymbol]
    split
    · next joined g' rest' hjoin hrest =>
      split
      · exact wellFormed_ofSymbol_joined hjoin
      · exact wellFormed_ofSymbol hkind
    · exact wellFormed_ofSymbol hkind
  · next hsymbol =>
    split
    · intro c hc
      simp only [readString, takeWhile_eq, String.toList_ofList] at hc
      exact List.mem_takeWhile_imp hc
    · next hquote =>
      split
      · next hword => exact wellFormed_ofWord (isRun_takeWhile hs hword)
      · next hword =>
        split
        · next hdigit => exact isRun_takeWhile hs hdigit
        · next hdigit =>
          refine ⟨g.char, rfl, ?_⟩
          simp [isForeign, hg, hsymbol, hquote, hword, hdigit]

/-- A lexeme other than the end token has a well-formed token. -/
theorem wellFormed_next {s : CharStream} (h : s.next.1.kind ≠ .eof) :
    s.next.1.token.WellFormed := by
  rw [Ne, next_kind_eq_eof_iff] at h
  obtain ⟨g, rest, hrest⟩ := List.exists_cons_of_ne_nil h
  have hblank : isBlank g.char = false := by
    have hhead := List.head?_dropWhile_not (fun g : Glyph => isBlank g.char) s.rest
    have hhead' : (s.rest.dropWhile fun g => isBlank g.char).head? = some g := by
      rw [show s.rest.dropWhile (fun g => isBlank g.char) = g :: rest from hrest]
      rfl
    rw [hhead'] at hhead
    simpa using hhead
  exact wellFormed_readToken hrest hblank

/-- All lexemes have well-formed tokens, the end token apart. -/
theorem wellFormed_of_mem_lexemes (s : CharStream) :
    ∀ x ∈ s.lexemes.1, x.kind ≠ .eof → x.token.WellFormed := by
  induction s using lexemes_induction with
  | eof s h =>
    intro x hx hne
    rw [lexemes_of_eof h, List.mem_singleton] at hx
    exact absurd (hx ▸ h) hne
  | step s h ih =>
    intro x hx hne
    rw [lexemes_of_ne_eof h] at hx
    rcases List.mem_cons.mp hx with rfl | hx
    · exact wellFormed_next h
    · exact ih x hx hne

/-! ## Streams of given characters -/

/-- A stream that starts with a character other than a blank reads its next token there. -/
theorem next_of_chars_cons {s : CharStream} {c : Char} {cs : List Char} (h : s.chars = c :: cs)
    (hc : isBlank c = false) :
    ∃ g rest, s.rest = g :: rest ∧ g.char = c ∧ rest.map Glyph.char = cs ∧
      s.next.1.token = s.readToken.1 ∧ s.next.2 = s.readToken.2 := by
  obtain ⟨g, rest, hrest, hg, hcs⟩ := List.map_eq_cons_iff.mp h
  have hself : s.dropWhile isBlank = s := dropWhile_eq_self hrest (hg ▸ hc)
  refine ⟨g, rest, hrest, hg, hcs, ?_, ?_⟩
  · rw [next_token, hself]
  · rw [next_stream, hself]

/-- The longest stretch in front of characters that start none is all there is in front. -/
theorem takeWhile_of_chars {p : Char → Bool} {s : CharStream} {text : String} {cs : List Char}
    (h : s.chars = text.toList ++ cs) (hp : ∀ c ∈ text.toList, p c)
    (hcs : ∀ c ∈ cs.head?, p c = false) :
    s.takeWhile p = text ∧ (s.dropWhile p).chars = cs := by
  have hnil : cs.takeWhile p = [] ∧ cs.dropWhile p = cs := by
    cases cs with
    | nil => exact ⟨rfl, rfl⟩
    | cons c cs =>
      have hc : p c = false := hcs c rfl
      constructor
      · rw [List.takeWhile_cons, hc]; rfl
      · rw [List.dropWhile_cons, hc]; rfl
  constructor
  · rw [takeWhile_eq, h, List.takeWhile_append_of_pos hp, hnil.1, List.append_nil,
      String.ofList_toList]
  · rw [chars_dropWhile, h, List.dropWhile_append_of_pos hp, hnil.2]

end CharStream

/-! ## Reading characters as tokens -/

/-- Wherever the characters stand, the lexer reads them as these tokens. -/
def ReadsAs (cs : List Char) (ts : List Token) : Prop :=
  ∀ s : CharStream, s.chars = cs → s.lexemes.1.map Lexeme.token = ts

/-- The end of the input reads as the end token. -/
theorem readsAs_nil : ReadsAs [] [Token.eof] := by
  intro s hs
  have hrest : s.rest = [] := List.map_eq_nil_iff.mp hs
  have hend : s.next.1.kind = .eof := by
    rw [CharStream.next_kind_eq_eof_iff]
    show s.rest.dropWhile _ = []
    rw [hrest, List.dropWhile_nil]
  rw [CharStream.lexemes_of_eof hend, List.map_singleton, CharStream.next_token_of_eof hend]

namespace ReadsAs

variable {cs : List Char} {ts : List Token}

/-- A blank in front changes nothing. -/
theorem blank {c : Char} (hc : isBlank c) (h : ReadsAs cs ts) : ReadsAs (c :: cs) ts := by
  intro s hs
  obtain ⟨last, glyphs⟩ := s
  obtain ⟨g, rest, rfl, rfl, hcs⟩ := List.map_eq_cons_iff.mp hs
  rw [CharStream.lexemes_cons_blank hc]
  exact h _ hcs

/-- One token after the other. -/
theorem of_next {t : Token} {ds : List Char} (ht : t.kind ≠ .eof)
    (hnext : ∀ s : CharStream, s.chars = ds → s.next.1.token = t ∧ s.next.2.chars = cs)
    (h : ReadsAs cs ts) : ReadsAs ds (t :: ts) := by
  intro s hs
  obtain ⟨htoken, hchars⟩ := hnext s hs
  have hkind : s.next.1.kind ≠ .eof := by rw [Lexeme.kind, htoken]; exact ht
  rw [CharStream.lexemes_of_ne_eof hkind, List.map_cons, htoken, h _ hchars]

/-- A symbol that no equals sign joins. -/
theorem symbol {c : Char} {kind : TokenKind} (hc : TokenKind.ofSymbol? c = some kind)
    (hcs : kind.withEquals?.isSome → cs.head? ≠ some '=') (h : ReadsAs cs ts) :
    ReadsAs (c :: cs) (Token.ofSymbol kind :: ts) := by
  refine of_next (CharStream.ofSymbol?_ne_eof hc) ?_ h
  intro s hs
  obtain ⟨g, rest, hrest, rfl, hmap, htoken, hstream⟩ :=
    CharStream.next_of_chars_cons hs (isForeign_classes_of_ofSymbol? hc).1
  have hread : s.readToken = (Token.ofSymbol kind, ⟨g.stop, rest⟩) := by
    simp only [CharStream.readToken, hrest, hc, CharStream.readSymbol]
    cases hjoin : kind.withEquals? with
    | none => rfl
    | some joined =>
      -- An equals sign would join the symbol, but there is none.
      cases rest with
      | nil => rfl
      | cons g' rest' =>
        have hne : g'.char ≠ '=' := by
          intro heq
          refine hcs (by rw [hjoin]; rfl) ?_
          rw [← hmap, List.map_cons, List.head?_cons, heq]
        simp only [hne, if_false]
  rw [htoken, hstream, hread]
  exact ⟨rfl, hmap⟩

/-- A symbol and the equals sign that joins it. -/
theorem joined (c : Char) (kind : TokenKind) {joined : TokenKind}
    (hc : TokenKind.ofSymbol? c = some kind)
    (hjoin : kind.withEquals? = some joined) (h : ReadsAs cs ts) :
    ReadsAs (c :: '=' :: cs) (Token.ofSymbol joined :: ts) := by
  refine of_next (CharStream.withEquals?_ne_eof hjoin) ?_ h
  intro s hs
  obtain ⟨g, rest, hrest, rfl, hmap, htoken, hstream⟩ :=
    CharStream.next_of_chars_cons hs (isForeign_classes_of_ofSymbol? hc).1
  obtain ⟨g', rest', rfl, hg', hmap'⟩ := List.map_eq_cons_iff.mp hmap
  have hread : s.readToken = (Token.ofSymbol joined, ⟨g'.stop, rest'⟩) := by
    simp only [CharStream.readToken, hrest, hc, CharStream.readSymbol, hjoin, hg', if_true]
  rw [htoken, hstream, hread]
  exact ⟨rfl, hmap'⟩

/-- A word that ends where it is followed by no further letter. -/
theorem word {text : String} (hw : IsRun isWordChar text)
    (hcs : ∀ c ∈ cs.head?, isWordChar c = false) (h : ReadsAs cs ts) :
    ReadsAs (text.toList ++ cs) (Token.ofWord text :: ts) := by
  refine of_next (CharStream.ofWord_ne_eof text) ?_ h
  intro s hs
  obtain ⟨c, ds, htext⟩ := List.exists_cons_of_ne_nil hw.1
  have hc : isWordChar c := hw.2 c (by rw [htext]; exact List.mem_cons_self)
  obtain ⟨hblank, hsymbol, hquote⟩ := classes_of_isWordChar hc
  obtain ⟨g, rest, hrest, rfl, -, htoken, hstream⟩ :=
    CharStream.next_of_chars_cons (by rw [hs, htext, List.cons_append]) hblank
  have hread : s.readToken = (Token.ofWord (s.takeWhile isWordChar), s.dropWhile isWordChar) := by
    simp only [CharStream.readToken, hrest, hsymbol, hquote, hc, if_true, if_false]
  obtain ⟨htake, hdrop⟩ := CharStream.takeWhile_of_chars hs hw.2 hcs
  rw [htoken, hstream, hread, htake]
  exact ⟨rfl, hdrop⟩

/-- Digits that end where they are followed by no further digit. -/
theorem numeral {text : String} (hw : IsRun Char.isDigit text)
    (hcs : ∀ c ∈ cs.head?, c.isDigit = false) (h : ReadsAs cs ts) :
    ReadsAs (text.toList ++ cs) (⟨.int, text⟩ :: ts) := by
  refine of_next (by simp) ?_ h
  intro s hs
  obtain ⟨c, ds, htext⟩ := List.exists_cons_of_ne_nil hw.1
  have hc : c.isDigit := hw.2 c (by rw [htext]; exact List.mem_cons_self)
  have hword := isWordChar_eq_false_of_isDigit hc
  obtain ⟨hblank, hsymbol, hquote⟩ := classes_of_isDigit hc
  obtain ⟨g, rest, hrest, rfl, -, htoken, hstream⟩ :=
    CharStream.next_of_chars_cons (by rw [hs, htext, List.cons_append]) hblank
  have hread : s.readToken = (⟨.int, s.takeWhile Char.isDigit⟩, s.dropWhile Char.isDigit) := by
    simp [CharStream.readToken, hrest, hsymbol, hquote, hword, hc]
  obtain ⟨htake, hdrop⟩ := CharStream.takeWhile_of_chars hs hw.2 hcs
  rw [htoken, hstream, hread, htake]
  exact ⟨rfl, hdrop⟩

/-- A string between its quotes. -/
theorem quoted {text : String} (hw : ∀ c ∈ text.toList, isStringChar c) (h : ReadsAs cs ts) :
    ReadsAs ('"' :: (text.toList ++ '"' :: cs)) (⟨.string, text⟩ :: ts) := by
  refine of_next (by simp) ?_ h
  intro s hs
  obtain ⟨g, rest, hrest, hg, hmap, htoken, hstream⟩ :=
    CharStream.next_of_chars_cons hs (by decide)
  have hread : s.readToken = CharStream.readString ⟨g.stop, rest⟩ := by
    simp [CharStream.readToken, hrest, hg, show TokenKind.ofSymbol? '"' = none from rfl]
  obtain ⟨htake, hdrop⟩ := CharStream.takeWhile_of_chars (s := ⟨g.stop, rest⟩)
    (p := isStringChar) hmap hw (by simp [isStringChar])
  obtain ⟨g', rest', hrest', hg', hmap'⟩ := List.map_eq_cons_iff.mp hdrop
  rw [htoken, hstream, hread]
  refine ⟨by rw [CharStream.readString, htake], ?_⟩
  simp [CharStream.readString, CharStream.skip, hrest', hg', CharStream.chars, hmap']

/-- A character that belongs to no token. -/
theorem foreign {c : Char} (hc : isForeign c) (h : ReadsAs cs ts) :
    ReadsAs (c :: cs) (⟨.illegal, String.singleton c⟩ :: ts) := by
  refine of_next (by simp) ?_ h
  intro s hs
  simp only [isForeign, Bool.and_eq_true, Bool.not_eq_true', Option.isNone_iff_eq_none,
    decide_eq_true_eq] at hc
  obtain ⟨⟨⟨⟨hblank, hsymbol⟩, hquote⟩, hword⟩, hdigit⟩ := hc
  obtain ⟨g, rest, hrest, rfl, hmap, htoken, hstream⟩ :=
    CharStream.next_of_chars_cons hs hblank
  have hread : s.readToken = (⟨.illegal, String.singleton g.char⟩, ⟨g.stop, rest⟩) := by
    simp [CharStream.readToken, hrest, hsymbol, hquote, hword, hdigit]
  rw [htoken, hstream, hread]
  exact ⟨rfl, hmap⟩

/-- A symbol by its name. -/
theorem symbolName (c : Char) (kind : TokenKind) (hc : TokenKind.ofSymbol? c = some kind)
    (hcs : ∀ c ∈ cs.head?, kind.joins c = false) (h : ReadsAs cs ts) :
    ReadsAs (kind.name.toList ++ cs) (Token.ofSymbol kind :: ts) := by
  rw [(CharStream.spelled_of_ofSymbol? hc).2]
  refine symbol hc (fun hsome hhead => ?_) h
  have hjoins := hcs '=' hhead
  unfold TokenKind.ofSymbol? at hc
  split at hc <;> cases hc <;>
    first | exact absurd hsome (by decide) | exact absurd hjoins (by decide)

/-- A keyword by its spelling. -/
theorem keyword (kind : TokenKind) {text : String} (hkey : kind.keyword? = some text)
    (hcs : ∀ c ∈ cs.head?, kind.joins c = false) (h : ReadsAs cs ts) :
    ReadsAs (text.toList ++ cs) (⟨kind, text⟩ :: ts) := by
  have htoken : (⟨kind, text⟩ : Token) = Token.ofWord text ∧ IsRun isWordChar text := by
    cases kind <;> cases hkey <;> refine ⟨rfl, by decide, ?_⟩ <;> rw [← List.all_eq_true] <;> rfl
  rw [htoken.1]
  refine word htoken.2 (fun c hc => ?_) h
  have hjoins := hcs c hc
  simp only [TokenKind.joins] at hjoins
  cases kind <;> cases hkey <;> exact (Bool.or_eq_false_iff.mp hjoins).1

/-- **A spelled token reads as itself**, unless what comes right after joins it. -/
theorem token {t : Token} (ht : t.WellFormed) (hcs : ∀ c ∈ cs.head?, t.kind.joins c = false)
    (h : ReadsAs cs ts) : ReadsAs (t.spelling.toList ++ cs) (t :: ts) := by
  obtain ⟨kind, literal⟩ := t
  cases kind
  case eof => exact ht.elim
  case illegal =>
    obtain ⟨c, hc, hforeign⟩ := ht
    subst hc
    simpa [Token.spelling] using foreign hforeign h
  case ident =>
    have hword := word ht.1 hcs h
    rwa [Token.ofWord, ht.2] at hword
  case int => exact numeral ht hcs h
  case string =>
    have hquoted := quoted ht h
    simpa [Token.spelling] using hquoted
  -- the other kinds have one spelling each
  all_goals
    simp only [Token.WellFormed, TokenKind.keyword?, TokenKind.name, Option.getD_none,
      Option.getD_some] at ht
    subst ht
  case equal => exact joined '=' .assign rfl rfl h
  case notEqual => exact joined '!' .bang rfl rfl h
  case assign => exact symbolName '=' .assign rfl hcs h
  case plus => exact symbolName '+' .plus rfl hcs h
  case minus => exact symbolName '-' .minus rfl hcs h
  case bang => exact symbolName '!' .bang rfl hcs h
  case asterisk => exact symbolName '*' .asterisk rfl hcs h
  case slash => exact symbolName '/' .slash rfl hcs h
  case lessThan => exact symbolName '<' .lessThan rfl hcs h
  case greaterThan => exact symbolName '>' .greaterThan rfl hcs h
  case comma => exact symbolName ',' .comma rfl hcs h
  case semicolon => exact symbolName ';' .semicolon rfl hcs h
  case leftParen => exact symbolName '(' .leftParen rfl hcs h
  case rightParen => exact symbolName ')' .rightParen rfl hcs h
  case leftBrace => exact symbolName '\x7b' .leftBrace rfl hcs h
  case rightBrace => exact symbolName '\x7d' .rightBrace rfl hcs h
  all_goals exact keyword _ rfl hcs h

end ReadsAs

/-- The lexemes of a text that reads as some tokens. -/
theorem ReadsAs.map_lex {source : String} {ts : List Token} (h : ReadsAs source.toList ts) :
    (lex source).map Lexeme.token = ts :=
  h _ (CharStream.chars_ofChars source.toList)

/-- A blank joins no token. -/
theorem TokenKind.joins_blank (kind : TokenKind) : kind.joins ' ' = false := by
  cases kind <;> rfl

/-- **Tokens that are spelled with blanks between them are read as these tokens.** -/
theorem readsAs_spaced {ts : List Token} (h : ∀ t ∈ ts, t.WellFormed) :
    ReadsAs (String.intercalate " " (ts.map Token.spelling)).toList (ts ++ [Token.eof]) := by
  induction ts with
  | nil => exact readsAs_nil
  | cons t rest ih =>
    obtain ⟨ht, hrest⟩ := List.forall_mem_cons.mp h
    cases rest with
    | nil =>
      have hlast := readsAs_nil.token ht (by simp)
      simpa using hlast
    | cons u rest =>
      have hnext := (ih hrest).blank (c := ' ') rfl
      have hfirst := hnext.token ht (by simp [TokenKind.joins_blank])
      simpa [String.intercalate_cons_cons] using hfirst

/-! ## Spelling and reading -/

/-- The tokens of a source end with the end token, which is found nowhere else. -/
theorem exists_map_lex_eq (source : String) :
    ∃ ts, (lex source).map Lexeme.token = ts ++ [Token.eof] ∧ ∀ t ∈ ts, t.kind ≠ .eof := by
  obtain ⟨xs, x, hlex, hxs, hx⟩ := (CharStream.ofChars source.toList).lexemes_eq_append_eof
  refine ⟨xs.map Lexeme.token, ?_, ?_⟩
  · rw [lex, hlex, List.map_append, List.map_singleton, hx]
  · intro t ht
    obtain ⟨y, hy, rfl⟩ := List.mem_map.mp ht
    exact hxs y hy

/-- The tokens of a source, the end token apart. -/
def sourceTokens (source : String) : List Token :=
  ((lex source).map Lexeme.token).filter fun t => t.kind ≠ .eof

/-- The tokens of a source, the end token included. -/
def tokenize (source : String) : List Token := (lex source).map Lexeme.token

/-- The text that spells tokens, with a blank between them. -/
def spelled (ts : List Token) : String := String.intercalate " " (ts.map Token.spelling)

/-- The end token comes after all others. -/
theorem tokenize_eq_append_eof (source : String) :
    tokenize source = sourceTokens source ++ [Token.eof] := by
  obtain ⟨ts, hlex, hne⟩ := exists_map_lex_eq source
  have hall : ts.filter (fun t => decide (t.kind ≠ .eof)) = ts :=
    List.filter_eq_self.mpr fun t ht => decide_eq_true (hne t ht)
  have hsource : sourceTokens source = ts := by
    rw [sourceTokens, hlex, List.filter_append, hall]
    exact List.append_nil ts
  rw [tokenize, hlex, hsource]

/-- What a source holds can be spelled. -/
theorem wellFormed_of_mem_sourceTokens {source : String} {t : Token}
    (ht : t ∈ sourceTokens source) : t.WellFormed := by
  obtain ⟨hmem, hkind⟩ := List.mem_filter.mp ht
  obtain ⟨x, hx, rfl⟩ := List.mem_map.mp hmem
  exact CharStream.wellFormed_of_mem_lexemes _ x hx (of_decide_eq_true hkind)

/-- Tokens that can be spelled are read from the text that spells them, and no others are. -/
theorem tokenize_spelled_eq_iff (ts : List Token) :
    tokenize (spelled ts) = ts ++ [Token.eof] ↔ ∀ t ∈ ts, t.WellFormed := by
  constructor
  · intro h t ht
    -- The tokens are those of a source, namely of the text that spells them.
    rw [tokenize_eq_append_eof] at h
    rw [← List.append_cancel_right h] at ht
    exact wellFormed_of_mem_sourceTokens ht
  · intro h
    exact (readsAs_spaced h).map_lex

/-- **Spelling tokens and reading them undo each other.** The tokens of any source, spelled with a
blank between them, are a source with the same tokens. And any tokens at all are read from the text
that spells them just if each of them is well formed. -/
theorem tokenize_spelled :
    (∀ source, tokenize (spelled (sourceTokens source)) = tokenize source) ∧
      ∀ ts, tokenize (spelled ts) = ts ++ [Token.eof] ↔ ∀ t ∈ ts, t.WellFormed := by
  refine ⟨fun source => ?_, tokenize_spelled_eq_iff⟩
  rw [tokenize_eq_append_eof source, tokenize_spelled_eq_iff]
  intro t ht
  exact wellFormed_of_mem_sourceTokens ht

-- A string that is not closed is spelled with both quotes, and symbols that could join stay apart.
example : spelled (sourceTokens "!= =\"a  b") = "!= = \"a  b\"" := by rfl

end ScriptLang
