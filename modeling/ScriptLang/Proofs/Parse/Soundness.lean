import ScriptLang.Proofs.Parse.Language
import ScriptLang.Proofs.Parse.Reading
import ScriptLang.Proofs.Parse.WellFormed

/-!
# What is read without errors is in the language

What a production reads off a stream is a token sequence of the language, if it succeeds without
any recovery. A closing brace that is missing at the end of the input counts as read where a block
ends for want of it.
-/

namespace ScriptLang

/-! ## Streams of a source -/

/-- The digits of an integer that can be read fit. -/
theorem Lexeme.IsSound.fits {x : Lexeme} (hx : x.IsSound) (hkind : x.kind = .int) {value : Int64}
    (hvalue : Text.int64OfDecimal? x.token.literal = some value) : x.token.Fits := by
  have hrun := Token.isRun_digits hkind (hx (by rw [hkind]; decide))
  have hdigits : Text.natOfDigits? x.token.literal.toList = some _ :=
    if_pos ⟨hrun.1, List.all_eq_true.mpr hrun.2⟩
  rw [Text.int64OfDecimal?_of_digits hdigits] at hvalue
  exact ⟨_, hdigits, Text.exists_int64OfInt?_natCast.mp ⟨value, hvalue⟩⟩

namespace TokenStream

/-- Nothing but well-formed tokens up to the end of the input. -/
def IsClosed (s : TokenStream) : Prop := (∃ ts, s.Holds ts) ∧ s.IsSound

variable {s : TokenStream} {v : List Token}

theorem IsClosed.advance (hs : s.IsClosed) : s.advance.IsClosed := by
  obtain ⟨⟨ts, hts⟩, hsound⟩ := hs
  exact ⟨⟨ts.tail, hts.advance⟩, hsound.advance⟩

/-- A token that has been read was shown. -/
theorem Shows.of_advance (hne : s.peek.kind ≠ .eof) (h : s.advance.Shows v) :
    s.Shows (s.peek.token :: v) := by
  obtain ⟨ts, k, ⟨hts, hmap⟩, rfl⟩ := h
  obtain ⟨x, rest, hrest⟩ := List.exists_cons_of_ne_nil (rest_ne_nil_of_peek hne)
  have hpeek : s.peek = x := by rw [TokenStream.peek, hrest]; rfl
  have hadvance : s.advance.rest = rest := by rw [TokenStream.advance, hrest]; rfl
  rw [hpeek] at hne ⊢
  rw [hadvance] at hmap
  refine ⟨x.token :: ts, k, ⟨List.forall_mem_cons.mpr ⟨hne, hts⟩, ?_⟩, rfl⟩
  rw [hrest, List.map_cons]
  exact hmap.imp (congrArg (x.token :: ·)) (congrArg (x.token :: ·))

/-- At the end of the input there are no tokens. -/
theorem IsClosed.holds_nil (hs : s.IsClosed) (heof : s.peek.kind = .eof) : s.Holds [] := by
  obtain ⟨⟨ts, hts⟩, -⟩ := hs
  cases ts with
  | nil => exact hts
  | cons t ts =>
    have ht : t.kind ≠ .eof := hts.1 t List.mem_cons_self
    rw [Lexeme.kind, hts.peek] at heof
    exact absurd heof ht

/-- At the end of the input a closing brace may have been read. -/
theorem Shows.of_advance_eof (hs : s.IsClosed) (heof : s.peek.kind = .eof)
    (h : s.advance.Shows v) : s.Shows (Token.ofSymbol .rightBrace :: v) := by
  have hnil := hs.holds_nil heof
  obtain ⟨ts, k, ⟨hne, hmap⟩, rfl⟩ := h
  -- What is left holds no token, and it shows one brace less.
  have hrest : s.advance.rest = [] := by
    have hlength : s.rest.length ≤ 1 := by
      rcases hnil.2 with h | h
      · have := congrArg List.length h
        rw [List.length_map] at this
        rw [this]
        exact Nat.zero_le 1
      · have := congrArg List.length h
        rw [List.length_map] at this
        rw [this]
        rfl
    exact List.eq_nil_of_length_eq_zero (by rw [length_advance]; omega)
  rw [hrest, List.map_nil] at hmap
  have hts : ts = [] := by
    rcases hmap with h | h
    · exact h.symm
    · exact absurd h.symm (List.append_ne_nil_of_right_ne_nil ts (List.cons_ne_nil _ _))
  exact ⟨[], k + 1, hnil, by rw [hts]; rfl⟩

/-! ## Tokens between streams -/

/-- The tokens stand in front of `m` on the stream `s`. -/
def Between (s : TokenStream) (ts : List Token) (m : TokenStream) : Prop :=
  ∀ v, m.Shows v → s.Shows (ts ++ v)

namespace Between

variable {m k : TokenStream} {ts us : List Token}

theorem refl (s : TokenStream) : s.Between [] s := fun _ hv => hv

theorem trans (h : s.Between ts m) (h' : m.Between us k) : s.Between (ts ++ us) k := by
  intro v hv
  rw [List.append_assoc]
  exact h _ (h' v hv)

/-- A token that is not the end token, and those after it. -/
theorem cons {kind : TokenKind} (hkind : s.peek.kind = kind) (hne : kind ≠ .eof)
    (h : s.advance.Between ts m) : s.Between (s.peek.token :: ts) m :=
  fun v hv => Shows.of_advance (hkind ▸ hne) (h v hv)

theorem single {kind : TokenKind} (hkind : s.peek.kind = kind) (hne : kind ≠ .eof) :
    s.Between [s.peek.token] s.advance :=
  cons hkind hne (refl _)

end Between

end TokenStream

/-- The tokens of a statement that is not a block, without the semicolon that may end it. -/
inductive IsClause : List Token → Prop where
  | binding {word name assign : Token} {value : List Token} :
      word.kind = .kwLet → name.kind = .ident → assign.kind = .assign →
      Derives .expression value → IsClause (word :: name :: assign :: value)
  | returning {word : Token} {value : List Token} :
      word.kind = .kwReturn → Derives .expression value → IsClause (word :: value)
  | evaluation {value : List Token} : Derives .expression value → IsClause value

/-- What ends a clause makes it a statement. -/
theorem IsClause.statement {ts ending : List Token} (h : IsClause ts)
    (hending : Derives .ending ending) : Derives .statement (ts ++ ending) := by
  cases h with
  | binding hword hname hassign hvalue => exact .binding hword hname hassign hvalue hending
  | returning hword hvalue => exact .returning hword hvalue hending
  | evaluation hvalue => exact .evaluation hvalue hending

namespace Parser

variable {α : Type}

/-! ## Results without recovery -/

theorem Yields.gives {p : Parser α} {s m : TokenStream} {a : α} (h : Yields p s a m) :
    Gives False p s a m :=
  ⟨[], h, fun hne => hne rfl⟩

theorem Gives.yields {p : Parser α} {s m : TokenStream} {a : α} (h : Gives False p s a m) :
    Yields p s a m := by
  obtain ⟨faults, hreply, hfaults⟩ := h
  obtain rfl : faults = [] := Classical.not_not.mp hfaults
  exact hreply

/-- The token sequences that a result may be read off. A list that goes on after its first element
makes a list with any other first element. -/
def Piece.Language : Piece → List Token → Prop
  | .names _, ts => ∀ t : Token, t.kind = .ident → Derives .names (t :: ts)
  | .parameters _, ts => ∃ names closing, ts = names ++ [closing] ∧ Derives .parameters names ∧
      closing.kind = .rightParen
  | .expr _, ts => Derives .expression ts
  | .values _, ts => ∀ e, Derives .expression e → Derives .values (e ++ ts)
  | .arguments _, ts => ∃ values closing, ts = values ++ [closing] ∧ Derives .arguments values ∧
      closing.kind = .rightParen
  | .block _, ts => Derives .block ts
  | .alternative _, ts => Derives .alternative ts
  | .clause _, ts => IsClause ts
  | .stmt _, ts => Derives .statement ts
  | .stmts _ _, ts => Derives .statements ts

/-- What ends a statement is shown. -/
theorem between_skip (s : TokenStream) :
    ∃ ending, Derives .ending ending ∧ s.Between ending (s.skip .semicolon) := by
  unfold TokenStream.skip
  split
  · next hkind => exact ⟨[s.peek.token], .semicolon hkind, .single hkind (by decide)⟩
  · exact ⟨[], .noEnding, .refl s⟩

/-- A block ends with a closing brace, or with the end of the input in its place. -/
theorem between_advance {s : TokenStream} (hs : s.IsClosed)
    (hends : Enclosure.braces.endsAt s.peek.kind) :
    ∃ closing : Token, closing.kind = .rightBrace ∧ s.Between [closing] s.advance := by
  by_cases heof : s.peek.kind = .eof
  · exact ⟨Token.ofSymbol .rightBrace, rfl, fun _ hv => .of_advance_eof hs heof hv⟩
  · have hbrace : s.peek.kind = .rightBrace := by simpa [Enclosure.endsAt, heof] using hends
    exact ⟨s.peek.token, hbrace, .single hbrace (by decide)⟩

/-- **What is read without errors is in the language.** -/
theorem Derivation.language {s m : TokenStream} {x : Piece} (h : Derivation False s x m)
    (hs : s.IsClosed) : ∃ ts, x.Language ts ∧ s.Between ts m := by
  have hI : ∀ s : TokenStream, s.IsClosed → s.advance.IsClosed := fun _ hs => hs.advance
  induction h with
  | noNames => exact ⟨[], fun t ht => .lastName ht, .refl _⟩
  | moreNames hcomma hname _ ih =>
    obtain ⟨ts, hts, hbetween⟩ := ih hs.advance.advance
    exact ⟨_, fun t ht => .moreNames ht hcomma (hts _ hname),
      .cons hcomma (by decide) (.cons hname (by decide) hbetween)⟩
  | noParameters hclosing =>
    exact ⟨_, ⟨[], _, rfl, .noParameters, hclosing⟩, .single hclosing (by decide)⟩
  | someParameters hname _ hclosing ih =>
    obtain ⟨ts, hts, hbetween⟩ := ih hs.advance
    exact ⟨_, ⟨_, _, rfl, .someParameters (hts _ hname), hclosing⟩,
      (TokenStream.Between.cons hname (by decide) hbetween).trans (.single hclosing (by decide))⟩
  | ident hkind =>
    exact ⟨_, Derives.atom_expression (.ident hkind), .single hkind (by decide)⟩
  | integer hkind hvalue =>
    have hfits := hs.2.peek.fits hkind hvalue
    exact ⟨_, Derives.atom_expression (.integer hkind hfits), .single hkind (by decide)⟩
  | string hkind => exact ⟨_, Derives.atom_expression (.string hkind), .single hkind (by decide)⟩
  | @boolean s value hkind =>
    cases value with
    | true =>
      exact ⟨_, Derives.atom_expression (.boolean (.inl hkind)), .single hkind (by decide)⟩
    | false =>
      exact ⟨_, Derives.atom_expression (.boolean (.inr hkind)), .single hkind (by decide)⟩
  | unary hkind _ ih =>
    obtain ⟨ts, hts, hbetween⟩ := ih hs.advance
    have hne := ne_of_mem_of_not_mem hkind (show TokenKind.eof ∉ _ by decide)
    exact ⟨_, Derives.signed_expression hkind hts, .cons rfl hne hbetween⟩
  | grouped hopening _ hclosing ih =>
    obtain ⟨ts, hts, hbetween⟩ := ih hs.advance
    exact ⟨_, Derives.atom_expression (.grouped hopening hclosing hts),
      .cons hopening (by decide) (hbetween.trans (.single hclosing (by decide)))⟩
  | conditional hkind hopening hcondition hclosing hconsequence _ ih₁ ih₂ ih₃ =>
    have hs₁ := hcondition.keeps hI hs.advance.advance
    have hs₂ := hconsequence.keeps hI hs₁.advance
    obtain ⟨condition, hcond, hbetween₁⟩ := ih₁ hs.advance.advance
    obtain ⟨consequence, hcons, hbetween₂⟩ := ih₂ hs₁.advance
    obtain ⟨alternative, halt, hbetween₃⟩ := ih₃ hs₂
    refine ⟨_, Derives.atom_expression (.conditional hkind hopening hclosing hcond hcons halt), ?_⟩
    refine .cons hkind (by decide) (.cons hopening (by decide) (hbetween₁.trans ?_))
    exact .cons hclosing (by decide) (hbetween₂.trans hbetween₃)
  | noAlternative => exact ⟨[], .noAlternative, .refl _⟩
  | otherwise helse _ ih =>
    obtain ⟨ts, hts, hbetween⟩ := ih hs.advance
    exact ⟨_, .otherwise helse hts, .cons helse (by decide) hbetween⟩
  | function hkind hopening hnames _ ih₁ ih₂ =>
    obtain ⟨_, ⟨names, closing, rfl, hnames', hclosing⟩, hbetween₁⟩ := ih₁ hs.advance.advance
    obtain ⟨body, hbody, hbetween₂⟩ := ih₂ (hnames.keeps hI hs.advance.advance)
    refine ⟨_, Derives.atom_expression (.function hkind hopening hclosing hnames' hbody), ?_⟩
    refine .cons hkind (by decide) (.cons hopening (by decide) ?_)
    simpa using hbetween₁.trans hbetween₂
  | call hleft hcall _ ih₁ ih₂ =>
    -- In the grammar the call belongs to the last operand of what has been read.
    obtain ⟨e, he, hbetween₁⟩ := ih₁ hs
    obtain ⟨_, ⟨values, closing, rfl, hvalues, hclosing⟩, hbetween₂⟩ :=
      ih₂ (hleft.keeps hI hs).advance
    refine ⟨_, Derives.call_expression hcall hclosing hvalues he, hbetween₁.trans ?_⟩
    exact .cons hcall (by decide) hbetween₂
  | binary hleft hoperator _ ih₁ ih₂ =>
    obtain ⟨e, he, hbetween₁⟩ := ih₁ hs
    obtain ⟨e', he', hbetween₂⟩ := ih₂ (hleft.keeps hI hs).advance
    have hne := ne_of_mem_of_not_mem hoperator (show TokenKind.eof ∉ _ by decide)
    refine ⟨_, Derives.binary_expression hoperator he he', hbetween₁.trans ?_⟩
    exact .cons rfl hne hbetween₂
  | noValues =>
    refine ⟨[], fun e he => ?_, .refl _⟩
    rw [List.append_nil]
    exact .lastValue he
  | moreValues hcomma hvalue _ ih₁ ih₂ =>
    obtain ⟨e, he, hbetween₁⟩ := ih₁ hs.advance
    obtain ⟨ts, hts, hbetween₂⟩ := ih₂ (hvalue.keeps hI hs.advance)
    exact ⟨_, fun e' he' => .moreValues hcomma he' (hts e he),
      .cons hcomma (by decide) (hbetween₁.trans hbetween₂)⟩
  | noArguments hclosing =>
    exact ⟨_, ⟨[], _, rfl, .noArguments, hclosing⟩, .single hclosing (by decide)⟩
  | someArguments hvalue _ hclosing ih₁ ih₂ =>
    obtain ⟨e, he, hbetween₁⟩ := ih₁ hs
    obtain ⟨ts, hts, hbetween₂⟩ := ih₂ (hvalue.keeps hI hs)
    exact ⟨_, ⟨_, _, rfl, .someArguments (hts e he), hclosing⟩,
      (hbetween₁.trans hbetween₂).trans (.single hclosing (by decide))⟩
  | block hkind hbody ih =>
    obtain ⟨body, hts, hbetween⟩ := ih hs.advance
    obtain ⟨closing, hbrace, hclosing⟩ := between_advance (hbody.keeps hI hs.advance) hbody.endsAt
    exact ⟨_, .braces hkind hbrace hts, .cons hkind (by decide) (hbetween.trans hclosing)⟩
  | binding hkind hname hassign _ ih =>
    obtain ⟨ts, hts, hbetween⟩ := ih hs.advance.advance.advance
    refine ⟨_, .binding hkind hname hassign hts, .cons hkind (by decide) ?_⟩
    exact .cons hname (by decide) (.cons hassign (by decide) hbetween)
  | returning hkind _ ih =>
    obtain ⟨ts, hts, hbetween⟩ := ih hs.advance
    exact ⟨_, .returning hkind hts, .cons hkind (by decide) hbetween⟩
  | evaluation _ ih =>
    obtain ⟨ts, hts, hbetween⟩ := ih hs
    exact ⟨ts, .evaluation hts, hbetween⟩
  | nested _ _ ih =>
    obtain ⟨ts, hts, hbetween⟩ := ih hs
    exact ⟨ts, .nested hts, hbetween⟩
  | ended _ _ _ ih =>
    obtain ⟨ts, hts, hbetween⟩ := ih hs
    obtain ⟨ending, hending, hskip⟩ := between_skip _
    exact ⟨_, hts.statement hending, hbetween.trans hskip⟩
  | noStmts _ => exact ⟨[], .noStatements, .refl _⟩
  | moreStmts hfirst _ ih₁ ih₂ =>
    obtain ⟨ts, hts, hbetween₁⟩ := ih₁ hs
    obtain ⟨us, hus, hbetween₂⟩ := ih₂ (hfirst.keeps hI hs)
    exact ⟨_, .moreStatements hts hus, hbetween₁.trans hbetween₂⟩
  | gap hfalse _ _ _ => exact hfalse.elim

end Parser
end ScriptLang
