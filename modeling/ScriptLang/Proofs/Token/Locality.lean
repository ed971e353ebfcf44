import ScriptLang.Proofs.Token.Spans
import ScriptLang.Proofs.Tree.Shift

/-!
# What comes after a text

The lexer looks no further than one character past a token. So the tokens of a text are read in the
same way if more text follows, and the tokens of what follows are read as if nothing came before,
but for their offsets. At the seam the last token of the first text must be one that nothing can be
joined to; a semicolon is.
-/

namespace ScriptLang

open String (utf8Len)

namespace CharStream

variable {s t u : CharStream} {d n : Nat} {c : Char} {cs ds : List Char}

/-- No word is a semicolon. -/
theorem ofWord_ne_semicolon (word : String) : TokenKind.ofWord word ≠ .semicolon := by
  unfold TokenKind.ofWord
  split <;> decide

/-- At the end of the input nothing joins a symbol. -/
theorem readSymbol_nil (kind : TokenKind) (last : Nat) :
    readSymbol kind ⟨last, []⟩ = (Token.ofSymbol kind, ⟨last, []⟩) := by
  unfold readSymbol
  cases kind.withEquals? <;> rfl

/-! ## Streams that go on -/

/-- The second stream stands `d` bytes further on, and reads `ds` after what the first one reads. -/
def Extends (d : Nat) (ds : List Char) (s t : CharStream) : Prop :=
  ∃ n cs, s.StandsAt n cs ∧ t.StandsAt (n + d) (cs ++ ds)

namespace Extends

theorem offset_eq (h : Extends d ds s t) : t.offset = s.offset + d := by
  obtain ⟨n, cs, hs, ht⟩ := h
  rw [hs.offset_eq, ht.offset_eq]

/-- The first stream has a next character, and the second one has the same. -/
theorem cons {g : Glyph} {rest : List Glyph} (h : Extends d ds s t) (hs : s.rest = g :: rest) :
    ∃ g' rest', t.rest = g' :: rest' ∧ g'.char = g.char ∧
      Extends d ds ⟨g.stop, rest⟩ ⟨g'.stop, rest'⟩ := by
  obtain ⟨n, cs, hstands, ht⟩ := h
  cases cs with
  | nil =>
    rw [hstands.rest_eq] at hs
    cases hs
  | cons c cs =>
    obtain ⟨rest₁, hrest, hafter⟩ := hstands.cons
    obtain ⟨rest', hrest', hafter'⟩ := ht.cons
    obtain ⟨rfl, rfl⟩ := List.cons.inj (hs.symm.trans hrest)
    rw [Nat.add_right_comm] at hafter'
    exact ⟨_, rest', hrest', rfl, n + c.utf8Size, cs, hafter, hafter'⟩

/-- A stretch that ends within the first text is the same in both. -/
theorem dropWhile (p : Char → Bool) (h : Extends d ds s t)
    (hend : (s.dropWhile p).rest ≠ [] ∨ ds = []) :
    t.takeWhile p = s.takeWhile p ∧ Extends d ds (s.dropWhile p) (t.dropWhile p) := by
  obtain ⟨n, cs, hs, ht⟩ := h
  have hdrop := hs.dropWhile p
  have hlist : (cs ++ ds).takeWhile p = cs.takeWhile p ∧
      (cs ++ ds).dropWhile p = cs.dropWhile p ++ ds := by
    rcases hend with hend | rfl
    · have hne : cs.dropWhile p ≠ [] := by
        intro hnil
        rw [hnil] at hdrop
        exact hend hdrop.rest_eq
      exact takeWhile_append_of_dropWhile_ne_nil hne ds
    · rw [List.append_nil, List.append_nil]
      exact ⟨rfl, rfl⟩
  have hdrop' := ht.dropWhile p
  rw [hlist.1, hlist.2, Nat.add_right_comm] at hdrop'
  refine ⟨?_, _, _, hdrop, hdrop'⟩
  rw [hs.takeWhile_eq, ht.takeWhile_eq, hlist.1]

/-- A character that may be skipped is in the first text, or nothing follows it. -/
theorem skip (c : Char) (h : Extends d ds s t) (hend : s.rest ≠ [] ∨ ds = []) :
    Extends d ds (s.skip c) (t.skip c) := by
  obtain ⟨last, rest⟩ := s
  cases rest with
  | nil =>
    obtain rfl : ds = [] := hend.resolve_left fun hne => hne rfl
    obtain ⟨n, cs, hs, ht⟩ := h
    cases cs with
    | nil =>
      rw [ht.skip_nil, hs.skip_nil]
      exact ⟨n, [], hs, ht⟩
    | cons c cs => cases hs.rest_eq
  | cons g rest =>
    obtain ⟨g', rest', hrest', hchar, hafter⟩ := h.cons rfl
    unfold CharStream.skip
    rw [hrest']
    dsimp only
    rw [hchar]
    by_cases hc : g.char = c
    · rw [if_pos hc, if_pos hc]
      exact hafter
    · rw [if_neg hc, if_neg hc]
      exact h

/-- A symbol is the same in both, if what could join it is in the first text. -/
theorem readSymbol (kind : TokenKind) (h : Extends d ds s t)
    (hend : s.rest ≠ [] ∨ kind.withEquals? = none ∨ ds = []) :
    (CharStream.readSymbol kind t).1 = (CharStream.readSymbol kind s).1 ∧
      Extends d ds (CharStream.readSymbol kind s).2 (CharStream.readSymbol kind t).2 := by
  unfold CharStream.readSymbol
  cases hjoin : kind.withEquals? with
  | none => exact ⟨rfl, h⟩
  | some joined =>
    obtain ⟨last, rest⟩ := s
    cases rest with
    | nil =>
      obtain rfl : ds = [] := by
        rcases hend with hne | hnone | hds
        · exact absurd rfl hne
        · rw [hjoin] at hnone
          cases hnone
        · exact hds
      obtain ⟨n, cs, hs, ht⟩ := h
      cases cs with
      | nil =>
        have hrest : t.rest = [] := ht.rest_eq
        rw [hrest]
        exact ⟨rfl, n, [], hs, ht⟩
      | cons c cs => cases hs.rest_eq
    | cons g rest =>
      obtain ⟨g', rest', hrest', hchar, hafter⟩ := h.cons rfl
      rw [hrest']
      dsimp only
      rw [hchar]
      by_cases hc : g.char = '='
      · rw [if_pos hc, if_pos hc]
        exact ⟨rfl, hafter⟩
      · rw [if_neg hc, if_neg hc]
        exact ⟨rfl, h⟩

/-- A string is the same in both, if its closing quote is in the first text. -/
theorem readString (h : Extends d ds s t)
    (hend : (CharStream.readString s).2.rest ≠ [] ∨ ds = []) :
    (CharStream.readString t).1 = (CharStream.readString s).1 ∧
      Extends d ds (CharStream.readString s).2 (CharStream.readString t).2 := by
  have hquote : (s.dropWhile isStringChar).rest ≠ [] ∨ ds = [] := by
    refine hend.imp_left fun hne hnil => hne ?_
    show ((s.dropWhile isStringChar).skip '"').rest = []
    unfold CharStream.skip
    rw [hnil]
    exact hnil
  obtain ⟨htext, hafter⟩ := h.dropWhile isStringChar hquote
  exact ⟨congrArg (Token.mk .string) htext, hafter.skip '"' hquote⟩

/-- A token is the same in both, if it ends within the first text. -/
theorem readToken (h : Extends d ds s t)
    (hend : s.readToken.2.rest ≠ [] ∨ s.readToken.1.kind = .semicolon ∨ ds = []) :
    t.readToken.1 = s.readToken.1 ∧ Extends d ds s.readToken.2 t.readToken.2 := by
  cases hs : s.rest with
  | nil =>
    obtain ⟨n, cs, hstands, ht⟩ := h
    cases cs with
    | cons c cs => cases hs.symm.trans hstands.rest_eq
    | nil =>
      have hread : s.readToken = (Token.eof, s) := by rw [CharStream.readToken, hs]
      rw [hread] at hend ⊢
      obtain rfl : ds = [] := by
        rcases hend with hne | hkind | hds
        · exact absurd hs hne
        · cases hkind
        · exact hds
      have hrest : t.rest = [] := ht.rest_eq
      have hread' : t.readToken = (Token.eof, t) := by rw [CharStream.readToken, hrest]
      rw [hread']
      exact ⟨rfl, n, [], hstands, ht⟩
  | cons g rest =>
    obtain ⟨g', rest', hrest', hchar, hafter⟩ := h.cons hs
    -- A stretch from here on ends within the first text, as its token is no semicolon.
    have hstretch : ∀ {p : Char → Bool} {kind : TokenKind}, kind ≠ .semicolon →
        (s.dropWhile p).rest ≠ [] ∨ kind = .semicolon ∨ ds = [] →
        t.takeWhile p = s.takeWhile p ∧ Extends d ds (s.dropWhile p) (t.dropWhile p) :=
      fun hkind hend => h.dropWhile _ (hend.imp_right fun hor => hor.resolve_left hkind)
    unfold CharStream.readToken at hend ⊢
    rw [hs] at hend ⊢
    rw [hrest']
    dsimp only at hend ⊢
    rw [hchar]
    cases hsymbol : TokenKind.ofSymbol? g.char with
    | some kind =>
      rw [hsymbol] at hend
      dsimp only at hend
      refine hafter.readSymbol kind ?_
      by_cases hrest : rest = []
      · rw [hrest, readSymbol_nil] at hend
        rcases hend with hne | hkind | hds
        · exact absurd rfl hne
        · obtain rfl : kind = .semicolon := hkind
          exact .inr (.inl rfl)
        · exact .inr (.inr hds)
      · exact .inl hrest
    | none =>
      rw [hsymbol] at hend
      dsimp only at hend ⊢
      by_cases hquote : g.char = '"'
      · rw [if_pos hquote] at hend
        rw [if_pos hquote, if_pos hquote]
        exact hafter.readString (hend.imp_right fun hor => hor.resolve_left TokenKind.noConfusion)
      rw [if_neg hquote] at hend
      rw [if_neg hquote, if_neg hquote]
      by_cases hword : isWordChar g.char
      · rw [if_pos hword] at hend
        rw [if_pos hword, if_pos hword]
        obtain ⟨htext, hextends⟩ := hstretch (ofWord_ne_semicolon _) hend
        exact ⟨congrArg Token.ofWord htext, hextends⟩
      rw [if_neg hword] at hend
      rw [if_neg hword, if_neg hword]
      by_cases hdigit : g.char.isDigit
      · rw [if_pos hdigit] at hend
        rw [if_pos hdigit, if_pos hdigit]
        obtain ⟨htext, hextends⟩ := hstretch TokenKind.noConfusion hend
        exact ⟨congrArg (Token.mk .int) htext, hextends⟩
      rw [if_neg hdigit, if_neg hdigit]
      exact ⟨rfl, hafter⟩

/-- A lexeme is the same in both, if it ends within the first text. -/
theorem next (h : Extends d ds s t)
    (hend : s.next.2.rest ≠ [] ∨ s.next.1.kind = .semicolon ∨ ds = []) :
    t.next.1 = s.next.1.shift d ∧ Extends d ds s.next.2 t.next.2 := by
  rw [next_stream, Lexeme.kind, next_token] at hend
  -- Nothing but blanks cannot be followed by a token that ends within the first text.
  have hblank : (s.dropWhile isBlank).rest ≠ [] ∨ ds = [] := by
    refine or_iff_not_imp_left.mpr fun hnil => ?_
    rw [not_ne_iff] at hnil
    have hread : (s.dropWhile isBlank).readToken = (Token.eof, s.dropWhile isBlank) := by
      rw [CharStream.readToken, hnil]
    rw [hread] at hend
    rcases hend with hne | hkind | hds
    · exact absurd hnil hne
    · cases hkind
    · exact hds
  obtain ⟨-, hstart⟩ := h.dropWhile isBlank hblank
  obtain ⟨htoken, hafter⟩ := hstart.readToken hend
  refine ⟨?_, hafter⟩
  rw [next_eq, next_eq, htoken, hstart.offset_eq, hafter.offset_eq]
  rfl

end Extends

/-! ## All lexemes -/

/-- The same characters further on are read as the same lexemes further on. -/
theorem StandsAt.lexemes_shift (hs : s.StandsAt n cs) (ht : t.StandsAt (n + d) cs) :
    t.lexemes.1 = s.lexemes.1.map (Lexeme.shift d) := by
  have hextends : Extends d [] s t := ⟨n, cs, hs, by rwa [List.append_nil]⟩
  clear hs ht
  induction s using lexemes_induction generalizing t with
  | eof s hend =>
    obtain ⟨hnext, -⟩ := hextends.next (.inr (.inr rfl))
    have hend' : t.next.1.kind = .eof := by rw [hnext]; exact hend
    rw [lexemes_of_eof hend, lexemes_of_eof hend', hnext]
    rfl
  | step s hne ih =>
    obtain ⟨hnext, hafter⟩ := hextends.next (.inr (.inr rfl))
    have hne' : t.next.1.kind ≠ .eof := by rw [hnext]; exact hne
    rw [lexemes_of_ne_eof hne, lexemes_of_ne_eof hne', hnext, ih hafter]
    rfl

/-- Blanks in front do not change what is read after them. -/
theorem StandsAt.lexemes_of_blank (hcs : ∀ c ∈ cs, isBlank c) (ht : t.StandsAt n (cs ++ ds))
    (hu : u.StandsAt (n + utf8Len cs) ds) : t.lexemes.1 = u.lexemes.1 := by
  induction cs generalizing t n with
  | nil =>
    have hshift := hu.lexemes_shift (d := 0) ht
    rw [hshift, List.map_congr_left fun x _ => x.shift_zero, List.map_id']
  | cons c cs ih =>
    obtain ⟨rest, hrest, hafter⟩ := ht.cons
    obtain ⟨last, rest'⟩ := t
    subst hrest
    rw [lexemes_cons_blank (hcs c List.mem_cons_self)]
    refine ih (fun c hc => hcs c (List.mem_cons_of_mem _ hc)) hafter ?_
    rw [String.utf8Len_cons, Nat.add_comm (utf8Len cs), ← Nat.add_assoc] at hu
    exact hu

/-- The lexemes of a text that ends with a semicolon, blanks apart, and of what follows it. -/
theorem StandsAt.lexemes_append (hs : s.StandsAt n cs) (ht : t.StandsAt n (cs ++ ds))
    (hu : u.StandsAt (n + utf8Len cs) ds)
    (hlast : ∀ xs x e, s.lexemes.1 = xs ++ [x, e] → x.kind = .semicolon) :
    t.lexemes.1 = s.lexemes.1.dropLast ++ u.lexemes.1 := by
  induction s using lexemes_induction generalizing t n cs with
  | eof s hend =>
    have hdrop := hs.dropWhile isBlank
    have hblank : cs.dropWhile isBlank = [] := by
      rw [← hdrop.chars_eq, chars, s.next_kind_eq_eof_iff.mp hend]
      rfl
    rw [lexemes_of_eof hend]
    exact lexemes_of_blank (List.dropWhile_eq_nil_iff.mp hblank) ht hu
  | step s hne ih =>
    have hend := hs.laidOut.2
    rw [lexemes_of_ne_eof hne] at hend hlast ⊢
    -- The lexeme is a semicolon if it is the last one, and otherwise there is more in the text.
    have hseam : s.next.2.rest ≠ [] ∨ s.next.1.kind = .semicolon ∨ ds = [] := by
      by_cases hend : s.next.2.next.1.kind = .eof
      · exact .inr (.inl (hlast [] _ _ (by rw [lexemes_of_eof hend]; rfl)))
      · have hlt := length_next_lt hend
        exact .inl (List.ne_nil_of_length_pos (by omega))
    have hextends : Extends 0 ds s t := ⟨n, cs, hs, ht⟩
    obtain ⟨hnext, n', cs', hs', ht'⟩ := hextends.next hseam
    rw [Lexeme.shift_zero] at hnext
    have hne' : t.next.1.kind ≠ .eof := by rw [hnext]; exact hne
    have hoffset : n' + utf8Len cs' = n + utf8Len cs :=
      hs'.laidOut.2.offset_eq.symm.trans hend.offset_eq
    have hrest := ih hs' ht' (by rwa [hoffset]) fun xs x e h =>
      hlast (s.next.1 :: xs) x e (by rw [h]; rfl)
    obtain ⟨xs, x, hxs, -⟩ := s.next.2.lexemes_eq_append_eof
    rw [lexemes_of_ne_eof hne', hnext, hrest, hxs]
    show s.next.1 :: ((xs ++ [x]).dropLast ++ u.lexemes.1) =
      ((s.next.1 :: xs) ++ [x]).dropLast ++ u.lexemes.1
    rw [List.dropLast_concat, List.dropLast_concat, List.cons_append]

end CharStream

/-- **Tokens of a text with more text after it.** If the last token of the first text is a
semicolon, the tokens of both are those of the first, without the end, and then those of the second,
further on by the size of the first. -/
theorem lex_append {a b : String} (hsize : (a ++ b).utf8ByteSize < offsetLimit)
    (hlast : ∀ xs x e, lex a = xs ++ [x, e] → x.kind = .semicolon) :
    lex (a ++ b) = (lex a).dropLast ++ (lex b).map (Lexeme.shift a.utf8ByteSize) := by
  have ha : utf8Len a.toList = a.utf8ByteSize := String.utf8Len_toList a
  have hb : utf8Len b.toList = b.utf8ByteSize := String.utf8Len_toList b
  have hab : a.utf8ByteSize + b.utf8ByteSize < offsetLimit := by
    rwa [String.utf8ByteSize_append] at hsize
  -- A stream that reads the second text where it stands.
  let u : CharStream := ⟨a.utf8ByteSize, Glyph.locate a.utf8ByteSize b.toList⟩
  have hu : u.StandsAt (0 + a.utf8ByteSize) b.toList :=
    ⟨by rw [Nat.zero_add], fun _ => (Nat.zero_add _).symm, by omega⟩
  have hfirst : (CharStream.ofChars a.toList).StandsAt 0 a.toList :=
    CharStream.standsAt_ofChars (by omega)
  have hsecond : (CharStream.ofChars b.toList).StandsAt 0 b.toList :=
    CharStream.standsAt_ofChars (by omega)
  have hshift := hsecond.lexemes_shift hu
  have hwhole : (CharStream.ofChars (a ++ b).toList).StandsAt 0 (a.toList ++ b.toList) := by
    rw [String.toList_append]
    refine CharStream.standsAt_ofChars ?_
    rw [String.utf8Len_append]
    omega
  rw [← ha] at hu
  have happend := hfirst.lexemes_append hwhole hu hlast
  rw [hshift] at happend
  exact happend

end ScriptLang
