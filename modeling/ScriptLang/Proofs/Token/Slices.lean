import ScriptLang.Proofs.Token.Locality

/-!
# The tokens of a slice

A slice of a source that starts where a token starts and stops where a token stops has the tokens
that stand in it, and then the end token. The lexer may look at the character after a token to see
that the token stops there, but it stops at the end of the input just as well.
-/

namespace ScriptLang

open String (utf8Len)

namespace CharStream

variable {s t : CharStream} {d n : Nat} {cs ds : List Char}

/-! ## Tokens that stop within a text -/

theorem StandsAt.length_rest_eq (h : s.StandsAt n cs) : s.rest.length = cs.length := by
  rw [← h.chars_eq, chars, List.length_map]

/-- A token may be the end token, which takes nothing. -/
theorem length_readToken_le (s : CharStream) : s.readToken.2.rest.length ≤ s.rest.length := by
  cases hs : s.rest with
  | nil =>
    rw [readToken, hs]
    exact (congrArg List.length hs).le
  | cons g rest =>
    rw [← hs]
    exact (length_readToken_lt hs).le

namespace Extends

/-- A stretch that stops before the second text is the same if the input stops there. -/
theorem dropWhile_within (p : Char → Bool) (h : Extends d ds s t)
    (hend : ds.length ≤ (t.dropWhile p).rest.length) :
    t.takeWhile p = s.takeWhile p ∧ Extends d ds (s.dropWhile p) (t.dropWhile p) := by
  by_cases hrest : (s.dropWhile p).rest = []
  · obtain ⟨n, cs, hs, ht⟩ := h
    have hcs : ∀ c ∈ cs, p c := by
      refine List.dropWhile_eq_nil_iff.mp ?_
      rw [← (hs.dropWhile p).chars_eq, chars, hrest, List.map_nil]
    -- The first text belongs to the stretch, so nothing of the second one does.
    have hds : ds.takeWhile p = [] ∧ ds.dropWhile p = ds := by
      rw [(ht.dropWhile p).length_rest_eq, List.dropWhile_append_of_pos hcs] at hend
      have hdrop := (List.dropWhile_suffix p).eq_of_length_le hend
      have hsplit := congrArg List.length (ds.takeWhile_append_dropWhile (p := p))
      rw [hdrop, List.length_append] at hsplit
      exact ⟨List.length_eq_zero_iff.mp (by omega), hdrop⟩
    have hdrop := hs.dropWhile p
    have hdrop' := ht.dropWhile p
    have htake := hs.takeWhile_eq p
    have htake' := ht.takeWhile_eq p
    rw [List.takeWhile_append_of_pos hcs, hds.1, List.append_nil] at htake' hdrop'
    rw [List.dropWhile_append_of_pos hcs, hds.2, Nat.add_right_comm] at hdrop'
    rw [List.takeWhile_eq_self_iff.mpr hcs] at htake hdrop
    rw [List.dropWhile_eq_nil_iff.mpr hcs] at hdrop
    exact ⟨htake'.trans htake.symm, _, [], hdrop, hdrop'⟩
  · exact h.dropWhile p (.inl hrest)

/-- A character of the second text is not skipped. -/
theorem skip_within (c : Char) (h : Extends d ds s t)
    (hend : ds.length ≤ (t.skip c).rest.length) : Extends d ds (s.skip c) (t.skip c) := by
  by_cases hrest : s.rest = []
  · obtain ⟨n, cs, hs, ht⟩ := h
    obtain rfl : cs = [] := by rw [← hs.chars_eq, chars, hrest, List.map_nil]
    cases ds with
    | nil => exact skip c ⟨n, [], hs, ht⟩ (.inr rfl)
    | cons c' ds =>
      obtain ⟨rest, hrest', hafter⟩ := ht.cons
      have hlength : rest.length = ds.length := hafter.length_rest_eq
      have hskip : t.skip c = t := by
        unfold CharStream.skip at hend ⊢
        rw [hrest'] at hend ⊢
        dsimp only at hend ⊢
        split
        · next hc =>
          rw [if_pos hc] at hend
          exact absurd (hend.trans hlength.le) (Nat.not_succ_le_self _)
        · rfl
      rw [hskip, hs.skip_nil]
      exact ⟨n, [], hs, ht⟩
  · exact h.skip c (.inl hrest)

/-- A character of the second text does not join a symbol. -/
theorem readSymbol_within (kind : TokenKind) (h : Extends d ds s t)
    (hend : ds.length ≤ (CharStream.readSymbol kind t).2.rest.length) :
    (CharStream.readSymbol kind t).1 = (CharStream.readSymbol kind s).1 ∧
      Extends d ds (CharStream.readSymbol kind s).2 (CharStream.readSymbol kind t).2 := by
  by_cases hrest : s.rest = []
  · obtain ⟨n, cs, hs, ht⟩ := h
    obtain rfl : cs = [] := by rw [← hs.chars_eq, chars, hrest, List.map_nil]
    cases ds with
    | nil => exact readSymbol kind ⟨n, [], hs, ht⟩ (.inr (.inr rfl))
    | cons c' ds =>
      obtain ⟨rest, hrest', hafter⟩ := ht.cons
      have hlength : rest.length = ds.length := hafter.length_rest_eq
      have hread : CharStream.readSymbol kind t = (Token.ofSymbol kind, t) := by
        unfold CharStream.readSymbol at hend ⊢
        rw [hrest'] at hend ⊢
        cases hjoin : kind.withEquals? with
        | none => rfl
        | some joined =>
          rw [hjoin] at hend
          dsimp only at hend ⊢
          split
          · next hc =>
            rw [if_pos hc] at hend
            exact absurd (hend.trans hlength.le) (Nat.not_succ_le_self _)
          · rfl
      obtain ⟨last, rest'⟩ := s
      subst hrest
      rw [hread, readSymbol_nil]
      exact ⟨rfl, n, [], hs, ht⟩
  · exact h.readSymbol kind (.inl hrest)

theorem readString_within (h : Extends d ds s t)
    (hend : ds.length ≤ (CharStream.readString t).2.rest.length) :
    (CharStream.readString t).1 = (CharStream.readString s).1 ∧
      Extends d ds (CharStream.readString s).2 (CharStream.readString t).2 := by
  have hquote : ds.length ≤ (t.dropWhile isStringChar).rest.length :=
    hend.trans (length_skip_le '"' _)
  obtain ⟨htext, hafter⟩ := h.dropWhile_within isStringChar hquote
  exact ⟨congrArg (Token.mk .string) htext, hafter.skip_within '"' hend⟩

/-- A token that stops before the second text is the same if the input stops there. -/
theorem readToken_within (h : Extends d ds s t) (hend : ds.length ≤ t.readToken.2.rest.length) :
    t.readToken.1 = s.readToken.1 ∧ Extends d ds s.readToken.2 t.readToken.2 := by
  cases hs : s.rest with
  | nil =>
    obtain rfl : ds = [] := by
      obtain ⟨n, cs, hstands, ht⟩ := h
      obtain rfl : cs = [] := by rw [← hstands.chars_eq, chars, hs, List.map_nil]
      have hlength := ht.length_rest_eq
      cases hrest : t.rest with
      | nil =>
        rw [hrest] at hlength
        exact List.length_eq_zero_iff.mp hlength.symm
      | cons g rest =>
        have hlt := length_readToken_lt hrest
        rw [List.nil_append] at hlength
        omega
    exact h.readToken (.inr (.inr rfl))
  | cons g rest =>
    obtain ⟨g', rest', hrest', hchar, hafter⟩ := h.cons hs
    unfold CharStream.readToken at hend ⊢
    rw [hrest'] at hend ⊢
    rw [hs]
    dsimp only at hend ⊢
    rw [hchar] at hend ⊢
    cases hsymbol : TokenKind.ofSymbol? g.char with
    | some kind =>
      rw [hsymbol] at hend
      exact hafter.readSymbol_within kind hend
    | none =>
      rw [hsymbol] at hend
      dsimp only at hend ⊢
      by_cases hquote : g.char = '"'
      · rw [if_pos hquote] at hend
        rw [if_pos hquote, if_pos hquote]
        exact hafter.readString_within hend
      rw [if_neg hquote] at hend
      rw [if_neg hquote, if_neg hquote]
      by_cases hword : isWordChar g.char
      · rw [if_pos hword] at hend
        rw [if_pos hword, if_pos hword]
        obtain ⟨htext, hextends⟩ := h.dropWhile_within isWordChar hend
        exact ⟨congrArg Token.ofWord htext, hextends⟩
      rw [if_neg hword] at hend
      rw [if_neg hword, if_neg hword]
      by_cases hdigit : g.char.isDigit
      · rw [if_pos hdigit] at hend
        rw [if_pos hdigit, if_pos hdigit]
        obtain ⟨htext, hextends⟩ := h.dropWhile_within Char.isDigit hend
        exact ⟨congrArg (Token.mk .int) htext, hextends⟩
      rw [if_neg hdigit, if_neg hdigit]
      exact ⟨rfl, hafter⟩

/-- A lexeme that stops before the second text is the same if the input stops there. -/
theorem next_within (h : Extends d ds s t) (hend : ds.length ≤ t.next.2.rest.length) :
    t.next.1 = s.next.1.shift d ∧ Extends d ds s.next.2 t.next.2 := by
  rw [next_stream] at hend
  obtain ⟨-, hstart⟩ := h.dropWhile_within isBlank (hend.trans (length_readToken_le _))
  obtain ⟨htoken, hafter⟩ := hstart.readToken_within hend
  refine ⟨?_, hafter⟩
  rw [next_eq, next_eq, htoken, hstart.offset_eq, hafter.offset_eq]
  rfl

end Extends

/-! ## The lexemes of a part -/

/-- Where a stream stands after a lexeme. -/
theorem StandsAt.next (h : s.StandsAt n cs) : ∃ front after, cs = front ++ after ∧
    s.next.2.StandsAt (n + utf8Len front) after ∧ s.next.1.span.stop = n + utf8Len front := by
  have hdrop := h.dropWhile isBlank
  have hsplit : cs.takeWhile isBlank ++ cs.dropWhile isBlank = cs :=
    List.takeWhile_append_dropWhile
  cases hcs : cs.dropWhile isBlank with
  | nil =>
    have hblank := List.dropWhile_eq_nil_iff.mp hcs
    obtain ⟨hnext, hstands⟩ := h.next_of_blank hblank
    rw [hnext]
    exact ⟨cs, [], (List.append_nil cs).symm, hstands, rfl⟩
  | cons c rest =>
    rw [hcs] at hdrop hsplit
    obtain ⟨text, after, htext, -, -, hafter⟩ := takes_readToken hdrop
    rw [Nat.add_assoc, ← String.utf8Len_append] at hafter
    refine ⟨_, after, hsplit.symm.trans ?_, hafter, hafter.offset_eq⟩
    rw [htext, List.append_assoc]

/-- The first of the lexemes is the next one. -/
theorem next_eq_of_lexemes {x : Lexeme} {xs : List Lexeme} (h : s.lexemes.1 = x :: xs) :
    s.next.1 = x := by
  by_cases hend : s.next.1.kind = .eof
  · rw [lexemes_of_eof hend] at h
    exact (List.cons.inj h).1
  · rw [lexemes_of_ne_eof hend] at h
    exact (List.cons.inj h).1

/-- If more lexemes follow the first one then they are those of the stream after it. -/
theorem lexemes_next {x : Lexeme} {xs : List Lexeme} (h : s.lexemes.1 = x :: xs) (hxs : xs ≠ []) :
    s.next.1.kind ≠ .eof ∧ s.next.2.lexemes.1 = xs := by
  by_cases hend : s.next.1.kind = .eof
  · rw [lexemes_of_eof hend] at h
    exact absurd (List.cons.inj h).2.symm hxs
  · rw [lexemes_of_ne_eof hend] at h
    exact ⟨hend, (List.cons.inj h).2⟩

/-- The last lexemes of a text are those of the text from where the first of them starts. -/
theorem StandsAt.exists_of_lexemes {us ws : List Lexeme} {w : Lexeme} (h : s.StandsAt n cs)
    (hlex : s.lexemes.1 = us ++ w :: ws) : ∃ front after t, cs = front ++ after ∧
      w.span.start = n + utf8Len front ∧ StandsAt t (n + utf8Len front) after ∧
      t.lexemes.1 = w :: ws := by
  induction us generalizing s n cs with
  | nil =>
    have hdrop := h.dropWhile isBlank
    have hstart : w.span.start = n + utf8Len (cs.takeWhile isBlank) := by
      rw [← next_eq_of_lexemes hlex, next_eq]
      exact hdrop.offset_eq
    rw [← cs.takeWhile_append_dropWhile (p := isBlank)] at h
    have hblank := StandsAt.lexemes_of_blank (fun _ => List.mem_takeWhile_imp) h hdrop
    exact ⟨_, _, _, cs.takeWhile_append_dropWhile.symm, hstart, hdrop, hblank.symm.trans hlex⟩
  | cons u us ih =>
    obtain ⟨front, after, rfl, hafter, -⟩ := h.next
    obtain ⟨-, hrest⟩ := lexemes_next hlex (by simp)
    obtain ⟨front', after', t, rfl, hstart, ht, hws⟩ := ih hafter hrest
    rw [Nat.add_assoc, ← String.utf8Len_append] at hstart ht
    exact ⟨front ++ front', after', t, (List.append_assoc ..).symm, hstart, ht, hws⟩

/-- A lexeme that stops within a text, seen from a stream on which more text follows. -/
theorem StandsAt.next_within (hs : s.StandsAt n cs) (ht : t.StandsAt (n + d) (cs ++ ds))
    (hle : t.next.1.span.stop ≤ n + d + utf8Len cs) : t.next.1 = s.next.1.shift d ∧
      ∃ front after, cs = front ++ after ∧ s.next.2.StandsAt (n + utf8Len front) after ∧
        t.next.2.StandsAt (n + utf8Len front + d) (after ++ ds) ∧
        t.next.1.span.stop = n + d + utf8Len front := by
  obtain ⟨front, after', hcut, hafter, hstop⟩ := ht.next
  obtain ⟨after, hcs, rfl⟩ := exists_eq_append_of_utf8Len_le hcut.symm (by omega)
  have hextends : Extends d ds s t := ⟨n, cs, hs, ht⟩
  have hend : ds.length ≤ t.next.2.rest.length := by
    rw [hafter.length_rest_eq, List.length_append]
    omega
  obtain ⟨hnext, n', cs', hs', ht'⟩ := hextends.next_within hend
  -- Both ways to say where the second stream stands agree.
  have hoffset := ht'.offset_eq.symm.trans hafter.offset_eq
  have hchars := List.append_cancel_right (ht'.chars_eq.symm.trans hafter.chars_eq)
  obtain rfl : n' = n + utf8Len front := by omega
  subst hchars
  exact ⟨hnext, front, cs', hcs, hs', ht', hstop⟩

/-- A lexeme stops before those after it do. -/
theorem StandsAt.stop_next_le (h : s.StandsAt n cs) {x : Lexeme} (hx : x ∈ s.next.2.lexemes.1)
    (hne : x.kind ≠ .eof) : s.next.1.span.stop ≤ x.span.stop := by
  obtain ⟨front, after, -, hafter, hstop⟩ := h.next
  obtain ⟨xs, hxs, hall⟩ := hafter.laidOut.1.exists_eq_append
  have hstart := hafter.laidOut.1.le_start x hx
  rw [hxs] at hx
  rcases List.mem_append.mp hx with hx | hx
  · have hlt := (hall x hx).2
    omega
  · rw [List.mem_singleton.mp hx] at hne
    exact absurd rfl hne

/-- The lexemes of a text that stops where a lexeme stops, seen from a stream on which more text
follows. -/
theorem StandsAt.lexemes_within {xs vs : List Lexeme} {x : Lexeme} (hs : s.StandsAt n cs)
    (ht : t.StandsAt (n + d) (cs ++ ds)) (hlex : t.lexemes.1 = xs ++ x :: vs)
    (hx : x.kind ≠ .eof) (hstop : x.span.stop = n + d + utf8Len cs) :
    s.lexemes.1.map (Lexeme.shift d) = xs ++ [x, Lexeme.eof x.span.stop] := by
  induction xs generalizing s t n cs with
  | nil =>
    obtain rfl := next_eq_of_lexemes hlex
    obtain ⟨hnext, front, after, rfl, hafter, -, hstop'⟩ := hs.next_within ht hstop.le
    have hne : s.next.1.kind ≠ .eof := by rwa [hnext] at hx
    rw [String.utf8Len_append] at hstop
    obtain rfl : after = [] := String.utf8Len_eq_zero.mp (by omega)
    obtain ⟨hend, -⟩ := hafter.next_of_blank (by simp)
    have hlast : s.next.2.lexemes.1 = [Lexeme.eof (n + utf8Len front)] := by
      rw [lexemes_of_eof (by rw [hend]; rfl), hend]
      rfl
    rw [lexemes_of_ne_eof hne, hlast, hstop', Nat.add_right_comm, hnext]
    rfl
  | cons y xs ih =>
    obtain rfl := next_eq_of_lexemes hlex
    obtain ⟨hne', hrest⟩ := lexemes_next hlex (by simp)
    have hle := ht.stop_next_le (by rw [hrest]; simp) hx
    rw [hstop] at hle
    obtain ⟨hnext, front, after, rfl, hs', ht', -⟩ := hs.next_within ht hle
    have hne : s.next.1.kind ≠ .eof := by rwa [hnext] at hne'
    rw [String.utf8Len_append] at hstop
    rw [lexemes_of_ne_eof hne, List.map_cons, ih hs' ht' hrest (by omega), ← hnext]
    rfl

end CharStream

/-! ## Slices of a source -/

section Slices

variable {source text : String} {us ws : List Lexeme} {w : Lexeme}
  (hsize : source.utf8ByteSize < offsetLimit) (hlex : lex source = us ++ w :: ws)
include hsize hlex

/-- A slice that starts where a token starts, and a stream that reads it in the source, where more
text follows. -/
theorem exists_standsAt_slice {stop : Nat}
    (hcovers : Span.Covers source ⟨w.span.start, stop⟩ text) :
    ∃ after t, (CharStream.ofChars text.toList).StandsAt 0 text.toList ∧
      CharStream.StandsAt t (0 + w.span.start) (text.toList ++ after) ∧ t.lexemes.1 = w :: ws ∧
      stop = 0 + w.span.start + utf8Len text.toList ∧
      source.utf8ByteSize = stop + utf8Len after := by
  have hlen := source.utf8Len_toList
  obtain ⟨before, after, hsource, hstart, hstop⟩ := hcovers
  obtain ⟨front, rest, t, hcut, hfront, ht, hws⟩ :=
    (CharStream.standsAt_ofChars (by omega)).exists_of_lexemes hlex
  rw [Nat.zero_add] at hfront ht
  dsimp only at hstart hstop
  -- What comes before the token is what comes before the slice.
  have hlists : front ++ rest = before.toList ++ (text.toList ++ after.toList) := by
    rw [← hcut, hsource, String.toList_append, String.toList_append, List.append_assoc]
  have hbefore := before.utf8Len_toList
  have htext := text.utf8Len_toList
  obtain ⟨-, hrest⟩ := append_inj_of_utf8Len_eq hlists (by omega)
  have htotal : source.utf8ByteSize = utf8Len front + utf8Len rest := by
    rw [← hlen, hcut, String.utf8Len_append]
  rw [hrest, String.utf8Len_append] at htotal
  rw [hrest, ← hfront] at ht
  exact ⟨after.toList, t, CharStream.standsAt_ofChars (by omega), by rwa [Nat.zero_add], hws,
    by omega, by omega⟩

/-- **The tokens of a slice** that stops where one of its tokens does. -/
theorem lex_slice {xs vs : List Lexeme} {x : Lexeme} (hws : w :: ws = xs ++ x :: vs)
    (hx : x.kind ≠ .eof) (hcovers : Span.Covers source ⟨w.span.start, x.span.stop⟩ text) :
    (lex text).map (Lexeme.shift w.span.start) = xs ++ [x, Lexeme.eof x.span.stop] := by
  obtain ⟨after, t, hs, ht, htokens, hstop, -⟩ := exists_standsAt_slice hsize hlex hcovers
  exact hs.lexemes_within ht (htokens.trans hws) hx hstop

/-- **The tokens of a slice** that runs to the end of the source. -/
theorem lex_slice_end
    (hcovers : Span.Covers source ⟨w.span.start, source.utf8ByteSize⟩ text) :
    (lex text).map (Lexeme.shift w.span.start) = w :: ws := by
  obtain ⟨after, t, hs, ht, htokens, -, hstop⟩ := exists_standsAt_slice hsize hlex hcovers
  obtain rfl : after = [] := String.utf8Len_eq_zero.mp (by omega)
  rw [List.append_nil] at ht
  exact (hs.lexemes_shift ht).symm.trans htokens

end Slices

end ScriptLang
