import ScriptLang.Token.Lexer
import Mathlib.Data.List.TakeWhile

/-!
# What the lexer reads

Every token but the last takes at least one character, so the number that bounds `readAll` never
cuts a source short: `lexemes` reads one lexeme and then the lexemes of what is left, up to the end
token. Blanks in front change nothing, and the end token is the last and only one of its kind.
-/

namespace ScriptLang
namespace CharStream

/-- The characters to come, without their offsets. -/
def chars (s : CharStream) : List Char := s.rest.map Glyph.char

/-- Wherever characters are located, they are the same. -/
theorem map_char_locate (start : Nat) (cs : List Char) :
    (Glyph.locate start cs).map Glyph.char = cs := by
  induction cs generalizing start with
  | nil => rfl
  | cons c cs ih => rw [Glyph.locate, List.map_cons, ih]

/-- The characters of a text are those that its stream is made of. -/
theorem chars_ofChars (cs : List Char) : (ofChars cs).chars = cs := map_char_locate 0 cs

/-! ## Stretches of characters -/

/-- A stretch that ends within a list is the same if the list goes on. -/
theorem takeWhile_append_of_dropWhile_ne_nil {α : Type} {p : α → Bool} {xs : List α}
    (h : xs.dropWhile p ≠ []) (ys : List α) :
    (xs ++ ys).takeWhile p = xs.takeWhile p ∧ (xs ++ ys).dropWhile p = xs.dropWhile p ++ ys := by
  have hlength : (xs.takeWhile p).length ≠ xs.length := by
    have hsplit := congrArg List.length (xs.takeWhile_append_dropWhile (p := p))
    have hpos := List.length_pos_iff.mpr h
    rw [List.length_append] at hsplit
    omega
  rw [List.takeWhile_append, if_neg hlength, List.dropWhile_append,
    if_neg fun hempty => h (List.isEmpty_iff.mp hempty)]
  exact ⟨rfl, rfl⟩

/-- Dropping a stretch of a stream drops that stretch of its characters. -/
theorem chars_dropWhile (p : Char → Bool) (s : CharStream) :
    (s.dropWhile p).chars = s.chars.dropWhile p := by
  rw [chars, chars, List.dropWhile_map]
  rfl

/-- The text of a stretch is that of its characters. -/
theorem takeWhile_eq (p : Char → Bool) (s : CharStream) :
    s.takeWhile p = String.ofList (s.chars.takeWhile p) := by
  rw [chars, List.takeWhile_map]
  rfl

/-- A stretch may be empty, so dropping it never makes a stream longer. -/
theorem length_dropWhile_le (p : Char → Bool) (s : CharStream) :
    (s.dropWhile p).rest.length ≤ s.rest.length :=
  List.length_dropWhile_le _ s.rest

/-- A stretch that starts with the next character takes that character off. -/
theorem length_dropWhile_lt {p : Char → Bool} {s : CharStream} {g : Glyph} {rest : List Glyph}
    (hs : s.rest = g :: rest) (hg : p g.char) :
    (s.dropWhile p).rest.length < s.rest.length := by
  have hdrop : (s.dropWhile p).rest = rest.dropWhile fun g => p g.char := by
    show s.rest.dropWhile (fun g => p g.char) = _
    rw [hs, List.dropWhile_cons, if_pos hg]
  rw [hdrop, hs, List.length_cons]
  exact Nat.lt_succ_of_le (List.length_dropWhile_le _ rest)

/-- Nothing is dropped if the next character does not belong to the stretch. -/
theorem dropWhile_eq_self {p : Char → Bool} {s : CharStream} {g : Glyph} {rest : List Glyph}
    (hs : s.rest = g :: rest) (hg : p g.char = false) : s.dropWhile p = s := by
  obtain ⟨last, _⟩ := s
  subst hs
  simp [dropWhile, hg]

/-- Dropping a stretch of which the next character is a part may start after that character. -/
theorem dropWhile_cons_of_pos {p : Char → Bool} {last : Nat} {g : Glyph} {rest : List Glyph}
    (hg : p g.char) :
    dropWhile p ⟨last, g :: rest⟩ = dropWhile p ⟨g.stop, rest⟩ := by
  have htake : (g :: rest).takeWhile (fun g => p g.char)
      = g :: rest.takeWhile fun g => p g.char := by
    rw [List.takeWhile_cons, if_pos hg]
  have hdrop : (g :: rest).dropWhile (fun g => p g.char)
      = rest.dropWhile fun g => p g.char := by
    rw [List.dropWhile_cons, if_pos hg]
  simp only [dropWhile, htake, hdrop, List.getLast?_cons]
  cases (rest.takeWhile fun g => p g.char).getLast? <;> rfl

/-! ## One token -/

/-- A closing quote is skipped if there is one. -/
theorem length_skip_le (c : Char) (s : CharStream) :
    (s.skip c).rest.length ≤ s.rest.length := by
  rw [skip]
  split
  · exact le_rfl
  · next g rest hs =>
    split
    · rw [hs]; exact Nat.le_succ _
    · exact le_rfl

/-- A symbol takes at most one character after its first one. -/
theorem length_readSymbol_le (kind : TokenKind) (after : CharStream) :
    (readSymbol kind after).2.rest.length ≤ after.rest.length := by
  rw [readSymbol]
  split
  · next joined g rest hjoin hrest =>
    split
    · rw [hrest]; exact Nat.le_succ _
    · exact le_rfl
  · exact le_rfl

/-- A token takes at least one character. -/
theorem length_readToken_lt {s : CharStream} {g : Glyph} {rest : List Glyph}
    (hs : s.rest = g :: rest) : s.readToken.2.rest.length < s.rest.length := by
  rw [readToken, hs]
  dsimp only
  split
  · next kind hkind => exact Nat.lt_succ_of_le (length_readSymbol_le kind ⟨g.stop, rest⟩)
  · split
    · have hdrop := length_dropWhile_le isStringChar ⟨g.stop, rest⟩
      exact Nat.lt_succ_of_le ((length_skip_le '"' _).trans hdrop)
    · split
      · next hword => exact hs ▸ length_dropWhile_lt hs hword
      · split
        · next hdigit => exact hs ▸ length_dropWhile_lt hs hdigit
        · exact Nat.lt_succ_self _

/-- No word is the end token. -/
theorem ofWord_ne_eof (word : String) : TokenKind.ofWord word ≠ .eof := by
  unfold TokenKind.ofWord
  split <;> decide

/-- No symbol is the end token. -/
theorem ofSymbol?_ne_eof {c : Char} {kind : TokenKind} (h : TokenKind.ofSymbol? c = some kind) :
    kind ≠ .eof := by
  unfold TokenKind.ofSymbol? at h
  split at h <;> cases h <;> decide

/-- A symbol that an equals sign has joined is not the end token. -/
theorem withEquals?_ne_eof {kind joined : TokenKind} (h : kind.withEquals? = some joined) :
    joined ≠ .eof := by
  unfold TokenKind.withEquals? at h
  split at h <;> cases h <;> decide

/-- A symbol of one character is spelled by it. -/
theorem spelled_of_ofSymbol? {c : Char} {kind : TokenKind}
    (h : TokenKind.ofSymbol? c = some kind) : kind ≠ .string ∧ kind.name.toList = [c] := by
  unfold TokenKind.ofSymbol? at h
  split at h <;> cases h <;> exact ⟨by decide, rfl⟩

/-- A symbol that an equals sign has joined is spelled with it. -/
theorem spelled_of_withEquals? {c : Char} {kind joined : TokenKind}
    (h : TokenKind.ofSymbol? c = some kind) (hjoin : kind.withEquals? = some joined) :
    joined ≠ .string ∧ joined.name.toList = [c, '='] := by
  unfold TokenKind.ofSymbol? at h
  split at h <;> cases h <;> cases hjoin <;> exact ⟨by decide, rfl⟩

/-- A token that starts with a character is not the end token. -/
theorem readToken_kind_ne_eof {s : CharStream} {g : Glyph} {rest : List Glyph}
    (hs : s.rest = g :: rest) : s.readToken.1.kind ≠ .eof := by
  rw [readToken, hs]
  dsimp only
  -- The cases are a symbol, alone or joined, a string, a word, a numeral and anything else.
  split
  · next kind hkind =>
    rw [readSymbol]
    split
    · next joined g' rest' hjoin hrest =>
      split
      · exact withEquals?_ne_eof hjoin
      · exact ofSymbol?_ne_eof hkind
    · exact ofSymbol?_ne_eof hkind
  · split
    · exact fun h => TokenKind.noConfusion h
    · split
      · exact ofWord_ne_eof _
      · split
        · exact fun h => TokenKind.noConfusion h
        · exact fun h => TokenKind.noConfusion h

/-! ## The next lexeme -/

/-- A lexeme is a token and what it takes of the stream after the blanks. -/
theorem next_eq (s : CharStream) :
    s.next = (⟨(s.dropWhile isBlank).readToken.1, (s.dropWhile isBlank).offset,
      (s.dropWhile isBlank).readToken.2.offset⟩, (s.dropWhile isBlank).readToken.2) :=
  rfl

/-- The next token is the one that starts after the blanks. -/
theorem next_token (s : CharStream) : s.next.1.token = (s.dropWhile isBlank).readToken.1 := rfl

/-- The stream after the next lexeme is the one after its token. -/
theorem next_stream (s : CharStream) : s.next.2 = (s.dropWhile isBlank).readToken.2 := rfl

/-- The next lexeme is the end token just if nothing but blanks is left. -/
theorem next_kind_eq_eof_iff (s : CharStream) :
    s.next.1.kind = .eof ↔ (s.dropWhile isBlank).rest = [] := by
  rw [Lexeme.kind, next_token]
  constructor
  · intro h
    cases hrest : (s.dropWhile isBlank).rest with
    | nil => rfl
    | cons g rest => exact absurd h (readToken_kind_ne_eof hrest)
  · intro h
    rw [readToken, h]
    rfl

/-- The end token has no text. -/
theorem next_token_of_eof {s : CharStream} (h : s.next.1.kind = .eof) :
    s.next.1.token = Token.eof := by
  rw [next_kind_eq_eof_iff] at h
  rw [next_token, readToken, h]

/-- A lexeme other than the end token takes at least one character. -/
theorem length_next_lt {s : CharStream} (h : s.next.1.kind ≠ .eof) :
    s.next.2.rest.length < s.rest.length := by
  rw [Ne, next_kind_eq_eof_iff] at h
  obtain ⟨g, rest, hrest⟩ := List.exists_cons_of_ne_nil h
  rw [next_stream]
  exact (length_readToken_lt hrest).trans_le (length_dropWhile_le isBlank s)

/-- A blank in front does not change the next lexeme. -/
theorem next_cons_blank {last : Nat} {g : Glyph} {rest : List Glyph} (hg : isBlank g.char) :
    next ⟨last, g :: rest⟩ = next ⟨g.stop, rest⟩ := by
  unfold next
  rw [dropWhile_cons_of_pos hg]

/-! ## All lexemes -/

/-- Once the bound is as large as the stream is long, its value does not matter. -/
theorem readAll_eq_of_le {n m : Nat} {s : CharStream} (hn : s.rest.length ≤ n)
    (hm : s.rest.length ≤ m) : readAll n s = readAll m s := by
  -- the bounds go down together; each step shortens the stream, so neither runs out
  induction n generalizing m s with
  | zero =>
    have hend : s.next.1.kind = .eof := by
      by_contra h
      have := length_next_lt h
      omega
    cases m with
    | zero => rfl
    | succ m => simp [readAll, hend]
  | succ n ih =>
    by_cases hend : s.next.1.kind = .eof
    · cases m with
      | zero => simp [readAll, hend]
      | succ m => simp [readAll, hend]
    · have hlt := length_next_lt hend
      cases m with
      | zero => omega
      | succ m =>
        simp only [readAll, hend, if_false]
        rw [ih (s := s.next.2) (m := m) (by omega) (by omega)]

/-- At the end of the input there is the end token and nothing else. -/
theorem lexemes_of_eof {s : CharStream} (h : s.next.1.kind = .eof) :
    s.lexemes = ([s.next.1], s.next.2) := by
  rw [lexemes]
  cases s.rest.length with
  | zero => rfl
  | succ n => simp [readAll, h]

/-- Otherwise the next lexeme comes first, and then those of the stream after it. -/
theorem lexemes_of_ne_eof {s : CharStream} (h : s.next.1.kind ≠ .eof) :
    s.lexemes = (s.next.1 :: s.next.2.lexemes.1, s.next.2.lexemes.2) := by
  have hlt := length_next_lt h
  obtain ⟨n, hn⟩ : ∃ n, s.rest.length = n + 1 := ⟨s.rest.length - 1, by omega⟩
  rw [lexemes, lexemes, hn, readAll_eq_of_le (n := s.next.2.rest.length) (m := n) le_rfl (by omega)]
  simp only [readAll, h, if_false]

/-- A blank in front does not change the lexemes. -/
theorem lexemes_cons_blank {last : Nat} {g : Glyph} {rest : List Glyph} (hg : isBlank g.char) :
    lexemes ⟨last, g :: rest⟩ = lexemes ⟨g.stop, rest⟩ := by
  have hnext : next ⟨last, g :: rest⟩ = next ⟨g.stop, rest⟩ := next_cons_blank hg
  by_cases hend : (next ⟨g.stop, rest⟩).1.kind = .eof
  · rw [lexemes_of_eof (hnext ▸ hend), lexemes_of_eof hend, hnext]
  · rw [lexemes_of_ne_eof (hnext ▸ hend), lexemes_of_ne_eof hend, hnext]

/-- **Induction over the lexemes of a stream.** What holds at the end of the input, and in front
of a lexeme whenever it holds after it, holds of every stream. -/
theorem lexemes_induction {motive : CharStream → Prop}
    (eof : ∀ s, s.next.1.kind = .eof → motive s)
    (step : ∀ s, s.next.1.kind ≠ .eof → motive s.next.2 → motive s) (s : CharStream) :
    motive s := by
  induction hn : s.rest.length using Nat.strong_induction_on generalizing s with
  | _ n ih =>
    by_cases h : s.next.1.kind = .eof
    · exact eof s h
    · exact step s h (ih _ (hn ▸ length_next_lt h) s.next.2 rfl)

/-- The last lexeme is the end token, and no other one is. -/
theorem lexemes_eq_append_eof (s : CharStream) :
    ∃ xs x, s.lexemes.1 = xs ++ [x] ∧ (∀ y ∈ xs, y.kind ≠ .eof) ∧ x.token = Token.eof := by
  induction s using lexemes_induction with
  | eof s h =>
    rw [lexemes_of_eof h]
    exact ⟨[], s.next.1, rfl, by simp, next_token_of_eof h⟩
  | step s h ih =>
    obtain ⟨xs, x, hxs, hne, hx⟩ := ih
    rw [lexemes_of_ne_eof h]
    refine ⟨s.next.1 :: xs, x, by rw [hxs, List.cons_append], ?_, hx⟩
    intro y hy
    rcases List.mem_cons.mp hy with rfl | hy
    · exact h
    · exact hne y hy

end CharStream
end ScriptLang
