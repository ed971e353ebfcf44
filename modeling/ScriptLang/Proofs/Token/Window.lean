import ScriptLang.Proofs.Token.Lexer
import ScriptLang.Token.Window

/-!
# Reading through a window

Through a window on a source that answers requests the same tokens are read, at the same offsets, as
off a stream that holds its characters. The requests give characters up to the first one that fails,
and `tail` is what they give from there on. The last character of the source is in sight together
with the first failure, so reading it makes one more request: at the end token the window has asked
once past the first failure, and what that request has given is never read.

`Shows` says what a window holds if it stands where a stream stands. Each way to read keeps it.
-/

namespace ScriptLang

/-- Nothing is left to read after the end token. -/
theorem CharStream.rest_lexemes (s : CharStream) : s.lexemes.2.rest = [] := by
  induction s using lexemes_induction with
  | eof s h =>
    rw [lexemes_of_eof h]
    rw [next_kind_eq_eof_iff] at h
    rw [next_stream, readToken, h]
    exact h
  | step s h ih =>
    rw [lexemes_of_ne_eof h]
    exact ih

namespace Window

variable {ε : Type} {w : Window ε} {tail : List (Except ε Char)} {total last : Nat} {g : Glyph}
  {rest : List Glyph} {s : CharStream}

/-! ## Where a window stands -/

/-- The window stands where the stream stands: it shows the next two characters, and the requests
to come give the others and go on with `tail`. At the end of the stream `total` requests will have
been made. -/
inductive Shows (total : Nat) (tail : List (Except ε Char)) (w : Window ε) : CharStream → Prop where
  | ended {last : Nat} : w.position = last → w.current = none → w.asked = total →
      Shows total tail w ⟨last, []⟩
  | one {last n : Nat} {c : Char} : w.position = n → w.nextPosition = Glyph.stop ⟨n, c⟩ →
      w.current = some c → w.next = none → w.pending = tail.tail → w.asked + 1 = total →
      Shows total tail w ⟨last, [⟨n, c⟩]⟩
  | two {last n : Nat} {c d : Char} {cs : List Char} : w.position = n →
      w.nextPosition = Glyph.stop ⟨n, c⟩ → w.current = some c → w.next = some d →
      w.counted = Glyph.stop ⟨Glyph.stop ⟨n, c⟩, d⟩ → w.pending = cs.map .ok ++ tail →
      w.asked + (cs.length + 2) = total →
      Shows total tail w ⟨last, Glyph.locate n (c :: d :: cs)⟩

/-- A request that gives a character. -/
theorem advance_of_ok {c : Char} {pending : List (Except ε Char)}
    (h : w.pending = .ok c :: pending) :
    w.advance = ⟨w.nextPosition, w.counted, w.next, some c, Glyph.stop ⟨w.counted, c⟩, w.asked + 1,
      pending⟩ := by
  rw [advance, h]

/-- What does not depend on what a request gives. -/
theorem advance_spec (w : Window ε) : w.advance.position = w.nextPosition ∧
    w.advance.current = w.next ∧ w.advance.asked = w.asked + 1 := by
  unfold advance
  split <;> exact ⟨rfl, rfl, rfl⟩

/-- A request that fails, or finds the end of the source. -/
theorem advance_of_fails (h : ∀ c, w.pending.head? ≠ some (.ok c)) :
    w.advance.nextPosition = (w.next.map fun c => Glyph.stop ⟨w.nextPosition, c⟩).getD
        w.nextPosition ∧
      w.advance.next = none ∧ w.advance.pending = w.pending.tail := by
  unfold advance
  split
  · next c pending hpending =>
    rw [hpending] at h
    exact absurd rfl (h c)
  · cases w.next <;> exact ⟨rfl, rfl, rfl⟩

namespace Shows

theorem position_eq (h : Shows total tail w s) : w.position = s.offset := by
  cases h <;> assumption

theorem current_eq (h : Shows total tail w s) : w.current = s.rest.head?.map Glyph.char := by
  cases h <;> assumption

theorem next_eq (h : Shows total tail w ⟨last, g :: rest⟩) :
    w.next = rest.head?.map Glyph.char := by
  cases h <;> assumption

theorem asked_eq (h : Shows total tail w s) (hs : s.rest = []) : w.asked = total := by
  cases h with
  | ended _ _ hasked => exact hasked
  | one => cases hs
  | two => cases hs

/-- There are no more characters to read than in sight or still to come. -/
theorem length_rest_le (h : Shows total tail w s) : s.rest.length ≤ w.pending.length + 2 := by
  cases h with
  | ended => exact Nat.zero_le _
  | one => exact Nat.succ_le_succ (Nat.zero_le _)
  | @two _ n c d cs _ _ _ _ _ hpending _ =>
    have hlength : (Glyph.locate n (c :: d :: cs)).length = cs.length + 2 := by
      rw [← List.length_map (f := Glyph.char), CharStream.map_char_locate]
      rfl
    rw [hpending, List.length_append, List.length_map]
    show (Glyph.locate n (c :: d :: cs)).length ≤ _
    omega

/-- Reading a character moves both on. -/
theorem advance (htail : ∀ c, tail.head? ≠ some (.ok c))
    (h : Shows total tail w ⟨last, g :: rest⟩) : Shows total tail w.advance ⟨g.stop, rest⟩ := by
  obtain ⟨hposition, hcurrent, hasked⟩ := advance_spec w
  cases h with
  | one _ hnextPosition _ hnext _ htotal =>
    exact .ended (hposition.trans hnextPosition) (hcurrent.trans hnext) (hasked.trans htotal)
  | @two _ n c d cs _ hnextPosition _ hnext hcounted hpending htotal =>
    cases cs with
    | nil =>
      obtain ⟨hafter, hnone, htails⟩ := advance_of_fails (w := w) (by rw [hpending]; exact htail)
      rw [hnext, hnextPosition] at hafter
      rw [hpending] at htails
      exact .one (hposition.trans hnextPosition) hafter (hcurrent.trans hnext) hnone htails
        (by rw [hasked]; exact htotal)
    | cons e cs =>
      rw [advance_of_ok hpending, hcounted, hnextPosition]
      refine .two rfl rfl hnext rfl rfl rfl ?_
      rw [List.length_cons] at htotal
      show w.asked + 1 + (cs.length + 2) = total
      omega

end Shows

/-! ## One token -/

section Tokens

variable (htail : ∀ c, tail.head? ≠ some (.ok c))
include htail

/-- A stretch of characters is read off both. -/
theorem Shows.readWhile (p : Char → Bool) {n : Nat} (h : Shows total tail w s)
    (hn : s.rest.length ≤ n) : (readWhile p n w).1 = s.chars.takeWhile p ∧
      Shows total tail (readWhile p n w).2 (s.dropWhile p) := by
  obtain ⟨last, rest⟩ := s
  induction n generalizing w last rest with
  | zero =>
    obtain rfl : rest = [] := List.length_eq_zero_iff.mp (Nat.le_zero.mp hn)
    exact ⟨rfl, h⟩
  | succ n ih =>
    have hcurrent := h.current_eq
    unfold Window.readWhile
    cases rest with
    | nil =>
      rw [hcurrent]
      exact ⟨rfl, h⟩
    | cons g rest =>
      rw [hcurrent, CharStream.chars, List.map_cons]
      dsimp only [List.head?_cons, Option.map_some]
      by_cases hp : p g.char
      · rw [if_pos hp, List.takeWhile_cons_of_pos hp, CharStream.dropWhile_cons_of_pos hp]
        obtain ⟨hchars, hshows⟩ := ih g.stop rest (h.advance htail) (Nat.le_of_succ_le_succ hn)
        exact ⟨congrArg _ hchars, hshows⟩
      · rw [if_neg hp, List.takeWhile_cons_of_neg hp,
          CharStream.dropWhile_eq_self rfl (Bool.eq_false_iff.mpr hp)]
        exact ⟨rfl, h⟩

theorem Shows.readStretch (p : Char → Bool) (h : Shows total tail w s) :
    String.ofList (w.readStretch p).1 = s.takeWhile p ∧
      Shows total tail (w.readStretch p).2 (s.dropWhile p) := by
  obtain ⟨hchars, hshows⟩ := h.readWhile htail p h.length_rest_le
  refine ⟨?_, hshows⟩
  rw [CharStream.takeWhile_eq]
  exact congrArg String.ofList hchars

/-- A symbol is read off both. What may join it is in sight. -/
theorem Shows.readSymbol (kind : TokenKind) (h : Shows total tail w ⟨last, g :: rest⟩) :
    (w.readSymbol kind).1 = (CharStream.readSymbol kind ⟨g.stop, rest⟩).1 ∧
      Shows total tail (w.readSymbol kind).2 (CharStream.readSymbol kind ⟨g.stop, rest⟩).2 := by
  have hafter := h.advance htail
  have hnext := h.next_eq
  unfold Window.readSymbol CharStream.readSymbol
  cases kind.withEquals? with
  | none => exact ⟨rfl, hafter⟩
  | some joined =>
    cases rest with
    | nil =>
      have hne : w.next ≠ some '=' := by simp [hnext]
      dsimp only
      rw [if_neg hne]
      exact ⟨rfl, hafter⟩
    | cons g' rest =>
      dsimp only
      by_cases hequals : g'.char = '='
      · rw [if_pos (hnext.trans (congrArg some hequals)), if_pos hequals]
        exact ⟨rfl, hafter.advance htail⟩
      · rw [if_neg fun h => hequals (Option.some.inj (hnext.symm.trans h)), if_neg hequals]
        exact ⟨rfl, hafter⟩

/-- A string is read off both, with its closing quote if there is one. -/
theorem Shows.readString (h : Shows total tail w ⟨last, g :: rest⟩) :
    w.readString.1 = (CharStream.readString ⟨g.stop, rest⟩).1 ∧
      Shows total tail w.readString.2 (CharStream.readString ⟨g.stop, rest⟩).2 := by
  obtain ⟨htext, hshows⟩ := (h.advance htail).readStretch htail isStringChar
  refine ⟨congrArg (Token.mk .string) htext, ?_⟩
  unfold Window.readString CharStream.readString
  have hcurrent := hshows.current_eq
  dsimp only
  generalize (w.advance.readStretch isStringChar).2 = w' at hshows hcurrent ⊢
  generalize CharStream.dropWhile isStringChar ⟨g.stop, rest⟩ = s' at hshows hcurrent ⊢
  obtain ⟨last', rest'⟩ := s'
  unfold CharStream.skip
  cases rest' with
  | nil =>
    have hne : w'.current ≠ some '"' := by simp [hcurrent]
    rw [if_neg hne]
    exact hshows
  | cons g' rest' =>
    dsimp only
    by_cases hquote : g'.char = '"'
    · rw [if_pos (hcurrent.trans (congrArg some hquote)), if_pos hquote]
      exact hshows.advance htail
    · rw [if_neg fun h => hquote (Option.some.inj (hcurrent.symm.trans h)), if_neg hquote]
      exact hshows

/-- A token is read off both. -/
theorem Shows.readToken (h : Shows total tail w s) :
    w.readToken.1 = s.readToken.1 ∧ Shows total tail w.readToken.2 s.readToken.2 := by
  have hcurrent := h.current_eq
  have hword := h.readStretch htail isWordChar
  have hdigits := h.readStretch htail Char.isDigit
  obtain ⟨last, rest⟩ := s
  unfold Window.readToken CharStream.readToken
  rw [hcurrent]
  cases rest with
  | nil => exact ⟨rfl, h⟩
  | cons g rest =>
    have hsymbol := fun kind => h.readSymbol htail kind
    have hstring := h.readString htail
    have hafter := h.advance htail
    dsimp only [List.head?_cons, Option.map_some]
    cases TokenKind.ofSymbol? g.char with
    | some kind => exact hsymbol kind
    | none =>
      dsimp only
      split
      · exact hstring
      · split
        · exact ⟨congrArg Token.ofWord hword.1, hword.2⟩
        · split
          · exact ⟨congrArg (Token.mk .int) hdigits.1, hdigits.2⟩
          · exact ⟨rfl, hafter⟩

/-- A lexeme is read off both, at the same offsets. -/
theorem Shows.nextLexeme (h : Shows total tail w s) :
    w.nextLexeme.1 = s.next.1 ∧ Shows total tail w.nextLexeme.2 s.next.2 := by
  obtain ⟨-, hblank⟩ := h.readStretch htail isBlank
  obtain ⟨htoken, hafter⟩ := hblank.readToken htail
  rw [CharStream.next_eq, ← htoken, ← hblank.position_eq, ← hafter.position_eq]
  exact ⟨rfl, hafter⟩

/-! ## All tokens -/

theorem Shows.pull {n : Nat} (h : Shows total tail w s) (hn : s.rest.length ≤ n) :
    (w.pull (n + 1)).1 = (s.readAll n).1 ∧ Shows total tail (w.pull (n + 1)).2 (s.readAll n).2 := by
  induction n generalizing w s with
  | zero =>
    obtain ⟨hlexeme, hshows⟩ := h.nextLexeme htail
    unfold Window.pull
    dsimp only
    split
    · exact ⟨congrArg (fun x => [x]) hlexeme, hshows⟩
    · exact ⟨congrArg (fun x => [x]) hlexeme, hshows⟩
  | succ n ih =>
    obtain ⟨hlexeme, hshows⟩ := h.nextLexeme htail
    unfold Window.pull CharStream.readAll
    dsimp only
    rw [hlexeme]
    by_cases hend : s.next.1.kind = .eof
    · rw [if_pos hend, if_pos hend]
      exact ⟨rfl, hshows⟩
    · have hlt := CharStream.length_next_lt hend
      obtain ⟨hlexemes, hleft⟩ := ih hshows (by omega)
      rw [if_neg hend, if_neg hend]
      exact ⟨congrArg _ hlexemes, hleft⟩

theorem Shows.lexemes (h : Shows total tail w s) :
    w.lexemes.1 = s.lexemes.1 ∧ w.lexemes.2.asked = total := by
  obtain ⟨hlexemes, hshows⟩ := h.pull htail h.length_rest_le
  rw [CharStream.readAll_eq_of_le h.length_rest_le le_rfl] at hlexemes hshows
  exact ⟨hlexemes, hshows.asked_eq s.rest_lexemes⟩

/-- The first two characters of a source. -/
theorem shows_ofRequests (cs : List Char) :
    Shows (cs.length + 2) tail (ofRequests (cs.map .ok ++ tail)) (.ofChars cs) := by
  cases cs with
  | nil =>
    -- Neither of the two requests shows a character in the first place.
    obtain ⟨-, -, hone⟩ := advance_spec (start tail)
    obtain ⟨hposition, hcurrent, htwo⟩ := advance_spec (start tail).advance
    obtain ⟨hnextPosition, hnext, -⟩ := advance_of_fails (w := start tail) htail
    exact .ended (hposition.trans hnextPosition) (hcurrent.trans hnext)
      (htwo.trans (congrArg (· + 1) hone))
  | cons c cs =>
    have hfirst : (start (.ok c :: (cs.map .ok ++ tail))).advance =
        ⟨0, 0, none, some c, Glyph.stop ⟨0, c⟩, 1, cs.map .ok ++ tail⟩ := advance_of_ok rfl
    show Shows _ _ (advance (advance (start (.ok c :: (cs.map .ok ++ tail))))) _
    rw [hfirst]
    cases cs with
    | nil =>
      obtain ⟨hposition, hcurrent, hasked⟩ := advance_spec
        (⟨0, 0, none, some c, Glyph.stop ⟨0, c⟩, 1, tail⟩ : Window ε)
      obtain ⟨hnextPosition, hnext, hpending⟩ := advance_of_fails
        (w := ⟨0, 0, none, some c, Glyph.stop ⟨0, c⟩, 1, tail⟩) htail
      exact .one hposition hnextPosition hcurrent hnext hpending (congrArg (· + 1) hasked)
    | cons d cs =>
      have hsecond : advance (⟨0, 0, none, some c, Glyph.stop ⟨0, c⟩, 1,
          .ok d :: (cs.map .ok ++ tail)⟩ : Window ε) =
          ⟨0, Glyph.stop ⟨0, c⟩, some c, some d, Glyph.stop ⟨Glyph.stop ⟨0, c⟩, d⟩, 2,
            cs.map .ok ++ tail⟩ := advance_of_ok rfl
      show Shows _ _ (advance (⟨0, 0, none, some c, Glyph.stop ⟨0, c⟩, 1,
        .ok d :: (cs.map .ok ++ tail)⟩ : Window ε)) _
      rw [hsecond]
      refine .two rfl rfl rfl rfl rfl rfl ?_
      show 2 + (cs.length + 2) = cs.length + 1 + 1 + 2
      omega

/-- **Requests are read like the characters that they give before the first one fails**, and one
more is made after it. -/
theorem lexemes_ofRequests (cs : List Char) :
    (ofRequests (cs.map .ok ++ tail)).lexemes.1 = (CharStream.ofChars cs).lexemes.1 ∧
      (ofRequests (cs.map .ok ++ tail)).lexemes.2.asked = cs.length + 2 :=
  (shows_ofRequests htail cs).lexemes htail

end Tokens

/-! ## As many tokens as are asked for -/

theorem length_pull_le (n : Nat) (w : Window ε) : (w.pull n).1.length ≤ n := by
  induction n generalizing w with
  | zero => exact le_rfl
  | succ n ih =>
    unfold pull
    dsimp only
    split
    · exact Nat.le_add_left 1 n
    · exact Nat.succ_le_succ (ih w.nextLexeme.2)

/-- Once the end token has been given, asking for more makes no difference. -/
theorem pull_eq_of_length_le {n m : Nat} (h : (w.pull n).1.length ≤ m) (hmn : m ≤ n) :
    w.pull m = w.pull n := by
  induction m generalizing n w with
  | zero =>
    cases n with
    | zero => rfl
    | succ n =>
      -- If any token is asked for then one is given.
      unfold pull at h
      dsimp only at h
      split at h <;> exact absurd h (Nat.not_succ_le_zero _)
  | succ m ih =>
    obtain ⟨n, rfl⟩ := Nat.exists_eq_add_of_le' (Nat.zero_lt_of_lt hmn)
    unfold pull at h ⊢
    dsimp only at h ⊢
    split at h
    · next hend => rw [if_pos hend, if_pos hend]
    · next hend =>
      rw [if_neg hend, if_neg hend, ih (Nat.le_of_succ_le_succ h) (Nat.le_of_succ_le_succ hmn)]

/-- If as many tokens are asked for as there are, all are read. -/
theorem pull_length_lexemes (w : Window ε) : w.pull w.lexemes.1.length = w.lexemes :=
  pull_eq_of_length_le le_rfl (length_pull_le _ w)

end Window

end ScriptLang
