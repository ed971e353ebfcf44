import ScriptLang.Proofs.Token.Slices
import ScriptLang.Proofs.Token.Spelling
import Mathlib.Logic.Relation

/-!
# Texts with blanks between them

Lexing is local. A text is read in the same way wherever it stands, but for the offsets, which are
counted modulo `offsetLimit`. And a text is read in the same way if blanks follow it, whatever comes
after them: a blank ends every token but a string, so this holds unless a string has been left open.

So the lexemes of two texts with blanks between them are those of the first and those of the second.
The white space between the tokens of any source separates two such texts, and therefore it can be
changed without changing the tokens.
-/

namespace ScriptLang

open String (utf8Len)

/-! ## Further on, modulo the limit of offsets -/

/-- The character `d` bytes further on, its offset counted modulo `offsetLimit`. -/
def Glyph.wrapShift (d : Nat) (g : Glyph) : Glyph :=
  { g with offset := (g.offset + d) % offsetLimit }

/-- The lexeme `d` bytes further on, its offsets counted modulo `offsetLimit`. -/
def Lexeme.wrapShift (d : Nat) (x : Lexeme) : Lexeme :=
  { x with span := ⟨(x.span.start + d) % offsetLimit, (x.span.stop + d) % offsetLimit⟩ }

theorem Glyph.stop_wrapShift (d : Nat) (g : Glyph) :
    (g.wrapShift d).stop = (g.stop + d) % offsetLimit := by
  show ((g.offset + d) % offsetLimit + g.char.utf8Size) % offsetLimit =
    ((g.offset + g.char.utf8Size) % offsetLimit + d) % offsetLimit
  rw [Nat.mod_add_mod, Nat.mod_add_mod, Nat.add_right_comm]

/-- Characters are located one after the other, wherever the first of them stands. -/
theorem Glyph.locate_wrapShift (d n : Nat) (cs : List Char) :
    Glyph.locate ((n + d) % offsetLimit) cs = (Glyph.locate n cs).map (Glyph.wrapShift d) := by
  induction cs generalizing n with
  | nil => rfl
  | cons c cs ih =>
    have hstop : Glyph.stop ⟨(n + d) % offsetLimit, c⟩ = (Glyph.stop ⟨n, c⟩ + d) % offsetLimit :=
      Glyph.stop_wrapShift d ⟨n, c⟩
    rw [Glyph.locate, Glyph.locate, List.map_cons, hstop, ih]
    rfl

namespace CharStream

variable {s : CharStream} {g : Glyph} {gs : List Glyph}

/-- The stream `d` bytes further on, its offsets counted modulo `offsetLimit`. -/
def wrapShift (d : Nat) (s : CharStream) : CharStream :=
  ⟨(s.last + d) % offsetLimit, s.rest.map (Glyph.wrapShift d)⟩

theorem offset_wrapShift (d : Nat) (s : CharStream) :
    (s.wrapShift d).offset = (s.offset + d) % offsetLimit := by
  obtain ⟨last, rest⟩ := s
  cases rest <;> rfl

theorem takeWhile_wrapShift (p : Char → Bool) (d : Nat) (s : CharStream) :
    (s.wrapShift d).takeWhile p = s.takeWhile p := by
  unfold takeWhile wrapShift
  rw [List.takeWhile_map, List.map_map]
  rfl

theorem dropWhile_wrapShift (p : Char → Bool) (d : Nat) (s : CharStream) :
    (s.wrapShift d).dropWhile p = (s.dropWhile p).wrapShift d := by
  unfold dropWhile wrapShift
  rw [List.takeWhile_map, List.dropWhile_map, List.getLast?_map]
  show CharStream.mk (((s.rest.takeWhile fun g => p g.char).getLast?.map _).map _ |>.getD _) _ = _
  congr 1
  cases (s.rest.takeWhile fun g => p g.char).getLast? with
  | none => rfl
  | some g => exact g.stop_wrapShift d

theorem skip_wrapShift (c : Char) (d : Nat) (s : CharStream) :
    (s.wrapShift d).skip c = (s.skip c).wrapShift d := by
  obtain ⟨last, rest⟩ := s
  cases rest with
  | nil => rfl
  | cons g rest =>
    by_cases hc : g.char = c
    · have h : skip c ⟨last, g :: rest⟩ = ⟨g.stop, rest⟩ := if_pos hc
      have h' : (wrapShift d ⟨last, g :: rest⟩).skip c =
          ⟨(g.wrapShift d).stop, rest.map (Glyph.wrapShift d)⟩ := if_pos hc
      rw [h, h', Glyph.stop_wrapShift]
      rfl
    · have h : skip c ⟨last, g :: rest⟩ = ⟨last, g :: rest⟩ := if_neg hc
      rw [h]
      exact if_neg hc

theorem readSymbol_wrapShift (kind : TokenKind) (d : Nat) (s : CharStream) :
    readSymbol kind (s.wrapShift d) =
      ((readSymbol kind s).1, (readSymbol kind s).2.wrapShift d) := by
  obtain ⟨last, rest⟩ := s
  unfold readSymbol
  cases kind.withEquals? with
  | none => rfl
  | some joined =>
    cases rest with
    | nil => rfl
    | cons g rest =>
      show (if g.char = '=' then _ else _) = _
      dsimp only
      by_cases hc : g.char = '='
      · rw [if_pos hc, if_pos hc, Glyph.stop_wrapShift]
        rfl
      · rw [if_neg hc, if_neg hc]

theorem readString_wrapShift (d : Nat) (s : CharStream) :
    readString (s.wrapShift d) = ((readString s).1, (readString s).2.wrapShift d) := by
  unfold readString
  rw [takeWhile_wrapShift, dropWhile_wrapShift, skip_wrapShift]

/-- The next token is the same wherever the stream stands. -/
theorem readToken_wrapShift (d : Nat) (s : CharStream) :
    (s.wrapShift d).readToken = (s.readToken.1, s.readToken.2.wrapShift d) := by
  cases hs : s.rest with
  | nil =>
    have hs' : (s.wrapShift d).rest = [] := by rw [wrapShift, hs]; rfl
    rw [readToken, readToken, hs, hs']
  | cons g rest =>
    have hs' : (s.wrapShift d).rest = g.wrapShift d :: rest.map (Glyph.wrapShift d) := by
      rw [wrapShift, hs]
      rfl
    have hafter : (⟨(g.wrapShift d).stop, rest.map (Glyph.wrapShift d)⟩ : CharStream) =
        wrapShift d ⟨g.stop, rest⟩ := by
      rw [Glyph.stop_wrapShift]
      rfl
    unfold readToken
    rw [hs, hs']
    dsimp only
    rw [hafter, show (g.wrapShift d).char = g.char from rfl]
    -- The cases are a symbol, a string, a word, a numeral and anything else.
    cases TokenKind.ofSymbol? g.char with
    | some kind => exact readSymbol_wrapShift kind d _
    | none =>
      dsimp only
      rw [readString_wrapShift, takeWhile_wrapShift, dropWhile_wrapShift, takeWhile_wrapShift,
        dropWhile_wrapShift]
      split
      · rfl
      split
      · rfl
      split <;> rfl

/-- The next lexeme is the same wherever the stream stands, but for its offsets. -/
theorem next_wrapShift (d : Nat) (s : CharStream) :
    (s.wrapShift d).next = (s.next.1.wrapShift d, s.next.2.wrapShift d) := by
  rw [next_eq, next_eq, dropWhile_wrapShift, readToken_wrapShift, offset_wrapShift,
    offset_wrapShift]
  rfl

/-- **A text is read in the same way wherever it stands**, but for the offsets. -/
theorem lexemes_wrapShift (d : Nat) (s : CharStream) :
    (s.wrapShift d).lexemes.1 = s.lexemes.1.map (Lexeme.wrapShift d) := by
  induction s using lexemes_induction with
  | eof s hend =>
    have hend' : (s.wrapShift d).next.1.kind = .eof := by rw [next_wrapShift]; exact hend
    rw [lexemes_of_eof hend, lexemes_of_eof hend', next_wrapShift]
    rfl
  | step s hne ih =>
    have hne' : (s.wrapShift d).next.1.kind ≠ .eof := by rw [next_wrapShift]; exact hne
    rw [lexemes_of_ne_eof hne, lexemes_of_ne_eof hne', next_wrapShift, ih]
    rfl

/-! ## In front of a blank -/

/-- The stream with more characters after its own. -/
def followedBy (gs : List Glyph) (s : CharStream) : CharStream := ⟨s.last, s.rest ++ gs⟩

/-- A stretch ends where it does if a character follows that does not belong to it, or if it has
ended before. -/
theorem dropWhile_followedBy (p : Char → Bool) (gs : List Glyph)
    (hend : (s.dropWhile p).rest ≠ [] ∨ p g.char = false) :
    (s.followedBy (g :: gs)).takeWhile p = s.takeWhile p ∧
      (s.followedBy (g :: gs)).dropWhile p = (s.dropWhile p).followedBy (g :: gs) := by
  have hlist : (s.rest ++ g :: gs).takeWhile (fun g => p g.char) =
        s.rest.takeWhile (fun g => p g.char) ∧
      (s.rest ++ g :: gs).dropWhile (fun g => p g.char) =
        s.rest.dropWhile (fun g => p g.char) ++ g :: gs := by
    by_cases hnil : s.rest.dropWhile (fun g => p g.char) = []
    · have hg : ¬p g.char := Bool.eq_false_iff.mp (hend.resolve_left fun hne => hne hnil)
      have hall := List.dropWhile_eq_nil_iff.mp hnil
      rw [List.takeWhile_append_of_pos hall, List.dropWhile_append_of_pos hall, hnil,
        List.takeWhile_eq_self_iff.mpr hall, List.takeWhile_cons, if_neg hg, List.dropWhile_cons,
        if_neg hg]
      exact ⟨List.append_nil _, rfl⟩
    · exact takeWhile_append_of_dropWhile_ne_nil hnil (g :: gs)
  unfold takeWhile dropWhile followedBy
  rw [hlist.1, hlist.2]
  exact ⟨rfl, rfl⟩

/-- A symbol is not joined by a character other than an equals sign. -/
theorem readSymbol_followedBy (kind : TokenKind) (hg : g.char ≠ '=') :
    readSymbol kind (s.followedBy (g :: gs)) =
      ((readSymbol kind s).1, (readSymbol kind s).2.followedBy (g :: gs)) := by
  obtain ⟨last, rest⟩ := s
  unfold readSymbol
  cases kind.withEquals? with
  | none => rfl
  | some joined =>
    cases rest with
    | nil => exact if_neg hg
    | cons g' rest =>
      show (if g'.char = '=' then _ else _) = _
      dsimp only
      by_cases hc : g'.char = '='
      · rw [if_pos hc, if_pos hc]
        rfl
      · rw [if_neg hc, if_neg hc]

/-- A string ends with its closing quote. -/
theorem readString_followedBy (hclosed : '"' ∈ s.chars) :
    readString (s.followedBy (g :: gs)) =
      ((readString s).1, (readString s).2.followedBy (g :: gs)) := by
  have hne : (s.dropWhile isStringChar).rest ≠ [] := by
    intro hnil
    have hchars : s.chars.dropWhile isStringChar = [] := by
      rw [← chars_dropWhile, chars, hnil]
      rfl
    exact absurd (List.dropWhile_eq_nil_iff.mp hchars _ hclosed) (by decide)
  obtain ⟨htext, hafter⟩ := dropWhile_followedBy isStringChar gs (g := g) (.inl hne)
  unfold readString
  rw [htext, hafter]
  generalize s.dropWhile isStringChar = s at hne
  obtain ⟨last, rest⟩ := s
  obtain ⟨q, rest, rfl⟩ := List.exists_cons_of_ne_nil hne
  unfold skip
  show (_, if q.char = '"' then _ else _) = (_, followedBy _ (if q.char = '"' then _ else _))
  split <;> rfl

/-- A blank ends every token but a string, and a string ends with its closing quote. -/
theorem readToken_followedBy (hg : isBlank g.char) (hs : s.rest ≠ [])
    (hclosed : ∀ cs, s.chars = '"' :: cs → '"' ∈ cs) :
    (s.followedBy (g :: gs)).readToken =
      (s.readToken.1, s.readToken.2.followedBy (g :: gs)) := by
  obtain ⟨hequals, hword, hdigit⟩ :
      g.char ≠ '=' ∧ isWordChar g.char = false ∧ g.char.isDigit = false := by
    simp only [isBlank, Bool.or_eq_true, decide_eq_true_eq] at hg
    rcases hg with ((hg | hg) | hg) | hg <;> rw [hg] <;> decide
  obtain ⟨first, rest, hrest⟩ := List.exists_cons_of_ne_nil hs
  have hrest' : (s.followedBy (g :: gs)).rest = first :: (rest ++ g :: gs) := by
    rw [followedBy, hrest]
    rfl
  have hafter : (⟨first.stop, rest ++ g :: gs⟩ : CharStream) =
      followedBy (g :: gs) ⟨first.stop, rest⟩ := rfl
  unfold readToken
  rw [hrest, hrest']
  dsimp only
  rw [hafter]
  cases TokenKind.ofSymbol? first.char with
  | some kind => exact readSymbol_followedBy kind hequals
  | none =>
    dsimp only
    -- Only a string goes on after a blank, so it has to be closed before.
    by_cases hquote : first.char = '"'
    · rw [if_pos hquote, if_pos hquote]
      refine readString_followedBy (hclosed _ ?_)
      rw [chars, hrest, List.map_cons, hquote]
      rfl
    rw [if_neg hquote, if_neg hquote]
    obtain ⟨htext, hdrop⟩ := dropWhile_followedBy (s := s) isWordChar gs (.inr hword)
    obtain ⟨htext', hdrop'⟩ := dropWhile_followedBy (s := s) Char.isDigit gs (.inr hdigit)
    rw [htext, hdrop, htext', hdrop']
    split
    · rfl
    split <;> rfl

/-- The characters to come stop at the offset `m`. -/
def StopsAt (s : CharStream) (m : Nat) : Prop := ∃ n cs, s.StandsAt n cs ∧ n + utf8Len cs = m

theorem StopsAt.dropWhile {m : Nat} (p : Char → Bool) (h : s.StopsAt m) :
    (s.dropWhile p).StopsAt m := by
  obtain ⟨n, cs, hs, hm⟩ := h
  refine ⟨_, _, hs.dropWhile p, ?_⟩
  rw [Nat.add_assoc, ← String.utf8Len_append, List.takeWhile_append_dropWhile]
  exact hm

theorem StopsAt.next {m : Nat} (h : s.StopsAt m) : s.next.2.StopsAt m := by
  obtain ⟨n, cs, hs, hm⟩ := h
  obtain ⟨front, after, rfl, hafter, -⟩ := hs.next
  refine ⟨_, after, hafter, ?_⟩
  rw [Nat.add_assoc, ← String.utf8Len_append]
  exact hm

/-- A stream that is followed by characters where it stops stands where it stood. -/
theorem StopsAt.offset_followedBy (h : s.StopsAt g.offset) :
    (s.followedBy (g :: gs)).offset = s.offset := by
  obtain ⟨n, cs, hs, hm⟩ := h
  obtain ⟨last, rest⟩ := s
  cases rest with
  | nil =>
    cases cs with
    | nil => exact hm.symm.trans hs.offset_eq.symm
    | cons c cs => cases hs.rest_eq
  | cons g' rest => rfl

end CharStream

/-- A string takes two bytes more than its text, which are those of its quotes. -/
def Lexeme.IsQuoted (x : Lexeme) : Prop :=
  x.kind = .string → x.span.stop = x.span.start + utf8Len x.token.literal.toList + 2

namespace CharStream

variable {s : CharStream} {n : Nat} {cs ds : List Char} {g : Glyph} {gs : List Glyph}

/-- If the next lexeme is a string with both quotes, the closing one is there to be read. -/
theorem StandsAt.quote_mem_of_isQuoted (h : s.StandsAt n cs) (hquoted : s.next.1.IsQuoted)
    (hds : (s.dropWhile isBlank).chars = '"' :: ds) : '"' ∈ ds := by
  have hdrop := h.dropWhile isBlank
  rw [← hdrop.chars_eq, hds] at hdrop
  obtain ⟨rest, hrest, -⟩ := hdrop.cons
  have hkind : (s.dropWhile isBlank).readToken.1.kind = .string := by
    rw [readToken, hrest]
    rfl
  have hstop := hquoted hkind
  obtain ⟨text, after, htext, -, hread, hafter⟩ := takes_readToken hdrop
  rw [next_eq] at hstop
  dsimp only at hstop
  rw [hdrop.offset_eq, hafter.offset_eq] at hstop
  cases hread with
  | plain hne => exact absurd hkind hne
  | quoted =>
    rw [(List.cons.inj htext).2]
    simp
  | unclosed =>
    rw [String.utf8Len_cons] at hstop
    have hquote : '"'.utf8Size = 1 := rfl
    omega

/-- The next lexeme is the same if a blank follows where the input would have ended. -/
theorem StopsAt.next_followedBy (h : s.StopsAt g.offset) (hg : isBlank g.char)
    (gs : List Glyph) (hne : s.next.1.kind ≠ .eof) (hquoted : s.next.1.IsQuoted) :
    (s.followedBy (g :: gs)).next = (s.next.1, s.next.2.followedBy (g :: gs)) := by
  have hrest : (s.dropWhile isBlank).rest ≠ [] := fun hnil =>
    hne (s.next_kind_eq_eof_iff.mpr hnil)
  have hclosed : ∀ ds, (s.dropWhile isBlank).chars = '"' :: ds → '"' ∈ ds := by
    obtain ⟨n, cs, hs, -⟩ := h
    exact fun ds => hs.quote_mem_of_isQuoted hquoted
  obtain ⟨-, hdrop⟩ := dropWhile_followedBy isBlank gs (g := g) (.inl hrest)
  have hafter : ((s.dropWhile isBlank).readToken.2.followedBy (g :: gs)).offset =
      (s.dropWhile isBlank).readToken.2.offset := h.next.offset_followedBy
  rw [next_eq, next_eq, hdrop, readToken_followedBy hg hrest hclosed, hafter,
    (h.dropWhile isBlank).offset_followedBy]

/-- Blanks in front of a blank change nothing. -/
theorem lexemes_followedBy_of_blank (hs : ∀ g ∈ s.rest, isBlank g.char) (hg : isBlank g.char)
    (last : Nat) : (s.followedBy (g :: gs)).lexemes = lexemes ⟨last, g :: gs⟩ := by
  obtain ⟨start, rest⟩ := s
  induction rest generalizing start with
  | nil =>
    show lexemes ⟨start, g :: gs⟩ = _
    rw [lexemes_cons_blank hg, lexemes_cons_blank hg]
  | cons g' rest ih =>
    obtain ⟨hg', hrest⟩ := List.forall_mem_cons.mp hs
    show lexemes ⟨start, g' :: (rest ++ g :: gs)⟩ = _
    rw [lexemes_cons_blank hg']
    exact ih g'.stop hrest

/-- **A text is read in the same way if blanks follow**, unless it has a string that is not closed.
What is read then is what is read from the blanks on. -/
theorem StopsAt.lexemes_followedBy (h : s.StopsAt g.offset) (hg : isBlank g.char)
    (hquoted : ∀ x ∈ s.lexemes.1, x.IsQuoted) (last : Nat) :
    (s.followedBy (g :: gs)).lexemes.1 =
      s.lexemes.1.dropLast ++ (lexemes ⟨last, g :: gs⟩).1 := by
  induction s using lexemes_induction with
  | eof s hend =>
    have hblank := List.dropWhile_eq_nil_iff.mp (s.next_kind_eq_eof_iff.mp hend)
    rw [lexemes_of_eof hend, lexemes_followedBy_of_blank hblank hg last]
    rfl
  | step s hne ih =>
    rw [lexemes_of_ne_eof hne] at hquoted ⊢
    obtain ⟨hfirst, hrest⟩ := List.forall_mem_cons.mp hquoted
    have hnext := h.next_followedBy hg gs hne hfirst
    have hne' : (s.followedBy (g :: gs)).next.1.kind ≠ .eof := by rw [hnext]; exact hne
    have hnil : s.next.2.lexemes.1 ≠ [] := by
      obtain ⟨xs, x, hxs, -⟩ := s.next.2.lexemes_eq_append_eof
      rw [hxs]
      exact List.concat_ne_nil x xs
    rw [lexemes_of_ne_eof hne', hnext, ih h.next hrest, List.dropLast_cons_of_ne_nil hnil]
    rfl

/-! ## Two texts -/

/-- Characters that follow others are located where those stop. -/
theorem locate_append (h : n + utf8Len cs < offsetLimit) :
    Glyph.locate n (cs ++ ds) = Glyph.locate n cs ++ Glyph.locate (n + utf8Len cs) ds := by
  induction cs generalizing n with
  | nil => rfl
  | cons c cs ih =>
    rw [String.utf8Len_cons] at h ⊢
    have hstop : Glyph.stop ⟨n, c⟩ = n + c.utf8Size :=
      Nat.mod_eq_of_lt (show n + c.utf8Size < offsetLimit by omega)
    rw [List.cons_append, Glyph.locate, Glyph.locate, hstop, ih (by omega), List.cons_append,
      Nat.add_assoc n, Nat.add_comm c.utf8Size]

/-- Blanks in front of a text change nothing but where it stands. -/
theorem lexemes_locate_of_blank {m : Nat} (hcs : ∀ c ∈ cs, isBlank c) (hn : n < offsetLimit)
    (hm : m = (n + utf8Len cs) % offsetLimit) :
    lexemes ⟨n, Glyph.locate n (cs ++ ds)⟩ = lexemes ⟨m, Glyph.locate m ds⟩ := by
  induction cs generalizing n with
  | nil =>
    obtain rfl : m = n := hm.trans (Nat.mod_eq_of_lt hn)
    rfl
  | cons c cs ih =>
    obtain ⟨hc, hcs⟩ := List.forall_mem_cons.mp hcs
    rw [List.cons_append, Glyph.locate, lexemes_cons_blank hc]
    refine ih hcs (Nat.mod_lt _ (by decide)) ?_
    rw [hm, String.utf8Len_cons, Nat.add_comm (utf8Len cs), ← Nat.add_assoc]
    exact (Nat.mod_add_mod _ _ _).symm

/-- A text that stands further on. -/
theorem wrapShift_ofChars (d : Nat) (cs : List Char) :
    (ofChars cs).wrapShift d = ⟨d % offsetLimit, Glyph.locate (d % offsetLimit) cs⟩ := by
  show CharStream.mk ((0 + d) % offsetLimit) ((Glyph.locate 0 cs).map (Glyph.wrapShift d)) = _
  rw [← Glyph.locate_wrapShift, Nat.zero_add]

end CharStream

/-- The strings of a source all have their closing quote. -/
def StringsClosed (source : String) : Prop :=
  ∀ x ∈ lex source, x.kind = .string →
    x.span.Covers source ("\"" ++ x.token.literal ++ "\"")

/-- A string that is closed in a source has both quotes. -/
theorem Lexeme.isQuoted_of_covers {source : String} {x : Lexeme}
    (h : x.kind = .string → x.span.Covers source ("\"" ++ x.token.literal ++ "\"")) :
    x.IsQuoted := by
  intro hkind
  obtain ⟨before, after, -, -, hstop⟩ := h hkind
  rw [hstop, String.utf8ByteSize_append, String.utf8ByteSize_append, String.utf8Len_toList]
  have hquote : "\"".utf8ByteSize = 1 := rfl
  omega

section Blanks

variable {a w b : String} (ha : a.utf8ByteSize < offsetLimit) (hclosed : StringsClosed a)
  (hw : IsRun isBlank w)
include ha hclosed hw

/-- The lexemes of two texts with blanks between them are those of the first, and those of the
second read where it stands. -/
theorem lex_append_blanks {m : Nat} (hm : m = (a ++ w).utf8ByteSize % offsetLimit) :
    lex (a ++ w ++ b) =
      (lex a).dropLast ++ (CharStream.lexemes ⟨m, Glyph.locate m b.toList⟩).1 := by
  have hlen : utf8Len a.toList = a.utf8ByteSize := String.utf8Len_toList a
  obtain ⟨c, cs, hcs⟩ := List.exists_cons_of_ne_nil hw.1
  -- The blanks and the second text, read where the first text stops.
  have hblanks : CharStream.lexemes
      ⟨a.utf8ByteSize, Glyph.locate a.utf8ByteSize (w.toList ++ b.toList)⟩ =
        CharStream.lexemes ⟨m, Glyph.locate m b.toList⟩ := by
    refine CharStream.lexemes_locate_of_blank hw.2 ha ?_
    rw [hm, String.utf8ByteSize_append, String.utf8Len_toList]
  have hwhole : CharStream.ofChars (a ++ w ++ b).toList =
      (CharStream.ofChars a.toList).followedBy
        (Glyph.locate a.utf8ByteSize (w.toList ++ b.toList)) := by
    rw [String.toList_append, String.toList_append, List.append_assoc, CharStream.ofChars,
      CharStream.ofGlyphs, CharStream.locate_append (by omega), Nat.zero_add, hlen]
    rfl
  have hstops : (CharStream.ofChars a.toList).StopsAt a.utf8ByteSize :=
    ⟨0, _, CharStream.standsAt_ofChars (by omega), by omega⟩
  have hquoted : ∀ x ∈ lex a, x.IsQuoted := fun x hx => Lexeme.isQuoted_of_covers (hclosed x hx)
  rw [lex, hwhole, ← hblanks, hcs, List.cons_append, Glyph.locate]
  exact CharStream.StopsAt.lexemes_followedBy (g := ⟨a.utf8ByteSize, c⟩) hstops
    (hw.2 c (by rw [hcs]; exact List.mem_cons_self)) hquoted a.utf8ByteSize

/-- The lexemes of two texts with blanks between them, however many blanks there are. -/
theorem lex_append_blanks_wrapShift :
    lex (a ++ w ++ b) =
      (lex a).dropLast ++ (lex b).map (Lexeme.wrapShift (a ++ w).utf8ByteSize) := by
  rw [lex_append_blanks ha hclosed hw rfl, ← CharStream.wrapShift_ofChars,
    CharStream.lexemes_wrapShift]
  rfl

/-- The lexemes of two texts with blanks between them, if all offsets are in range. -/
theorem lex_append_blanks_shift (hsize : (a ++ w ++ b).utf8ByteSize < offsetLimit) :
    lex (a ++ w ++ b) =
      (lex a).dropLast ++ (lex b).map (Lexeme.shift (a ++ w).utf8ByteSize) := by
  have hlen : utf8Len b.toList = b.utf8ByteSize := String.utf8Len_toList b
  rw [String.utf8ByteSize_append] at hsize
  have hsecond : (CharStream.ofChars b.toList).StandsAt 0 b.toList :=
    CharStream.standsAt_ofChars (by omega)
  have hmod : (a ++ w).utf8ByteSize = (a ++ w).utf8ByteSize % offsetLimit :=
    (Nat.mod_eq_of_lt (by omega)).symm
  rw [lex_append_blanks ha hclosed hw hmod]
  refine congrArg _ (hsecond.lexemes_shift ⟨?_, fun _ => ?_, ?_⟩)
  · rw [Nat.zero_add]
  · rw [Nat.zero_add]
  · omega

/-- The tokens of two texts with blanks between them. -/
theorem tokenize_append_blanks : tokenize (a ++ w ++ b) = sourceTokens a ++ tokenize b := by
  have hfirst : ((lex a).map Lexeme.token).dropLast = sourceTokens a := by
    rw [show (lex a).map Lexeme.token = tokenize a from rfl, tokenize_eq_append_eof,
      List.dropLast_concat]
  rw [tokenize, lex_append_blanks_wrapShift ha hclosed hw, List.map_append, List.map_dropLast,
    hfirst, List.map_map]
  rfl

end Blanks

/-! ## White space between tokens -/

/-- A gap starts where the text does, or where a token stops. -/
theorem LaidOut.exists_of_mem_gaps {n : Nat} {cs : List Char} {xs : List Lexeme} {gap : Span}
    (h : LaidOut n cs xs) (hgap : gap ∈ gaps n xs) :
    gap.start = n ∨
      ∃ us x vs, xs = us ++ x :: vs ∧ x.kind ≠ .eof ∧ gap.start = x.span.stop := by
  induction h with
  | eof hblanks =>
    rw [List.mem_singleton.mp hgap]
    exact .inl rfl
  | @token n start stop t blanks text after xs hblanks hkind htext hread hstart hstop hafter ih =>
    rcases List.mem_cons.mp hgap with rfl | hgap
    · exact .inl rfl
    right
    rcases ih hgap with hgap | ⟨us, x, vs, rfl, hx, hgap⟩
    · exact ⟨[], _, xs, rfl, hkind, hgap⟩
    · exact ⟨_ :: us, x, vs, rfl, hx, hgap⟩

/-- A span covers one text. -/
theorem Span.Covers.unique {source text text' : String} {span : Span} (h : span.Covers source text)
    (h' : span.Covers source text') : text = text' := by
  obtain ⟨before, after, hsource, hstart, hstop⟩ := h
  obtain ⟨before', after', hsource', hstart', hstop'⟩ := h'
  have hlists : before.toList ++ (text.toList ++ after.toList) =
      before'.toList ++ (text'.toList ++ after'.toList) := by
    rw [← String.toList_append, ← String.toList_append, ← String.toList_append,
      ← String.toList_append, ← String.append_assoc, ← String.append_assoc, ← hsource, ← hsource']
  have hbefore : utf8Len before.toList = utf8Len before'.toList := by
    rw [String.utf8Len_toList, String.utf8Len_toList, ← hstart, ← hstart']
  have htext : utf8Len text.toList = utf8Len text'.toList := by
    rw [String.utf8Len_toList, String.utf8Len_toList]
    omega
  obtain ⟨-, hrest⟩ := append_inj_of_utf8Len_eq hlists hbefore
  exact String.toList_inj.mp (append_inj_of_utf8Len_eq hrest htext).1

/-- A lexeme other than the end token comes before the end. -/
theorem mem_dropLast_lex {source : String} {x : Lexeme} (hx : x ∈ lex source)
    (hne : x.kind ≠ .eof) : x ∈ (lex source).dropLast := by
  obtain ⟨xs, e, hxs, -, he⟩ := (CharStream.ofChars source.toList).lexemes_eq_append_eof
  rw [lex, hxs] at hx ⊢
  rw [List.dropLast_concat]
  refine (List.mem_append.mp hx).resolve_right fun hend => hne ?_
  rw [List.mem_singleton.mp hend, Lexeme.kind, he]
  rfl

section Gaps

variable {a w b : String} (hsize : (a ++ w ++ b).utf8ByteSize < offsetLimit)
  (hgap : ⟨a.utf8ByteSize, (a ++ w).utf8ByteSize⟩ ∈ gaps 0 (lex (a ++ w ++ b)))
include hsize hgap

/-- A gap is white space. -/
theorem isBlank_of_mem_gaps : ∀ c ∈ w.toList, isBlank c := by
  have hwhole : (a ++ w ++ b).toList = [] ++ (a ++ w ++ b).toList := rfl
  obtain ⟨blanks, hcovers, hblanks⟩ :=
    ((laidOut_lex hsize).standsIn_and_blank hwhole rfl).2 _ hgap
  obtain rfl := hcovers.unique ⟨a, b, rfl, rfl, String.utf8ByteSize_append ..⟩
  exact hblanks

/-- The lexemes before a gap are those of the text before it. -/
theorem dropLast_lex_prefix_of_mem_gaps : (lex a).dropLast <+: lex (a ++ w ++ b) := by
  rcases (laidOut_lex hsize).exists_of_mem_gaps hgap with hstart | ⟨us, x, vs, hlex, hx, hstart⟩
  · obtain rfl : a = "" := String.utf8ByteSize_eq_zero_iff.mp hstart
    exact List.nil_prefix
  -- The text before the gap stops where one of the lexemes does.
  have hlen := a.utf8Len_toList
  have hlen' := (a ++ w ++ b).utf8Len_toList
  have hle : a.utf8ByteSize ≤ (a ++ w ++ b).utf8ByteSize := by
    rw [String.utf8ByteSize_append, String.utf8ByteSize_append]
    omega
  have hfirst : (CharStream.ofChars a.toList).StandsAt 0 a.toList :=
    CharStream.standsAt_ofChars (by omega)
  have hwhole : (CharStream.ofChars (a ++ w ++ b).toList).StandsAt (0 + 0)
      (a.toList ++ (w ++ b).toList) := by
    rw [← String.toList_append, ← String.append_assoc]
    exact CharStream.standsAt_ofChars (by omega)
  dsimp only at hstart
  have hslice := hfirst.lexemes_within hwhole hlex hx (by omega)
  rw [List.map_congr_left fun x _ => x.shift_zero, List.map_id'] at hslice
  refine ⟨vs, ?_⟩
  rw [lex, hslice, hlex, List.dropLast_append_of_ne_nil (List.cons_ne_nil _ _), List.append_assoc]
  rfl

/-- A string that is not closed takes all that follows, so it does not come before a gap. -/
theorem stringsClosed_of_mem_gaps (hne : w ≠ "") : StringsClosed a := by
  intro x hx hkind
  have htotal : (a ++ w ++ b).utf8ByteSize = a.utf8ByteSize + w.utf8ByteSize + b.utf8ByteSize := by
    rw [String.utf8ByteSize_append, String.utf8ByteSize_append]
  have hpos : w.utf8ByteSize ≠ 0 := fun hzero => hne (String.utf8ByteSize_eq_zero_iff.mp hzero)
  have hkind' : x.kind ≠ .eof := by rw [hkind]; decide
  have hx' : x ∈ lex (a ++ w ++ b) :=
    (dropLast_lex_prefix_of_mem_gaps hsize hgap).subset (mem_dropLast_lex hx hkind')
  have hstands := standsIn_of_mem_lex (by omega) hx hkind'
  have hstands' := standsIn_of_mem_lex hsize hx' hkind'
  rw [Lexeme.StandsIn, if_pos hkind] at hstands hstands'
  refine hstands.resolve_right ?_
  rintro ⟨⟨before, after, -, -, hstop⟩, hend⟩
  rw [String.utf8ByteSize_append] at hstop
  -- In the source the string has a closing quote as well, or else it takes the gap.
  rcases hstands' with ⟨before', after', -, -, hstop'⟩ | ⟨-, hend'⟩
  · have hquote : "\"".utf8ByteSize = 1 := rfl
    rw [String.utf8ByteSize_append, String.utf8ByteSize_append] at hstop'
    omega
  · omega

/-- The tokens are the same with other blanks in a gap. -/
theorem tokenize_eq_of_mem_gaps {w' : String} (hne : w ≠ "") (hw' : IsRun isBlank w') :
    tokenize (a ++ w' ++ b) = tokenize (a ++ w ++ b) := by
  have ha : a.utf8ByteSize < offsetLimit := by
    rw [String.utf8ByteSize_append, String.utf8ByteSize_append] at hsize
    omega
  have hclosed := stringsClosed_of_mem_gaps hsize hgap hne
  have hw : IsRun isBlank w :=
    ⟨fun hnil => hne (String.toList_eq_nil_iff.mp hnil), isBlank_of_mem_gaps hsize hgap⟩
  rw [tokenize_append_blanks ha hclosed hw', tokenize_append_blanks ha hclosed hw]

end Gaps

/-- White space between two tokens of the first source, or in front of them all or after them, is
other white space in the second one. -/
def Respaces (source source' : String) : Prop :=
  source.utf8ByteSize < offsetLimit ∧ ∃ a w w' b, source = a ++ w ++ b ∧ source' = a ++ w' ++ b ∧
    ⟨a.utf8ByteSize, (a ++ w).utf8ByteSize⟩ ∈ gaps 0 (lex source) ∧ w ≠ "" ∧ IsRun isBlank w'

/-- Changing the white space between tokens any number of times does not change the tokens. -/
theorem tokenize_eq_of_respaced {source source' : String}
    (h : Relation.ReflTransGen Respaces source source') : tokenize source' = tokenize source := by
  induction h with
  | refl => rfl
  | tail _ hstep ih =>
    obtain ⟨hsize, a, w, w', b, rfl, rfl, hgap, hne, hw'⟩ := hstep
    rw [tokenize_eq_of_mem_gaps hsize hgap hne hw', ih]

/-- **Lexing is local.** Let the strings of a text all be closed, and let some blanks follow and
then any other text. The lexemes of it all are those of the first text, without the end token, and
then those of the second one, with the end token, further on by the size of what comes before it.
Offsets are counted modulo `offsetLimit`, which makes no difference if the whole is short enough.
And whatever is done to the white space between the tokens of a source, kinds and texts of its
tokens stay the same. -/
theorem lexing_isLocal :
    (∀ a w b : String, a.utf8ByteSize + b.utf8ByteSize < offsetLimit → StringsClosed a →
      IsRun isBlank w →
        lex (a ++ w ++ b) =
            (lex a).dropLast ++ (lex b).map (Lexeme.wrapShift (a ++ w).utf8ByteSize) ∧
          ((a ++ w ++ b).utf8ByteSize < offsetLimit → lex (a ++ w ++ b) =
            (lex a).dropLast ++ (lex b).map (Lexeme.shift (a ++ w).utf8ByteSize))) ∧
      ∀ source source', Relation.ReflTransGen Respaces source source' →
        tokenize source' = tokenize source := by
  refine ⟨fun a w b hsize hclosed hw => ?_, fun source source' => tokenize_eq_of_respaced⟩
  have ha : a.utf8ByteSize < offsetLimit := by omega
  exact ⟨lex_append_blanks_wrapShift ha hclosed hw, lex_append_blanks_shift ha hclosed hw⟩

/-- The texts would be joined to `!=` if there were no blanks. There are characters of two bytes in
the first one, and a string that is left open in the second one. Then the white space is changed in
two places. -/
theorem lexing_isLocal_openString :
    StringsClosed "x1 \"é\"é!" ∧ IsRun isBlank "\r\n" ∧
      lex ("x1 \"é\"é!" ++ "\r\n" ++ "= \"y") =
        (lex "x1 \"é\"é!").dropLast ++ (lex "= \"y").map (Lexeme.shift 12) ∧
      Relation.ReflTransGen Respaces "x1 \"é\"é!\r\n= \"y" "x1\t\t\"é\"é!\n= \"y" ∧
      tokenize "x1\t\t\"é\"é!\n= \"y" = tokenize "x1 \"é\"é!\r\n= \"y" := by
  have hclosed : StringsClosed "x1 \"é\"é!" := by
    intro x hx hkind
    rw [show lex "x1 \"é\"é!" = [⟨⟨.ident, "x"⟩, ⟨0, 1⟩⟩, ⟨⟨.int, "1"⟩, ⟨1, 2⟩⟩,
      ⟨⟨.string, "é"⟩, ⟨3, 7⟩⟩, ⟨⟨.illegal, "é"⟩, ⟨7, 9⟩⟩, ⟨⟨.bang, "!"⟩, ⟨9, 10⟩⟩,
      ⟨Token.eof, ⟨10, 10⟩⟩] from by rfl] at hx
    simp only [List.mem_cons, List.not_mem_nil, or_false] at hx
    rcases hx with rfl | rfl | rfl | rfl | rfl | rfl
    · cases hkind
    · cases hkind
    · exact ⟨"x1 ", "é!", rfl, rfl, rfl⟩
    · cases hkind
    · cases hkind
    · cases hkind
  have hblanks : ∀ w : String, w.toList ≠ [] → w.toList.all isBlank = true → IsRun isBlank w :=
    fun w hne hall => ⟨hne, List.all_eq_true.mp hall⟩
  have hrespaced : Relation.ReflTransGen Respaces "x1 \"é\"é!\r\n= \"y"
      "x1\t\t\"é\"é!\n= \"y" := by
    refine .tail (b := "x1 \"é\"é!\n= \"y") (.single ⟨by decide, ?_⟩) ⟨by decide, ?_⟩
    · exact ⟨"x1 \"é\"é!", "\r\n", "\n", "= \"y", rfl, rfl, by decide, by decide,
        hblanks _ (by decide) rfl⟩
    · exact ⟨"x1", " ", "\t\t", "\"é\"é!\n= \"y", rfl, rfl, by decide, by decide,
        hblanks _ (by decide) rfl⟩
  have hblank := hblanks "\r\n" (by decide) rfl
  exact ⟨hclosed, hblank, (lexing_isLocal.1 _ _ _ (by decide) hclosed hblank).2 (by decide),
    hrespaced, lexing_isLocal.2 _ _ hrespaced⟩

end ScriptLang
