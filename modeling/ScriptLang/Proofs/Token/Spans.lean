import ScriptLang.Proofs.Token.Lexer
import Mathlib.Data.String.Basic

/-!
# Where the lexemes stand

A stream that reads a text stands at the byte offset of what it has not read yet, and so do the
spans of the lexemes: cut at them, a text falls into the lexemes and the blanks between them. This
holds as long as the text is short enough for its offsets to be counted.

`LaidOut n cs xs` says that characters which start at offset `n` consist of the lexemes `xs` with
blanks before each. That the lexer lays out what it reads is proved lexeme by lexeme, and what is to
be said about spans follows from the layout alone.
-/

namespace ScriptLang

open String (utf8Len)

/-! ## Streams at an offset -/

namespace CharStream

/-- What is left to read are these characters, the first one at the given offset, and the offsets
up to the end are all in range. -/
structure StandsAt (s : CharStream) (n : Nat) (cs : List Char) : Prop where
  rest_eq : s.rest = Glyph.locate n cs
  last_eq : cs = [] → s.last = n
  inRange : n + utf8Len cs < offsetLimit

/-- A text that is short enough stands at offset 0. -/
theorem standsAt_ofChars {cs : List Char} (h : utf8Len cs < offsetLimit) :
    (ofChars cs).StandsAt 0 cs :=
  ⟨rfl, fun _ => rfl, by omega⟩

namespace StandsAt

variable {s : CharStream} {n : Nat} {c : Char} {cs : List Char}

theorem offset_eq (h : s.StandsAt n cs) : s.offset = n := by
  unfold offset
  rw [h.rest_eq]
  cases cs with
  | nil => exact h.last_eq rfl
  | cons c cs => rfl

theorem chars_eq (h : s.StandsAt n cs) : s.chars = cs := by
  rw [chars, h.rest_eq, map_char_locate]

theorem takeWhile_eq (p : Char → Bool) (h : s.StandsAt n cs) :
    s.takeWhile p = String.ofList (cs.takeWhile p) := by
  rw [CharStream.takeWhile_eq, h.chars_eq]

/-- The offset after a character is counted without overflow. -/
theorem stop_eq (h : s.StandsAt n (c :: cs)) : Glyph.stop ⟨n, c⟩ = n + c.utf8Size := by
  have hrange : n + (utf8Len cs + c.utf8Size) < offsetLimit := h.inRange
  have hstop : n + c.utf8Size < offsetLimit := by omega
  exact Nat.mod_eq_of_lt hstop

/-- The next character, and where the stream stands after it. -/
theorem cons (h : s.StandsAt n (c :: cs)) :
    ∃ rest, s.rest = ⟨n, c⟩ :: rest ∧
      StandsAt ⟨Glyph.stop ⟨n, c⟩, rest⟩ (n + c.utf8Size) cs := by
  have hrange : n + (utf8Len cs + c.utf8Size) < offsetLimit := h.inRange
  refine ⟨_, h.rest_eq, ?_, fun _ => h.stop_eq, by omega⟩
  rw [h.stop_eq]

/-- No character of the stream reaches past its end. -/
theorem offset_add_le (h : s.StandsAt n cs) :
    ∀ g ∈ s.rest, g.offset + g.char.utf8Size ≤ n + utf8Len cs := by
  induction cs generalizing s n with
  | nil =>
    rw [h.rest_eq]
    intro g hg
    cases hg
  | cons c cs ih =>
    obtain ⟨rest, hrest, hafter⟩ := h.cons
    rw [hrest, String.utf8Len_cons]
    refine List.forall_mem_cons.mpr ⟨?_, fun g hg => ?_⟩
    · show n + c.utf8Size ≤ _
      omega
    · have hle := ih hafter g hg
      omega

/-- At the end of the input there is nothing to drop. -/
theorem dropWhile_nil (p : Char → Bool) (h : s.StandsAt n []) : s.dropWhile p = s := by
  obtain ⟨last, rest⟩ := s
  obtain rfl : rest = [] := h.rest_eq
  rfl

/-- After a stretch of characters. -/
theorem dropWhile (p : Char → Bool) (h : s.StandsAt n cs) :
    (s.dropWhile p).StandsAt (n + utf8Len (cs.takeWhile p)) (cs.dropWhile p) := by
  induction cs generalizing s n with
  | nil =>
    rw [h.dropWhile_nil]
    exact h
  | cons c cs ih =>
    obtain ⟨rest, hrest, hafter⟩ := h.cons
    by_cases hc : p c
    · obtain ⟨last, _⟩ := s
      subst hrest
      have hdrop := ih hafter
      rw [dropWhile_cons_of_pos hc, List.takeWhile_cons_of_pos hc, List.dropWhile_cons_of_pos hc,
        String.utf8Len_cons, Nat.add_comm (utf8Len _), ← Nat.add_assoc]
      exact hdrop
    · rw [dropWhile_eq_self hrest (Bool.eq_false_iff.mpr hc), List.takeWhile_cons_of_neg hc,
        List.dropWhile_cons_of_neg hc]
      exact h

/-- After a character that is there to be skipped. -/
theorem skip (h : s.StandsAt n (c :: cs)) : (s.skip c).StandsAt (n + c.utf8Size) cs := by
  obtain ⟨rest, hrest, hafter⟩ := h.cons
  unfold CharStream.skip
  rw [hrest]
  show StandsAt (if c = c then _ else _) _ _
  rw [if_pos rfl]
  exact hafter

/-- At the end of the input there is nothing to skip. -/
theorem skip_nil (h : s.StandsAt n []) (c : Char) : s.skip c = s := by
  obtain ⟨last, rest⟩ := s
  obtain rfl : rest = [] := h.rest_eq
  rfl

end StandsAt
end CharStream

/-! ## One token -/

/-- The characters that a token is read from, if `after` are those after it. A string has quotes
around its text, but for the one that is missing if the string runs to the end of the input. -/
inductive Token.IsReadFrom (t : Token) : List Char → List Char → Prop where
  | plain {after : List Char} : t.kind ≠ .string → IsReadFrom t t.literal.toList after
  | quoted {after : List Char} :
      t.kind = .string → IsReadFrom t ('"' :: (t.literal.toList ++ ['"'])) after
  | unclosed : t.kind = .string → IsReadFrom t ('"' :: t.literal.toList) []

/-- No word is a string. -/
theorem TokenKind.ofWord_ne_string (word : String) : TokenKind.ofWord word ≠ .string := by
  unfold TokenKind.ofWord
  split <;> decide

namespace CharStream

/-- A token has been read off a stream that stood at offset `n` before the characters `cs`, and
`s` is the stream after it. -/
def Takes (n : Nat) (cs : List Char) (t : Token) (s : CharStream) : Prop :=
  ∃ text after, cs = text ++ after ∧ text ≠ [] ∧ t.IsReadFrom text after ∧
    s.StandsAt (n + utf8Len text) after

variable {s : CharStream} {n : Nat} {c : Char} {cs : List Char}

theorem takes_char {t : Token} (hkind : t.kind ≠ .string) (ht : t.literal.toList = [c])
    (h : s.StandsAt (n + c.utf8Size) cs) : Takes n (c :: cs) t s := by
  refine ⟨[c], cs, rfl, List.cons_ne_nil _ _, ht ▸ .plain hkind, ?_⟩
  rw [String.utf8Len_cons, String.utf8Len_nil, Nat.zero_add]
  exact h

/-- A symbol is read with the equals sign that joins it. -/
theorem takes_readSymbol {kind : TokenKind} (hc : TokenKind.ofSymbol? c = some kind)
    (h : s.StandsAt (n + c.utf8Size) cs) :
    Takes n (c :: cs) (readSymbol kind s).1 (readSymbol kind s).2 := by
  obtain ⟨hkind, hname⟩ := spelled_of_ofSymbol? hc
  have halone : Takes n (c :: cs) (Token.ofSymbol kind) s := takes_char hkind hname h
  unfold readSymbol
  split
  · next joined g rest hjoin hrest =>
    split
    · next hequals =>
      obtain ⟨hkind', hname'⟩ := spelled_of_withEquals? hc hjoin
      cases cs with
      | nil =>
        rw [h.rest_eq] at hrest
        cases hrest
      | cons c' cs =>
        obtain ⟨rest', hrest', hafter⟩ := h.cons
        obtain ⟨rfl, rfl⟩ := List.cons_eq_cons.mp (hrest.symm.trans hrest')
        obtain rfl : c' = '=' := hequals
        refine ⟨[c, '='], cs, rfl, List.cons_ne_nil _ _, ?_, ?_⟩
        · rw [← hname']
          exact .plain hkind'
        · have hsize : utf8Len [c, '='] = c.utf8Size + '='.utf8Size := by
            rw [String.utf8Len_cons, String.utf8Len_cons, String.utf8Len_nil]
            omega
          rw [hsize, ← Nat.add_assoc]
          exact hafter
    · exact halone
  · exact halone

/-- A string is read with its opening quote, and with the closing one if there is one. -/
theorem takes_readString (h : s.StandsAt (n + '"'.utf8Size) cs) :
    Takes n ('"' :: cs) (readString s).1 (readString s).2 := by
  generalize hbody : cs.takeWhile isStringChar = body
  have hread : (readString s).1 = ⟨.string, String.ofList body⟩ := by
    rw [readString, h.takeWhile_eq, hbody]
  have hliteral : (readString s).1.literal.toList = body := by rw [hread, String.toList_ofList]
  have hkind : (readString s).1.kind = .string := by rw [hread]
  have hsize : utf8Len ('"' :: body) = '"'.utf8Size + utf8Len body := by
    rw [String.utf8Len_cons, Nat.add_comm]
  have hdrop := h.dropWhile isStringChar
  have hsplit : cs.takeWhile isStringChar ++ cs.dropWhile isStringChar = cs :=
    List.takeWhile_append_dropWhile
  rw [hbody, Nat.add_assoc, ← hsize] at hdrop
  rw [hbody] at hsplit
  show Takes _ _ _ ((s.dropWhile isStringChar).skip '"')
  cases hafter : cs.dropWhile isStringChar with
  | nil =>
    rw [hafter] at hdrop hsplit
    rw [hdrop.skip_nil]
    refine ⟨'"' :: body, [], by rw [← hsplit]; rfl, List.cons_ne_nil _ _, ?_, hdrop⟩
    rw [← hliteral]
    exact .unclosed hkind
  | cons d after =>
    -- The stretch stops at a quote.
    have hquote : d = '"' := by
      have hhead := List.head?_dropWhile_not isStringChar cs
      rw [hafter] at hhead
      simpa [isStringChar] using hhead
    subst hquote
    rw [hafter] at hdrop hsplit
    refine ⟨'"' :: (body ++ ['"']), after, by rw [← hsplit]; simp, List.cons_ne_nil _ _, ?_, ?_⟩
    · rw [← hliteral]
      exact .quoted hkind
    · rw [← List.cons_append, String.utf8Len_append, ← Nat.add_assoc]
      exact hdrop.skip

/-- A token of as many characters as there are of a class. -/
theorem takes_run {p : Char → Bool} {t : Token} (hkind : t.kind ≠ .string)
    (ht : t.literal = s.takeWhile p) (hc : p c) (h : s.StandsAt n (c :: cs)) :
    Takes n (c :: cs) t (s.dropWhile p) := by
  have hliteral : t.literal.toList = (c :: cs).takeWhile p := by
    rw [ht, h.takeWhile_eq, String.toList_ofList]
  refine ⟨t.literal.toList, (c :: cs).dropWhile p, ?_, ?_, .plain hkind, ?_⟩
  · rw [hliteral, List.takeWhile_append_dropWhile]
  · rw [hliteral, List.takeWhile_cons_of_pos hc]
    exact List.cons_ne_nil _ _
  · rw [hliteral]
    exact h.dropWhile p

/-- The next token is read from the characters that come next. -/
theorem takes_readToken (h : s.StandsAt n (c :: cs)) :
    Takes n (c :: cs) s.readToken.1 s.readToken.2 := by
  obtain ⟨rest, hrest, hafter⟩ := h.cons
  rw [readToken, hrest]
  dsimp only
  -- The cases are a symbol, a string, a word, a numeral and anything else.
  split
  · next kind hkind => exact takes_readSymbol hkind hafter
  · split
    · next hquote =>
      subst hquote
      exact takes_readString hafter
    · split
      · next hword => exact takes_run (TokenKind.ofWord_ne_string _) rfl hword h
      · split
        · next hdigit => exact takes_run (by simp) rfl hdigit h
        · exact takes_char (by simp) (String.toList_singleton c) hafter

/-! ## All lexemes -/

/-- Blanks at the end of the input are all skipped. -/
theorem StandsAt.next_of_blank (h : s.StandsAt n cs) (hcs : ∀ c ∈ cs, isBlank c) :
    s.next = (Lexeme.eof (n + utf8Len cs), s.dropWhile isBlank) ∧
      (s.dropWhile isBlank).StandsAt (n + utf8Len cs) [] := by
  have hdrop := h.dropWhile isBlank
  rw [List.takeWhile_eq_self_iff.mpr hcs, List.dropWhile_eq_nil_iff.mpr hcs] at hdrop
  refine ⟨?_, hdrop⟩
  have hread : (s.dropWhile isBlank).readToken = (Token.eof, s.dropWhile isBlank) := by
    unfold readToken
    rw [hdrop.rest_eq]
    rfl
  rw [next_eq, hread, hdrop.offset_eq]
  rfl

/-- The end of the input is found again and again. -/
theorem StandsAt.take_nil (h : s.StandsAt n []) (k : Nat) :
    s.take k = (List.replicate k (Lexeme.eof n), s) := by
  induction k with
  | zero => rfl
  | succ k ih =>
    have hnext : s.next = (Lexeme.eof n, s) := by
      rw [(h.next_of_blank (by simp)).1, h.dropWhile_nil]
      rfl
    unfold take
    rw [hnext]
    dsimp only
    rw [ih]
    rfl

end CharStream

/-- Characters that start at offset `n` consist of lexemes, each after any number of blanks. The
last one is the end of the input. -/
inductive LaidOut : Nat → List Char → List Lexeme → Prop where
  | eof {n : Nat} {blanks : List Char} :
      (∀ c ∈ blanks, isBlank c) → LaidOut n blanks [Lexeme.eof (n + utf8Len blanks)]
  | token {n start stop : Nat} {t : Token} {blanks text after : List Char} {xs : List Lexeme} :
      (∀ c ∈ blanks, isBlank c) → t.kind ≠ .eof → text ≠ [] → t.IsReadFrom text after →
      start = n + utf8Len blanks → stop = start + utf8Len text →
      LaidOut stop after xs → LaidOut n (blanks ++ (text ++ after)) (⟨t, start, stop⟩ :: xs)

/-- **The lexer lays out what it reads**, and it stops at the end of the input. -/
theorem CharStream.StandsAt.laidOut {s : CharStream} {n : Nat} {cs : List Char}
    (h : s.StandsAt n cs) :
    LaidOut n cs s.lexemes.1 ∧ s.lexemes.2.StandsAt (n + utf8Len cs) [] := by
  induction s using CharStream.lexemes_induction generalizing n cs with
  | eof s hend =>
    have hdrop := h.dropWhile isBlank
    have hnil : cs.dropWhile isBlank = [] := by
      rw [← hdrop.chars_eq, CharStream.chars, (s.next_kind_eq_eof_iff).mp hend]
      rfl
    have hblank := List.dropWhile_eq_nil_iff.mp hnil
    obtain ⟨hnext, hstands⟩ := h.next_of_blank hblank
    rw [CharStream.lexemes_of_eof hend, hnext]
    exact ⟨.eof hblank, hstands⟩
  | step s hne ih =>
    have hdrop := h.dropWhile isBlank
    have hsplit : cs.takeWhile isBlank ++ cs.dropWhile isBlank = cs :=
      List.takeWhile_append_dropWhile
    cases hcs : cs.dropWhile isBlank with
    | nil =>
      rw [hcs] at hdrop
      exact absurd ((s.next_kind_eq_eof_iff).mpr hdrop.rest_eq) hne
    | cons c rest =>
      rw [hcs] at hdrop hsplit
      obtain ⟨text, after, htext, hnonempty, hread, hafter⟩ := CharStream.takes_readToken hdrop
      obtain ⟨hlaid, hstands⟩ := ih hafter
      rw [htext] at hsplit
      have hblanks : ∀ c ∈ cs.takeWhile isBlank, isBlank c := fun _ => List.mem_takeWhile_imp
      have hnext := congrArg Prod.fst s.next_eq
      rw [hdrop.offset_eq, hafter.offset_eq] at hnext
      have hsize : n + utf8Len cs =
          n + utf8Len (cs.takeWhile isBlank) + utf8Len text + utf8Len after := by
        rw [← congrArg utf8Len hsplit, String.utf8Len_append, String.utf8Len_append]
        omega
      rw [CharStream.lexemes_of_ne_eof hne, hsize]
      refine ⟨?_, hstands⟩
      rw [← hsplit, hnext]
      exact .token hblanks hne hnonempty hread rfl rfl hlaid

/-! ## What the layout says about spans -/

/-- Of two ways to cut a text, the one that cuts off less in front leaves the difference. -/
theorem exists_eq_append_of_utf8Len_le {as bs cs ds : List Char} (h : as ++ bs = cs ++ ds)
    (hle : utf8Len as ≤ utf8Len cs) : ∃ es, cs = as ++ es ∧ bs = es ++ ds := by
  rcases List.append_eq_append_iff.mp h with ⟨es, hcs, hbs⟩ | ⟨es, has, hds⟩
  · exact ⟨es, hcs, hbs⟩
  · rw [has, String.utf8Len_append] at hle
    obtain rfl : es = [] := String.utf8Len_eq_zero.mp (by omega)
    rw [List.append_nil] at has
    exact ⟨[], by rw [has, List.append_nil], hds.symm⟩

/-- Two ways to cut a text after the same number of bytes are the same. -/
theorem append_inj_of_utf8Len_eq {as bs cs ds : List Char} (h : as ++ bs = cs ++ ds)
    (hlen : utf8Len as = utf8Len cs) : as = cs ∧ bs = ds := by
  obtain ⟨es, hcs, hbs⟩ := exists_eq_append_of_utf8Len_le h hlen.le
  rw [hcs, String.utf8Len_append] at hlen
  obtain rfl : es = [] := String.utf8Len_eq_zero.mp (by omega)
  exact ⟨by rw [hcs, List.append_nil], hbs⟩

/-- What a source has between the two ends of a span, which are both between characters. -/
def Span.Covers (source : String) (span : Span) (text : String) : Prop :=
  ∃ before after, source = before ++ text ++ after ∧
    span.start = before.utf8ByteSize ∧ span.stop = span.start + text.utf8ByteSize

/-- A lexeme stands in a source where its span says. The span of a string goes from its opening
quote to the closing one or, if that is missing, to the end of the source. -/
def Lexeme.StandsIn (source : String) (x : Lexeme) : Prop :=
  if x.kind = .string then
    x.span.Covers source ("\"" ++ x.token.literal ++ "\"") ∨
      x.span.Covers source ("\"" ++ x.token.literal) ∧ x.span.stop = source.utf8ByteSize
  else x.span.Covers source x.token.literal

/-- The stretches between lexemes: those before each, from the offset `start` on. -/
def gaps (start : Nat) : List Lexeme → List Span
  | [] => []
  | x :: xs => ⟨start, x.span.start⟩ :: gaps x.span.stop xs

/-- A span that covers the middle one of three parts. -/
theorem Span.covers_of_toList {source : String} {start : Nat} {before text after : List Char}
    (hsource : source.toList = before ++ (text ++ after)) (hstart : start = utf8Len before) :
    Span.Covers source ⟨start, start + utf8Len text⟩ (String.ofList text) := by
  refine ⟨String.ofList before, String.ofList after, ?_, ?_, ?_⟩
  · rw [← String.ofList_append, ← String.ofList_append, List.append_assoc, ← hsource,
      String.ofList_toList]
  · rw [String.utf8ByteSize_ofList, hstart]
  · rw [String.utf8ByteSize_ofList]

/-- A lexeme stands where the characters do that its token is read from. -/
theorem Lexeme.standsIn_of_isReadFrom {source : String} {x : Lexeme} {text after : List Char}
    (hspan : x.span.Covers source (String.ofList text)) (hread : x.token.IsReadFrom text after)
    (hend : after = [] → x.span.stop = source.utf8ByteSize) : x.StandsIn source := by
  unfold Lexeme.StandsIn Lexeme.kind
  cases hread with
  | plain hkind =>
    rw [String.ofList_toList] at hspan
    rw [if_neg hkind]
    exact hspan
  | quoted hkind =>
    have htext : String.ofList ('"' :: (x.token.literal.toList ++ ['"'])) =
        "\"" ++ x.token.literal ++ "\"" := by
      rw [← String.toList_inj]
      simp
    rw [if_pos hkind]
    rw [htext] at hspan
    exact Or.inl hspan
  | unclosed hkind =>
    have htext : String.ofList ('"' :: x.token.literal.toList) = "\"" ++ x.token.literal := by
      rw [← String.toList_inj]
      simp
    rw [if_pos hkind]
    rw [htext] at hspan
    exact Or.inr ⟨hspan, hend rfl⟩

namespace LaidOut

variable {source : String} {n : Nat} {before cs : List Char} {xs : List Lexeme}

/-- The last lexeme is the end of the input, and no other one is. The others take some bytes. -/
theorem exists_eq_append (h : LaidOut n cs xs) :
    ∃ ys, xs = ys ++ [Lexeme.eof (n + utf8Len cs)] ∧
      ∀ y ∈ ys, y.kind ≠ .eof ∧ y.span.start < y.span.stop := by
  induction h with
  | eof hblanks => exact ⟨[], rfl, by simp⟩
  | @token n start stop t blanks text after xs hblanks hkind htext hread hstart hstop hafter ih =>
    obtain ⟨ys, hys, hall⟩ := ih
    have hsize : n + utf8Len (blanks ++ (text ++ after)) = stop + utf8Len after := by
      rw [String.utf8Len_append, String.utf8Len_append]
      omega
    have hpos : utf8Len text ≠ 0 := fun hzero => htext (String.utf8Len_eq_zero.mp hzero)
    refine ⟨⟨t, start, stop⟩ :: ys, by rw [hys, hsize]; rfl, ?_⟩
    refine List.forall_mem_cons.mpr ⟨⟨hkind, ?_⟩, hall⟩
    show start < stop
    omega

/-- No lexeme starts before the offset at which the characters do. -/
theorem le_start (h : LaidOut n cs xs) : ∀ x ∈ xs, n ≤ x.span.start := by
  induction h with
  | @eof n blanks hblanks =>
    intro x hx
    rw [List.mem_singleton.mp hx]
    exact Nat.le_add_right n _
  | @token n start stop t blanks text after xs hblanks hkind htext hread hstart hstop hafter ih =>
    refine List.forall_mem_cons.mpr ⟨?_, fun x hx => ?_⟩
    · show n ≤ start
      omega
    · have hle := ih x hx
      omega

/-- The lexemes stand one after the other. -/
theorem pairwise (h : LaidOut n cs xs) : xs.Pairwise fun x y => x.span.stop ≤ y.span.start := by
  induction h with
  | eof hblanks => exact List.pairwise_singleton _ _
  | token hblanks hkind htext hread hstart hstop hafter ih =>
    exact List.pairwise_cons.mpr ⟨hafter.le_start, ih⟩

/-- Cut at the spans, the source falls into the lexemes and the blanks between them. -/
theorem standsIn_and_blank (h : LaidOut n cs xs) (hsource : source.toList = before ++ cs)
    (hn : n = utf8Len before) :
    (∀ x ∈ xs, x.kind ≠ .eof → x.StandsIn source) ∧
      ∀ gap ∈ gaps n xs, ∃ blanks, gap.Covers source blanks ∧ ∀ c ∈ blanks.toList, isBlank c := by
  induction h generalizing before with
  | @eof n blanks hblanks =>
    refine ⟨fun x hx hne => ?_, fun gap hgap => ?_⟩
    · rw [List.mem_singleton.mp hx] at hne
      exact absurd rfl hne
    · rw [List.mem_singleton.mp hgap]
      rw [← List.append_nil blanks] at hsource
      exact ⟨_, Span.covers_of_toList hsource hn, by rwa [String.toList_ofList]⟩
  | @token n start stop t blanks text after xs hblanks hkind htext hread hstart hstop hafter ih =>
    have hblank := Span.covers_of_toList hsource hn
    have hsource' : source.toList = (before ++ blanks) ++ (text ++ after) := by
      rw [hsource, List.append_assoc]
    have hstart' : start = utf8Len (before ++ blanks) := by
      rw [String.utf8Len_append]
      omega
    have htoken := Span.covers_of_toList hsource' hstart'
    have hsource'' : source.toList = (before ++ blanks ++ text) ++ after := by
      rw [hsource', ← List.append_assoc]
    have hstop' : stop = utf8Len (before ++ blanks ++ text) := by
      rw [String.utf8Len_append]
      omega
    obtain ⟨hlexemes, hgaps⟩ := ih hsource'' hstop'
    rw [← hstart] at hblank
    rw [← hstop] at htoken
    refine ⟨List.forall_mem_cons.mpr ⟨fun _ => ?_, hlexemes⟩, ?_⟩
    · exact Lexeme.standsIn_of_isReadFrom htoken hread fun hnil => by
        rw [hstop', ← String.utf8Len_toList, hsource'', hnil, List.append_nil]
    · refine List.forall_mem_cons.mpr ⟨⟨_, hblank, ?_⟩, hgaps⟩
      rwa [String.toList_ofList]

end LaidOut

/-! ## Sources -/

/-- The lexer lays out a source, if its offsets can be counted. -/
theorem laidOut_lex {source : String} (hsize : source.utf8ByteSize < offsetLimit) :
    LaidOut 0 source.toList (lex source) := by
  have hlen := source.utf8Len_toList
  exact (CharStream.standsAt_ofChars (by omega)).laidOut.1

/-- The lexemes of a source stand in it. -/
theorem standsIn_of_mem_lex {source : String} (hsize : source.utf8ByteSize < offsetLimit)
    {x : Lexeme} (hx : x ∈ lex source) (hne : x.kind ≠ .eof) : x.StandsIn source := by
  have hwhole : source.toList = [] ++ source.toList := rfl
  exact ((laidOut_lex hsize).standsIn_and_blank hwhole rfl).1 x hx hne

/-- The lexemes of a source are all that there is in it, and they are where their spans say. -/
structure LexesExactly (source : String) : Prop where
  /-- The end token is the last lexeme and the only one of its kind, and it stands at the end of the
  source. The others have some bytes of the source for themselves, and are read from these. -/
  standing : ∃ xs, lex source = xs ++ [Lexeme.eof source.utf8ByteSize] ∧
    ∀ x ∈ xs, x.kind ≠ .eof ∧ x.span.start < x.span.stop ∧ x.StandsIn source
  /-- The lexemes come in the order of the source and do not overlap. -/
  ordered : (lex source).Pairwise fun x y => x.span.stop ≤ y.span.start
  /-- There are but blanks before the first lexeme, between lexemes and after the last one. -/
  separated : ∀ gap ∈ gaps 0 (lex source), ∃ blanks, gap.Covers source blanks ∧
    ∀ c ∈ blanks.toList, c = ' ' ∨ c = '\t' ∨ c = '\n' ∨ c = '\r'
  /-- No offset is counted that is out of range. -/
  inRange : ∀ g ∈ (CharStream.ofChars source.toList).rest,
    g.offset + g.char.utf8Size < offsetLimit
  /-- However often a lexeme is asked for after the last one, it is the end token again. -/
  ended : ∀ k, ((CharStream.ofChars source.toList).lexemes.2.take k).1 =
    List.replicate k (Lexeme.eof source.utf8ByteSize)

/-- **Lexing is lossless and spans are exact**, unless a source is so long that its offsets cannot
be counted. -/
theorem lexesExactly_of_size_lt (source : String) (h : source.utf8ByteSize < offsetLimit) :
    LexesExactly source := by
  have hsize : 0 + utf8Len source.toList = source.utf8ByteSize := by
    rw [Nat.zero_add, String.utf8Len_toList]
  have hstands : (CharStream.ofChars source.toList).StandsAt 0 source.toList :=
    CharStream.standsAt_ofChars (by omega)
  obtain ⟨hlaid, hend⟩ := hstands.laidOut
  obtain ⟨xs, hxs, hall⟩ := hlaid.exists_eq_append
  have hwhole : source.toList = [] ++ source.toList := rfl
  obtain ⟨hlexemes, hgaps⟩ := hlaid.standsIn_and_blank hwhole rfl
  rw [hsize] at hxs hend
  refine ⟨⟨xs, hxs, fun x hx => ?_⟩, hlaid.pairwise, fun gap hgap => ?_, fun g hg => ?_, ?_⟩
  · obtain ⟨hkind, hspan⟩ := hall x hx
    have hmem : x ∈ lex source := by
      rw [lex, hxs]
      exact List.mem_append_left _ hx
    exact ⟨hkind, hspan, hlexemes x hmem hkind⟩
  · obtain ⟨blanks, hcovers, hblanks⟩ := hgaps gap hgap
    refine ⟨blanks, hcovers, fun c hc => ?_⟩
    simpa [isBlank, or_assoc] using hblanks c hc
  · have hle := hstands.offset_add_le g hg
    omega
  · intro k
    rw [hend.take_nil k]

/-- Characters of two bytes in a string and before the end, an operator of two characters, an
illegal character and a string that is left open. -/
theorem lexesExactly_openString :
    let source := "\"é\"!= é \"ß "
    source.utf8ByteSize < offsetLimit ∧ LexesExactly source ∧
      lex source =
        [⟨⟨.string, "é"⟩, ⟨0, 4⟩⟩, ⟨⟨.notEqual, "!="⟩, ⟨4, 6⟩⟩, ⟨⟨.illegal, "é"⟩, ⟨7, 9⟩⟩,
          ⟨⟨.string, "ß "⟩, ⟨10, 14⟩⟩, ⟨Token.eof, ⟨14, 14⟩⟩] :=
  ⟨by decide, lexesExactly_of_size_lt _ (by decide), by rfl⟩

end ScriptLang
