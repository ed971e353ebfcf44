import ScriptLang.Parse
import ScriptLang.Proofs.Parse.Progress
import ScriptLang.Proofs.Token.Spans

/-!
# Places in a source

Every offset that parsing meets is where some lexeme of the source starts or stops, and so it lies
between two characters. `TokenStream.OnSource` describes the streams that parsing a source goes
through: the next token is one of the source, even if the end token has been read already, and it
starts after all that has been read.
-/

namespace ScriptLang

open String (utf8Len)

/-! ## Offsets between characters -/

/-- An offset between two characters of a source, or at one of its ends. -/
def IsBoundary (source : String) (offset : Nat) : Prop :=
  ∃ before after, source = before ++ after ∧ offset = before.utf8ByteSize

/-- A span that covers some text starts and stops between characters. -/
theorem Span.Covers.isBoundary {source text : String} {span : Span} (h : span.Covers source text) :
    IsBoundary source span.start ∧ IsBoundary source span.stop := by
  obtain ⟨before, after, hsource, hstart, hstop⟩ := h
  refine ⟨⟨before, text ++ after, ?_, hstart⟩, ⟨before ++ text, after, hsource, ?_⟩⟩
  · rw [hsource, String.append_assoc]
  · rw [hstop, hstart, String.utf8ByteSize_append]

/-- A span covers some text of the source if its ends lie between characters. -/
theorem Span.exists_covers {source : String} {start stop : Nat} (hstart : IsBoundary source start)
    (hstop : IsBoundary source stop) (hle : start ≤ stop) :
    ∃ text, Span.Covers source ⟨start, stop⟩ text := by
  obtain ⟨before, after, hsource, hbefore⟩ := hstart
  obtain ⟨before', after', hsource', hbefore'⟩ := hstop
  have hlists : before.toList ++ after.toList = before'.toList ++ after'.toList := by
    rw [← String.toList_append, ← String.toList_append, ← hsource, hsource']
  have hsize := before.utf8Len_toList
  have hsize' := before'.utf8Len_toList
  obtain ⟨cs, hcs, hafter⟩ := exists_eq_append_of_utf8Len_le hlists (by omega)
  refine ⟨String.ofList cs, before, after', ?_, hbefore, ?_⟩
  · rw [← String.toList_inj, String.toList_append, String.toList_append, String.toList_ofList,
      hsource, String.toList_append, hafter, List.append_assoc]
  · rw [hcs, String.utf8Len_append] at hsize'
    rw [String.utf8ByteSize_ofList]
    show stop = start + _
    omega

/-! ## The lexemes of a source -/

/-- A lexeme that stands in a source covers some text of it. -/
theorem Lexeme.StandsIn.exists_covers {source : String} {x : Lexeme} (h : x.StandsIn source) :
    ∃ text, x.span.Covers source text := by
  unfold StandsIn at h
  split at h
  · rcases h with h | ⟨h, -⟩ <;> exact ⟨_, h⟩
  · exact ⟨_, h⟩

/-- Where a lexeme of a source is. Only the end token takes no bytes. -/
structure Lexeme.IsPlaced (source : String) (x : Lexeme) : Prop where
  start : IsBoundary source x.span.start
  stop : IsBoundary source x.span.stop
  le : x.span.start ≤ x.span.stop
  lt : x.kind ≠ .eof → x.span.start < x.span.stop
  stands : x.kind ≠ .eof → x.StandsIn source

section Source

variable {source : String} (hsize : source.utf8ByteSize < offsetLimit)
include hsize

/-- The end token is the last lexeme, and it stands at the end of the source. -/
theorem exists_lex_eq_append_eof :
    ∃ xs, lex source = xs ++ [Lexeme.eof source.utf8ByteSize] ∧ ∀ x ∈ xs, x.kind ≠ .eof := by
  obtain ⟨xs, hxs, hall⟩ := (laidOut_lex hsize).exists_eq_append
  rw [Nat.zero_add, String.utf8Len_toList] at hxs
  exact ⟨xs, hxs, fun x hx => (hall x hx).1⟩

/-- The lexemes of a source are where their spans say. -/
theorem isPlaced_of_mem_lex {x : Lexeme} (hx : x ∈ lex source) : x.IsPlaced source := by
  obtain ⟨xs, hxs, hall⟩ := (laidOut_lex hsize).exists_eq_append
  have hstands := standsIn_of_mem_lex hsize hx
  rw [hxs] at hx
  rcases List.mem_append.mp hx with hx | hx
  · obtain ⟨hkind, hlt⟩ := hall x hx
    obtain ⟨text, hcovers⟩ := (hstands hkind).exists_covers
    obtain ⟨hstart, hstop⟩ := hcovers.isBoundary
    exact ⟨hstart, hstop, hlt.le, fun _ => hlt, hstands⟩
  · obtain rfl := List.mem_singleton.mp hx
    have hend : IsBoundary source (0 + utf8Len source.toList) :=
      ⟨source, "", by rw [String.append_empty], by rw [Nat.zero_add, String.utf8Len_toList]⟩
    exact ⟨hend, hend, le_rfl, fun hne => absurd rfl hne, hstands⟩

/-- No lexeme reaches past the end of the source. -/
theorem stop_le_of_mem_lex {x : Lexeme} (hx : x ∈ lex source) :
    x.span.stop ≤ source.utf8ByteSize := by
  obtain ⟨before, after, hsource, hstop⟩ := (isPlaced_of_mem_lex hsize hx).stop
  rw [hstop, hsource, String.utf8ByteSize_append]
  exact Nat.le_add_right _ _

end Source

/-! ## The streams of a source -/

namespace TokenStream

/-- A stream that parsing a source may come to. -/
structure OnSource (source : String) (s : TokenStream) : Prop where
  /-- The tokens to come are the last ones of the source. -/
  suffix : s.rest <:+ lex source
  /-- They start after what has been read. -/
  last_le : ∀ x ∈ s.rest, s.last ≤ x.span.start
  /-- After the last of them, all of the source has been read. -/
  last_eq : s.rest = [] → s.last = source.utf8ByteSize
  isBoundary : IsBoundary source s.last

variable {source : String} {s : TokenStream}

theorem peek_of_rest_eq {x : Lexeme} {xs : List Lexeme} (h : s.rest = x :: xs) : s.peek = x := by
  rw [peek, h]
  rfl

theorem peek_of_rest_nil (h : s.rest = []) : s.peek = Lexeme.eof s.last := by
  rw [peek, h]
  rfl

/-- The next token starts after what has been read. -/
theorem OnSource.last_le_start (h : s.OnSource source) : s.last ≤ s.peek.span.start := by
  cases hrest : s.rest with
  | nil =>
    rw [peek_of_rest_nil hrest]
    exact le_rfl
  | cons x xs =>
    rw [peek_of_rest_eq hrest]
    exact h.last_le x (by rw [hrest]; exact List.mem_cons_self)

section Source

variable (hsize : source.utf8ByteSize < offsetLimit)
include hsize

theorem onSource_lex : (ofLexemes (lex source)).OnSource source where
  suffix := List.suffix_rfl
  last_le _ _ := Nat.zero_le _
  last_eq hnil := by
    obtain ⟨xs, hxs, -⟩ := exists_lex_eq_append_eof hsize
    have hlex : lex source = [] := hnil
    rw [hxs] at hlex
    exact absurd hlex (List.append_ne_nil_of_right_ne_nil _ (List.cons_ne_nil _ _))
  isBoundary := ⟨"", source, by rw [String.empty_append], rfl⟩

/-- The next token is a token of the source, be it the end token for a second time. -/
theorem OnSource.peek_mem (h : s.OnSource source) : s.peek ∈ lex source := by
  cases hrest : s.rest with
  | nil =>
    obtain ⟨xs, hxs, -⟩ := exists_lex_eq_append_eof hsize
    rw [peek_of_rest_nil hrest, h.last_eq hrest, hxs]
    exact List.mem_append_right _ List.mem_cons_self
  | cons x xs =>
    rw [peek_of_rest_eq hrest]
    exact h.suffix.subset (by rw [hrest]; exact List.mem_cons_self)

theorem OnSource.peek_isPlaced (h : s.OnSource source) : s.peek.IsPlaced source :=
  isPlaced_of_mem_lex hsize (h.peek_mem hsize)

/-- Parsing goes on along the source. -/
theorem OnSource.advance (h : s.OnSource source) : s.advance.OnSource source := by
  have hstop := (h.peek_isPlaced hsize).stop
  cases hrest : s.rest with
  | nil =>
    have hpeek : s.peek.span.stop = s.last := by rw [peek_of_rest_nil hrest]; rfl
    have hnil : s.advance.rest = [] := by rw [TokenStream.advance, hrest]; rfl
    refine ⟨?_, ?_, fun _ => hpeek.trans (h.last_eq hrest), hstop⟩
    · rw [hnil]
      exact List.nil_suffix
    · rw [hnil]
      exact fun x hx => absurd hx List.not_mem_nil
  | cons x xs =>
    have hadvance : s.advance = ⟨x.span.stop, xs⟩ := by
      rw [TokenStream.advance, peek_of_rest_eq hrest, hrest]
      rfl
    have hsuffix := h.suffix
    rw [hrest] at hsuffix
    have hpairwise := (laidOut_lex hsize).pairwise.sublist hsuffix.sublist
    rw [peek_of_rest_eq hrest] at hstop
    rw [hadvance]
    refine ⟨(List.suffix_cons x xs).trans hsuffix, (List.pairwise_cons.mp hpairwise).1, ?_, hstop⟩
    -- If nothing is left the last token has been the end token.
    rintro rfl
    obtain ⟨ys, hys⟩ := hsuffix
    obtain ⟨zs, hzs, -⟩ := exists_lex_eq_append_eof hsize
    have hlast := (List.append_inj' (hys.trans hzs) rfl).2
    rw [List.singleton_inj.mp hlast]
    rfl

/-- A token comes after the one before it. -/
theorem OnSource.stop_le_start (h : s.OnSource source) :
    s.peek.span.stop ≤ s.advance.peek.span.start :=
  (h.advance hsize).last_le_start

/-- No token starts before the one before it. -/
theorem OnSource.start_le_start (h : s.OnSource source) :
    s.peek.span.start ≤ s.advance.peek.span.start :=
  (h.peek_isPlaced hsize).le.trans (h.stop_le_start hsize)

end Source

end TokenStream
end ScriptLang
