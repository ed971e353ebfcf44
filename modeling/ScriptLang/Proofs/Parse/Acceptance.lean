import ScriptLang.Proofs.Parse.Completeness
import ScriptLang.Proofs.Parse.Soundness

/-!
# What parses without errors

A source is parsed without errors if its tokens are those of a program, and if they become those of
a program by closing braces after the last of them: the end of the input closes the blocks that are
still open. There are no other sources without errors.
-/

namespace ScriptLang

open ScriptLang.Parser

/-! ## Parsing comes to an end -/

namespace Parser

/-- Recovering always gives a result, if only that there is none. -/
theorem exists_ok_recovering {α : Type} (p : Parser α) (s : TokenStream) :
    ∃ o, (recovering p s).outcome = .ok o := by
  unfold recovering
  generalize p s = reply
  obtain ⟨outcome | outcome, stream, faults⟩ := reply
  · exact ⟨none, rfl⟩
  · exact ⟨some outcome, rfl⟩

/-- Statements are always read to their end, at a depth that is enough. -/
theorem exists_ok_statements {n : Nat} (enclosure : Enclosure) {s : TokenStream}
    (h : depth s.rest.length ≤ n) :
    ∃ body, ((productions n).statements enclosure s).outcome = .ok body := by
  induction n generalizing s with
  | zero =>
    unfold depth at h
    omega
  | succ n ih =>
    rw [productions_succ]
    by_cases hends : enclosure.endsAt s.peek.kind
    · rw [unfold_statements_of_endsAt _ hends]
      exact ⟨[], rfl⟩
    · rw [unfold_statements_of_not_endsAt _ hends]
      have hne := TokenStream.rest_ne_nil_of_peek (Enclosure.ne_eof_of_not_endsAt hends)
      have hpos := List.length_pos_iff.mpr hne
      -- A statement that fails is skipped, and a token at least is gone either way.
      have hshorter := length_statement_le n s
      have hstream := length_recovering_le (productions n).statement s
      obtain ⟨first, hfirst⟩ := exists_ok_recovering (productions n).statement s
      obtain ⟨others, hothers⟩ := ih (s := (recovering (productions n).statement s).stream) (by
        unfold depth at h ⊢
        omega)
      rw [bind_of_ok hfirst, bind_of_ok hothers]
      exact ⟨first.toList ++ others, rfl⟩

/-- Any tokens have statements, if one leaves out those that cannot be read. -/
theorem exists_statements_eq (tokens : List Lexeme) :
    ∃ body s faults, (productions (depth tokens.length)).statements .file
      (TokenStream.ofLexemes tokens) = ⟨.ok body, s, faults⟩ := by
  have hdepth : depth (TokenStream.ofLexemes tokens).rest.length ≤ depth tokens.length := le_rfl
  obtain ⟨body, hbody⟩ := exists_ok_statements .file hdepth
  exact ⟨body, _, _, by rw [← hbody]⟩

/-- **The end token comes next when a source has been read**, whatever its tokens are and whatever
errors there are in it. -/
theorem kind_peek_program (tokens : List Lexeme) :
    ((productions (depth tokens.length)).program
      (TokenStream.ofLexemes tokens)).stream.peek.kind = .eof := by
  obtain ⟨body, s, faults, h⟩ := exists_statements_eq tokens
  rw [program_of_statements h]
  exact of_decide_eq_true ((derivedAt True _).statements ⟨faults, h, fun _ => trivial⟩).endsAt

/-- What is not read of a source are the last ones of its tokens. -/
theorem rest_program_suffix (tokens : List Lexeme) :
    ((productions (depth tokens.length)).program
      (TokenStream.ofLexemes tokens)).stream.rest <:+ tokens := by
  obtain ⟨body, s, faults, h⟩ := exists_statements_eq tokens
  have hadvance : ∀ s : TokenStream, s.rest <:+ tokens → s.advance.rest <:+ tokens :=
    fun s hs => s.rest.tail_suffix.trans hs
  have hkept := ((parallelAt 0 (depth tokens.length)).statements .file).keeps hadvance
    (TokenStream.ofLexemes tokens) List.suffix_rfl
  rw [h] at hkept
  rw [program_of_statements h]
  exact hkept

end Parser

/-- Tokens of which only the last one is the end token are asked for to the last. -/
theorem pulled_parseTokens (warnings : List (Option LogRecord)) {xs : List Lexeme} {e : Lexeme}
    (hxs : ∀ x ∈ xs, x.kind ≠ .eof) :
    (parseTokens warnings (xs ++ [e])).pulled = (xs ++ [e]).length := by
  have hend := kind_peek_program (xs ++ [e])
  have hsuffix := rest_program_suffix (xs ++ [e])
  show (xs ++ [e]).length - (((productions (depth (xs ++ [e]).length)).program
    (TokenStream.ofLexemes (xs ++ [e]))).stream.rest.length - 2) = _
  generalize ((productions (depth (xs ++ [e]).length)).program
    (TokenStream.ofLexemes (xs ++ [e]))).stream = s at hend hsuffix ⊢
  have hlength : s.rest.length ≤ 1 := by
    rcases List.suffix_concat_iff.mp hsuffix with hrest | ⟨us, hrest, hus⟩
    · rw [hrest]
      exact Nat.zero_le 1
    · cases us with
      | nil =>
        rw [hrest]
        exact le_rfl
      | cons u us =>
        -- Otherwise a token that is not the end token would come next.
        have hpeek : s.peek = u := by rw [TokenStream.peek, hrest]; rfl
        exact absurd (hpeek ▸ hend) (hxs u (hus.subset List.mem_cons_self))
  omega

/-! ## Exactly the language -/

/-- What a stream holds is what it has besides end tokens. -/
theorem TokenStream.Holds.eq_filter {s : TokenStream} {ts : List Token} (h : s.Holds ts) :
    ts = (s.rest.map Lexeme.token).filter fun t => t.kind ≠ .eof := by
  obtain ⟨hne, hmap⟩ := h
  have hall : ts.filter (fun t => decide (t.kind ≠ .eof)) = ts :=
    List.filter_eq_self.mpr fun t ht => decide_eq_true (hne t ht)
  rcases hmap with hmap | hmap
  · rw [hmap, hall]
  · rw [hmap, List.filter_append, hall]
    exact (List.append_nil ts).symm

/-- The stream of a source holds its tokens. -/
theorem holds_sourceTokens (source : String) :
    (TokenStream.ofLexemes (lex source)).Holds (sourceTokens source) :=
  holds_lex (tokenize_eq_append_eof source)

/-- A source that is parsed without errors. -/
theorem yields_of_errors_eq_nil {source : String} (h : (parse source).errors = []) :
    ∃ body s', Yields ((productions (depth (lex source).length)).statements .file)
      (TokenStream.ofLexemes (lex source)) body s' := by
  generalize hs : TokenStream.ofLexemes (lex source) = s
  have hlength : s.rest.length = (lex source).length := by rw [← hs]; rfl
  have hdepth : depth s.rest.length ≤ depth (lex source).length := by rw [hlength]
  obtain ⟨body, hbody⟩ := exists_ok_statements .file hdepth
  generalize hreply : (productions (depth (lex source).length)).statements .file s = reply at hbody
  obtain ⟨outcome, s', faults⟩ := reply
  obtain rfl : outcome = .ok body := hbody
  rw [parse, parseRead, parseTokens, hs, program_of_statements hreply] at h
  obtain rfl : faults = [] := List.map_eq_nil_iff.mp h
  exact ⟨body, s', hreply⟩

/-- **A source is parsed without errors just if its tokens, with closing braces added at the end,
are a program of the language.** -/
theorem parse_errors_eq_nil_iff (source : String) :
    (parse source).errors = [] ↔
      ∃ k, Derives .statements
        (sourceTokens source ++ List.replicate k (Token.ofSymbol .rightBrace)) := by
  constructor
  · intro h
    obtain ⟨body, s', hyields⟩ := yields_of_errors_eq_nil h
    have hclosed : (TokenStream.ofLexemes (lex source)).IsClosed :=
      ⟨⟨_, holds_sourceTokens source⟩,
        (CharStream.ofChars source.toList).wellFormed_of_mem_lexemes⟩
    have hderived := (derivedAt False _).statements hyields.gives
    have hclosed' := hderived.keeps (fun _ hs => hs.advance) hclosed
    obtain ⟨ts, hts, hshows⟩ := hderived.language hclosed
    -- Parsing a file stops at the end of the input, where nothing but closing braces is shown.
    have heof : s'.peek.kind = .eof := of_decide_eq_true hderived.endsAt
    have hstart := hshows [] (hclosed'.holds_nil heof).shows
    rw [List.append_nil] at hstart
    obtain ⟨ts', k, hholds, rfl⟩ := hstart
    have heq : ts' = sourceTokens source := hholds.eq_filter
    rw [heq] at hts
    exact ⟨k, hts⟩
  · rintro ⟨k, hk⟩
    have hshows : (TokenStream.ofLexemes (lex source)).Shows _ :=
      ⟨sourceTokens source, k, holds_sourceTokens source, rfl⟩
    have hread := readsStatements_of_derives hk .file [] rfl
    rw [List.append_nil] at hread
    exact (parseTokens_of_reads hshows hread).1

end ScriptLang
