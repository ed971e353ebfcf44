import ScriptLang.Proofs.Parse.Acceptance
import ScriptLang.Proofs.Parse.Balance
import ScriptLang.Proofs.Parse.Conservation
import ScriptLang.Proofs.Parse.Locality
import ScriptLang.Proofs.Parse.Shift
import ScriptLang.Proofs.Token.Locality

/-!
# Sources one after the other

A source that is parsed without errors, that ends with a semicolon and that closes the braces it
opens can be put before any other source. The statements of the first one are then followed by those
of the second one, and the errors are those of the second one.

`Seam` describes what is left of the first source between two of its statements. A statement that is
read there does not reach the end of the input: up to the semicolon that may end it, it would have
to end with the semicolon that the source ends with, or with a brace that the source does not have.
So it is read in the same way whatever comes after the first source.
-/

namespace ScriptLang

open ScriptLang.Parser

/-- A clause is whole without the semicolon that may end it. -/
theorem IsClause.whole {ts : List Token} (h : IsClause ts) : Whole ts := by
  cases h with
  | binding hword hname hassign hvalue =>
    exact ((hvalue.whole_expression.cons hassign rfl).cons hname rfl).cons hword rfl
  | returning hword hvalue => exact hvalue.whole_expression.cons hword rfl
  | evaluation hvalue => exact hvalue.whole_expression

namespace Parser

variable {α β : Type}

/-! ## Seams -/

/-- What stands before the end token is held. -/
theorem holds_of_isClosed {last : Nat} {xs : List Lexeme} {e : Lexeme}
    (h : TokenStream.IsClosed ⟨last, xs ++ [e]⟩) (he : e.token = Token.eof) :
    TokenStream.Holds ⟨last, xs ++ [e]⟩ (xs.map Lexeme.token) := by
  obtain ⟨ts, hne, hts⟩ := h.1
  have hmap : (xs ++ [e]).map Lexeme.token = xs.map Lexeme.token ++ [Token.eof] := by
    rw [List.map_append, List.map_singleton, he]
  rcases hts with hts | hts
  · -- The end token is not one of those held.
    have hmem : Token.eof ∈ ts := by
      rw [← hts, hmap]
      exact List.mem_append_right _ List.mem_cons_self
    exact absurd rfl (hne _ hmem)
  · have heq : ts = xs.map Lexeme.token := List.append_cancel_right (hts.symm.trans hmap)
    exact ⟨heq ▸ hne, Or.inr hmap⟩

/-- Tokens `xs` before the end token `e` that end with a semicolon, if there are any, and that close
the braces they open. They may close more than that. -/
structure Seam (last : Nat) (xs : List Lexeme) (e : Lexeme) : Prop where
  closed : TokenStream.IsClosed ⟨last, xs ++ [e]⟩
  eof : e.token = Token.eof
  semicolon : ∀ us x, xs = us ++ [x] → x.kind = .semicolon
  height : braceHeight (xs.map Lexeme.token) ≤ 0

namespace Seam

variable {last : Nat} {xs : List Lexeme} {e : Lexeme}

/-- What is left further on, if it opens no more braces than it closes. -/
theorem of_suffix (h : Seam last xs e) {last' : Nat} {xs' : List Lexeme} (hsuffix : xs' <:+ xs)
    (hclosed : TokenStream.IsClosed ⟨last', xs' ++ [e]⟩)
    (hheight : braceHeight (xs'.map Lexeme.token) ≤ 0) : Seam last' xs' e where
  closed := hclosed
  eof := h.eof
  semicolon us x hx := by
    obtain ⟨vs, hvs⟩ := hsuffix
    refine h.semicolon (vs ++ us) x ?_
    rw [← hvs, hx, List.append_assoc]
  height := hheight

/-- What is shown are the tokens and perhaps some closing braces. -/
theorem exists_of_shows (h : Seam last xs e) {ts : List Token}
    (hts : TokenStream.Shows ⟨last, xs ++ [e]⟩ ts) :
    ∃ k, ts = xs.map Lexeme.token ++ List.replicate k (Token.ofSymbol .rightBrace) := by
  obtain ⟨us, k, hus, rfl⟩ := hts
  exact ⟨k, by rw [hus.eq_filter, (holds_of_isClosed h.closed h.eof).eq_filter]⟩

/-- The semicolon that all ends with is not read as a part of a phrase that is whole. -/
theorem not_shows (h : Seam last xs e) {ts : List Token} (hts : Whole ts) :
    ¬TokenStream.Shows ⟨last, xs ++ [e]⟩ ts := by
  intro hshows
  obtain ⟨k, heq⟩ := h.exists_of_shows hshows
  -- No brace has been added, since none was missing.
  have hheight := hts.height
  rw [heq, braceHeight_append, braceHeight_replicate] at hheight
  have hle := h.height
  obtain rfl : k = 0 := by omega
  rw [List.replicate_zero, List.append_nil] at heq
  obtain ⟨vs, t, hvs, ht⟩ := hts.unended
  obtain ⟨ys, zs, hyz, -, hzs⟩ := List.map_eq_append_iff.mp (heq.symm.trans hvs)
  obtain ⟨x, rfl, hx⟩ := List.map_eq_singleton_iff.mp hzs
  refine ht ?_
  rw [← hx]
  exact h.semicolon ys x hyz

/-- **A phrase that is whole is read before the last token, in the same way whatever comes after
the seam.** -/
theorem transfer (h : Seam last xs e) {p : Parser α} (hlocal : Local p) {a : α} {m : TokenStream}
    (hyields : Yields p ⟨last, xs ++ [e]⟩ a m) {x : Piece}
    (hderived : Derivation False ⟨last, xs ++ [e]⟩ x m) (hwhole : ∀ ts, x.Language ts → Whole ts) :
    ∃ last' xs', xs' ≠ [] ∧ Seam last' xs' e ∧ m = ⟨last', xs' ++ [e]⟩ ∧
      ∀ zs, Yields p ⟨last, xs ++ zs⟩ a ⟨last', xs' ++ zs⟩ := by
  have hm := hderived.keeps (fun _ hs => hs.advance) h.closed
  obtain ⟨ts, hlanguage, hshows⟩ := hderived.language h.closed
  have hts := hwhole ts hlanguage
  have hsuffix : m.rest <:+ xs ++ [e] := hlocal.suffix hyields
  have hlength : [e].length < m.rest.length := by
    by_contra hle
    -- Otherwise all has been read, the end token possibly apart.
    have hnil : m.Holds [] := by
      refine ⟨by simp, ?_⟩
      rcases List.suffix_concat_iff.mp hsuffix with hrest | ⟨us, hrest, -⟩
      · exact Or.inl (by rw [hrest]; rfl)
      · have hus : us = [] := by
          rw [hrest, List.length_append, List.length_singleton] at hle
          exact List.eq_nil_of_length_eq_zero (by omega)
        exact Or.inr (by rw [hrest, hus, List.nil_append, List.map_singleton, h.eof]; rfl)
    have hall := hshows [] hnil.shows
    rw [List.append_nil] at hall
    exact h.not_shows hts hall
  obtain ⟨last', xs', rfl, hzs⟩ := hlocal.transfer hyields hlength
  have hsuffix' : xs' <:+ xs := by
    obtain ⟨us, hus⟩ := hsuffix
    exact ⟨us, List.append_cancel_right ((List.append_assoc us xs' [e]).trans hus)⟩
  refine ⟨last', xs', ?_, h.of_suffix hsuffix' hm ?_, rfl, hzs⟩
  · rintro rfl
    exact Nat.lt_irrefl _ hlength
  · obtain ⟨k, heq⟩ := h.exists_of_shows (hshows _ (holds_of_isClosed hm h.eof).shows)
    have hheight := congrArg braceHeight heq
    rw [braceHeight_append, braceHeight_append, braceHeight_replicate, hts.height] at hheight
    have hle := h.height
    omega

/-- After a semicolon. -/
theorem tail {x : Lexeme} (h : Seam last (x :: xs) e) (hx : x.kind = .semicolon) :
    Seam x.span.stop xs e := by
  refine h.of_suffix (List.suffix_cons x xs) h.closed.advance ?_
  have hheight := h.height
  rw [List.map_cons, braceHeight, show x.token.kind = .semicolon from hx] at hheight
  exact (Int.zero_add _).symm.trans_le hheight

theorem yields_finish (h : Seam last xs e) (hne : xs ≠ []) {stop : Nat} {m : TokenStream}
    (hyields : Yields finish ⟨last, xs ++ [e]⟩ stop m) :
    ∃ last' xs', Seam last' xs' e ∧ m = ⟨last', xs' ++ [e]⟩ ∧
      ∀ zs, Yields finish ⟨last, xs ++ zs⟩ stop ⟨last', xs' ++ zs⟩ := by
  obtain ⟨x, xs, rfl⟩ := List.exists_cons_of_ne_nil hne
  by_cases hx : x.kind = .semicolon
  · cases hyields.symm.trans (yields_finish_semicolon hx (xs ++ [e]))
    exact ⟨x.span.stop, xs, h.tail hx, rfl, fun zs => yields_finish_semicolon hx (xs ++ zs)⟩
  · cases hyields.symm.trans (yields_finish_open hx (xs ++ [e]))
    exact ⟨last, x :: xs, h, rfl, fun zs => yields_finish_open hx (xs ++ zs)⟩

/-- **A statement is read in the same way whatever comes after the seam.** -/
theorem yields_statement (h : Seam last xs e) (hne : xs ≠ []) {n : Nat} {a : Stmt}
    {m : TokenStream} (hyields : Yields (productions n).statement ⟨last, xs ++ [e]⟩ a m) :
    ∃ last' xs', Seam last' xs' e ∧ m = ⟨last', xs' ++ [e]⟩ ∧
      ∀ zs, Yields (productions n).statement ⟨last, xs ++ zs⟩ a ⟨last', xs' ++ zs⟩ := by
  obtain ⟨x, xs, rfl⟩ := List.exists_cons_of_ne_nil hne
  cases n with
  | zero => exact absurd hyields.gives Gives.not_tooDeep
  | succ n =>
    rw [productions_succ] at hyields ⊢
    by_cases hx : x.kind = .leftBrace
    · have hlocal := (parallelAt 0 n).unfold_statement.isLocal
      have hbody := hyields
      rw [Yields, List.cons_append,
        unfold_statement_of_leftBrace _ (s := ⟨last, x :: (xs ++ [e])⟩) hx] at hbody
      obtain ⟨_, _, ⟨⟩, hbody⟩ := yields_bind.mp hbody
      obtain ⟨body, m', hbody, hpure⟩ := yields_bind.mp hbody
      cases hpure
      obtain ⟨last', xs', -, hseam, hm, hzs⟩ := h.transfer hlocal hyields
        ((derivedAt False n).block hx hbody.gives) fun _ hts => hts.whole_block
      exact ⟨last', xs', hseam, hm, hzs⟩
    · have heq : ∀ zs, (productions n).unfold.statement ⟨last, x :: zs⟩ = _ :=
        fun zs => unfold_statement_of_ne_leftBrace _ hx
      rw [Yields, List.cons_append, heq] at hyields
      obtain ⟨clause, m', hclause, hfinish⟩ := yields_bind.mp hyields
      obtain ⟨last₁, xs₁, hne₁, hseam₁, rfl, hzs₁⟩ :=
        h.transfer ((parallelAt 0 n).clause x).isLocal hclause
          ((derivedAt False n).clause hclause.gives) fun _ hts => hts.whole
      -- There is a token left to see whether a semicolon ends the statement.
      obtain ⟨stop, m'', hstop, hpure⟩ := yields_bind.mp hfinish
      cases hpure
      obtain ⟨last₂, xs₂, hseam₂, rfl, hzs₂⟩ := hseam₁.yields_finish hne₁ hstop
      refine ⟨last₂, xs₂, hseam₂, rfl, fun zs => ?_⟩
      rw [Yields, List.cons_append, heq]
      exact yields_bind.mpr ⟨clause, _, hzs₁ zs, yields_bind.mpr ⟨stop, _, hzs₂ zs, rfl⟩⟩

/-- **Statements are read up to the seam and on from there.** -/
theorem statements_append (h : Seam last xs e) {n : Nat} {body : List Stmt} {s : TokenStream}
    (hyields : Yields ((productions n).statements .file) ⟨last, xs ++ [e]⟩ body s)
    (zs : List Lexeme) (hn : depth (xs ++ zs).length ≤ n) :
    ∃ last', ∀ {others m faults},
      (productions (depth zs.length)).statements .file ⟨last', zs⟩ = ⟨.ok others, m, faults⟩ →
      (productions n).statements .file ⟨last, xs ++ zs⟩ = ⟨.ok (body ++ others), m, faults⟩ := by
  -- Each level of depth is a statement, as long as there are any before the seam.
  induction n generalizing last xs body with
  | zero =>
    unfold depth at hn
    omega
  | succ n ih =>
    cases xs with
    | nil =>
      have hends : Enclosure.file.endsAt e.kind = true := by rw [Lexeme.kind, h.eof]; rfl
      rw [Yields, productions_succ, List.nil_append,
        unfold_statements_of_endsAt (productions n) (s := ⟨last, [e]⟩) hends] at hyields
      cases hyields
      refine ⟨last, fun hothers => ?_⟩
      rw [List.nil_append] at hn ⊢
      rw [statements_eq_of_depth_le hn]
      exact hothers
    | cons x xs =>
      have hne : x.kind ≠ .eof :=
        (holds_of_isClosed h.closed h.eof).1 x.token List.mem_cons_self
      have hends : ¬Enclosure.file.endsAt x.kind = true :=
        fun hends => hne (of_decide_eq_true hends)
      have heq : ∀ ys, (productions (n + 1)).statements .file ⟨last, x :: ys⟩ = _ :=
        fun ys => unfold_statements_of_not_endsAt (productions n) hends
      rw [Yields, List.cons_append, heq] at hyields
      obtain ⟨first, m, hfirst, hyields⟩ := yields_bind.mp hyields
      obtain ⟨rest, m', hrest, hpure⟩ := yields_bind.mp hyields
      cases hpure
      obtain ⟨a, rfl, ha⟩ := yields_recovering hfirst
      obtain ⟨last₁, xs₁, hseam₁, rfl, hzs₁⟩ := h.yields_statement (List.cons_ne_nil x xs) ha
      have hlength := length_statement_le n ⟨last, x :: xs ++ zs⟩
      rw [hzs₁ zs] at hlength
      obtain ⟨last', hlast'⟩ := ih hseam₁ hrest (by
        unfold depth at hn ⊢
        simp only [List.length_append, List.length_cons] at hn hlength ⊢
        omega)
      refine ⟨last', fun {others m faults} hothers => ?_⟩
      have hrecover : Yields (recovering (productions n).statement) ⟨last, x :: xs ++ zs⟩ (some a)
          ⟨last₁, xs₁ ++ zs⟩ := by
        rw [Yields, recovering, hzs₁ zs]
      have hok : ((productions n).statements .file ⟨last₁, xs₁ ++ zs⟩).outcome =
          .ok (rest ++ others) := by
        rw [hlast' hothers]
      rw [List.cons_append, heq]
      refine (bind_of_yields hrecover).trans ?_
      rw [bind_of_ok hok, hlast' hothers]
      show (⟨.ok (a :: (rest ++ others)), m, faults ++ []⟩ : Reply (List Stmt)) = _
      rw [List.append_nil]
      rfl

end Seam

/-! ## The token read last -/

theorem bind_eq_of_eq {p : Parser α} {f : α → Parser β} {s s' : TokenStream} (h : p s = p s') :
    (p >>= f) s = (p >>= f) s' := by
  show Parser.bind p f s = Parser.bind p f s'
  rw [Parser.bind, Parser.bind, h]

theorem recovering_congr_streams {p : Parser α} {s s' : TokenStream} (h : p s = p s') :
    recovering p s = recovering p s' := by
  rw [recovering, recovering, h]

section Last

variable (n : Nat) (last last' : Nat) (x : Lexeme) (xs : List Lexeme)

theorem operand_last :
    (productions n).operand ⟨last, x :: xs⟩ = (productions n).operand ⟨last', x :: xs⟩ := by
  cases n <;> rfl

theorem expression_last (level : Precedence) :
    (productions n).expression level ⟨last, x :: xs⟩ =
      (productions n).expression level ⟨last', x :: xs⟩ := by
  cases n with
  | zero => rfl
  | succ n => exact bind_eq_of_eq (operand_last n last last' x xs)

theorem clause_last :
    (productions n).clause x ⟨last, x :: xs⟩ = (productions n).clause x ⟨last', x :: xs⟩ := by
  unfold Productions.clause
  generalize x.kind = kind
  cases kind
  case kwLet => rfl
  case kwReturn => rfl
  all_goals exact bind_eq_of_eq (expression_last n last last' x xs .lowest)

theorem statement_last :
    (productions n).statement ⟨last, x :: xs⟩ = (productions n).statement ⟨last', x :: xs⟩ := by
  cases n with
  | zero => rfl
  | succ n =>
    rw [productions_succ]
    by_cases hx : x.kind = .leftBrace
    · have heq : ∀ last, (productions n).unfold.statement ⟨last, x :: xs⟩ = _ := fun last =>
        unfold_statement_of_leftBrace _ hx
      rw [heq last, heq last']
      rfl
    · have heq : ∀ last, (productions n).unfold.statement ⟨last, x :: xs⟩ = _ := fun last =>
        unfold_statement_of_ne_leftBrace _ hx
      rw [heq last, heq last']
      exact bind_eq_of_eq (clause_last n last last' x xs)

/-- Where the token before the first one stops shows only in what is left, and only if all is. -/
theorem statements_last {enclosure : Enclosure} {body : List Stmt} {m : TokenStream}
    {faults : List Fault}
    (h : (productions n).statements enclosure ⟨last, x :: xs⟩ = ⟨.ok body, m, faults⟩) :
    ∃ m', (productions n).statements enclosure ⟨last', x :: xs⟩ = ⟨.ok body, m', faults⟩ := by
  cases n with
  | zero => exact ⟨m, h⟩
  | succ n =>
    rw [productions_succ] at h ⊢
    by_cases hends : enclosure.endsAt x.kind
    · cases (unfold_statements_of_endsAt (productions n) hends).symm.trans h
      exact ⟨_, unfold_statements_of_endsAt _ hends⟩
    · refine ⟨m, ?_⟩
      have hsame := recovering_congr_streams (statement_last n last' last x xs)
      rw [unfold_statements_of_not_endsAt _ hends] at h ⊢
      rw [← h]
      exact bind_eq_of_eq hsame

end Last

end Parser

/-! ## Joined sources -/

/-- What is parsed is what the statements of the source are. -/
theorem parse_of_statements {source : String} {body : List Stmt} {s : TokenStream}
    {faults : List Fault} (h : (productions (depth (lex source).length)).statements .file
      (TokenStream.ofLexemes (lex source)) = ⟨.ok body, s, faults⟩) :
    (parse source).program.statements = body ∧ (parse source).errors = faults.map Fault.error :=
  parseTokens_of_statements _ h

/-- The tokens of a source end with the end token. -/
theorem exists_lex_eq (source : String) :
    ∃ xs e, lex source = xs ++ [e] ∧ e.token = Token.eof := by
  obtain ⟨xs, e, hlex, -, he⟩ := (CharStream.ofChars source.toList).lexemes_eq_append_eof
  exact ⟨xs, e, hlex, he⟩

/-- A source that ends with a semicolon and closes the braces it opens. -/
structure Sealed (source : String) : Prop where
  semicolon : (sourceTokens source).getLast?.map Token.kind = some .semicolon
  braces : (sourceTokens source).countP (·.kind = .leftBrace) =
    (sourceTokens source).countP (·.kind = .rightBrace)

theorem Sealed.seam {source : String} (h : Sealed source) {xs : List Lexeme} {e : Lexeme}
    (hlex : lex source = xs ++ [e]) (he : e.token = Token.eof) : Seam 0 xs e := by
  have hclosed : TokenStream.IsClosed ⟨0, xs ++ [e]⟩ := hlex ▸ isClosed_lex source
  have htokens : sourceTokens source = xs.map Lexeme.token := by
    rw [(holds_of_isClosed hclosed he).eq_filter, sourceTokens, hlex]
  refine ⟨hclosed, he, ?_, ?_⟩
  · rintro us x rfl
    have hlast := h.semicolon
    rw [htokens, List.map_append, List.map_singleton, List.getLast?_concat] at hlast
    exact Option.some.inj hlast
  · rw [← htokens, braceHeight_eq_sub, h.braces]
    omega

theorem Sealed.lex_append {a b : String} (h : Sealed a)
    (hsize : (a ++ b).utf8ByteSize < offsetLimit) {xs : List Lexeme} {e : Lexeme}
    (hlex : lex a = xs ++ [e]) (he : e.token = Token.eof) :
    lex (a ++ b) = xs ++ (lex b).map (Lexeme.shift a.utf8ByteSize) := by
  rw [ScriptLang.lex_append hsize, hlex, List.dropLast_concat]
  intro us x e' hus
  have hxs : xs ++ [e] = (us ++ [x]) ++ [e'] := by rw [← hlex, hus, List.append_assoc]; rfl
  exact (h.seam hlex he).semicolon us x (List.append_inj_left' hxs rfl)

/-- The statements of a source that stands `d` bytes further on. -/
theorem statements_shift_lex (source : String) (d last : Nat) :
    ∃ s faults, (productions (depth (lex source).length)).statements .file
        ⟨last, (lex source).map (Lexeme.shift d)⟩ =
          ⟨.ok ((parse source).program.statements.map (Stmt.shift d)), s, faults⟩ ∧
      faults.map Fault.error = (parse source).errors.map (ParseError.shift d) := by
  obtain ⟨body, s, faults, h⟩ := exists_statements_eq (lex source)
  obtain ⟨hbody, herrors⟩ := parse_of_statements h
  have hshift := ((parallelAt d (depth (lex source).length)).statements .file).shifts
    (TokenStream.ofLexemes (lex source))
  rw [h] at hshift
  -- Shifting also moves the place before the first token, which is not looked at.
  obtain ⟨xs, e, hlex, -⟩ := exists_lex_eq source
  have hne : (lex source).map (Lexeme.shift d) ≠ [] := by
    rw [hlex, List.map_append]
    exact List.append_ne_nil_of_right_ne_nil _ (List.cons_ne_nil _ _)
  obtain ⟨y, ys, hys⟩ := List.exists_cons_of_ne_nil hne
  rw [TokenStream.shift, show (TokenStream.ofLexemes (lex source)).rest = lex source from rfl,
    hys] at hshift
  obtain ⟨s', hs'⟩ := statements_last _ _ last y ys hshift
  refine ⟨s', faults.map (Fault.shift d), ?_, ?_⟩
  · rw [hys, hbody, ← Stmt.shiftAll_eq_map]
    exact hs'
  · rw [herrors, List.map_map, List.map_map]
    rfl

/-- **Putting a source before another one**, if it is parsed without errors, ends with a semicolon
and closes the braces it opens, puts its statements before those of the other one and changes
nothing else than the places. -/
theorem parse_append {a b : String} (hsize : (a ++ b).utf8ByteSize < offsetLimit)
    (herrors : (parse a).errors = []) (hsealed : Sealed a) :
    (parse (a ++ b)).program.statements = (parse a).program.statements ++
        (parse b).program.statements.map (Stmt.shift a.utf8ByteSize) ∧
      (parse (a ++ b)).errors = (parse b).errors.map (ParseError.shift a.utf8ByteSize) := by
  obtain ⟨xs, e, hlex, he⟩ := exists_lex_eq a
  obtain ⟨ys, f, hlexb, -⟩ := exists_lex_eq b
  have hjoin := hsealed.lex_append hsize hlex he
  have hlength : (lex (a ++ b)).length = xs.length + (lex b).length := by
    rw [hjoin, List.length_append, List.length_map]
  obtain ⟨body, s, hyields⟩ := yields_of_errors_eq_nil herrors
  have hbody : (parse a).program.statements = body := (parse_of_statements hyields).1
  -- The first source is read in the same way at the depth of both.
  have hdeep : Yields ((productions (depth (lex (a ++ b)).length)).statements .file)
      ⟨0, xs ++ [e]⟩ body s := by
    have hle : depth (lex a).length ≤ depth (lex (a ++ b)).length := by
      rw [hlength, hlex, hlexb, List.length_append, List.length_append]
      unfold depth
      simp only [List.length_singleton]
      omega
    rw [Yields, ← hlex]
    exact (statements_eq_of_depth_le hle).trans hyields
  obtain ⟨last, hrun⟩ := (hsealed.seam hlex he).statements_append hdeep
    ((lex b).map (Lexeme.shift a.utf8ByteSize)) (by rw [hjoin])
  obtain ⟨m, faults, hothers, hfaults⟩ := statements_shift_lex b a.utf8ByteSize last
  rw [List.length_map] at hrun
  have hboth := hrun hothers
  rw [← hjoin] at hboth
  obtain ⟨hstatements, hparse⟩ := parse_of_statements hboth
  exact ⟨by rw [hstatements, hbody], by rw [hparse, hfaults]⟩

/-- The parenthesis that the second source leaves open is found where it stands in both. -/
theorem parse_append_openParen :
    ("let f = fn(x) { x; }; f(1); " ++ "(1 + 2; 3").utf8ByteSize < offsetLimit ∧
      (parse "let f = fn(x) { x; }; f(1); ").errors = [] ∧
      Sealed "let f = fn(x) { x; }; f(1); " ∧
      (parse ("let f = fn(x) { x; }; f(1); " ++ "(1 + 2; 3")).errors =
        [⟨.unexpected .rightParen .semicolon, ⟨34, 35⟩, some ⟨28, 29⟩⟩] := by
  have hsize : ("let f = fn(x) { x; }; f(1); " ++ "(1 + 2; 3").utf8ByteSize < offsetLimit := by
    decide
  have herrors : (parse "let f = fn(x) { x; }; f(1); ").errors = [] := by decide +kernel
  have hsealed : Sealed "let f = fn(x) { x; }; f(1); " := ⟨by decide +kernel, by decide +kernel⟩
  have hopen : (parse "(1 + 2; 3").errors =
      [⟨.unexpected .rightParen .semicolon, ⟨6, 7⟩, some ⟨0, 1⟩⟩] := by decide +kernel
  refine ⟨hsize, herrors, hsealed, ?_⟩
  rw [(parse_append hsize herrors hsealed).2, hopen]
  rfl

end ScriptLang
