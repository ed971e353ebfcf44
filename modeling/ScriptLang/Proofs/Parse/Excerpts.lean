import ScriptLang.Proofs.Parse.Continuation
import ScriptLang.Proofs.Parse.Nesting
import ScriptLang.Proofs.Token.Slices

/-!
# A statement is its text

In a source that is parsed without errors, every statement at any depth can be cut out: the text
that it covers is parsed as this statement and nothing else, but for the places.

A statement somewhere in the tree was once read off the tokens of the source. It depends on the
tokens from its first to its last one only, and these are the tokens of its text.
-/

namespace ScriptLang

open ScriptLang.Parser

namespace Parser

/-! ## Where statements come from -/

/-- The statement was read off a stream that has a property. -/
def IsRead (I : TokenStream → Prop) (t : Stmt) : Prop :=
  ∃ n s m, I s ∧ Yields (productions n).statement s t m

/-- All statements from the node down were read off such streams. -/
def Traced (I : TokenStream → Prop) (x : Node) : Prop :=
  ∀ t, x.Contains (.stmt t) → IsRead I t

section Traced

variable {I : TokenStream → Prop}

theorem Traced.of_children {x : Node} (hx : ∀ t, x = .stmt t → IsRead I t)
    (h : ∀ y ∈ x.children, Traced I y) : Traced I x := by
  intro t ht
  cases ht with
  | self => exact hx t rfl
  | child hy ht => exact h _ hy t ht

theorem traced_ident (name : Ident) : ∀ y ∈ [Node.ident name], Traced I y := by
  refine List.forall_mem_singleton.mpr (.of_children (fun t ht => ?_) fun y hy => ?_)
  · cases ht
  · cases hy

theorem traced_expr {e : Expr} (h : ∀ y ∈ (Node.expr e).children, Traced I y) :
    ∀ y ∈ [Node.expr e], Traced I y :=
  List.forall_mem_singleton.mpr (.of_children (fun t ht => by cases ht) h)

theorem traced_block {b : Block} (h : ∀ y ∈ (Node.block b).children, Traced I y) :
    ∀ y ∈ [Node.block b], Traced I y :=
  List.forall_mem_singleton.mpr (.of_children (fun t ht => by cases ht) h)

theorem traced_stmt {t : Stmt} (ht : IsRead I t) (h : ∀ y ∈ (Node.stmt t).children, Traced I y) :
    ∀ y ∈ [Node.stmt t], Traced I y := by
  refine List.forall_mem_singleton.mpr (.of_children (fun t' ht' => ?_) h)
  cases ht'
  exact ht

/-- **Every statement of a tree was read as a statement.** -/
theorem Derivation.traced (hI : ∀ s, I s → I s.advance) {s m : TokenStream} {x : Piece}
    (h : Derivation False s x m) (hs : I s) : ∀ y ∈ x.nodes, Traced I y := by
  induction h with
  | noNames | noParameters _ | noAlternative | noValues | noArguments _ | noStmts _ =>
    exact List.forall_mem_nil _
  | moreNames _ _ _ ih =>
    exact List.forall_mem_append.mpr ⟨traced_ident _, ih (hI _ (hI _ hs))⟩
  | someParameters _ _ _ ih => exact List.forall_mem_append.mpr ⟨traced_ident _, ih (hI _ hs)⟩
  | ident _ => exact traced_expr (traced_ident _)
  | integer _ _ | string _ | boolean _ => exact traced_expr (List.forall_mem_nil _)
  | unary _ _ ih => exact traced_expr (ih (hI _ hs))
  | grouped _ _ _ ih | otherwise _ _ ih | returning _ _ ih => exact ih (hI _ hs)
  | conditional _ _ hcondition _ hconsequence _ ih₁ ih₂ ih₃ =>
    have hs₁ := hI _ (hI _ hs)
    have hs₂ := hI _ (hcondition.keeps hI hs₁)
    have hbodies := List.forall_mem_append.mpr ⟨ih₂ hs₂, ih₃ (hconsequence.keeps hI hs₂)⟩
    exact traced_expr (List.forall_mem_append.mpr ⟨ih₁ hs₁, hbodies⟩)
  | function _ _ hnames _ ih₁ ih₂ =>
    have hs₁ := hI _ (hI _ hs)
    exact traced_expr (List.forall_mem_append.mpr ⟨ih₁ hs₁, ih₂ (hnames.keeps hI hs₁)⟩)
  | call hleft _ _ ih₁ ih₂ | binary hleft _ _ ih₁ ih₂ =>
    have hs₁ := hI _ (hleft.keeps hI hs)
    exact traced_expr (List.forall_mem_append.mpr ⟨ih₁ hs, ih₂ hs₁⟩)
  | moreValues _ hvalue _ ih₁ ih₂ =>
    have hs₁ := hI _ hs
    exact List.forall_mem_append.mpr ⟨ih₁ hs₁, ih₂ (hvalue.keeps hI hs₁)⟩
  | someArguments hvalue _ _ ih₁ ih₂ =>
    exact List.forall_mem_append.mpr ⟨ih₁ hs, ih₂ (hvalue.keeps hI hs)⟩
  | block _ _ ih => exact traced_block (ih (hI _ hs))
  | binding _ _ _ _ ih =>
    exact List.forall_mem_append.mpr ⟨traced_ident _, ih (hI _ (hI _ (hI _ hs)))⟩
  | evaluation _ ih => exact ih hs
  | nested h _ ih => exact traced_stmt ⟨_, _, _, hs, h.yields⟩ (ih hs)
  | ended ht h _ ih =>
    refine traced_stmt ⟨_, _, _, hs, h.yields⟩ ?_
    rw [ht, Clause.children_statement]
    exact ih hs
  | moreStmts hfirst _ ih₁ ih₂ =>
    exact List.forall_mem_append.mpr ⟨ih₁ hs, ih₂ (hfirst.keeps hI hs)⟩
  | gap h _ _ _ => exact h.elim

end Traced

/-! ## What a statement takes -/

/-- There are no statements at the end token. -/
theorem peek_ne_eof_of_yields_statement {n : Nat} {s m : TokenStream} {t : Stmt}
    (h : Yields (productions n).statement s t m) : s.peek.kind ≠ .eof := by
  cases (derivedAt False n).statement h.gives with
  | nested _ hblock =>
    cases hblock with
    | block hkind _ => rw [hkind]; decide
  | ended _ _ hclause =>
    cases hclause with
    | binding hkind _ _ _ => rw [hkind]; decide
    | returning hkind _ => rw [hkind]; decide
    | evaluation hvalue => exact hvalue.peek_ne_eof

/-- A statement covers all tokens from its first one to the last one that is read. -/
theorem span_of_yields_statement {n : Nat} {s m : TokenStream} {t : Stmt}
    (h : Yields (productions n).statement s t m) : t.span = ⟨s.peek.span.start, m.last⟩ := by
  cases (derivedAt False n).statement h.gives with
  | nested _ hblock =>
    cases hblock
    rfl
  | ended ht _ _ => rw [ht, Clause.span_statement]

/-- The tokens that a statement takes, and where the last of them stops. -/
theorem exists_tokens_of_yields_statement {n : Nat} {s m : TokenStream} {t : Stmt}
    (h : Yields (productions n).statement s t m) :
    ∃ xs x, s.rest = xs ++ x :: m.rest ∧ m.last = x.span.stop := by
  let I : TokenStream → Prop := fun m => ∃ xs x, s.rest = xs ++ x :: m.rest ∧ m.last = x.span.stop
  have hI : ∀ m, I m → I m.advance := by
    rintro ⟨last, rest⟩ ⟨xs, x, hrest, hlast⟩
    cases rest with
    | nil => exact ⟨xs, x, hrest, hlast⟩
    | cons y rest =>
      refine ⟨xs ++ [x], y, ?_, rfl⟩
      rw [hrest, List.append_assoc]
      rfl
  have hstart : I s.advance := by
    have hne := TokenStream.rest_ne_nil_of_peek (peek_ne_eof_of_yields_statement h)
    obtain ⟨x, rest, hrest⟩ := List.exists_cons_of_ne_nil hne
    refine ⟨[], x, ?_, ?_⟩
    · rw [TokenStream.advance, hrest]
      rfl
    · rw [TokenStream.advance, TokenStream.peek_of_rest_eq hrest]
  have hkept := keepsAfter_statement hI n s hstart
  rwa [h] at hkept

/-- A statement with nothing after it. -/
theorem yields_statements_of_yields_statement {n : Nat} {s m : TokenStream} {t : Stmt}
    (h : Yields (productions n).statement s t m) (hm : m.peek.kind = .eof) :
    Yields ((productions (depth s.rest.length)).statements .file) s [t] m := by
  have hs := peek_ne_eof_of_yields_statement h
  -- Any depth will do that is enough for both the statement and the stream.
  let k := n + depth s.rest.length + 1
  have hfirst : Yields (recovering (productions k).statement) s (some t) m := by
    have hreply : (productions k).statement s = ⟨.ok t, m, []⟩ :=
      yields_statement_of_le (by omega) h
    rw [Yields, recovering, hreply]
  have hothers : Yields ((productions k).statements .file) m [] m := by
    refine unfold_statements_of_endsAt (productions (n + depth s.rest.length)) ?_
    rw [hm]
    rfl
  have hnot : ¬Enclosure.file.endsAt s.peek.kind = true := fun hend => hs (of_decide_eq_true hend)
  have hbody : Yields ((productions (k + 1)).statements .file) s [t] m := by
    rw [Yields, productions_succ, unfold_statements_of_not_endsAt _ hnot]
    exact yields_bind.mpr ⟨_, _, hfirst, yields_bind.mpr ⟨_, _, hothers, rfl⟩⟩
  rwa [Yields, statements_eq_of_depth_le (by omega)] at hbody

end Parser

/-! ## Sources -/

section Source

variable {source text : String} (hsize : source.utf8ByteSize < offsetLimit)
include hsize

/-- Only the last token of a source is the end token. -/
theorem kind_ne_eof_of_lex_eq {us ys : List Lexeme} {x y : Lexeme}
    (hlex : lex source = us ++ x :: y :: ys) : x.kind ≠ .eof := by
  obtain ⟨xs, hxs, hall⟩ := exists_lex_eq_append_eof hsize
  refine hall x ?_
  have hdrop := congrArg List.dropLast (hxs.symm.trans hlex)
  rw [List.dropLast_concat, List.dropLast_append_of_ne_nil (List.cons_ne_nil _ _)] at hdrop
  rw [hdrop]
  exact List.mem_append_right _ List.mem_cons_self

/-- A statement that was read off the tokens of a source is the statement of its text. -/
theorem parse_of_yields_statement {n : Nat} {s m : TokenStream} {t : Stmt}
    (hs : s.OnSource source) (h : Yields (productions n).statement s t m)
    (hcovers : t.span.Covers source text) :
    (parse text).errors = [] ∧
      ∃ t', (parse text).program.statements = [t'] ∧ t'.shift t.span.start = t := by
  have hspan := span_of_yields_statement h
  obtain ⟨xs, x, hrest, hlast⟩ := exists_tokens_of_yields_statement h
  obtain ⟨us, hlex⟩ := hs.suffix
  have hne := TokenStream.rest_ne_nil_of_peek (peek_ne_eof_of_yields_statement h)
  obtain ⟨w, ws, hw⟩ := List.exists_cons_of_ne_nil hne
  rw [TokenStream.peek_of_rest_eq hw] at hspan
  rw [hw] at hrest hlex
  rw [hspan] at hcovers ⊢
  -- The tokens of the text, put where the text stands in the source, are read as the statement.
  obtain ⟨m', hyields, hm'⟩ : ∃ m', Yields (productions n).statement
      ⟨s.last, (lex text).map (Lexeme.shift w.span.start)⟩ t m' ∧ m'.peek.kind = .eof := by
    cases hm : m.rest with
    | nil =>
      have hI : ∀ s : TokenStream, s.OnSource source → s.advance.OnSource source :=
        fun s hs => hs.advance hsize
      have hend := (parallelAt 0 n).statement.keeps hI s hs
      rw [h] at hend
      rw [hend.last_eq hm] at hcovers
      rw [lex_slice_end hsize hlex.symm hcovers, ← hw]
      exact ⟨m, h, by rw [TokenStream.peek_of_rest_nil hm]; rfl⟩
    | cons y ys =>
      rw [hm] at hrest
      have hx : x.kind ≠ .eof := by
        rw [hrest, ← List.append_assoc] at hlex
        exact kind_ne_eof_of_lex_eq hsize hlex.symm
      rw [hlast] at hcovers
      have hfirst : Yields (productions n).statement ⟨s.last, xs ++ [x] ++ y :: ys⟩ t
          ⟨m.last, y :: ys⟩ := by
        rw [List.append_assoc, List.singleton_append, ← hrest, ← hw, ← hm]
        exact h
      have hclosed := yields_statement_eof (e := Lexeme.eof x.span.stop) rfl hfirst
      rw [List.append_assoc] at hclosed
      rw [lex_slice hsize hlex.symm hrest hx hcovers]
      exact ⟨_, hclosed, rfl⟩
  have hbody := yields_statements_of_yields_statement hyields hm'
  obtain ⟨s', faults, hshift, hfaults⟩ := statements_shift_lex text w.span.start s.last
  rw [Yields, List.length_map, hshift] at hbody
  obtain ⟨hok, -, rfl⟩ := Reply.mk.inj hbody
  refine ⟨List.map_eq_nil_iff.mp hfaults.symm, ?_⟩
  obtain ⟨t', ht', hshifted⟩ := List.map_eq_singleton_iff.mp (Except.ok.inj hok)
  exact ⟨t', ht', hshifted⟩

end Source

/-- **A statement is its text.** In a source that is parsed without errors, every statement covers a
part of the source, which alone is parsed without errors as this statement and no other, but for the
places: they are counted from where the statement starts. -/
theorem parse_statement_text {source : String} (hsize : source.utf8ByteSize < offsetLimit)
    (herrors : (parse source).errors = []) {t : Stmt}
    (ht : (parse source).program.Contains (.stmt t)) :
    (∃ text, t.span.Covers source text) ∧
      ∀ text, t.span.Covers source text → (parse text).errors = [] ∧
        ∃ t', (parse text).program.statements = [t'] ∧ t'.shift t.span.start = t := by
  obtain ⟨u, hu, hut⟩ := ht
  refine ⟨?_, fun text hcovers => ?_⟩
  · have hnests := (row_parse hsize).nests _ (List.mem_map_of_mem hu)
    exact (hnests _ hut).covers
  · obtain ⟨body, m, hbody⟩ := yields_of_errors_eq_nil herrors
    have hI : ∀ s : TokenStream, s.OnSource source → s.advance.OnSource source :=
      fun s hs => hs.advance hsize
    have hderived := (derivedAt False _).statements hbody.gives
    have htraced := hderived.traced hI (TokenStream.onSource_lex hsize)
    rw [(parse_of_statements hbody).1] at hu
    obtain ⟨n, s, m', hs, hyields⟩ := htraced _ (List.mem_map_of_mem hu) t hut
    exact parse_of_yields_statement hsize hs hyields hcovers

/-- The inner one of two blocks that run to the end of the source, with two bytes for a character
before it. -/
theorem parse_statement_text_unclosed :
    let source := "\x7b f(\"ü\") \x7b  c  "
    source.utf8ByteSize < offsetLimit ∧ (parse source).errors = [] ∧
      ∃ t, (parse source).program.Contains (.stmt t) ∧ t.span = ⟨10, 16⟩ ∧
        t.span.Covers source "\x7b  c  " ∧ (parse "\x7b  c  ").errors = [] ∧
        ∃ t', (parse "\x7b  c  ").program.statements = [t'] ∧ t'.shift t.span.start = t := by
  have hsize : "\x7b f(\"ü\") \x7b  c  ".utf8ByteSize < offsetLimit := by decide
  have herrors : (parse "\x7b f(\"ü\") \x7b  c  ").errors = [] := by decide +kernel
  have hbody : (parse "\x7b f(\"ü\") \x7b  c  ").program.statements =
      [.block (.mk ⟨Token.ofSymbol .leftBrace, 0, 16⟩
        [.expression ⟨⟨.ident, "f"⟩, 2, 9⟩ (.call ⟨Token.ofSymbol .leftParen, 2, 9⟩
          (.ident ⟨⟨.ident, "f"⟩, 2, 3⟩) [.string ⟨⟨.string, "ü"⟩, 4, 8⟩]),
        .block (.mk ⟨Token.ofSymbol .leftBrace, 10, 16⟩
          [.expression ⟨⟨.ident, "c"⟩, 13, 14⟩ (.ident ⟨⟨.ident, "c"⟩, 13, 14⟩)])])] := by rfl
  obtain ⟨t, hspan, hcontains⟩ : ∃ t : Stmt, t.span = ⟨10, 16⟩ ∧
      (parse "\x7b f(\"ü\") \x7b  c  ").program.Contains (.stmt t) := by
    refine ⟨_, ?_, _, by rw [hbody]; exact List.mem_cons_self,
      .child List.mem_cons_self (.child (List.mem_cons_of_mem _ List.mem_cons_self) (.self _))⟩
    rfl
  have hcovers : t.span.Covers "\x7b f(\"ü\") \x7b  c  " "\x7b  c  " := by
    rw [hspan]
    exact ⟨"\x7b f(\"ü\") ", "", by decide, by decide, by decide⟩
  obtain ⟨htext, hstatement⟩ := (parse_statement_text hsize herrors hcontains).2 _ hcovers
  exact ⟨hsize, herrors, t, hcontains, hspan, hcovers, htext, hstatement⟩

end ScriptLang
