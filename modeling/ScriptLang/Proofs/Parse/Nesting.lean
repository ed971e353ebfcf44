import ScriptLang.Proofs.Parse.Concatenation
import ScriptLang.Proofs.Parse.Places
import ScriptLang.Proofs.Tree.Nodes

/-!
# Spans nest

Every node that parsing keeps covers some text of the source, which lies within the text that its
parent covers. The children of a node follow each other and do not overlap. This holds with errors
in the source as well as without: what could not be read leaves a gap.

`Row source k xs l` says of nodes that they stand in this order between two offsets, and that all is
well below them. Every result of a production stands in a row that starts where its first token does
and stops where its last one does.
-/

namespace ScriptLang

/-! ## Rows of nodes -/

/-- The node covers some text of the source, and its children are in order within this text. A node
that consists of a single word covers this word. -/
structure Node.IsPlaced (source : String) (x : Node) : Prop where
  covers : ∃ text, x.span.Covers source text
  nonempty : x.span.start < x.span.stop
  inside : ∀ y ∈ x.children, x.span.start ≤ y.span.start ∧ y.span.stop ≤ x.span.stop
  ordered : x.children.Pairwise fun y z => y.span.stop ≤ z.span.start
  word : ∀ t, x.word? = some t → x.span.Covers source t.literal

/-- All nodes from this one down are placed. -/
def Node.Nests (source : String) (x : Node) : Prop := ∀ y, x.Contains y → y.IsPlaced source

/-- The nodes stand between two offsets, one after the other. -/
inductive Row (source : String) : Nat → List Node → Nat → Prop where
  | nil {k l : Nat} : Row source k [] l
  | cons {k l : Nat} {x : Node} {xs : List Node} :
      k ≤ x.span.start → x.span.stop ≤ l → x.Nests source → Row source x.span.stop xs l →
      Row source k (x :: xs) l

theorem Node.Nests.lt {source : String} {x : Node} (h : x.Nests source) :
    x.span.start < x.span.stop :=
  (h x (.self x)).nonempty

theorem Node.Nests.isBoundary {source : String} {x : Node} (h : x.Nests source) :
    IsBoundary source x.span.start ∧ IsBoundary source x.span.stop := by
  obtain ⟨text, hcovers⟩ := (h x (.self x)).covers
  exact hcovers.isBoundary

namespace Row

variable {source : String} {a b c d k l : Nat} {x : Node} {xs ys : List Node}

theorem single (hk : k ≤ x.span.start) (hl : x.span.stop ≤ l) (hx : x.Nests source) :
    Row source k [x] l :=
  cons hk hl hx nil

/-- A row fits into wider bounds. -/
theorem mono (h : Row source a xs b) (hca : c ≤ a) (hbd : b ≤ d) : Row source c xs d := by
  induction h generalizing c with
  | nil => exact nil
  | cons hk hl hx hxs ih => exact cons (hca.trans hk) (hl.trans hbd) hx (ih le_rfl hbd)

/-- One row after the other. -/
theorem append (h : Row source a xs b) (h' : Row source c ys d) (hac : a ≤ c) (hbc : b ≤ c)
    (hbd : b ≤ d) : Row source a (xs ++ ys) d := by
  induction h with
  | nil => exact h'.mono hac le_rfl
  | cons hk hl hx hxs ih => exact cons hk (hl.trans hbd) hx (ih (hl.trans hbc) hbc hbd)

theorem nests (h : Row source k xs l) : ∀ x ∈ xs, x.Nests source := by
  induction h with
  | nil => exact fun x hx => absurd hx List.not_mem_nil
  | cons hk hl hx hxs ih => exact List.forall_mem_cons.mpr ⟨hx, ih⟩

theorem inside (h : Row source k xs l) : ∀ x ∈ xs, k ≤ x.span.start ∧ x.span.stop ≤ l := by
  induction h with
  | nil => exact fun x hx => absurd hx List.not_mem_nil
  | cons hk hl hx hxs ih =>
    refine List.forall_mem_cons.mpr ⟨⟨hk, hl⟩, fun y hy => ?_⟩
    have hlt := hx.lt
    have hy := ih y hy
    omega

theorem pairwise (h : Row source k xs l) : xs.Pairwise fun x y => x.span.stop ≤ y.span.start := by
  induction h with
  | nil => exact List.Pairwise.nil
  | cons hk hl hx hxs ih => exact List.pairwise_cons.mpr ⟨fun y hy => (hxs.inside y hy).1, ih⟩

/-- Nodes take up some of the source. -/
theorem lt_of_ne_nil (h : Row source k xs l) (hne : xs ≠ []) : k < l := by
  obtain ⟨x, xs, rfl⟩ := List.exists_cons_of_ne_nil hne
  have hlt := (h.nests x List.mem_cons_self).lt
  have hinside := h.inside x List.mem_cons_self
  omega

/-- A node whose children stand in a row within its span. -/
theorem nests_parent (h : Row source x.span.start x.children x.span.stop)
    (hstart : IsBoundary source x.span.start) (hstop : IsBoundary source x.span.stop)
    (hlt : x.span.start < x.span.stop)
    (hword : ∀ t, x.word? = some t → x.span.Covers source t.literal) : x.Nests source := by
  intro y hy
  cases hy with
  | self => exact ⟨Span.exists_covers hstart hstop hlt.le, hlt, h.inside, h.pairwise, hword⟩
  | child hz hy => exact h.nests _ hz y hy

/-- A node that is no word, as a row of its own. -/
theorem parent {start stop : Nat} (hspan : x.span = ⟨start, stop⟩)
    (h : Row source start x.children stop) (hstart : IsBoundary source start)
    (hstop : IsBoundary source stop) (hlt : start < stop) (hword : x.word? = none)
    (hk : k ≤ start) (hl : stop ≤ l) : Row source k [x] l := by
  have hnests : x.Nests source := by
    refine nests_parent ?_ ?_ ?_ ?_ fun t ht => ?_
    · rw [hspan]
      exact h
    · rw [hspan]
      exact hstart
    · rw [hspan]
      exact hstop
    · rw [hspan]
      exact hlt
    · rw [hword] at ht
      cases ht
  refine single ?_ ?_ hnests
  · rw [hspan]
    exact hk
  · rw [hspan]
    exact hl

end Row

/-- A node takes up the span, which lies between two offsets. -/
structure Node.Fits (source : String) (x : Node) (span : Span) (k l : Nat) : Prop where
  le_start : k ≤ span.start
  lt : span.start < span.stop
  stop_le : span.stop ≤ l
  start : IsBoundary source span.start
  stop : IsBoundary source span.stop
  row : Row source span.start [x] span.stop

theorem Row.fits {source : String} {x : Node} {k l : Nat} (h : Row source k [x] l) :
    x.Fits source x.span k l := by
  cases h with
  | cons hk hl hx _ =>
    exact ⟨hk, hx.lt, hl, hx.isBoundary.1, hx.isBoundary.2, .single le_rfl le_rfl hx⟩

theorem Row.fits_expr {source : String} {e : Expr} {k l : Nat} (h : Row source k [.expr e] l) :
    (Node.expr e).Fits source e.span k l :=
  h.fits

theorem Row.fits_block {source : String} {b : Block} {k l : Nat} (h : Row source k [.block b] l) :
    (Node.block b).Fits source b.span k l :=
  h.fits

/-! ## Nodes of a single token -/

section Leaves

variable {source : String} {x : Lexeme} (hx : x.IsPlaced source)
include hx

/-- A token that is no string covers its text. -/
theorem Lexeme.IsPlaced.covers (heof : x.kind ≠ .eof) (hstring : x.kind ≠ .string) :
    x.span.Covers source x.token.literal := by
  have hstands := hx.stands heof
  unfold Lexeme.StandsIn at hstands
  rwa [if_neg hstring] at hstands

theorem nests_leaf {y : Node} (heof : x.kind ≠ .eof) (hspan : y.span = x.span)
    (hchildren : y.children = []) (hword : ∀ t, y.word? = some t → t = x.token ∧ x.kind ≠ .string) :
    y.Nests source := by
  refine Row.nests_parent ?_ ?_ ?_ ?_ fun t ht => ?_
  · rw [hchildren]
    exact .nil
  · rw [hspan]
    exact hx.start
  · rw [hspan]
    exact hx.stop
  · rw [hspan]
    exact hx.lt heof
  · obtain ⟨rfl, hstring⟩ := hword t ht
    rw [hspan]
    exact hx.covers heof hstring

theorem nests_name (hkind : x.kind = .ident) : (Node.ident ⟨x.origin⟩).Nests source := by
  refine nests_leaf hx (by rw [hkind]; decide) rfl rfl fun t ht => ?_
  cases ht
  exact ⟨rfl, by rw [hkind]; decide⟩

theorem nests_ident (hkind : x.kind = .ident) :
    (Node.expr (.ident ⟨x.origin⟩)).Nests source := by
  have hne : x.kind ≠ .eof ∧ x.kind ≠ .string := by
    rw [hkind]
    decide
  refine Row.nests_parent (.single le_rfl le_rfl (nests_name hx hkind)) hx.start hx.stop
    (hx.lt hne.1) fun t ht => ?_
  cases ht
  exact hx.covers hne.1 hne.2

end Leaves

namespace Parser

/-! ## Streams on a source -/

/-- The stream `m` comes after `s` on the source. -/
structure Follows (source : String) (s m : TokenStream) : Prop where
  onSource : m.OnSource source
  start_le : s.peek.span.start ≤ m.peek.span.start
  last_le : s.last ≤ m.last

/-- What there is to know about the offsets of a stream that follows another one. -/
theorem Follows.bounds {source : String} {s m : TokenStream} (h : Follows source s m) :
    s.peek.span.start ≤ m.peek.span.start ∧ s.last ≤ m.last ∧ m.last ≤ m.peek.span.start :=
  ⟨h.start_le, h.last_le, h.onSource.last_le_start⟩

section Rows

variable {source : String} (hsize : source.utf8ByteSize < offsetLimit) {R : Prop}
  {s m m₁ m₂ : TokenStream} (hs : s.OnSource source)
include hsize hs

theorem follows_advance : Follows source s s.advance := by
  have hle := (hs.peek_isPlaced hsize).le
  have hlast := hs.last_le_start
  refine ⟨hs.advance hsize, hs.start_le_start hsize, ?_⟩
  show s.last ≤ s.peek.span.stop
  omega

/-- What keeps to advancing keeps to the source. -/
theorem follows_of_keeps
    (h : ∀ I : TokenStream → Prop, (∀ s, I s → I s.advance) → I s → I m) : Follows source s m := by
  refine h (Follows source s) (fun m hm => ?_) ⟨hs, le_rfl, le_rfl⟩
  have hadvance := follows_advance hsize hm.onSource
  exact ⟨hadvance.onSource, hm.start_le.trans hadvance.start_le,
    hm.last_le.trans hadvance.last_le⟩

theorem Derivation.follows {x : Piece} (h : Derivation R s x m) : Follows source s m :=
  follows_of_keeps hsize hs fun _ hI => h.keeps hI

/-! ## Results of a single token -/

omit hsize hs in
/-- A node that consists of the next token. -/
theorem row_leaf {y : Node} (hspan : y.span = s.peek.span) (hy : y.Nests source) :
    Row source s.peek.span.start [y] s.advance.last := by
  refine .single ?_ ?_ hy
  · rw [hspan]
  · rw [hspan]
    exact le_rfl

/-- A node that is written as the next token, which has no quotes. -/
theorem row_word {y : Node} (hne : s.peek.kind ≠ .eof ∧ s.peek.kind ≠ .string)
    (hspan : y.span = s.peek.span) (hchildren : y.children = [])
    (hword : y.word? = some s.peek.token) : Row source s.peek.span.start [y] s.advance.last := by
  refine row_leaf hspan
    (nests_leaf (hs.peek_isPlaced hsize) hne.1 hspan hchildren fun t ht => ?_)
  exact ⟨Option.some.inj (ht.symm.trans hword), hne.2⟩

/-- A name that comes next, and more nodes after it. -/
theorem row_name {k l : Nat} {xs : List Node} (hkind : s.peek.kind = .ident)
    (hk : k ≤ s.peek.span.start) (hl : s.advance.last ≤ l) (h : Row source s.advance.last xs l) :
    Row source k (.ident ⟨s.peek.origin⟩ :: xs) l :=
  .cons hk hl (nests_name (hs.peek_isPlaced hsize) hkind) h

/-! ## Results that are made of others -/

theorem row_unary {right : Expr} {kind : TokenKind}
    (hright : Row source s.advance.peek.span.start [.expr right] m.last) :
    Row source s.peek.span.start
      [.expr (.unary ⟨s.peek.token, s.peek.span.start, right.span.stop⟩ kind right)] m.last := by
  have hb := (follows_advance hsize hs).bounds
  obtain ⟨hk, hlt, hl, -, hend, hright⟩ := hright.fits_expr
  have hfirst := (hs.peek_isPlaced hsize).start
  exact .parent rfl (hright.mono (by omega) le_rfl) hfirst hend (by omega) rfl le_rfl hl

/-- A conditional, where `k` is where the condition can start at the earliest. -/
theorem row_conditional {k : Nat} {condition : Expr} {consequence : Block}
    {alternative : Option Block} (hk : s.peek.span.start ≤ k)
    (hcondition : Row source k [.expr condition] m₁.last) (hm₁ : m₁.OnSource source)
    (hconsequence : Row source m₁.advance.peek.span.start [.block consequence] m₂.last)
    (hm₂ : m₂.OnSource source)
    (halternative : Row source m₂.peek.span.start (alternative.toList.map .block) m.last)
    (hm : m₂.last ≤ m.last) :
    Row source s.peek.span.start [.expr (.conditional
      ⟨s.peek.token, s.peek.span.start, (alternative.getD consequence).span.stop⟩ condition
      consequence alternative)] m.last := by
  have hfirst := (hs.peek_isPlaced hsize).start
  have hb₁ := (follows_advance hsize hm₁).bounds
  have hlast := hm₂.last_le_start
  obtain ⟨hk₁, hlt₁, hl₁, -, -, hcondition⟩ := hcondition.fits_expr
  obtain ⟨hk₂, hlt₂, hl₂, -, hend₂, hconsequence⟩ := hconsequence.fits_block
  have hrow : Row source s.peek.span.start [.expr condition, .block consequence]
      consequence.span.stop :=
    (hcondition.mono (by omega) le_rfl).append hconsequence (by omega) (by omega) (by omega)
  cases alternative with
  | none =>
    have hlt : s.peek.span.start < consequence.span.stop := by omega
    exact .parent rfl hrow hfirst hend₂ hlt rfl le_rfl (hl₂.trans hm)
  | some body =>
    obtain ⟨hk₃, hlt₃, hl₃, -, hend₃, halternative⟩ := Row.fits_block halternative
    have hlt : s.peek.span.start < body.span.stop := by omega
    have hbodies : Row source s.peek.span.start
        [.expr condition, .block consequence, .block body] body.span.stop :=
      hrow.append halternative (by omega) (by omega) (by omega)
    exact .parent rfl hbodies hfirst hend₃ hlt rfl le_rfl hl₃

/-- A function, where `k` is where its parameters can start at the earliest. -/
theorem row_function {k : Nat} {names : List Ident} {body : Block} (hk : s.peek.span.start ≤ k)
    (hk₁ : k ≤ m₁.peek.span.start) (hm₁ : m₁.OnSource source)
    (hnames : Row source k (names.map .ident) m₁.last)
    (hbody : Row source m₁.peek.span.start [.block body] m.last) :
    Row source s.peek.span.start
      [.expr (.function ⟨s.peek.token, s.peek.span.start, body.span.stop⟩ names body)] m.last := by
  have hfirst := (hs.peek_isPlaced hsize).start
  have hlast := hm₁.last_le_start
  obtain ⟨hk₂, hlt₂, hl₂, -, hend₂, hbody⟩ := hbody.fits_block
  refine .parent rfl ?_ hfirst hend₂ (by omega) rfl le_rfl hl₂
  exact (hnames.mono hk le_rfl).append hbody (by omega) (by omega) (by omega)

omit hs in
theorem row_call {token : Token} {k : Nat} {left : Expr} {values : List Expr}
    (hleft : Row source k [.expr left] m₁.last) (hm₁ : m₁.OnSource source)
    (hvalues : Row source m₁.advance.peek.span.start (values.map .expr) m.last)
    (hm : Follows source m₁.advance m) :
    Row source k [.expr (.call ⟨token, left.span.start, m.last⟩ left values)] m.last := by
  have hb₁ := (follows_advance hsize hm₁).bounds
  have hb := hm.bounds
  obtain ⟨hk, hlt, hl, hstart, -, hleft⟩ := hleft.fits_expr
  refine .parent rfl ?_ hstart hm.onSource.isBoundary (by omega) rfl hk le_rfl
  exact hleft.append hvalues (by omega) (by omega) (by omega)

omit hs in
theorem row_binary {token : Token} {kind : TokenKind} {k : Nat} {left right : Expr}
    (hleft : Row source k [.expr left] m₁.last) (hm₁ : m₁.OnSource source)
    (hright : Row source m₁.advance.peek.span.start [.expr right] m.last) :
    Row source k [.expr (.binary ⟨token, left.span.merge right.span⟩ kind left right)] m.last := by
  have hb₁ := (follows_advance hsize hm₁).bounds
  obtain ⟨hk, hlt, hl, hstart, -, hleft⟩ := hleft.fits_expr
  obtain ⟨hk', hlt', hl', -, hend', hright⟩ := hright.fits_expr
  have hspan : left.span.merge right.span = ⟨left.span.start, right.span.stop⟩ := by
    unfold Span.merge
    congr 1 <;> omega
  refine .parent hspan ?_ hstart hend' (by omega) rfl hk hl'
  exact hleft.append hright (by omega) (by omega) (by omega)

theorem row_block {ts : List Stmt} (hne : s.peek.kind ≠ .eof) (hm : Follows source s.advance m)
    (hbody : Row source s.advance.peek.span.start (ts.map .stmt) m.last) :
    Row source s.peek.span.start
      [.block ⟨⟨s.peek.token, s.peek.span.start, m.peek.span.stop⟩, ts⟩] m.advance.last := by
  have hfirst := hs.peek_isPlaced hsize
  have hclosing := hm.onSource.peek_isPlaced hsize
  have hlt := hfirst.lt hne
  have hle := hclosing.le
  have hb₁ := (follows_advance hsize hs).bounds
  have hb := hm.bounds
  have hstop : s.advance.last = s.peek.span.stop := rfl
  refine .parent rfl (hbody.mono (by omega) (by omega)) hfirst.start hclosing.stop (by omega) rfl
    le_rfl le_rfl

/-- A statement up to the stream `m`, which comes after the clause that it is made of. -/
theorem row_clause {c : Clause} (hclause : Row source s.peek.span.start c.nodes m₁.last)
    (hm : m.OnSource source) (hle : m₁.last ≤ m.last) :
    Row source s.peek.span.start
      [.stmt (c.statement ⟨s.peek.token, s.peek.span.start, m.last⟩)] m.last := by
  have hne : c.nodes ≠ [] := by cases c <;> exact List.cons_ne_nil _ _
  have hlt := hclause.lt_of_ne_nil hne
  refine .parent (c.span_statement _) ?_ (hs.peek_isPlaced hsize).start hm.isBoundary
    (by omega) ?_ le_rfl le_rfl
  · rw [c.children_statement]
    exact hclause.mono le_rfl hle
  · cases c <;> rfl

/-- **Every result stands in a row**, from where its first token starts to where its last one
stops. -/
theorem Derivation.row {x : Piece} (h : Derivation R s x m) :
    Row source s.peek.span.start x.nodes m.last := by
  have hadvance : ∀ {s : TokenStream}, s.OnSource source → Follows source s s.advance :=
    fun hs => follows_advance hsize hs
  induction h with
  | noNames | noParameters _ | noAlternative | noValues | noArguments _ | noStmts _ => exact .nil
  | moreNames _ hname h ih =>
    have h₁ := hadvance hs
    have h₂ := hadvance h₁.onSource
    have hb₁ := h₁.bounds
    have hb₂ := h₂.bounds
    have hb := (h.follows hsize h₂.onSource).bounds
    refine row_name hsize h₁.onSource hname (by omega) hb.2.1 ?_
    exact (ih h₂.onSource).mono (by omega) le_rfl
  | someParameters hname h _ ih =>
    have h₁ := hadvance hs
    have h₂ := h.follows hsize h₁.onSource
    have hb₁ := h₁.bounds
    have hb₂ := h₂.bounds
    have hb := (hadvance h₂.onSource).bounds
    refine row_name hsize hs hname le_rfl (by omega) ?_
    exact (ih h₁.onSource).mono (by omega) (by omega)
  | ident hkind => exact row_leaf rfl (nests_ident (hs.peek_isPlaced hsize) hkind)
  | integer hkind _ => exact row_word hsize hs (by rw [hkind]; decide) rfl rfl rfl
  | string hkind =>
    refine row_leaf rfl (nests_leaf (hs.peek_isPlaced hsize) ?_ rfl rfl fun t ht => ?_)
    · rw [hkind]
      decide
    · cases ht
  | @boolean s value hkind =>
    exact row_word hsize hs (by rw [hkind]; cases value <;> decide) rfl rfl rfl
  | unary _ _ ih => exact row_unary hsize hs (ih (hadvance hs).onSource)
  | grouped _ h _ ih =>
    have h₁ := hadvance hs
    have h₂ := h.follows hsize h₁.onSource
    exact (ih h₁.onSource).mono h₁.start_le (hadvance h₂.onSource).last_le
  | conditional _ _ hcondition _ hconsequence halternative ih₁ ih₂ ih₃ =>
    have h₁ := hadvance hs
    have h₂ := hadvance h₁.onSource
    have h₃ := hcondition.follows hsize h₂.onSource
    have h₄ := hadvance h₃.onSource
    have h₅ := hconsequence.follows hsize h₄.onSource
    exact row_conditional hsize hs (h₁.start_le.trans h₂.start_le) (ih₁ h₂.onSource) h₃.onSource
      (ih₂ h₄.onSource) h₅.onSource (ih₃ h₅.onSource)
      (halternative.follows hsize h₅.onSource).last_le
  | otherwise _ _ ih =>
    have h₁ := hadvance hs
    exact (ih h₁.onSource).mono h₁.start_le le_rfl
  | function _ _ hnames _ ih₁ ih₂ =>
    have h₁ := hadvance hs
    have h₂ := hadvance h₁.onSource
    have h₃ := hnames.follows hsize h₂.onSource
    exact row_function hsize hs (h₁.start_le.trans h₂.start_le) h₃.start_le h₃.onSource
      (ih₁ h₂.onSource) (ih₂ h₃.onSource)
  | call hleft _ hvalues ih₁ ih₂ =>
    have h₁ := hleft.follows hsize hs
    have h₂ := hadvance h₁.onSource
    exact row_call hsize (ih₁ hs) h₁.onSource (ih₂ h₂.onSource)
      (hvalues.follows hsize h₂.onSource)
  | binary hleft _ _ ih₁ ih₂ =>
    have h₁ := hleft.follows hsize hs
    exact row_binary hsize (ih₁ hs) h₁.onSource (ih₂ (hadvance h₁.onSource).onSource)
  | moreValues _ hvalue hvalues ih₁ ih₂ =>
    have h₁ := hadvance hs
    have h₂ := hvalue.follows hsize h₁.onSource
    have hb₂ := h₂.bounds
    have hb := (hvalues.follows hsize h₂.onSource).bounds
    have hrow := (ih₁ h₁.onSource).append (ih₂ h₂.onSource) h₂.start_le hb₂.2.2 hb.2.1
    exact hrow.mono h₁.start_le le_rfl
  | someArguments hvalue hvalues _ ih₁ ih₂ =>
    have h₁ := hvalue.follows hsize hs
    have h₂ := hvalues.follows hsize h₁.onSource
    have hrow := (ih₁ hs).append (ih₂ h₁.onSource) h₁.start_le h₁.bounds.2.2 h₂.last_le
    exact hrow.mono le_rfl (hadvance h₂.onSource).last_le
  | block hkind hbody ih =>
    have h₁ := hadvance hs
    exact row_block hsize hs (by rw [hkind]; decide) (hbody.follows hsize h₁.onSource)
      (ih h₁.onSource)
  | binding _ hname _ hvalue ih =>
    have h₁ := hadvance hs
    have h₂ := hadvance h₁.onSource
    have h₃ := hadvance h₂.onSource
    have hb₂ := h₂.bounds
    have hb₃ := h₃.bounds
    have hb := (hvalue.follows hsize h₃.onSource).bounds
    refine row_name hsize h₁.onSource hname h₁.start_le (by omega) ?_
    exact (ih h₃.onSource).mono (by omega) le_rfl
  | returning _ _ ih =>
    have h₁ := hadvance hs
    exact (ih h₁.onSource).mono h₁.start_le le_rfl
  | evaluation _ ih => exact ih hs
  | nested _ _ ih =>
    obtain ⟨hk, hlt, hl, hstart, hend, hrow⟩ := (ih hs).fits_block
    exact .parent rfl hrow hstart hend hlt rfl hk hl
  | ended ht _ hclause ih =>
    subst ht
    have h₁ := hclause.follows hsize hs
    have hskip : Follows source _ (TokenStream.skip .semicolon _) :=
      follows_of_keeps hsize h₁.onSource fun _ hI => skip_of_advance hI
    exact row_clause hsize hs (ih hs) hskip.onSource hskip.last_le
  | moreStmts hfirst hothers ih₁ ih₂ =>
    have h₁ := hfirst.follows hsize hs
    have h₂ := hothers.follows hsize h₁.onSource
    exact (ih₁ hs).append (ih₂ h₁.onSource) h₁.start_le h₁.bounds.2.2 h₂.last_le
  | gap _ hleads _ ih =>
    have h₁ := follows_of_keeps hsize hs fun I hI hs => hleads I hI (hI _ hs)
    exact (ih h₁.onSource).mono h₁.start_le le_rfl

end Rows

end Parser

/-! ## Sources -/

open ScriptLang.Parser

/-- The statements of a program stand in a row within the program. -/
theorem row_parse {source : String} (hsize : source.utf8ByteSize < offsetLimit) :
    Row source (parse source).program.span.start ((parse source).program.statements.map .stmt)
      (parse source).program.span.stop := by
  obtain ⟨body, m, faults, hbody⟩ := exists_statements_eq (lex source)
  have hs := TokenStream.onSource_lex hsize
  have hderived := (derivedAt True _).statements ⟨faults, hbody, fun _ => trivial⟩
  have hrow := hderived.row hsize hs
  have hm := (hderived.follows hsize hs).onSource
  have hend : m.last ≤ m.peek.span.stop := hm.last_le_start.trans (hm.peek_isPlaced hsize).le
  rw [parse, parseRead, parseTokens, program_of_statements hbody]
  exact hrow.mono le_rfl hend

/-- **Spans nest.** Every node of a program covers some text of the source, and its children are in
order within this text. A name, an integer or a boolean covers the text of its token. The statements
of the program are in order within the program. -/
theorem parse_nodes_isPlaced {source : String} (hsize : source.utf8ByteSize < offsetLimit) :
    (∀ x, (parse source).program.Contains x → x.IsPlaced source) ∧
      (∀ t ∈ (parse source).program.statements,
        (parse source).program.span.start ≤ t.span.start ∧
          t.span.stop ≤ (parse source).program.span.stop) ∧
      (parse source).program.statements.Pairwise fun t u => t.span.stop ≤ u.span.start := by
  have hrow := row_parse hsize
  refine ⟨?_, ?_, ?_⟩
  · rintro x ⟨t, ht, hx⟩
    exact hrow.nests _ (List.mem_map_of_mem ht) x hx
  · exact fun t ht => hrow.inside _ (List.mem_map_of_mem ht)
  · exact List.pairwise_map.mp hrow.pairwise

/-- Two statements that cannot be read are left out, the second of them within a function, and two
blocks run to the end of the source. -/
theorem parse_nodes_isPlaced_unclosed :
    let source := "ß; let f = 1 + (fn(a) \x7b ) -a(\"ü\") \x7d); \x7b 2 \x7b"
    source.utf8ByteSize < offsetLimit ∧
      (parse source).errors.map ParseError.span = [⟨0, 2⟩, ⟨25, 26⟩] ∧
      (parse source).program.statements.map Stmt.span = [⟨4, 39⟩, ⟨40, 45⟩] ∧
      (parse source).program.span = ⟨0, 45⟩ ∧
      (∀ x, (parse source).program.Contains x → x.IsPlaced source) ∧
      (parse source).program.statements.Pairwise fun t u => t.span.stop ≤ u.span.start := by
  have hsize : "ß; let f = 1 + (fn(a) \x7b ) -a(\"ü\") \x7d); \x7b 2 \x7b".utf8ByteSize <
      offsetLimit := by decide
  obtain ⟨hplaced, -, hpairwise⟩ := parse_nodes_isPlaced hsize
  exact ⟨hsize, by decide +kernel, by decide +kernel, by decide +kernel, hplaced, hpairwise⟩

end ScriptLang
