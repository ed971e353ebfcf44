import ScriptLang.Proofs.Parse.Language
import ScriptLang.Proofs.Parse.Progress
import ScriptLang.Proofs.Tree.Nodes

/-!
# How results are read

`Derivation R s x m` says how the result `x` of a production is read off the stream `s`, of which
the stream `m` is left. There is a rule for each shape that a result may have, with the tokens that
are read and the results that it is made of. What cannot be read leaves a gap between statements,
and there are such gaps only if `R`: so `Derivation False` is about results without any recovery.

Every result of a production has a derivation. What there is to say about results then follows by
induction on their derivations, and the productions need not be gone through again.
-/

namespace ScriptLang

/-- The nodes right below the statement that a clause makes. -/
def Clause.nodes : Clause → List Node
  | .binding name value => [.ident name, .expr value]
  | .returning value => [.expr value]
  | .expression value => [.expr value]

theorem Clause.children_statement (c : Clause) (origin : Origin) :
    (Node.stmt (c.statement origin)).children = c.nodes := by
  cases c <;> rfl

theorem Clause.span_statement (c : Clause) (origin : Origin) :
    (c.statement origin).span = origin.span := by
  cases c <;> rfl

/-- Advancing leads from `s` to `m`, over one token at least. -/
def TokenStream.LeadsTo (s m : TokenStream) : Prop :=
  ∀ I : TokenStream → Prop, (∀ s, I s → I s.advance) → I s.advance → I m

/-- An operator that binds at all stands between operands, unless it is a parenthesis. -/
theorem mem_binaryOperators_of_rank_lt {kind : TokenKind} {level : Precedence}
    (h : level.rank < kind.precedence.rank) (hne : kind ≠ .leftParen) :
    kind ∈ TokenKind.binaryOperators := by
  cases kind <;> first | decide | exact absurd rfl hne | exact absurd h (Nat.not_lt_zero _)

namespace Parser

variable {α β : Type}

/-! ## Parsers that succeed -/

/-- The parser succeeds, and it recovers from errors only if `R`. -/
def Gives (R : Prop) (p : Parser α) (s : TokenStream) (a : α) (m : TokenStream) : Prop :=
  ∃ faults, p s = ⟨.ok a, m, faults⟩ ∧ (faults ≠ [] → R)

namespace Gives

variable {R : Prop} {s m : TokenStream} {a : α} {b : β}

theorem bind {p : Parser α} {f : α → Parser β} (h : Gives R (p >>= f) s b m) :
    ∃ a m₁, Gives R p s a m₁ ∧ Gives R (f a) m₁ b m := by
  obtain ⟨faults, hreply, hfaults⟩ := h
  obtain ⟨a, ha, -⟩ := exists_ok_of_bind (congrArg Reply.outcome hreply)
  rw [bind_of_ok ha] at hreply
  obtain ⟨hout, hstream, rfl⟩ := Reply.mk.inj hreply
  refine ⟨a, (p s).stream, ⟨(p s).faults, by rw [← ha], fun hne => hfaults ?_⟩,
    ⟨_, by rw [← hout, ← hstream], fun hne => hfaults ?_⟩⟩
  · exact List.append_ne_nil_of_left_ne_nil hne _
  · exact List.append_ne_nil_of_right_ne_nil _ hne

theorem pure {a' : α} (h : Gives R (Pure.pure a) s a' m) : a' = a ∧ m = s := by
  obtain ⟨_, ⟨⟩, -⟩ := h
  exact ⟨rfl, rfl⟩

theorem peek_bind {f : Lexeme → Parser β} (h : Gives R (peek >>= f) s b m) :
    Gives R (f s.peek) s b m := by
  obtain ⟨_, _, ⟨_, ⟨⟩, -⟩, h⟩ := h.bind
  exact h

theorem next_bind {f : Lexeme → Parser β} (h : Gives R (next >>= f) s b m) :
    Gives R (f s.peek) s.advance b m := by
  obtain ⟨_, _, ⟨_, ⟨⟩, -⟩, h⟩ := h.bind
  exact h

theorem expect_bind {kind : TokenKind} {opened : Option Span} {f : Lexeme → Parser β}
    (h : Gives R (expect kind opened >>= f) s b m) :
    s.peek.kind = kind ∧ Gives R (f s.peek) s.advance b m := by
  obtain ⟨x, m₁, ⟨faults, hreply, -⟩, h⟩ := h.bind
  obtain ⟨hkind, rfl, hstream⟩ := expect_ok (congrArg Reply.outcome hreply)
  rw [hreply] at hstream
  cases hstream
  exact ⟨hkind, h⟩

theorem finish_bind {f : Nat → Parser β} (h : Gives R (finish >>= f) s b m) :
    Gives R (f (s.skip .semicolon).last) (s.skip .semicolon) b m := by
  obtain ⟨_, _, ⟨_, ⟨⟩, -⟩, h⟩ := h.bind
  exact h

theorem not_fail {cause : ParseError.Cause} {span : Span} : ¬Gives R (fail cause span) s a m := by
  rintro ⟨_, ⟨⟩, -⟩

theorem not_tooDeep : ¬Gives R tooDeep s a m :=
  fun h => not_fail h.next_bind

/-- There is a result, or the error that takes its place has been recovered from. -/
theorem recovering {p : Parser α} {o : Option α} (h : Gives R (Parser.recovering p) s o m) :
    (∃ a, o = some a ∧ Gives R p s a m) ∨
      o = none ∧ R ∧ m = (p s).stream.skip .semicolon := by
  obtain ⟨faults, hreply, hfaults⟩ := h
  unfold Parser.recovering at hreply
  generalize hp : p s = reply at hreply ⊢
  obtain ⟨e | a, stream, faults'⟩ := reply
  · cases hreply
    refine .inr ⟨rfl, hfaults ?_, rfl⟩
    exact List.append_ne_nil_of_right_ne_nil _ (List.cons_ne_nil _ _)
  · cases hreply
    exact .inl ⟨a, rfl, _, hp, hfaults⟩

end Gives

/-! ## The rules -/

/-- The results of productions. -/
inductive Piece where
  /-- Names, each after a comma. -/
  | names (names : List Ident)
  /-- The names of the parameters, up to the closing parenthesis. -/
  | parameters (names : List Ident)
  | expr (e : Expr)
  /-- Expressions, each after a comma. -/
  | values (values : List Expr)
  /-- The arguments of a call, up to the closing parenthesis. -/
  | arguments (values : List Expr)
  /-- A block from its opening brace on. -/
  | block (b : Block)
  /-- What may follow the consequence of a conditional. -/
  | alternative (b : Option Block)
  | clause (c : Clause)
  | stmt (t : Stmt)
  | stmts (enclosure : Enclosure) (ts : List Stmt)

/-- The result `x` is read off the stream `s`, and `m` is left. -/
inductive Derivation (R : Prop) : TokenStream → Piece → TokenStream → Prop where
  | noNames {s} : Derivation R s (.names []) s
  | moreNames {s m names} :
      s.peek.kind = .comma → s.advance.peek.kind = .ident →
      Derivation R s.advance.advance (.names names) m →
      Derivation R s (.names (⟨s.advance.peek.origin⟩ :: names)) m
  | noParameters {s} : s.peek.kind = .rightParen → Derivation R s (.parameters []) s.advance
  | someParameters {s m names} :
      s.peek.kind = .ident → Derivation R s.advance (.names names) m → m.peek.kind = .rightParen →
      Derivation R s (.parameters (⟨s.peek.origin⟩ :: names)) m.advance
  | ident {s} :
      s.peek.kind = .ident → Derivation R s (.expr (.ident ⟨s.peek.origin⟩)) s.advance
  | integer {s value} :
      s.peek.kind = .int → Text.int64OfDecimal? s.peek.token.literal = some value →
      Derivation R s (.expr (.integer s.peek.origin value)) s.advance
  | string {s} : s.peek.kind = .string → Derivation R s (.expr (.string s.peek.origin)) s.advance
  | boolean {s} {value : Bool} :
      s.peek.kind = (if value then .kwTrue else .kwFalse) →
      Derivation R s (.expr (.boolean s.peek.origin value)) s.advance
  | unary {s m right} :
      s.peek.kind ∈ TokenKind.unaryOperators → Derivation R s.advance (.expr right) m →
      Derivation R s (.expr (.unary ⟨s.peek.token, s.peek.span.start, right.span.stop⟩ s.peek.kind
        right)) m
  | grouped {s m e} :
      s.peek.kind = .leftParen → Derivation R s.advance (.expr e) m → m.peek.kind = .rightParen →
      Derivation R s (.expr e) m.advance
  | conditional {s m₁ m₂ m condition consequence alternative} :
      s.peek.kind = .kwIf → s.advance.peek.kind = .leftParen →
      Derivation R s.advance.advance (.expr condition) m₁ → m₁.peek.kind = .rightParen →
      Derivation R m₁.advance (.block consequence) m₂ →
      Derivation R m₂ (.alternative alternative) m →
      Derivation R s (.expr (.conditional
        ⟨s.peek.token, s.peek.span.start, (alternative.getD consequence).span.stop⟩ condition
        consequence alternative)) m
  | noAlternative {s} : Derivation R s (.alternative none) s
  | otherwise {s m body} :
      s.peek.kind = .kwElse → Derivation R s.advance (.block body) m →
      Derivation R s (.alternative (some body)) m
  | function {s m₁ m names body} :
      s.peek.kind = .kwFn → s.advance.peek.kind = .leftParen →
      Derivation R s.advance.advance (.parameters names) m₁ → Derivation R m₁ (.block body) m →
      Derivation R s (.expr (.function ⟨s.peek.token, s.peek.span.start, body.span.stop⟩ names
        body)) m
  | call {s m₁ m left values} :
      Derivation R s (.expr left) m₁ → m₁.peek.kind = .leftParen →
      Derivation R m₁.advance (.arguments values) m →
      Derivation R s (.expr (.call ⟨m₁.peek.token, left.span.start, m.last⟩ left values)) m
  | binary {s m₁ m left right} :
      Derivation R s (.expr left) m₁ → m₁.peek.kind ∈ TokenKind.binaryOperators →
      Derivation R m₁.advance (.expr right) m →
      Derivation R s (.expr (.binary ⟨m₁.peek.token, left.span.merge right.span⟩ m₁.peek.kind left
        right)) m
  | noValues {s} : Derivation R s (.values []) s
  | moreValues {s m₁ m value values} :
      s.peek.kind = .comma → Derivation R s.advance (.expr value) m₁ →
      Derivation R m₁ (.values values) m → Derivation R s (.values (value :: values)) m
  | noArguments {s} : s.peek.kind = .rightParen → Derivation R s (.arguments []) s.advance
  | someArguments {s m₁ m value values} :
      Derivation R s (.expr value) m₁ → Derivation R m₁ (.values values) m →
      m.peek.kind = .rightParen → Derivation R s (.arguments (value :: values)) m.advance
  | block {s m ts} :
      s.peek.kind = .leftBrace → Derivation R s.advance (.stmts .braces ts) m →
      Derivation R s (.block ⟨⟨s.peek.token, s.peek.span.start, m.peek.span.stop⟩, ts⟩) m.advance
  | binding {s m value} :
      s.peek.kind = .kwLet → s.advance.peek.kind = .ident →
      s.advance.advance.peek.kind = .assign →
      Derivation R s.advance.advance.advance (.expr value) m →
      Derivation R s (.clause (.binding ⟨s.advance.peek.origin⟩ value)) m
  | returning {s m value} :
      s.peek.kind = .kwReturn → Derivation R s.advance (.expr value) m →
      Derivation R s (.clause (.returning value)) m
  | evaluation {s m value} :
      Derivation R s (.expr value) m → Derivation R s (.clause (.expression value)) m
  -- A statement is also known to be what the production for statements gives.
  | nested {s m n body} :
      Gives R (productions n).statement s (.block body) m → Derivation R s (.block body) m →
      Derivation R s (.stmt (.block body)) m
  | ended {s m n clause} {t : Stmt} :
      t = clause.statement ⟨s.peek.token, s.peek.span.start, (m.skip .semicolon).last⟩ →
      Gives R (productions n).statement s t (m.skip .semicolon) →
      Derivation R s (.clause clause) m → Derivation R s (.stmt t) (m.skip .semicolon)
  | noStmts {s enclosure} :
      enclosure.endsAt s.peek.kind → Derivation R s (.stmts enclosure []) s
  | moreStmts {s m₁ m enclosure t ts} :
      Derivation R s (.stmt t) m₁ → Derivation R m₁ (.stmts enclosure ts) m →
      Derivation R s (.stmts enclosure (t :: ts)) m
  | gap {s m₁ m enclosure ts} :
      R → s.LeadsTo m₁ → Derivation R m₁ (.stmts enclosure ts) m →
      Derivation R s (.stmts enclosure ts) m

/-! ## The productions -/

section Productions

variable (R : Prop)

/-- The results of the productions at depth `n` have derivations, together with the tokens and
results that their callers have read. -/
structure DerivedAt (n : Nat) : Prop where
  moreParameters : ∀ {s names m}, Gives R (productions n).moreParameters s names m →
    Derivation R s (.names names) m
  expression : ∀ {level s e m}, Gives R ((productions n).expression level) s e m →
    Derivation R s (.expr e) m
  operand : ∀ {s e m}, Gives R (productions n).operand s e m → Derivation R s (.expr e) m
  unary : ∀ {s e m}, s.peek.kind ∈ TokenKind.unaryOperators →
    Gives R ((productions n).unary s.peek) s.advance e m → Derivation R s (.expr e) m
  grouped : ∀ {s e m}, s.peek.kind = .leftParen →
    Gives R ((productions n).grouped s.peek) s.advance e m → Derivation R s (.expr e) m
  conditional : ∀ {s e m}, s.peek.kind = .kwIf →
    Gives R ((productions n).conditional s.peek) s.advance e m → Derivation R s (.expr e) m
  function : ∀ {s e m}, s.peek.kind = .kwFn →
    Gives R ((productions n).function s.peek) s.advance e m → Derivation R s (.expr e) m
  operators : ∀ {level left s m₁ e m}, Derivation R s (.expr left) m₁ →
    Gives R ((productions n).operators level left) m₁ e m → Derivation R s (.expr e) m
  arguments : ∀ {opening s r m}, Gives R ((productions n).arguments opening) s r m →
    Derivation R s (.arguments r.1) m ∧ r.2.span.stop = m.last
  moreArguments : ∀ {s values m}, Gives R (productions n).moreArguments s values m →
    Derivation R s (.values values) m
  block : ∀ {s b m}, s.peek.kind = .leftBrace →
    Gives R ((productions n).block s.peek) s.advance b m → Derivation R s (.block b) m
  statement : ∀ {s t m}, Gives R (productions n).statement s t m → Derivation R s (.stmt t) m
  statements : ∀ {enclosure s ts m}, Gives R ((productions n).statements enclosure) s ts m →
    Derivation R s (.stmts enclosure ts) m

variable {R} {n : Nat} (ih : DerivedAt R n) {s m : TokenStream}
include ih

namespace DerivedAt

theorem parameters {opening : Lexeme} {names : List Ident}
    (h : Gives R ((productions n).parameters opening) s names m) :
    Derivation R s (.parameters names) m := by
  have h := h.peek_bind
  split at h
  · next hclosing =>
    obtain ⟨rfl, rfl⟩ := h.next_bind.pure
    exact .noParameters hclosing
  · obtain ⟨hname, h⟩ := h.expect_bind
    obtain ⟨names, m₁, hnames, h⟩ := h.bind
    obtain ⟨hclosing, h⟩ := h.expect_bind
    obtain ⟨rfl, rfl⟩ := h.pure
    exact .someParameters hname (ih.moreParameters hnames) hclosing

theorem operandFrom {e : Expr} (h : Gives R ((productions n).operandFrom s.peek) s.advance e m) :
    Derivation R s (.expr e) m := by
  unfold Productions.operandFrom at h
  split at h
  · next hkind =>
    obtain ⟨rfl, rfl⟩ := h.pure
    exact .ident hkind
  · next hkind =>
    unfold integer at h
    split at h
    · next value hvalue =>
      obtain ⟨rfl, rfl⟩ := h.pure
      exact .integer hkind hvalue
    · exact absurd h Gives.not_fail
  · next hkind =>
    obtain ⟨rfl, rfl⟩ := h.pure
    exact .string hkind
  · next hkind =>
    obtain ⟨rfl, rfl⟩ := h.pure
    exact .boolean hkind
  · next hkind =>
    obtain ⟨rfl, rfl⟩ := h.pure
    exact .boolean hkind
  · next hkind => exact ih.unary (by rw [hkind]; decide) h
  · next hkind => exact ih.unary (by rw [hkind]; decide) h
  · next hkind => exact ih.grouped hkind h
  · next hkind => exact ih.conditional hkind h
  · next hkind => exact ih.function hkind h
  · exact absurd h Gives.not_fail

theorem clause {c : Clause} (h : Gives R ((productions n).clause s.peek) s c m) :
    Derivation R s (.clause c) m := by
  unfold Productions.clause at h
  split at h
  · next hkind =>
    obtain ⟨hname, h⟩ := h.next_bind.expect_bind
    obtain ⟨hassign, h⟩ := h.expect_bind
    obtain ⟨value, m₁, hvalue, h⟩ := h.bind
    obtain ⟨rfl, rfl⟩ := h.pure
    exact .binding hkind hname hassign (ih.expression hvalue)
  · next hkind =>
    obtain ⟨value, m₁, hvalue, h⟩ := h.next_bind.bind
    obtain ⟨rfl, rfl⟩ := h.pure
    exact .returning hkind (ih.expression hvalue)
  · obtain ⟨value, m₁, hvalue, h⟩ := h.bind
    obtain ⟨rfl, rfl⟩ := h.pure
    exact .evaluation (ih.expression hvalue)

/-- A block with its opening brace. -/
theorem expect_block {f : Block → Parser β} {b : β}
    (h : Gives R (expect .leftBrace none >>= fun brace => (productions n).block brace >>= f) s b
      m) :
    ∃ body m₁, Derivation R s (.block body) m₁ ∧ Gives R (f body) m₁ b m := by
  obtain ⟨hbrace, h⟩ := h.expect_bind
  obtain ⟨body, m₁, hbody, h⟩ := h.bind
  exact ⟨body, m₁, ih.block hbrace hbody, h⟩

/-! ### One more level of calls -/

theorem unfold_moreParameters {names : List Ident}
    (h : Gives R (productions n).unfold.moreParameters s names m) :
    Derivation R s (.names names) m := by
  have h := h.peek_bind
  split at h
  · next hcomma =>
    obtain ⟨hname, h⟩ := h.next_bind.expect_bind
    obtain ⟨names, m₁, hnames, h⟩ := h.bind
    obtain ⟨rfl, rfl⟩ := h.pure
    exact .moreNames hcomma hname (ih.moreParameters hnames)
  · obtain ⟨rfl, rfl⟩ := h.pure
    exact .noNames

theorem unfold_conditional {e : Expr} (hkind : s.peek.kind = .kwIf)
    (h : Gives R ((productions n).unfold.conditional s.peek) s.advance e m) :
    Derivation R s (.expr e) m := by
  obtain ⟨hopening, h⟩ := h.expect_bind
  obtain ⟨condition, m₁, hcondition, h⟩ := h.bind
  obtain ⟨hclosing, h⟩ := h.expect_bind
  obtain ⟨consequence, m₂, hconsequence, h⟩ := ih.expect_block h
  have hcondition := ih.expression hcondition
  have h := h.peek_bind
  split at h
  · next helse =>
    obtain ⟨alternative, m₃, halternative, h⟩ := ih.expect_block h.next_bind
    obtain ⟨rfl, rfl⟩ := h.pure
    exact .conditional hkind hopening hcondition hclosing hconsequence
      (.otherwise helse halternative)
  · obtain ⟨rfl, rfl⟩ := h.pure
    exact .conditional hkind hopening hcondition hclosing hconsequence .noAlternative

theorem unfold_function {e : Expr} (hkind : s.peek.kind = .kwFn)
    (h : Gives R ((productions n).unfold.function s.peek) s.advance e m) :
    Derivation R s (.expr e) m := by
  obtain ⟨hopening, h⟩ := h.expect_bind
  obtain ⟨names, m₁, hnames, h⟩ := h.bind
  obtain ⟨body, m₂, hbody, h⟩ := ih.expect_block h
  obtain ⟨rfl, rfl⟩ := h.pure
  exact .function hkind hopening (ih.parameters hnames) hbody

theorem unfold_operators {level : Precedence} {left e : Expr} {m₁ : TokenStream}
    (hleft : Derivation R s (.expr left) m₁)
    (h : Gives R ((productions n).unfold.operators level left) m₁ e m) :
    Derivation R s (.expr e) m := by
  have h := h.peek_bind
  split at h
  · next hrank =>
    have h := h.next_bind
    split at h
    · next hcall =>
      obtain ⟨⟨values, closing⟩, m₂, hvalues, h⟩ := h.bind
      obtain ⟨hvalues, hstop⟩ := ih.arguments hvalues
      dsimp only at h hstop
      rw [hstop] at h
      exact ih.operators (.call hleft hcall hvalues) h
    · next hcall =>
      obtain ⟨right, m₂, hright, h⟩ := h.bind
      have hoperator := mem_binaryOperators_of_rank_lt hrank hcall
      exact ih.operators (.binary hleft hoperator (ih.expression hright)) h
  · obtain ⟨rfl, rfl⟩ := h.pure
    exact hleft

theorem unfold_arguments {opening : Lexeme} {r : List Expr × Lexeme}
    (h : Gives R ((productions n).unfold.arguments opening) s r m) :
    Derivation R s (.arguments r.1) m ∧ r.2.span.stop = m.last := by
  have h := h.peek_bind
  split at h
  · next hclosing =>
    obtain ⟨rfl, rfl⟩ := h.next_bind.pure
    exact ⟨.noArguments hclosing, rfl⟩
  · obtain ⟨value, m₁, hvalue, h⟩ := h.bind
    obtain ⟨values, m₂, hvalues, h⟩ := h.bind
    obtain ⟨hclosing, h⟩ := h.expect_bind
    obtain ⟨rfl, rfl⟩ := h.pure
    exact ⟨.someArguments (ih.expression hvalue) (ih.moreArguments hvalues) hclosing, rfl⟩

theorem unfold_moreArguments {values : List Expr}
    (h : Gives R (productions n).unfold.moreArguments s values m) :
    Derivation R s (.values values) m := by
  have h := h.peek_bind
  split at h
  · next hcomma =>
    obtain ⟨value, m₁, hvalue, h⟩ := h.next_bind.bind
    obtain ⟨values, m₂, hvalues, h⟩ := h.bind
    obtain ⟨rfl, rfl⟩ := h.pure
    exact .moreValues hcomma (ih.expression hvalue) (ih.moreArguments hvalues)
  · obtain ⟨rfl, rfl⟩ := h.pure
    exact .noValues

theorem unfold_statement {t : Stmt} (h : Gives R (productions n).unfold.statement s t m) :
    Derivation R s (.stmt t) m := by
  have hfirst := h.peek_bind
  split at hfirst
  · next hbrace =>
    obtain ⟨body, m₁, hbody, hfirst⟩ := hfirst.next_bind.bind
    obtain ⟨rfl, rfl⟩ := hfirst.pure
    exact .nested (n := n + 1) h (ih.block hbrace hbody)
  · obtain ⟨clause, m₁, hclause, hfirst⟩ := hfirst.bind
    obtain ⟨ht, rfl⟩ := hfirst.finish_bind.pure
    exact .ended (n := n + 1) ht h (ih.clause hclause)

theorem unfold_statements {enclosure : Enclosure} {ts : List Stmt}
    (h : Gives R ((productions n).unfold.statements enclosure) s ts m) :
    Derivation R s (.stmts enclosure ts) m := by
  have h := h.peek_bind
  split at h
  · next hends =>
    obtain ⟨rfl, rfl⟩ := h.pure
    exact .noStmts hends
  · obtain ⟨first, m₁, hfirst, h⟩ := h.bind
    obtain ⟨others, m₂, hothers, h⟩ := h.bind
    obtain ⟨rfl, rfl⟩ := h.pure
    rcases hfirst.recovering with ⟨t, rfl, ht⟩ | ⟨rfl, hR, rfl⟩
    · exact .moreStmts (ih.statement ht) (ih.statements hothers)
    · -- A statement reads a token even where it fails.
      refine .gap hR (fun I hI hs => ?_) (ih.statements hothers)
      exact skip_of_advance hI (keepsAfter_statement hI n s hs)

theorem succ : DerivedAt R (n + 1) where
  moreParameters := ih.unfold_moreParameters
  expression h := by
    obtain ⟨left, m₁, hleft, h⟩ := h.bind
    exact ih.operators (ih.operand hleft) h
  operand h := ih.operandFrom h.next_bind
  unary hkind h := by
    obtain ⟨right, m₁, hright, h⟩ := h.bind
    obtain ⟨rfl, rfl⟩ := h.pure
    exact .unary hkind (ih.expression hright)
  grouped hkind h := by
    obtain ⟨inner, m₁, hinner, h⟩ := h.bind
    obtain ⟨hclosing, h⟩ := h.expect_bind
    obtain ⟨rfl, rfl⟩ := h.pure
    exact .grouped hkind (ih.expression hinner) hclosing
  conditional := ih.unfold_conditional
  function := ih.unfold_function
  operators := ih.unfold_operators
  arguments := ih.unfold_arguments
  moreArguments := ih.unfold_moreArguments
  block hkind h := by
    obtain ⟨body, m₁, hbody, h⟩ := h.bind
    obtain ⟨rfl, rfl⟩ := h.next_bind.pure
    exact .block hkind (ih.statements hbody)
  statement := ih.unfold_statement
  statements := ih.unfold_statements

end DerivedAt

end Productions

/-- **Every result of a production has a derivation.** -/
theorem derivedAt (R : Prop) (n : Nat) : DerivedAt R n := by
  induction n with
  | zero => constructor <;> intros <;> exact absurd ‹Gives R _ _ _ _› Gives.not_tooDeep
  | succ n ih => exact ih.succ

/-! ## Streams -/

namespace Derivation

variable {R : Prop} {s m : TokenStream} {x : Piece}

/-- A derivation keeps what advancing keeps. -/
theorem keeps {I : TokenStream → Prop} (hI : ∀ s, I s → I s.advance) (h : Derivation R s x m)
    (hs : I s) : I m := by
  induction h with
  | noNames | noAlternative | noValues | noStmts _ => exact hs
  | moreNames _ _ _ ih => exact ih (hI _ (hI _ hs))
  | noParameters _ | ident _ | integer _ _ | string _ | boolean _ | noArguments _ => exact hI _ hs
  | someParameters _ _ _ ih | grouped _ _ _ ih | block _ _ ih => exact hI _ (ih (hI _ hs))
  | unary _ _ ih | otherwise _ _ ih | returning _ _ ih => exact ih (hI _ hs)
  | conditional _ _ _ _ _ _ ih₁ ih₂ ih₃ => exact ih₃ (ih₂ (hI _ (ih₁ (hI _ (hI _ hs)))))
  | function _ _ _ _ ih₁ ih₂ => exact ih₂ (ih₁ (hI _ (hI _ hs)))
  | call _ _ _ ih₁ ih₂ | binary _ _ _ ih₁ ih₂ => exact ih₂ (hI _ (ih₁ hs))
  | moreValues _ _ _ ih₁ ih₂ => exact ih₂ (ih₁ (hI _ hs))
  | someArguments _ _ _ ih₁ ih₂ => exact hI _ (ih₂ (ih₁ hs))
  | binding _ _ _ _ ih => exact ih (hI _ (hI _ (hI _ hs)))
  | evaluation _ ih | nested _ _ ih => exact ih hs
  | ended _ _ _ ih => exact skip_of_advance hI (ih hs)
  | moreStmts _ _ ih₁ ih₂ => exact ih₂ (ih₁ hs)
  | gap _ hleads _ ih => exact ih (hleads I hI (hI _ hs))

/-- **Statements are read up to where they should end**, whatever errors there are on the way. -/
theorem endsAt {enclosure : Enclosure} {ts : List Stmt}
    (h : Derivation R s (.stmts enclosure ts) m) : enclosure.endsAt m.peek.kind := by
  generalize hx : Piece.stmts enclosure ts = x at h
  induction h generalizing ts with
  | noStmts hends =>
    cases hx
    exact hends
  | moreStmts _ _ _ ih =>
    cases hx
    exact ih rfl
  | gap _ _ _ ih =>
    cases hx
    exact ih rfl
  | _ => cases hx

/-- An expression starts with a token. -/
theorem peek_ne_eof {e : Expr} (h : Derivation R s (.expr e) m) : s.peek.kind ≠ .eof := by
  generalize hx : Piece.expr e = x at h
  induction h generalizing e with
  | ident hkind | integer hkind _ | string hkind | grouped hkind _ _ | conditional hkind _ _ _ _ _
  | function hkind _ _ _ =>
    rw [hkind]
    decide
  | @boolean s value hkind =>
    rw [hkind]
    cases value <;> decide
  | unary hkind _ _ =>
    rintro heof
    rw [heof] at hkind
    exact absurd hkind (by decide)
  | call _ _ _ ih _ | binary _ _ _ ih _ => exact ih rfl
  | _ => cases hx

end Derivation

/-! ## Nodes -/

/-- A result as nodes of a tree. -/
def Piece.nodes : Piece → List Node
  | .names is => is.map .ident
  | .parameters is => is.map .ident
  | .expr e => [.expr e]
  | .values es => es.map .expr
  | .arguments es => es.map .expr
  | .block b => [.block b]
  | .alternative b => b.toList.map .block
  | .clause c => c.nodes
  | .stmt t => [.stmt t]
  | .stmts _ ts => ts.map .stmt

end Parser
end ScriptLang
