import ScriptLang.Proofs.Parse.Progress

/-!
# Depth

The number that bounds how deep productions nest does not show in what they give, as long as it is
not too small for the stream: at most five productions call each other before a token is read. So
what stands below that many levels of calls is never run, and reading ends by itself.

`Settled k p q` says that `p` and `q` cannot be told apart on streams of at most `k` tokens. There
is a rule for each way in which parsers are put together, and where a token has been read the rest
is about streams of one token less.
-/

namespace ScriptLang
namespace Parser

variable {α β : Type}

/-! ## How much is left -/

/-- Advancing keeps an upper bound of the length. -/
theorem length_advance_le (k : Nat) (s : TokenStream) (h : s.rest.length ≤ k) :
    s.advance.rest.length ≤ k := by
  rw [TokenStream.length_advance]
  omega

/-- After a token that is not the end token there is one less. -/
theorem exists_length_advance_le {k : Nat} {s : TokenStream} (h : s.peek.kind ≠ .eof)
    (hs : s.rest.length ≤ k) : ∃ j, k = j + 1 ∧ s.advance.rest.length ≤ j := by
  have hpos := List.length_pos_iff.mpr (TokenStream.rest_ne_nil_of_peek h)
  have hlen := TokenStream.length_advance s
  exact ⟨k - 1, by omega, by omega⟩

/-- A statement leaves fewer tokens. -/
theorem length_statement_le (n : Nat) (s : TokenStream) :
    ((productions n).statement s).stream.rest.length ≤ s.rest.length - 1 :=
  keepsAfter_statement (length_advance_le (s.rest.length - 1)) n s
    (Nat.le_of_eq (TokenStream.length_advance s))

/-- Recovering drops at most a semicolon more. -/
theorem length_recovering_le (p : Parser α) (s : TokenStream) :
    (recovering p s).stream.rest.length ≤ (p s).stream.rest.length := by
  unfold recovering
  generalize p s = reply
  obtain ⟨outcome | outcome, stream, faults⟩ := reply
  · exact skip_of_advance (length_advance_le stream.rest.length) le_rfl
  · exact le_rfl

/-! ## Agreement on short streams -/

/-- On the stream `s` the two parsers give the same, and they leave `k` tokens at most. -/
def SettledOn (k : Nat) (s : TokenStream) (p q : Parser α) : Prop :=
  p s = q s ∧ (p s).stream.rest.length ≤ k

/-- On streams of `k` tokens at most the two parsers give the same, and they leave no more. -/
def Settled (k : Nat) (p q : Parser α) : Prop :=
  ∀ s : TokenStream, s.rest.length ≤ k → SettledOn k s p q

namespace Settled

variable {k : Nat} {p q : Parser α}

/-- The second parsers have to agree only where they are run. -/
theorem bind_on {f g : α → Parser β} {s : TokenStream} (hp : SettledOn k s p q)
    (hf : ∀ a, (p s).outcome = .ok a → SettledOn k (p s).stream (f a) (g a)) :
    SettledOn k s (p >>= f) (q >>= g) := by
  obtain ⟨hsame, hle⟩ := hp
  unfold SettledOn
  cases h : (p s).outcome with
  | ok a =>
    obtain ⟨hsame', hle'⟩ := hf a h
    rw [bind_of_ok h, bind_of_ok (hsame ▸ h), ← hsame, ← hsame']
    exact ⟨rfl, hle'⟩
  | error e =>
    rw [bind_of_error h, bind_of_error (hsame ▸ h), ← hsame]
    exact ⟨rfl, hle⟩

theorem bind {f g : α → Parser β} (hp : Settled k p q) (hf : ∀ a, Settled k (f a) (g a)) :
    Settled k (p >>= f) (q >>= g) :=
  fun s hs => bind_on (hp s hs) fun a _ => hf a _ (hp s hs).2

/-- A parser that calls nothing else agrees with itself. -/
theorem refl {d : Nat} {place : Place} {f : α → α} (h : Parallel d place f p q) : Settled k p p :=
  fun s hs => ⟨rfl, h.keeps (length_advance_le k) s hs⟩

theorem pure (a : α) : Settled k (Pure.pure a : Parser α) (Pure.pure a) := fun _ hs => ⟨rfl, hs⟩

theorem peek : Settled k Parser.peek Parser.peek := fun _ hs => ⟨rfl, hs⟩

theorem next : Settled k Parser.next Parser.next := fun s hs => ⟨rfl, length_advance_le k s hs⟩

theorem expect (kind : TokenKind) (opened : Option Span) :
    Settled k (Parser.expect kind opened) (Parser.expect kind opened) :=
  fun s hs => ⟨rfl, keeps_expect (length_advance_le k) kind opened s hs⟩

theorem recovering (hp : Settled k p q) :
    Settled k (Parser.recovering p) (Parser.recovering q) := by
  intro s hs
  obtain ⟨hsame, hle⟩ := hp s hs
  refine ⟨?_, Nat.le_trans (length_recovering_le p s) hle⟩
  unfold Parser.recovering
  rw [hsame]

theorem ite {c : Prop} [Decidable c] {p' q' : Parser α} (h : Settled k p q)
    (h' : Settled k p' q') : Settled k (if c then p else p') (if c then q else q') := by
  split
  · exact h
  · exact h'

/-- Where a token is read there is one less for what follows. -/
theorem advance {s : TokenStream} (h : s.peek.kind ≠ .eof) (hs : s.rest.length ≤ k)
    (hp : ∀ j, k = j + 1 → Settled j p q) : SettledOn k s.advance p q := by
  obtain ⟨j, rfl, hle⟩ := exists_length_advance_le h hs
  exact (hp j rfl _ hle).imp_right Nat.le_succ_of_le

theorem expect_bind {kind : TokenKind} {opened : Option Span} {f g : Lexeme → Parser β}
    (hkind : kind ≠ .eof) (hf : ∀ j, k = j + 1 → ∀ x, Settled j (f x) (g x)) :
    Settled k (Parser.expect kind opened >>= f) (Parser.expect kind opened >>= g) := by
  refine fun s hs => bind_on (expect kind opened s hs) fun x hx => ?_
  obtain ⟨hpeek, rfl, hstream⟩ := expect_ok hx
  rw [hstream]
  exact advance (hpeek ▸ hkind) hs fun j hj => hf j hj _

/-- A parser that reads the next token if it is of some kind, and does something else if not. -/
theorem peek_ite {c : Lexeme → Prop} [DecidablePred c] {f g : Lexeme → Lexeme → Parser α}
    {p q : Lexeme → Parser α} (hc : ∀ x : Lexeme, c x → x.kind ≠ .eof)
    (hf : ∀ j, k = j + 1 → ∀ x y, Settled j (f x y) (g x y)) (hp : ∀ x, Settled k (p x) (q x)) :
    Settled k (Parser.peek >>= fun x => if c x then Parser.next >>= f x else p x)
      (Parser.peek >>= fun x => if c x then Parser.next >>= g x else q x) := by
  refine fun s hs => bind_on (peek s hs) fun x hx => ?_
  cases hx
  split
  · next h =>
    refine bind_on (next s hs) fun y hy => ?_
    cases hy
    exact advance (hc _ h) hs fun j hj => hf j hj _ _
  · exact hp _ s hs

end Settled

/-! ## Enough depth -/

/-- With `n` levels of calls the productions give what the parsers of `Q` give, on all streams that
`n` is enough for. -/
structure SettledAt (n : Nat) (Q : Productions) : Prop where
  moreParameters : ∀ k, 5 * k + 1 ≤ n → Settled k (productions n).moreParameters Q.moreParameters
  expression : ∀ k, 5 * k + 2 ≤ n → ∀ level,
    Settled k ((productions n).expression level) (Q.expression level)
  operand : ∀ k, 5 * k + 1 ≤ n → Settled k (productions n).operand Q.operand
  unary : ∀ k, 5 * k + 3 ≤ n → ∀ first, Settled k ((productions n).unary first) (Q.unary first)
  grouped : ∀ k, 5 * k + 3 ≤ n → ∀ first,
    Settled k ((productions n).grouped first) (Q.grouped first)
  conditional : ∀ k, 5 * k + 1 ≤ n → ∀ first,
    Settled k ((productions n).conditional first) (Q.conditional first)
  function : ∀ k, 5 * k + 1 ≤ n → ∀ first,
    Settled k ((productions n).function first) (Q.function first)
  operators : ∀ k, 5 * k + 1 ≤ n → ∀ level left,
    Settled k ((productions n).operators level left) (Q.operators level left)
  arguments : ∀ k, 5 * k + 3 ≤ n → ∀ opening,
    Settled k ((productions n).arguments opening) (Q.arguments opening)
  moreArguments : ∀ k, 5 * k + 1 ≤ n → Settled k (productions n).moreArguments Q.moreArguments
  block : ∀ k, 5 * k + 5 ≤ n → ∀ opening,
    Settled k ((productions n).block opening) (Q.block opening)
  statement : ∀ k, 5 * k + 3 ≤ n → Settled k (productions n).statement Q.statement
  statements : ∀ k, 5 * k + 4 ≤ n → ∀ enclosure,
    Settled k ((productions n).statements enclosure) (Q.statements enclosure)

section Step

variable {n k : Nat} {Q : Productions} (ih : SettledAt n Q)
include ih

theorem settled_parameters (hk : 5 * k + 1 ≤ n) (opening : Lexeme) :
    Settled k ((productions n).parameters opening) (Q.parameters opening) := by
  refine Settled.peek.bind fun _ => .ite (Settled.next.bind fun _ => .pure []) ?_
  refine (Settled.expect _ _).bind fun _ => (ih.moreParameters k hk).bind fun _ => ?_
  exact (Settled.expect _ _).bind fun _ => .pure _

theorem settled_operandFrom (hk : 5 * k + 5 ≤ n) (first : Lexeme) :
    Settled k ((productions n).operandFrom first) (Q.operandFrom first) := by
  unfold Productions.operandFrom
  split
  · exact .pure _
  · exact .refl (.integer (d := 0) first)
  · exact .pure _
  · exact .pure _
  · exact .pure _
  · exact ih.unary k (by omega) first
  · exact ih.unary k (by omega) first
  · exact ih.grouped k (by omega) first
  · exact ih.conditional k (by omega) first
  · exact ih.function k (by omega) first
  · exact fun s hs => ⟨rfl, hs⟩

theorem settled_clause (hk : 5 * k + 2 ≤ n) (first : Lexeme) :
    Settled k ((productions n).clause first) (Q.clause first) := by
  have hvalue := ih.expression k hk .lowest
  unfold Productions.clause
  split
  · refine Settled.next.bind fun _ => (Settled.expect _ _).bind fun _ => ?_
    exact (Settled.expect _ _).bind fun _ => hvalue.bind fun _ => .pure _
  · exact Settled.next.bind fun _ => hvalue.bind fun _ => .pure _
  · exact hvalue.bind fun _ => .pure _

theorem settled_moreParameters (hk : 5 * k + 1 ≤ n + 1) :
    Settled k (productions n).unfold.moreParameters Q.unfold.moreParameters := by
  refine .peek_ite (fun x hx => by rw [hx]; decide) (fun j hj _ _ => ?_) fun _ => .pure []
  refine (Settled.expect _ _).bind fun _ => ?_
  exact (ih.moreParameters j (by omega)).bind fun _ => .pure _

/-- There is nothing to call at the end. -/
theorem settled_operand (hk : 5 * k + 1 ≤ n + 1) :
    Settled k (productions n).unfold.operand Q.unfold.operand := by
  refine fun s hs => Settled.bind_on (Settled.next s hs) fun first hfirst => ?_
  cases hfirst
  by_cases hend : s.peek.kind = .eof
  · simp only [Productions.operandFrom, hend]
    exact ⟨rfl, length_advance_le k s hs⟩
  · exact Settled.advance hend hs fun j hj => settled_operandFrom ih (by omega) _

theorem settled_conditional (hk : 5 * k + 1 ≤ n + 1) (first : Lexeme) :
    Settled k ((productions n).unfold.conditional first) (Q.unfold.conditional first) := by
  refine .expect_bind (by decide) fun j hj _ => ?_
  refine (ih.expression j (by omega) _).bind fun _ => (Settled.expect _ _).bind fun _ => ?_
  refine (Settled.expect _ _).bind fun brace => (ih.block j (by omega) brace).bind fun _ => ?_
  refine Settled.peek.bind fun _ => .ite (Settled.next.bind fun _ => ?_) (.pure _)
  refine (Settled.expect _ _).bind fun brace => ?_
  exact (ih.block j (by omega) brace).bind fun _ => .pure _

theorem settled_function (hk : 5 * k + 1 ≤ n + 1) (first : Lexeme) :
    Settled k ((productions n).unfold.function first) (Q.unfold.function first) := by
  refine .expect_bind (by decide) fun j hj opening => ?_
  refine (settled_parameters ih (by omega) opening).bind fun _ => ?_
  refine (Settled.expect _ _).bind fun brace => ?_
  exact (ih.block j (by omega) brace).bind fun _ => .pure _

/-- Nothing binds as loosely as the end token, so there is an operator to be read. -/
theorem settled_operators (hk : 5 * k + 1 ≤ n + 1) (level : Precedence) (left : Expr) :
    Settled k ((productions n).unfold.operators level left)
      (Q.unfold.operators level left) := by
  refine .peek_ite (fun x hx hend => ?_) (fun j hj _ operator => .ite ?_ ?_) fun _ => .pure left
  · rw [hend] at hx
    exact absurd hx (Nat.not_lt_zero _)
  · refine (ih.arguments j (by omega) operator).bind fun _ => ?_
    exact ih.operators j (by omega) level _
  · refine (ih.expression j (by omega) _).bind fun _ => ?_
    exact ih.operators j (by omega) level _

theorem settled_arguments (hk : 5 * k + 3 ≤ n + 1) (opening : Lexeme) :
    Settled k ((productions n).unfold.arguments opening) (Q.unfold.arguments opening) := by
  refine Settled.peek.bind fun _ => .ite (Settled.next.bind fun _ => .pure _) ?_
  refine (ih.expression k (by omega) _).bind fun _ => ?_
  refine (ih.moreArguments k (by omega)).bind fun _ => ?_
  exact (Settled.expect _ _).bind fun _ => .pure _

theorem settled_moreArguments (hk : 5 * k + 1 ≤ n + 1) :
    Settled k (productions n).unfold.moreArguments Q.unfold.moreArguments := by
  refine .peek_ite (fun x hx => by rw [hx]; decide) (fun j hj _ _ => ?_) fun _ => .pure []
  refine (ih.expression j (by omega) _).bind fun _ => ?_
  exact (ih.moreArguments j (by omega)).bind fun _ => .pure _

theorem settled_statement (hk : 5 * k + 3 ≤ n + 1) :
    Settled k (productions n).unfold.statement Q.unfold.statement := by
  refine .peek_ite (fun x hx => by rw [hx]; decide) (fun j hj first _ => ?_) fun first => ?_
  · exact (ih.block j (by omega) first).bind fun _ => .pure _
  · refine (settled_clause ih (by omega) first).bind fun _ => ?_
    exact (Settled.refl (.finish (d := 0))).bind fun _ => .pure _

/-- Each statement takes a token, and so there are fewer for those that follow. -/
theorem settled_statements (hk : 5 * k + 4 ≤ n + 1) (enclosure : Enclosure) :
    Settled k ((productions n).unfold.statements enclosure)
      (Q.unfold.statements enclosure) := by
  intro s hs
  refine Settled.bind_on (Settled.peek s hs) fun first hfirst => ?_
  cases hfirst
  split
  · exact ⟨rfl, hs⟩
  · next hends =>
    have hend := Enclosure.ne_eof_of_not_endsAt hends
    obtain ⟨j, rfl, hadvance⟩ := exists_length_advance_le hend hs
    refine Settled.bind_on ((ih.statement _ (by omega)).recovering s hs) fun first _ => ?_
    have hle : (recovering (productions n).statement s).stream.rest.length ≤ j := by
      rw [TokenStream.length_advance] at hadvance
      have hshorter := Nat.le_trans (length_recovering_le _ s) (length_statement_le n s)
      exact Nat.le_trans hshorter hadvance
    have hothers : Settled j
        ((productions n).statements enclosure >>= fun others => pure (first.toList ++ others))
        (Q.statements enclosure >>= fun others => pure (first.toList ++ others)) :=
      (ih.statements j (by omega) enclosure).bind fun _ => .pure _
    exact (hothers _ hle).imp_right Nat.le_succ_of_le

/-- One more level changes nothing either. -/
theorem settledAt_succ : SettledAt (n + 1) Q.unfold where
  moreParameters _ hk := settled_moreParameters ih hk
  expression k hk level :=
    (ih.operand k (by omega)).bind fun left => ih.operators k (by omega) level left
  operand _ hk := settled_operand ih hk
  unary k hk _ := (ih.expression k (by omega) _).bind fun _ => .pure _
  grouped k hk _ := (ih.expression k (by omega) _).bind fun _ =>
    (Settled.expect _ _).bind fun _ => .pure _
  conditional _ hk := settled_conditional ih hk
  function _ hk := settled_function ih hk
  operators _ hk := settled_operators ih hk
  arguments _ hk := settled_arguments ih hk
  moreArguments _ hk := settled_moreArguments ih hk
  block k hk _ := (ih.statements k (by omega) _).bind fun _ => Settled.next.bind fun _ => .pure _
  statement _ hk := settled_statement ih hk
  statements _ hk := settled_statements ih hk

end Step

/-- **What stands below does not matter** once the depth is enough for the stream. -/
theorem settledAt (n : Nat) (P : Productions) : SettledAt n (P.unfolded n) := by
  induction n with
  | zero => constructor <;> intros <;> omega
  | succ n ih => exact settledAt_succ ih

theorem unfolded_add (P : Productions) (k n : Nat) :
    P.unfolded (k + n) = (P.unfolded k).unfolded n := by
  induction n with
  | zero => rfl
  | succ n ih => rw [← Nat.add_assoc, Productions.unfolded, ih, Productions.unfolded]

/-- Statements come out the same with any number of levels that is enough, whatever stands below
them. -/
theorem settled_statements_unfolded (P : Productions) {k n : Nat} (h : depth k ≤ n)
    (enclosure : Enclosure) :
    Settled k ((productions (depth k)).statements enclosure)
      ((P.unfolded n).statements enclosure) := by
  obtain ⟨m, rfl⟩ := Nat.exists_eq_add_of_le' h
  rw [unfolded_add]
  exact (settledAt (depth k) (P.unfolded m)).statements k (Nat.le_succ _) enclosure

/-- Statements come out the same at every depth that is enough. -/
theorem statements_eq_of_depth_le {n : Nat} {enclosure : Enclosure} {s : TokenStream}
    (h : depth s.rest.length ≤ n) :
    (productions n).statements enclosure s =
      (productions (depth s.rest.length)).statements enclosure s :=
  (settled_statements_unfolded Productions.exhausted h enclosure s le_rfl).1.symm

/-- So does a source. -/
theorem program_unfolded (P : Productions) {n : Nat} {s : TokenStream}
    (h : depth s.rest.length ≤ n) :
    (P.unfolded n).program s = (productions (depth s.rest.length)).program s := by
  have hprogram : Settled s.rest.length (productions (depth s.rest.length)).program
      (P.unfolded n).program :=
    Settled.peek.bind fun _ => (settled_statements_unfolded P h .file).bind fun _ =>
      Settled.peek.bind fun _ => .pure _
  exact (hprogram s le_rfl).1.symm

end Parser
end ScriptLang
