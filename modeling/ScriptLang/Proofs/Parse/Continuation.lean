import ScriptLang.Proofs.Parse.Locality

/-!
# What may follow a phrase

A parser may look at the token after a phrase to see that the phrase is complete, but it is complete
in front of the end token as well. And if a parser succeeds at some depth then it does so at every
greater depth.

`Carries ys zs p q` says both at once: what `p` reads in front of `ys` is what `q` reads in front of
`zs`. There is a rule for each way in which parsers are put together.
-/

namespace ScriptLang
namespace Parser

variable {α β : Type}

/-! ## The rules -/

/-- Nothing follows, or the end token in the place of other tokens. -/
inductive Closes : List Lexeme → List Lexeme → Prop where
  | nil : Closes [] []
  | eof {y e : Lexeme} {ys : List Lexeme} : e.kind = .eof → Closes (y :: ys) [e]

/-- If `p` succeeds and leaves `ys`, or more than that, then `q` does the same with `zs` in place of
`ys`. -/
structure Carries (ys zs : List Lexeme) (p q : Parser α) : Prop where
  suffix : ∀ {s a m}, Yields p s a m → m.rest <:+ s.rest
  transfer : ∀ {last xs a m}, Yields p ⟨last, xs ++ ys⟩ a m → ys.length ≤ m.rest.length →
    ∃ last' xs', m = ⟨last', xs' ++ ys⟩ ∧ Yields q ⟨last, xs ++ zs⟩ a ⟨last', xs' ++ zs⟩

theorem yields_peek_bind {f : Lexeme → Parser β} {s m : TokenStream} {b : β} :
    Yields (peek >>= f) s b m ↔ Yields (f s.peek) s b m := by
  refine yields_bind.trans ⟨?_, fun h => ⟨_, _, rfl, h⟩⟩
  rintro ⟨_, _, ⟨⟩, h⟩
  exact h

namespace Carries

variable {ys zs : List Lexeme} {p q : Parser α}

theorem pure (a : α) : Carries ys zs (Pure.pure a : Parser α) (Pure.pure a) where
  suffix := (Local.pure a).suffix
  transfer := by
    rintro last xs _ _ ⟨⟩ -
    exact ⟨last, xs, rfl, rfl⟩

theorem fail {cause : ParseError.Cause} {span : Span} :
    Carries ys zs (Parser.fail cause span) q where
  suffix h := by cases h
  transfer := by
    intro last xs a m h
    cases h

theorem tooDeep : Carries ys zs (Parser.tooDeep : Parser α) q where
  suffix h := by
    obtain ⟨_, _, -, hfail⟩ := yields_bind.mp h
    cases hfail
  transfer := by
    intro last xs a m h
    obtain ⟨_, _, -, hfail⟩ := yields_bind.mp h
    cases hfail

/-- What the first parser leaves is no less than what the second one leaves. -/
theorem bind {f g : α → Parser β} (hp : Carries ys zs p q) (hf : ∀ a, Carries ys zs (f a) (g a)) :
    Carries ys zs (p >>= f) (q >>= g) where
  suffix h := by
    obtain ⟨a, m, hpa, hfb⟩ := yields_bind.mp h
    exact ((hf a).suffix hfb).trans (hp.suffix hpa)
  transfer := by
    intro last xs b m h hlength
    obtain ⟨a, m₁, hpa, hfb⟩ := yields_bind.mp h
    have hle := ((hf a).suffix hfb).length_le
    obtain ⟨last₁, xs₁, rfl, hq⟩ := hp.transfer hpa (hlength.trans hle)
    obtain ⟨last₂, xs₂, rfl, hg⟩ := (hf a).transfer hfb hlength
    exact ⟨last₂, xs₂, rfl, yields_bind.mpr ⟨a, _, hq, hg⟩⟩

theorem ite {c : Prop} [Decidable c] {p' q' : Parser α} (h : Carries ys zs p q)
    (h' : Carries ys zs p' q') : Carries ys zs (if c then p else p') (if c then q else q') := by
  split
  · exact h
  · exact h'

theorem recovering (hp : Carries ys zs p q) :
    Carries ys zs (Parser.recovering p) (Parser.recovering q) where
  suffix h := by
    obtain ⟨a, -, ha⟩ := yields_recovering h
    exact hp.suffix ha
  transfer := by
    intro last xs o m h hlength
    obtain ⟨a, rfl, ha⟩ := yields_recovering h
    obtain ⟨last', xs', rfl, hq⟩ := hp.transfer ha hlength
    have hreply : q ⟨last, xs ++ zs⟩ = ⟨.ok a, ⟨last', xs' ++ zs⟩, []⟩ := hq
    refine ⟨last', xs', rfl, ?_⟩
    rw [Yields, Parser.recovering, hreply]

theorem integer (token : Lexeme) :
    Carries ys zs (Parser.integer token) (Parser.integer token) := by
  unfold Parser.integer
  cases Text.int64OfDecimal? token.token.literal with
  | some value => exact pure _
  | none => exact fail

section Closes

variable (hclose : Closes ys zs)
include hclose

theorem next : Carries ys zs Parser.next Parser.next where
  suffix := Local.next.suffix
  transfer := by
    rintro last xs _ _ ⟨⟩ hlength
    cases xs with
    | cons x xs => exact ⟨x.span.stop, xs, rfl, rfl⟩
    | nil =>
      cases hclose with
      | nil => exact ⟨last, [], rfl, rfl⟩
      | eof _ => exact absurd hlength (Nat.not_succ_le_self _)

theorem expect (kind : TokenKind) (opened : Option Span) :
    Carries ys zs (Parser.expect kind opened) (Parser.expect kind opened) where
  suffix := (Local.expect kind opened).suffix
  transfer := by
    intro last xs x m h hlength
    obtain ⟨hkind, rfl, rfl⟩ := yields_expect h
    cases xs with
    | cons x xs => exact ⟨x.span.stop, xs, rfl, if_pos hkind⟩
    | nil =>
      cases hclose with
      | nil => exact ⟨last, [], rfl, if_pos hkind⟩
      | eof _ => exact absurd hlength (Nat.not_succ_le_self _)

theorem finish : Carries ys zs Parser.finish Parser.finish where
  suffix := Local.finish.suffix
  transfer := by
    intro last xs stop m h hlength
    cases xs with
    | cons x xs =>
      by_cases hkind : x.kind = .semicolon
      · cases h.symm.trans (yields_finish_semicolon hkind (xs ++ ys))
        exact ⟨_, xs, rfl, yields_finish_semicolon hkind _⟩
      · cases h.symm.trans (yields_finish_open hkind (xs ++ ys))
        exact ⟨_, x :: xs, rfl, yields_finish_open hkind _⟩
    | nil =>
      cases hclose with
      | nil =>
        cases h
        exact ⟨last, [], rfl, rfl⟩
      | @eof y e ys he =>
        by_cases hkind : y.kind = .semicolon
        · cases h.symm.trans (yields_finish_semicolon hkind ys)
          exact absurd hlength (Nat.not_succ_le_self _)
        · cases h.symm.trans (yields_finish_open hkind ys)
          exact ⟨last, [], rfl, yields_finish_open (by rw [he]; decide) []⟩

/-- A parser that looks at the next token may do with the end token what it does with another one,
or it reads that one. -/
theorem peek_bind {f g : Lexeme → Parser α} (h : ∀ x, Carries ys zs (f x) (g x))
    (hend : ∀ x e : Lexeme, e.kind = .eof → Carries ys zs (f x) (g e) ∨
      ∀ s a m, s.peek = x → Yields (f x) s a m → m.rest.length ≤ s.rest.length - 1) :
    Carries ys zs (Parser.peek >>= f) (Parser.peek >>= g) where
  suffix {s a m} hyields := (h s.peek).suffix (yields_peek_bind.mp hyields)
  transfer := by
    intro last xs a m hyields hlength
    rw [yields_peek_bind] at hyields
    simp only [yields_peek_bind]
    cases xs with
    | cons x xs => exact (h x).transfer hyields hlength
    | nil =>
      cases hclose with
      | nil => exact (h _).transfer hyields hlength
      | @eof y e ys he =>
        rcases hend y e he with hcarries | hreads
        · exact hcarries.transfer hyields hlength
        · have hle := hreads ⟨last, y :: ys⟩ a m rfl hyields
          exact absurd (hlength.trans hle) (Nat.not_succ_le_self _)

/-- A parser that reads the next token if it is of some kind, and does something else if not. -/
theorem peek_ite {c : Lexeme → Prop} [DecidablePred c] {f g : Lexeme → Lexeme → Parser α}
    (hc : ∀ e : Lexeme, e.kind = .eof → ¬c e) (hf : ∀ x y, Carries ys zs (f x y) (g x y))
    (hp : Carries ys zs p q) :
    Carries ys zs (Parser.peek >>= fun x => if c x then Parser.next >>= f x else p)
      (Parser.peek >>= fun x => if c x then Parser.next >>= g x else q) := by
  refine peek_bind hclose (fun x => .ite ((next hclose).bind (hf x)) hp) fun x e he => ?_
  by_cases hx : c x
  · refine .inr fun s a m _ h => ?_
    rw [if_pos hx] at h
    obtain ⟨_, _, ⟨⟩, h⟩ := yields_bind.mp h
    have hle := ((hf x s.peek).suffix h).length_le
    rwa [TokenStream.length_advance] at hle
  · rw [if_neg hx, if_neg (hc e he)]
    exact .inl hp

end Closes

end Carries

/-! ## The productions -/

section Productions

variable {ys zs : List Lexeme} (hclose : Closes ys zs)
include hclose

omit hclose in
/-- What the parsers of `P` read in front of `ys`, those of `Q` read in front of `zs`. -/
structure CarriesAt (ys zs : List Lexeme) (P Q : Productions) : Prop where
  moreParameters : Carries ys zs P.moreParameters Q.moreParameters
  expression : ∀ level, Carries ys zs (P.expression level) (Q.expression level)
  operand : Carries ys zs P.operand Q.operand
  unary : ∀ first, Carries ys zs (P.unary first) (Q.unary first)
  grouped : ∀ first, Carries ys zs (P.grouped first) (Q.grouped first)
  conditional : ∀ first, Carries ys zs (P.conditional first) (Q.conditional first)
  function : ∀ first, Carries ys zs (P.function first) (Q.function first)
  operators : ∀ level left, Carries ys zs (P.operators level left) (Q.operators level left)
  arguments : ∀ opening, Carries ys zs (P.arguments opening) (Q.arguments opening)
  moreArguments : Carries ys zs P.moreArguments Q.moreArguments
  block : ∀ opening, Carries ys zs (P.block opening) (Q.block opening)
  statement : Carries ys zs P.statement Q.statement
  statements : ∀ enclosure, Carries ys zs (P.statements enclosure) (Q.statements enclosure)

omit hclose in
/-- A statement takes at least one token. -/
theorem length_le_of_yields_statement {n : Nat} {s m : TokenStream} {a : Stmt}
    (h : Yields (productions n).statement s a m) : m.rest.length ≤ s.rest.length - 1 := by
  have hle := length_statement_le n s
  rwa [h] at hle

section Step

variable {P Q : Productions} (ih : CarriesAt ys zs P Q)
include ih

theorem carries_parameters (opening : Lexeme) :
    Carries ys zs (P.parameters opening) (Q.parameters opening) := by
  refine .peek_ite hclose (fun e he => by rw [he]; decide) (fun _ _ => .pure []) ?_
  refine (Carries.expect hclose _ _).bind fun _ => ih.moreParameters.bind fun _ => ?_
  exact (Carries.expect hclose _ _).bind fun _ => .pure _

omit hclose in
theorem carries_operandFrom (first : Lexeme) :
    Carries ys zs (P.operandFrom first) (Q.operandFrom first) := by
  unfold Productions.operandFrom
  generalize first.kind = kind
  cases kind
  case ident => exact .pure _
  case int => exact .integer first
  case string => exact .pure _
  case kwTrue => exact .pure _
  case kwFalse => exact .pure _
  case bang => exact ih.unary first
  case minus => exact ih.unary first
  case leftParen => exact ih.grouped first
  case kwIf => exact ih.conditional first
  case kwFn => exact ih.function first
  all_goals exact .fail

theorem carries_clause (first : Lexeme) : Carries ys zs (P.clause first) (Q.clause first) := by
  unfold Productions.clause
  generalize first.kind = kind
  cases kind
  case kwLet =>
    refine (Carries.next hclose).bind fun _ => (Carries.expect hclose _ _).bind fun _ => ?_
    refine (Carries.expect hclose _ _).bind fun _ => (ih.expression _).bind fun _ => .pure _
  case kwReturn => exact (Carries.next hclose).bind fun _ => (ih.expression _).bind fun _ => .pure _
  all_goals exact (ih.expression _).bind fun _ => .pure _

theorem carries_moreParameters :
    Carries ys zs P.unfold.moreParameters Q.unfold.moreParameters := by
  refine .peek_ite hclose (fun e he => by rw [he]; decide) (fun _ _ => ?_) (.pure [])
  refine (Carries.expect hclose _ _).bind fun _ => ?_
  exact ih.moreParameters.bind fun _ => .pure _

theorem carries_conditional (first : Lexeme) :
    Carries ys zs (P.unfold.conditional first) (Q.unfold.conditional first) := by
  refine (Carries.expect hclose _ _).bind fun _ => (ih.expression _).bind fun _ => ?_
  refine (Carries.expect hclose _ _).bind fun _ => (Carries.expect hclose _ _).bind fun brace => ?_
  refine (ih.block brace).bind fun _ => ?_
  refine .peek_ite hclose (fun e he => by rw [he]; decide) (fun _ _ => ?_) (.pure _)
  refine (Carries.expect hclose _ _).bind fun brace => ?_
  exact (ih.block brace).bind fun _ => .pure _

theorem carries_function (first : Lexeme) :
    Carries ys zs (P.unfold.function first) (Q.unfold.function first) := by
  refine (Carries.expect hclose _ _).bind fun opening => ?_
  refine (carries_parameters hclose ih opening).bind fun _ => ?_
  exact (Carries.expect hclose _ _).bind fun brace => (ih.block brace).bind fun _ => .pure _

theorem carries_operators (level : Precedence) (left : Expr) :
    Carries ys zs (P.unfold.operators level left) (Q.unfold.operators level left) := by
  refine .peek_ite hclose (fun e he => ?_) (fun _ operator => .ite ?_ ?_) (.pure left)
  · rw [he]
    exact Nat.not_lt_zero _
  · exact (ih.arguments operator).bind fun _ => ih.operators level _
  · exact (ih.expression _).bind fun _ => ih.operators level _

theorem carries_arguments (opening : Lexeme) :
    Carries ys zs (P.unfold.arguments opening) (Q.unfold.arguments opening) := by
  refine .peek_ite hclose (fun e he => by rw [he]; decide) (fun _ _ => .pure _) ?_
  refine (ih.expression _).bind fun _ => ih.moreArguments.bind fun _ => ?_
  exact (Carries.expect hclose _ _).bind fun _ => .pure _

theorem carries_moreArguments :
    Carries ys zs P.unfold.moreArguments Q.unfold.moreArguments := by
  refine .peek_ite hclose (fun e he => by rw [he]; decide) (fun _ _ => ?_) (.pure [])
  exact (ih.expression _).bind fun _ => ih.moreArguments.bind fun _ => .pure _

/-- That the statement takes a token settles what it does at the end. -/
theorem carries_statement (hreads : ∀ {s a m}, Yields P.unfold.statement s a m →
      m.rest.length ≤ s.rest.length - 1) :
    Carries ys zs P.unfold.statement Q.unfold.statement := by
  refine .peek_bind hclose (fun first => .ite ?_ ?_) fun first _ _ => .inr fun s a m' hs h => ?_
  · exact (Carries.next hclose).bind fun _ => (ih.block first).bind fun _ => .pure _
  · refine (carries_clause hclose ih first).bind fun _ => ?_
    exact (Carries.finish hclose).bind fun _ => .pure _
  · subst hs
    exact hreads (yields_peek_bind.mpr h)

theorem carries_statements (hreads : ∀ {s a m}, Yields P.statement s a m →
      m.rest.length ≤ s.rest.length - 1) (enclosure : Enclosure) :
    Carries ys zs (P.unfold.statements enclosure) (Q.unfold.statements enclosure) := by
  have hothers : ∀ first : Option Stmt, Carries ys zs
      (P.statements enclosure >>= fun others => Pure.pure (first.toList ++ others))
      (Q.statements enclosure >>= fun others => Pure.pure (first.toList ++ others)) :=
    fun first => (ih.statements enclosure).bind fun _ => .pure _
  refine .peek_bind hclose (fun x => .ite (.pure []) (ih.statement.recovering.bind hothers))
    fun x e he => ?_
  by_cases hx : enclosure.endsAt x.kind
  · have hend : enclosure.endsAt e.kind := by
      rw [he]
      cases enclosure <;> rfl
    rw [if_pos hx, if_pos hend]
    exact .inl (.pure [])
  · refine .inr fun s a m' _ h => ?_
    rw [if_neg hx] at h
    obtain ⟨first, m₁, hfirst, h⟩ := yields_bind.mp h
    obtain ⟨t, rfl, ht⟩ := yields_recovering hfirst
    exact ((hothers _).suffix h).length_le.trans (hreads ht)

end Step

/-- **A phrase is complete in front of the end token**, and at any greater depth. -/
theorem carriesAt {n m : Nat} (hnm : n ≤ m) :
    CarriesAt ys zs (productions n) (productions m) := by
  induction n generalizing m with
  | zero => constructor <;> intros <;> exact .tooDeep
  | succ n hind =>
    obtain ⟨m, rfl⟩ := Nat.exists_eq_add_of_le' (Nat.zero_lt_of_lt hnm)
    have ih := hind (Nat.le_of_succ_le_succ hnm)
    constructor
    case moreParameters => exact carries_moreParameters hclose ih
    case expression => exact fun level => ih.operand.bind fun left => ih.operators level left
    case operand =>
      exact (Carries.next hclose).bind fun first => carries_operandFrom ih first
    case unary => exact fun first => (ih.expression _).bind fun _ => .pure _
    case grouped =>
      refine fun first => (ih.expression _).bind fun _ => ?_
      exact (Carries.expect hclose _ _).bind fun _ => .pure _
    case conditional => exact carries_conditional hclose ih
    case function => exact carries_function hclose ih
    case operators => exact carries_operators hclose ih
    case arguments => exact carries_arguments hclose ih
    case moreArguments => exact carries_moreArguments hclose ih
    case block =>
      refine fun opening => (ih.statements _).bind fun _ => ?_
      exact (Carries.next hclose).bind fun _ => .pure _
    case statement =>
      exact carries_statement hclose ih fun h => length_le_of_yields_statement (n := n + 1) h
    case statements => exact carries_statements hclose ih length_le_of_yields_statement

end Productions

/-! ## Statements -/

/-- A statement is read at any greater depth. -/
theorem yields_statement_of_le {n m : Nat} (hnm : n ≤ m) {s s' : TokenStream} {a : Stmt}
    (h : Yields (productions n).statement s a s') : Yields (productions m).statement s a s' := by
  obtain ⟨last, xs⟩ := s
  rw [← List.append_nil xs] at h ⊢
  obtain ⟨last', xs', rfl, hm⟩ := (carriesAt .nil hnm).statement.transfer h (Nat.zero_le _)
  exact hm

/-- A statement is read as well if nothing comes after it. -/
theorem yields_statement_eof {n last last' : Nat} {xs ys : List Lexeme} {y e : Lexeme} {a : Stmt}
    (he : e.kind = .eof)
    (h : Yields (productions n).statement ⟨last, xs ++ y :: ys⟩ a ⟨last', y :: ys⟩) :
    Yields (productions n).statement ⟨last, xs ++ [e]⟩ a ⟨last', [e]⟩ := by
  obtain ⟨last'', xs', hleft, he'⟩ := (carriesAt (.eof he) le_rfl).statement.transfer h le_rfl
  obtain ⟨rfl, hrest⟩ := TokenStream.mk.inj hleft
  obtain rfl : xs' = [] := List.append_left_eq_self.mp hrest.symm
  exact he'

end Parser
end ScriptLang
