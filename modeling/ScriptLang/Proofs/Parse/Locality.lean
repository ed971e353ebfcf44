import ScriptLang.Proofs.Parse.Reading

/-!
# What parsers do not look at

The next token is all that a parser looks at before it reads it. So if a parser leaves tokens in
front of some others, it has not looked at these, and with any others in their place it does the
same.

`Local p` says this of a parser that succeeds without any recovery.
-/

namespace ScriptLang
namespace Parser

variable {α β : Type}

/-! ## The rules -/

theorem yields_finish_semicolon {last : Nat} {x : Lexeme} (hx : x.kind = .semicolon)
    (xs : List Lexeme) : Yields finish ⟨last, x :: xs⟩ x.span.stop ⟨x.span.stop, xs⟩ := by
  have hskip : (⟨last, x :: xs⟩ : TokenStream).skip .semicolon = ⟨x.span.stop, xs⟩ := if_pos hx
  rw [Yields, finish, hskip]

theorem yields_finish_open {last : Nat} {x : Lexeme} (hx : x.kind ≠ .semicolon)
    (xs : List Lexeme) : Yields finish ⟨last, x :: xs⟩ last ⟨last, x :: xs⟩ := by
  have hskip : (⟨last, x :: xs⟩ : TokenStream).skip .semicolon = ⟨last, x :: xs⟩ := if_neg hx
  rw [Yields, finish, hskip]

/-- The parser does not look at tokens that come after some that it leaves. -/
structure Local (p : Parser α) : Prop where
  suffix : ∀ {s a s'}, Yields p s a s' → s'.rest <:+ s.rest
  transfer : ∀ {last xs ys a s'}, Yields p ⟨last, xs ++ ys⟩ a s' → ys.length < s'.rest.length →
    ∃ last' xs', s' = ⟨last', xs' ++ ys⟩ ∧ ∀ zs, Yields p ⟨last, xs ++ zs⟩ a ⟨last', xs' ++ zs⟩

namespace Local

variable {p : Parser α}

theorem pure (a : α) : Local (Pure.pure a : Parser α) where
  suffix h := by
    cases h
    exact List.suffix_rfl
  transfer := by
    rintro last xs ys _ _ ⟨⟩ -
    exact ⟨last, xs, rfl, fun zs => rfl⟩

/-- The second parser leaves no more than the first one, so neither looks too far. -/
theorem bind {f : α → Parser β} (hp : Local p) (hf : ∀ a, Local (f a)) : Local (p >>= f) where
  suffix h := by
    obtain ⟨a, m, hpa, hfb⟩ := yields_bind.mp h
    exact ((hf a).suffix hfb).trans (hp.suffix hpa)
  transfer := by
    intro last xs ys b s' h hlength
    obtain ⟨a, m, hpa, hfb⟩ := yields_bind.mp h
    have hle := ((hf a).suffix hfb).length_le
    obtain ⟨last₁, xs₁, rfl, hp'⟩ := hp.transfer hpa (by omega)
    obtain ⟨last₂, xs₂, rfl, hf'⟩ := (hf a).transfer hfb hlength
    exact ⟨last₂, xs₂, rfl, fun zs => yields_bind.mpr ⟨a, _, hp' zs, hf' zs⟩⟩

theorem fail (cause : ParseError.Cause) (span : Span) :
    Local (Parser.fail cause span : Parser α) where
  suffix h := by cases h
  transfer := by
    intro last xs ys a s' h
    cases h

/-- A parser that looks at the next token and may read it. -/
theorem of_cons (hsuffix : ∀ {s a s'}, Yields p s a s' → s'.rest <:+ s.rest)
    (h : ∀ {last x xs a s'}, Yields p ⟨last, x :: xs⟩ a s' →
      (s' = ⟨last, x :: xs⟩ ∧ ∀ zs, Yields p ⟨last, x :: zs⟩ a ⟨last, x :: zs⟩) ∨
      (s' = ⟨x.span.stop, xs⟩ ∧ ∀ zs, Yields p ⟨last, x :: zs⟩ a ⟨x.span.stop, zs⟩)) : Local p where
  suffix := hsuffix
  transfer := by
    intro last xs ys a s' hyields hlt
    cases xs with
    | nil =>
      have hle : s'.rest.length ≤ ys.length := (hsuffix hyields).length_le
      omega
    | cons x xs =>
      rcases h hyields with ⟨rfl, hsame⟩ | ⟨rfl, hread⟩
      · exact ⟨last, x :: xs, rfl, fun zs => hsame (xs ++ zs)⟩
      · exact ⟨_, xs, rfl, fun zs => hread (xs ++ zs)⟩

theorem peek : Local Parser.peek := by
  refine of_cons ?_ ?_
  · rintro s _ _ ⟨⟩
    exact List.suffix_rfl
  · rintro last x xs _ _ ⟨⟩
    exact .inl ⟨rfl, fun zs => rfl⟩

theorem next : Local Parser.next := by
  refine of_cons ?_ ?_
  · rintro s _ _ ⟨⟩
    exact s.rest.tail_suffix
  · rintro last x xs _ _ ⟨⟩
    exact .inr ⟨rfl, fun zs => rfl⟩

theorem expect (kind : TokenKind) (opened : Option Span) : Local (Parser.expect kind opened) := by
  refine of_cons ?_ ?_
  · intro s x s' h
    obtain ⟨-, -, rfl⟩ := yields_expect h
    exact s.rest.tail_suffix
  · intro last x xs y s' h
    obtain ⟨hkind, rfl, rfl⟩ := yields_expect h
    exact .inr ⟨rfl, fun zs => if_pos hkind⟩

theorem finish : Local Parser.finish := by
  refine of_cons ?_ ?_
  · rintro s _ _ ⟨⟩
    have hadvance : ∀ m : TokenStream, m.rest <:+ s.rest → m.advance.rest <:+ s.rest :=
      fun m hm => m.rest.tail_suffix.trans hm
    exact skip_of_advance hadvance List.suffix_rfl
  · intro last x xs stop s' h
    by_cases hkind : x.kind = .semicolon
    · have hfinish : ∀ zs, Yields Parser.finish ⟨last, x :: zs⟩ x.span.stop ⟨x.span.stop, zs⟩ :=
        yields_finish_semicolon hkind
      cases h.symm.trans (hfinish xs)
      exact .inr ⟨rfl, hfinish⟩
    · have hfinish : ∀ zs, Yields Parser.finish ⟨last, x :: zs⟩ last ⟨last, x :: zs⟩ :=
        yields_finish_open hkind
      cases h.symm.trans (hfinish xs)
      exact .inl ⟨rfl, hfinish⟩

theorem recovering (hp : Local p) : Local (Parser.recovering p) where
  suffix h := by
    obtain ⟨a, -, ha⟩ := yields_recovering h
    exact hp.suffix ha
  transfer := by
    intro last xs ys o s' h hlt
    obtain ⟨a, rfl, ha⟩ := yields_recovering h
    obtain ⟨last', xs', rfl, hp'⟩ := hp.transfer ha hlt
    refine ⟨last', xs', rfl, fun zs => ?_⟩
    have hzs : p ⟨last, xs ++ zs⟩ = ⟨.ok a, ⟨last', xs' ++ zs⟩, []⟩ := hp' zs
    rw [Yields, Parser.recovering, hzs]

end Local

/-- **What is put together looks no further than the next token.** -/
theorem Parallel.isLocal {d : Nat} {place : Place} {f : α → α} {p q : Parser α}
    (h : Parallel d place f p q) : Local p := by
  induction h with
  | pure a => exact .pure a
  | bind _ _ hp hk => exact hp.bind hk
  | peek => exact .peek
  | next => exact .next
  | next_bind _ hk => exact Local.next.bind hk
  | expect kind => exact .expect kind none
  | opening_bind _ hk => exact (Local.expect _ _).bind hk
  | closing x => exact .expect _ _
  | fault _ => exact .fail _ _
  | finish => exact .finish
  | recovering _ hp => exact hp.recovering
  | forget _ hp => exact hp
  | enclosed _ _ hp => exact hp

end Parser
end ScriptLang
