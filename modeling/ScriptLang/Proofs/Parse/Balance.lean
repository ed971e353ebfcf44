import ScriptLang.Proofs.Parse.Language

/-!
# Braces and last tokens of phrases

Every phrase of the language closes the braces that it opens, and no others. A semicolon ends
statements only: expressions and blocks end with other tokens.

So if a semicolon stands last and as many braces are open as were before, no expression and no block
reaches over the end. Token sequences that are `Whole` have both properties.
-/

namespace ScriptLang

/-! ## Heights -/

/-- The change in the number of open braces. -/
def TokenKind.braceStep : TokenKind → Int
  | .leftBrace => 1
  | .rightBrace => -1
  | _ => 0

/-- How many more braces are opened than closed. -/
def braceHeight : List Token → Int
  | [] => 0
  | t :: ts => t.kind.braceStep + braceHeight ts

theorem braceHeight_append (ts us : List Token) :
    braceHeight (ts ++ us) = braceHeight ts + braceHeight us := by
  induction ts with
  | nil => exact (Int.zero_add _).symm
  | cons t ts ih => rw [List.cons_append, braceHeight, braceHeight, ih, Int.add_assoc]

theorem braceHeight_replicate (k : Nat) :
    braceHeight (List.replicate k (Token.ofSymbol .rightBrace)) = -k := by
  induction k with
  | zero => rfl
  | succ k ih =>
    have hstep : (Token.ofSymbol .rightBrace).kind.braceStep = -1 := rfl
    rw [List.replicate_succ, braceHeight, ih, hstep]
    omega

/-- The height as a difference of counts. -/
theorem braceHeight_eq_sub (ts : List Token) :
    braceHeight ts = ts.countP (·.kind = .leftBrace) - ts.countP (·.kind = .rightBrace) := by
  induction ts with
  | nil => rfl
  | cons t ts ih =>
    rw [braceHeight, ih, List.countP_cons, List.countP_cons]
    generalize t.kind = kind
    cases kind
    case leftBrace =>
      simp [TokenKind.braceStep]
      omega
    case rightBrace =>
      simp [TokenKind.braceStep]
      omega
    all_goals simp [TokenKind.braceStep]

/-- No operator is a brace. -/
theorem TokenKind.braceStep_of_mem_binaryOperators {kind : TokenKind}
    (h : kind ∈ binaryOperators) : kind.braceStep = 0 := by
  revert h
  cases kind <;> decide

/-- No sign is a brace. -/
theorem TokenKind.braceStep_of_mem_unaryOperators {kind : TokenKind}
    (h : kind ∈ unaryOperators) : kind.braceStep = 0 := by
  rcases mem_unaryOperators.mp h with rfl | rfl
  · rfl
  · rfl

namespace Derives

/-- **Phrases close the braces that they open.** -/
theorem braceHeight_eq_zero {phrase : Phrase} {ts : List Token} (h : Derives phrase ts) :
    braceHeight ts = 0 := by
  induction h with
  | braces hopening hclosing _ ih =>
    simp [braceHeight, braceHeight_append, hopening, hclosing, ih, TokenKind.braceStep]
  | binary ho _ _ ihl ihr =>
    rw [braceHeight_append, braceHeight, ihl, ihr, TokenKind.braceStep_of_mem_binaryOperators ho]
    rfl
  | signed ho _ ih =>
    rw [braceHeight, ih, TokenKind.braceStep_of_mem_unaryOperators ho]
    rfl
  | boolean ht =>
    rcases ht with ht | ht
    · rw [braceHeight, ht]; rfl
    · rw [braceHeight, ht]; rfl
  | _ => simp [braceHeight, braceHeight_append, TokenKind.braceStep, *]

end Derives

/-! ## Last tokens -/

/-- There is a last token, and it is not a semicolon. -/
def Unended (ts : List Token) : Prop := ∃ us t, ts = us ++ [t] ∧ t.kind ≠ .semicolon

theorem unended_concat {t : Token} {kind : TokenKind} (us : List Token) (ht : t.kind = kind)
    (hkind : kind ≠ .semicolon) : Unended (us ++ [t]) :=
  ⟨us, t, rfl, ht ▸ hkind⟩

theorem Unended.append {ts : List Token} (us : List Token) (h : Unended ts) :
    Unended (us ++ ts) := by
  obtain ⟨vs, t, rfl, ht⟩ := h
  exact ⟨us ++ vs, t, (List.append_assoc us vs [t]).symm, ht⟩

theorem Unended.cons {ts : List Token} (t : Token) (h : Unended ts) : Unended (t :: ts) :=
  h.append [t]

namespace Derives

theorem unended_block {b : List Token} (h : Derives .block b) : Unended b := by
  cases h with
  | @braces opening closing body _ hclosing _ =>
    exact unended_concat (opening :: body) hclosing (by decide)

theorem unended_atom {a : List Token} (h : Derives .atom a) : Unended a := by
  cases h with
  | ident ht => exact unended_concat [] ht (by decide)
  | integer ht _ => exact unended_concat [] ht (by decide)
  | string ht => exact unended_concat [] ht (by decide)
  | boolean ht =>
    rcases ht with ht | ht
    · exact unended_concat [] ht (by decide)
    · exact unended_concat [] ht (by decide)
  | @grouped opening closing inner _ hclosing _ =>
    exact unended_concat (opening :: inner) hclosing (by decide)
  | conditional _ _ _ _ hconsequence halternative =>
    refine Unended.cons _ (.cons _ (.append _ (.cons _ ?_)))
    cases halternative with
    | noAlternative =>
      rw [List.append_nil]
      exact hconsequence.unended_block
    | otherwise _ hbody => exact (hbody.unended_block.cons _).append _
  | function _ _ _ _ hbody =>
    exact .cons _ (.cons _ (.append _ (hbody.unended_block.cons _)))

theorem unended_primary {p : List Token} (h : Derives .primary p) : Unended p := by
  cases h with
  | single ha => exact ha.unended_atom
  | @call opening closing callee arguments _ hclosing _ _ =>
    exact (unended_concat (opening :: arguments) hclosing (by decide)).append callee

theorem unended_unary {u : List Token} (h : Derives .unary u) : Unended u := by
  induction h using unary_induction with
  | plain hp => exact hp.unended_primary
  | signed _ _ ih => exact ih.cons _

theorem unended_expression {e : List Token} (h : Derives .expression e) : Unended e := by
  cases h with
  | operand hu => exact hu.unended_unary
  | binary _ _ hr => exact (hr.unended_unary.cons _).append _

end Derives

/-! ## Whole phrases -/

/-- Braces are closed, and the last token does not end a statement. -/
structure Whole (ts : List Token) : Prop where
  height : braceHeight ts = 0
  unended : Unended ts

theorem Whole.cons {t : Token} {kind : TokenKind} {ts : List Token} (ht : t.kind = kind)
    (hkind : kind.braceStep = 0) (h : Whole ts) : Whole (t :: ts) where
  height := by rw [braceHeight, ht, hkind, h.height]; rfl
  unended := h.unended.cons t

theorem Derives.whole_block {b : List Token} (h : Derives .block b) : Whole b :=
  ⟨h.braceHeight_eq_zero, h.unended_block⟩

theorem Derives.whole_expression {e : List Token} (h : Derives .expression e) : Whole e :=
  ⟨h.braceHeight_eq_zero, h.unended_expression⟩

end ScriptLang
