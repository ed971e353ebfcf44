import ScriptLang.Proofs.Parse.Derivation
import ScriptLang.Proofs.Tree.Tokens

/-!
# Parsing builds well-formed trees

The tokens of a tree are read off the stream, each where its kind is the one that the node is
written with. So what is read off well-formed tokens is well formed. This holds after a recovery as
much as before: the tree holds only what could be read.
-/

namespace ScriptLang

/-! ## Tokens -/

/-- Whether all tokens of a kind are spelled alike. -/
def TokenKind.isFixed : TokenKind → Bool
  | .eof | .illegal | .ident | .int | .string => false
  | _ => true

/-- A lexeme with a well-formed token, or the end. -/
def Lexeme.IsSound (x : Lexeme) : Prop := x.kind ≠ .eof → x.token.WellFormed

/-- A keyword or symbol is spelled as it should. -/
theorem Lexeme.IsSound.token_eq {x : Lexeme} (hx : x.IsSound) {kind : TokenKind}
    (hkind : x.kind = kind) (hfixed : kind.isFixed) :
    x.token = ⟨kind, kind.keyword?.getD kind.name⟩ := by
  obtain ⟨⟨k, literal⟩, span⟩ := x
  obtain rfl : k = kind := hkind
  have hne : k ≠ .eof := by
    rintro rfl
    cases hfixed
  have hwf : Token.WellFormed ⟨k, literal⟩ := hx hne
  have hliteral : literal = k.keyword?.getD k.name := by
    unfold Token.WellFormed at hwf
    cases k <;> first | exact hwf | cases hfixed
  rw [hliteral]

/-- An operator between operands is spelled by its name. -/
theorem Lexeme.IsSound.token_eq_ofSymbol {x : Lexeme} (hx : x.IsSound)
    (hkind : x.kind ∈ TokenKind.binaryOperators) :
    x.token = Token.ofSymbol x.kind := by
  have hspelled : x.kind.isFixed ∧ x.kind.keyword? = none := by
    generalize x.kind = kind at hkind
    cases kind <;> first | exact ⟨rfl, rfl⟩ | exact absurd hkind (by decide)
  rw [hx.token_eq rfl hspelled.1, hspelled.2]
  rfl

/-- A name is well formed. -/
theorem Lexeme.IsSound.ident {x : Lexeme} (hx : x.IsSound) (hkind : x.kind = .ident) :
    Ident.WellFormed ⟨x.origin⟩ :=
  ⟨hkind, hx (by rw [hkind]; decide)⟩

/-- All tokens to come are well formed, the end token apart. -/
def TokenStream.IsSound (s : TokenStream) : Prop := ∀ x ∈ s.rest, x.IsSound

/-- Advancing leaves well-formed tokens. -/
theorem TokenStream.IsSound.advance {s : TokenStream} (hs : s.IsSound) : s.advance.IsSound :=
  fun x hx => hs x (List.mem_of_mem_tail hx)

/-- The next token is well formed, unless it is the end token. -/
theorem TokenStream.IsSound.peek {s : TokenStream} (hs : s.IsSound) : s.peek.IsSound := by
  unfold TokenStream.peek
  cases hrest : s.rest with
  | nil => exact fun hne => absurd rfl hne
  | cons x rest => exact hs x (by rw [hrest]; exact List.mem_cons_self)

namespace Parser

/-! ## Results -/

/-- A well-formed result, whose first token is the given one. -/
def Piece.WellFormed (first : Token) : Piece → Prop
  | .names is => ∀ i ∈ is, i.WellFormed
  | .parameters is => ∀ i ∈ is, i.WellFormed
  | .expr e => e.WellFormed
  | .values es => Expr.AllWellFormed es
  | .arguments es => Expr.AllWellFormed es
  | .block b => b.WellFormed
  | .alternative b => Block.ElseWellFormed b
  | .clause c => ∀ span, (c.statement ⟨first, span⟩).WellFormed
  | .stmt t => t.WellFormed
  | .stmts _ ts => Stmt.AllWellFormed ts

/-- **What is read off well-formed tokens is well formed.** -/
theorem Derivation.wellFormed {R : Prop} {s m : TokenStream} {x : Piece} (h : Derivation R s x m)
    (hs : s.IsSound) : x.WellFormed s.peek.token := by
  have hI : ∀ s : TokenStream, s.IsSound → s.advance.IsSound := fun _ hs => hs.advance
  induction h with
  | noNames | noParameters _ => exact List.forall_mem_nil _
  | moreNames _ hname _ ih =>
    exact List.forall_mem_cons.mpr ⟨hs.advance.peek.ident hname, ih hs.advance.advance⟩
  | someParameters hname _ _ ih =>
    exact List.forall_mem_cons.mpr ⟨hs.peek.ident hname, ih hs.advance⟩
  | ident hkind => exact hs.peek.ident hkind
  | integer hkind hvalue => exact ⟨hkind, hs.peek (by rw [hkind]; decide), hvalue⟩
  | string hkind => exact ⟨hkind, hs.peek (by rw [hkind]; decide)⟩
  | @boolean s value hkind => cases value <;> exact hs.peek.token_eq hkind rfl
  | unary hkind _ ih =>
    refine ⟨hkind, ?_, ih hs.advance⟩
    rcases TokenKind.mem_unaryOperators.mp hkind with hkind | hkind
    · rw [hkind]
      exact hs.peek.token_eq hkind rfl
    · rw [hkind]
      exact hs.peek.token_eq hkind rfl
  | grouped _ _ _ ih => exact ih hs.advance
  | conditional hkind _ hcondition _ hconsequence _ ih₁ ih₂ ih₃ =>
    have hs₁ := hcondition.keeps hI hs.advance.advance
    have hs₂ := hconsequence.keeps hI hs₁.advance
    exact ⟨hs.peek.token_eq hkind rfl, ih₁ hs.advance.advance, ih₂ hs₁.advance, ih₃ hs₂⟩
  | noAlternative | noValues | noArguments _ | noStmts _ => exact trivial
  | otherwise _ _ ih => exact ih hs.advance
  | function hkind _ hnames _ ih₁ ih₂ =>
    have hs₁ := hnames.keeps hI hs.advance.advance
    exact ⟨hs.peek.token_eq hkind rfl, ih₁ hs.advance.advance, ih₂ hs₁⟩
  | call hleft hcall _ ih₁ ih₂ =>
    have hs₁ := hleft.keeps hI hs
    exact ⟨hs₁.peek.token_eq hcall rfl, ih₁ hs, ih₂ hs₁.advance⟩
  | binary hleft hoperator _ ih₁ ih₂ =>
    have hs₁ := hleft.keeps hI hs
    exact ⟨hoperator, hs₁.peek.token_eq_ofSymbol hoperator, ih₁ hs, ih₂ hs₁.advance⟩
  | moreValues _ hvalue _ ih₁ ih₂ => exact ⟨ih₁ hs.advance, ih₂ (hvalue.keeps hI hs.advance)⟩
  | someArguments hvalue _ _ ih₁ ih₂ => exact ⟨ih₁ hs, ih₂ (hvalue.keeps hI hs)⟩
  | block hkind _ ih => exact ⟨hs.peek.token_eq hkind rfl, ih hs.advance⟩
  | binding hkind hname _ _ ih =>
    intro span
    exact ⟨hs.peek.token_eq hkind rfl, hs.advance.peek.ident hname, ih hs.advance.advance.advance⟩
  | returning hkind _ ih => exact fun span => ⟨hs.peek.token_eq hkind rfl, ih hs.advance⟩
  | evaluation _ ih => exact fun span => ih hs
  | nested _ _ ih => exact ih hs
  | ended ht _ _ ih =>
    subst ht
    exact ih hs _
  | moreStmts hfirst _ ih₁ ih₂ => exact ⟨ih₁ hs, ih₂ (hfirst.keeps hI hs)⟩
  | gap _ hleads _ ih => exact ih (hleads _ hI hs.advance)

end Parser
end ScriptLang
