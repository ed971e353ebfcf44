import Mathlib.Data.List.Forall2
import ScriptLang.Proofs.Store.Chain
import ScriptLang.Proofs.Store.Sweep

/-!
# Renaming of scopes

Two stores that hold the same scopes in different slots. What is where is told by a renaming, which
goes one to one between slots. Related slots hold related scopes: the same names are bound to values
that differ at most in the slots that functions refer to, and the slots around are related too.

The renaming is defined on all scopes of the first store, but the second one may hold more. So a
sweep of the first store restricts the renaming to the scopes that are left, and so do sweeps of
both that keep related scopes, while binding names and making scopes on both sides keeps the
renaming or extends it.
-/

namespace ScriptLang

/-- Which slot of one store goes with which slot of another. -/
abbrev Renaming : Type := ScopeId → ScopeId → Prop

variable {ρ ρ' : Renaming}

/-! ## Values -/

namespace Value

/-- The values are the same but for the slots of scopes. -/
inductive Renamed (ρ : Renaming) : Value → Value → Prop where
  | integer (value : Int64) : Renamed ρ (.integer value) (.integer value)
  | boolean (value : Bool) : Renamed ρ (.boolean value) (.boolean value)
  | string (value : String) : Renamed ρ (.string value) (.string value)
  | null : Renamed ρ .null .null
  | returned {v w : Value} : Renamed ρ v w → Renamed ρ (.returned v) (.returned w)
  | function {a b : ScopeId} (parameters : List Ident) (body : Block) : ρ a b →
      Renamed ρ (.function ⟨parameters, body, a⟩) (.function ⟨parameters, body, b⟩)
  | error (cause : RuntimeError) : Renamed ρ (.error cause) (.error cause)

variable {v w : Value}

/-- Another renaming does as well if it agrees on what the first value refers to. -/
theorem Renamed.imp (h : Renamed ρ v w) (hρ : ∀ a b, v.scope? = some a → ρ a b → ρ' a b) :
    Renamed ρ' v w := by
  induction h with
  | integer value => exact .integer value
  | boolean value => exact .boolean value
  | string value => exact .string value
  | null => exact .null
  | returned _ ih => exact .returned (ih hρ)
  | function parameters body hab => exact .function parameters body (hρ _ _ rfl hab)
  | error cause => exact .error cause

theorem Renamed.mono (h : Renamed ρ v w) (hρ : ρ ≤ ρ') : Renamed ρ' v w :=
  h.imp fun a b _ hab => hρ a b hab

/-- A value goes with itself if the scope that it refers to does. -/
theorem renamed_self (hρ : ∀ a, v.scope? = some a → ρ a a) : Renamed ρ v v := by
  induction v with
  | integer value => exact .integer value
  | boolean value => exact .boolean value
  | string value => exact .string value
  | null => exact .null
  | returned v ih => exact .returned (ih hρ)
  | function closure => exact .function closure.parameters closure.body (hρ closure.scope rfl)
  | error cause => exact .error cause

/-- A value that refers to no scope goes with itself. -/
theorem renamed_of_scope?_eq_none (h : v.scope? = none) : Renamed ρ v v := by
  refine renamed_self fun a ha => ?_
  rw [h] at ha
  cases ha

/-- Related values refer to related scopes. -/
theorem Renamed.exists_right {a : ScopeId} (h : Renamed ρ v w) (ha : v.scope? = some a) :
    ∃ b, w.scope? = some b ∧ ρ a b := by
  induction h with
  | returned _ ih => exact ih ha
  | function parameters body hab =>
    obtain rfl := Option.some.inj ha
    exact ⟨_, rfl, hab⟩
  | integer | boolean | string | null | error => cases ha

theorem Renamed.exists_left {b : ScopeId} (h : Renamed ρ v w) (hb : w.scope? = some b) :
    ∃ a, v.scope? = some a ∧ ρ a b := by
  induction h with
  | returned _ ih => exact ih hb
  | function parameters body hab =>
    obtain rfl := Option.some.inj hb
    exact ⟨_, rfl, hab⟩
  | integer | boolean | string | null | error => cases hb

/-- Related values are of the same sort. -/
theorem Renamed.type_eq (h : Renamed ρ v w) : v.type = w.type := by
  cases h <;> rfl

/-- Related values have the same text. -/
theorem Renamed.form_eq (h : Renamed ρ v w) : v.form = w.form := by
  induction h with
  | returned _ ih => exact ih
  | integer | boolean | string | null | function | error => rfl

theorem Renamed.unwrap (h : Renamed ρ v w) : Renamed ρ v.unwrap w.unwrap := by
  cases h with
  | returned h => exact h
  | function parameters body hab => exact .function parameters body hab
  | integer | boolean | string | null | error => exact renamed_of_scope?_eq_none rfl

/-- Operators do not look at the slots of scopes. -/
theorem Renamed.applyUnary_eq (h : Renamed ρ v w) (operator : TokenKind) :
    applyUnary operator v = applyUnary operator w := by
  cases h <;> cases operator <;> rfl

theorem Renamed.applyBinary_eq {v' w' : Value} (h : Renamed ρ v w) (h' : Renamed ρ v' w')
    (operator : TokenKind) : applyBinary operator v v' = applyBinary operator w w' := by
  cases h <;> cases h' <;> rfl

end Value

/-! ## Scopes -/

namespace Scope

/-- The scopes bind the same names to related values, and what is around them is related. -/
structure Renamed (ρ : Renaming) (s t : Scope) : Prop where
  bindings : List.Forall₂ (fun x y => x.1 = y.1 ∧ x.2.Renamed ρ y.2) s.bindings t.bindings
  outer : Option.Rel ρ s.outer t.outer

variable {s t : Scope} {v w : Value}

/-- Another renaming does as well if it agrees on what the first scope refers to. -/
theorem Renamed.imp (h : Renamed ρ s t) (hρ : ∀ a b, a ∈ s.links → ρ a b → ρ' a b) :
    Renamed ρ' s t := by
  constructor
  case bindings =>
    have hmem := (List.forall₂_and_left _ _).mpr ⟨fun x (hx : x ∈ s.bindings) => hx, h.bindings⟩
    refine hmem.imp ?_
    rintro x y ⟨hx, hname, hvalue⟩
    refine ⟨hname, hvalue.imp ?_⟩
    intro a b ha hab
    exact hρ a b (mem_links.mpr (Or.inr ⟨x, hx, ha⟩)) hab
  case outer =>
    have houter := h.outer
    cases hs : s.outer <;> cases ht : t.outer <;> rw [hs, ht] at houter <;> cases houter
    case none.none => exact .none
    case some.some a b hab => exact .some (hρ a b (mem_links.mpr (Or.inl hs)) hab)

theorem Renamed.mono (h : Renamed ρ s t) (hρ : ρ ≤ ρ') : Renamed ρ' s t :=
  h.imp fun a b _ hab => hρ a b hab

/-- A scope goes with itself if what it refers to does. -/
theorem renamed_self (hρ : ∀ a ∈ s.links, ρ a a) : Renamed ρ s s where
  bindings := by
    refine List.forall₂_same.mpr fun x hx => ⟨rfl, Value.renamed_self fun a ha => ?_⟩
    exact hρ a (mem_links.mpr (Or.inr ⟨x, hx, ha⟩))
  outer := by
    cases houter : s.outer with
    | none => exact .none
    | some a => exact .some (hρ a (mem_links.mpr (Or.inl houter)))

/-- Related scopes refer to related scopes. -/
theorem Renamed.exists_link (h : Renamed ρ s t) {a : ScopeId} (ha : a ∈ s.links) :
    ∃ b ∈ t.links, ρ a b := by
  rcases mem_links.mp ha with houter | ⟨x, hx, hvalue⟩
  · have hrel := h.outer
    rw [houter] at hrel
    cases ht : t.outer <;> rw [ht] at hrel <;> cases hrel
    case some.some b hab => exact ⟨b, mem_links.mpr (Or.inl ht), hab⟩
  · obtain ⟨hlength, hrel⟩ := List.forall₂_iff_get.mp h.bindings
    obtain ⟨i, rfl⟩ := List.get_of_mem hx
    have hi : i < t.bindings.length := hlength ▸ i.isLt
    obtain ⟨b, hb, hab⟩ := (hrel i i.isLt hi).2.exists_right hvalue
    exact ⟨b, mem_links.mpr (Or.inr ⟨_, List.get_mem _ _, hb⟩), hab⟩

/-- Related scopes bind a name to related values. -/
theorem Renamed.find? (h : Renamed ρ s t) (name : String) :
    Option.Rel (Value.Renamed ρ) (s.find? name) (t.find? name) := by
  have hbindings := h.bindings
  rw [Scope.find?, Scope.find?]
  generalize s.bindings = bindings at hbindings
  generalize t.bindings = bindings' at hbindings
  induction hbindings with
  | nil => exact .none
  | @cons x y _ _ hxy _ ih =>
    obtain ⟨a, v⟩ := x
    obtain ⟨b, w⟩ := y
    obtain ⟨rfl, hvalue⟩ : a = b ∧ v.Renamed ρ w := hxy
    rw [List.lookup_cons, List.lookup_cons]
    split
    · exact .some hvalue
    · exact ih

theorem Renamed.insert (h : Renamed ρ s t) (name : String) (hvalue : v.Renamed ρ w) :
    Renamed ρ (s.insert name v) (t.insert name w) where
  bindings := by
    refine .cons ⟨rfl, hvalue⟩ (List.rel_filter ?_ h.bindings)
    rintro x y ⟨hname, -⟩
    show decide (x.1 ≠ name) = true ↔ decide (y.1 ≠ name) = true
    rw [hname]
  outer := h.outer

end Scope

/-! ## Stores -/

namespace Renaming

/-- The renaming with one more pair of slots. -/
def extend (ρ : Renaming) (a b : ScopeId) : Renaming := fun c d => ρ c d ∨ (c = a ∧ d = b)

theorem le_extend {a b : ScopeId} : ρ ≤ ρ.extend a b := fun _ _ h => Or.inl h

/-- A renaming stays one to one if slots are added that it did not have. -/
theorem biUnique_extend {a b : ScopeId} (h : Relator.BiUnique ρ) (ha : ∀ d, ¬ρ a d)
    (hb : ∀ c, ¬ρ c b) : Relator.BiUnique (ρ.extend a b) := by
  constructor
  · rintro c c' d (hcd | ⟨hc, hd⟩) (hcd' | ⟨hc', hd'⟩)
    · exact h.1 hcd hcd'
    · exact absurd (hd' ▸ hcd) (hb c)
    · exact absurd (hd ▸ hcd') (hb c')
    · exact hc.trans hc'.symm
  · rintro c d d' (hcd | ⟨hc, hd⟩) (hcd' | ⟨hc', hd'⟩)
    · exact h.2 hcd hcd'
    · exact absurd (hc' ▸ hcd) (ha d)
    · exact absurd (hc ▸ hcd') (ha d')
    · exact hd.trans hd'.symm

/-- The renaming on the slots that are left in a store. -/
def restrict (ρ : Renaming) (s : Store) : Renaming := fun a b => ρ a b ∧ s.Live a

end Renaming

namespace Store

/-- The second store holds the scopes of the first one in other slots. -/
structure Renamed (ρ : Renaming) (s t : Store) : Prop where
  sound_left : s.Sound
  sound_right : t.Sound
  /-- A scope of one store goes with one scope of the other. -/
  biUnique : Relator.BiUnique ρ
  /-- The root scopes go with each other. -/
  root : ρ root root
  /-- Every scope of the first store goes with some scope. -/
  total : ∀ {a}, s.Live a → ∃ b, ρ a b
  /-- Scopes that go with each other are related. -/
  scope : ∀ {a b}, ρ a b → ∃ scope scope', s.scope? a = some scope ∧ t.scope? b = some scope' ∧
    scope.Renamed ρ scope'

variable {s t : Store} {a b : ScopeId} {v w : Value}

theorem Renamed.live_left (h : Renamed ρ s t) (hab : ρ a b) : s.Live a := by
  obtain ⟨scope, scope', hscope, -⟩ := h.scope hab
  exact live_of_scope hscope

theorem Renamed.live_right (h : Renamed ρ s t) (hab : ρ a b) : t.Live b := by
  obtain ⟨scope, scope', -, hscope', -⟩ := h.scope hab
  exact live_of_scope hscope'

theorem Renamed.backs_left (h : Renamed ρ s t) (hvalue : v.Renamed ρ w) : s.Backs v := by
  intro a ha
  obtain ⟨b, -, hab⟩ := hvalue.exists_right ha
  exact h.live_left hab

theorem Renamed.backs_right (h : Renamed ρ s t) (hvalue : v.Renamed ρ w) : t.Backs w := by
  intro b hb
  obtain ⟨a, -, hab⟩ := hvalue.exists_left hb
  exact h.live_right hab

/-- Two new sessions have the same store. -/
theorem renamed_initial : Renamed (fun a b => a = root ∧ b = root) initial initial where
  sound_left := sound_initial
  sound_right := sound_initial
  biUnique := by
    constructor
    · rintro a b c ⟨rfl, -⟩ ⟨rfl, -⟩
      rfl
    · rintro a b c ⟨-, rfl⟩ ⟨-, rfl⟩
      rfl
  root := ⟨rfl, rfl⟩
  total {a} hlive := ⟨root, Nat.lt_one_iff.mp hlive.lt_size, rfl⟩
  scope {a b} := by
    rintro ⟨rfl, rfl⟩
    exact ⟨⟨[], none⟩, ⟨[], none⟩, rfl, rfl, .nil, .none⟩

/-- A sound store goes with itself. -/
theorem Sound.renamed_self (hs : s.Sound) : Renamed (fun a b => a = b ∧ s.Live a) s s where
  sound_left := hs
  sound_right := hs
  biUnique := by
    constructor
    · rintro a b c ⟨rfl, -⟩ ⟨rfl, -⟩
      rfl
    · rintro a b c ⟨rfl, -⟩ ⟨rfl, -⟩
      rfl
  root := ⟨rfl, hs.live_root⟩
  total {a} hlive := ⟨a, rfl, hlive⟩
  scope {a b} := by
    rintro ⟨rfl, hlive⟩
    obtain ⟨scope, hscope⟩ := hlive.exists_scope
    exact ⟨scope, scope, hscope, hscope, Scope.renamed_self fun link hlink =>
      ⟨rfl, hs.live_of_link hscope link hlink⟩⟩

/-! ### Looking names up -/

/-- Related slots are inside related scopes. -/
theorem Renamed.chain (h : Renamed ρ s t) (hab : ρ a b) (n : Nat) :
    List.Forall₂ (Scope.Renamed ρ) (s.chain n a) (t.chain n b) := by
  induction n generalizing a b with
  | zero => exact .nil
  | succ n ih =>
    obtain ⟨scope, scope', hscope, hscope', hrenamed⟩ := h.scope hab
    rw [chain_succ hscope, chain_succ hscope']
    refine .cons hrenamed ?_
    have houter := hrenamed.outer
    cases hs : scope.outer <;> cases ht : scope'.outer <;> rw [hs, ht] at houter <;> cases houter
    case none.none => exact .nil
    case some.some a' b' hab' => exact ih hab'

/-- **A name has related values in related scopes.** -/
theorem Renamed.find? (h : Renamed ρ s t) (hab : ρ a b) (name : String) :
    Option.Rel (Value.Renamed ρ) (s.find? a name) (t.find? b name) := by
  -- The two stores search a different number of scopes, but no more are of use.
  have hleft : s.size ≤ s.size + t.size := Nat.le_add_right _ _
  have hright : t.size ≤ s.size + t.size := Nat.le_add_left _ _
  rw [← h.sound_left.intact.find? a name _ hleft, ← h.sound_right.intact.find? b name _ hright]
  have hchain := h.chain hab (s.size + t.size)
  generalize s.chain (s.size + t.size) a = scopes at hchain
  generalize t.chain (s.size + t.size) b = scopes' at hchain
  induction hchain with
  | nil => exact .none
  | @cons scope scope' _ _ hscope _ ih =>
    rw [List.findSome?_cons, List.findSome?_cons]
    have hfind := hscope.find? name
    cases hs : scope.find? name <;> cases ht : scope'.find? name <;> rw [hs, ht] at hfind <;>
      cases hfind
    case none.none => exact ih
    case some.some hvalue => exact .some hvalue

/-! ### Changing stores -/

/-- Binding a name to related values in related scopes. -/
theorem Renamed.insert (h : Renamed ρ s t) (hab : ρ a b) (hvalue : v.Renamed ρ w)
    (name : String) : Renamed ρ (s.insert a name v) (t.insert b name w) where
  sound_left := h.sound_left.insert (h.backs_left hvalue)
  sound_right := h.sound_right.insert (h.backs_right hvalue)
  biUnique := h.biUnique
  root := h.root
  total hlive := h.total (live_insert.mp hlive)
  scope {c d} hcd := by
    obtain ⟨scope, scope', hscope, hscope', hrenamed⟩ := h.scope hcd
    -- The renaming is one to one, so that the scopes change on both sides or on neither.
    by_cases hc : c = a
    · subst hc
      obtain rfl : d = b := h.biUnique.2 hcd hab
      exact ⟨_, _, scope?_insert_self hscope, scope?_insert_self hscope',
        hrenamed.insert name hvalue⟩
    · have hd : d ≠ b := by
        rintro rfl
        exact hc (h.biUnique.1 hcd hab)
      exact ⟨scope, scope', (scope?_insert_of_ne hc).trans hscope,
        (scope?_insert_of_ne hd).trans hscope', hrenamed⟩


/-- Making a scope inside related ones. The slots that it takes were not in use, so that the
renaming can be extended to them. -/
theorem Renamed.enclose (h : Renamed ρ s t) (hab : ρ a b) :
    Renamed (ρ.extend (s.enclose a).1 (t.enclose b).1) (s.enclose a).2 (t.enclose b).2 where
  sound_left := h.sound_left.enclose (h.live_left hab)
  sound_right := h.sound_right.enclose (h.live_right hab)
  biUnique := by
    refine Renaming.biUnique_extend h.biUnique ?_ ?_
    · intro d hd
      exact h.sound_left.not_live_enclose (h.live_left hd)
    · intro c hc
      exact h.sound_right.not_live_enclose (h.live_right hc)
  root := Or.inl h.root
  total {c} hlive := by
    rcases h.sound_left.live_enclose.mp hlive with rfl | hlive
    · exact ⟨_, Or.inr ⟨rfl, rfl⟩⟩
    · obtain ⟨d, hcd⟩ := h.total hlive
      exact ⟨d, Or.inl hcd⟩
  scope {c d} hcd := by
    rcases hcd with hcd | ⟨rfl, rfl⟩
    · have hc : c ≠ (s.enclose a).1 := by
        rintro rfl
        exact h.sound_left.not_live_enclose (h.live_left hcd)
      have hd : d ≠ (t.enclose b).1 := by
        rintro rfl
        exact h.sound_right.not_live_enclose (h.live_right hcd)
      obtain ⟨scope, scope', hscope, hscope', hrenamed⟩ := h.scope hcd
      exact ⟨scope, scope', (scope?_enclose_of_ne hc).trans hscope,
        (scope?_enclose_of_ne hd).trans hscope', hrenamed.mono Renaming.le_extend⟩
    · exact ⟨_, _, h.sound_left.scope?_enclose_self, h.sound_right.scope?_enclose_self, .nil,
        .some (Or.inl hab)⟩

/-- **A sweep of the first store only restricts the renaming**: a scope that is left refers to
scopes that are left. -/
theorem Renamed.sweep (h : Renamed ρ s t) (kept : List ScopeId) :
    Renamed (ρ.restrict (s.sweep kept)) (s.sweep kept) t where
  sound_left := h.sound_left.sweep
  sound_right := h.sound_right
  biUnique := ⟨fun _ _ _ hac hbc => h.biUnique.1 hac.1 hbc.1,
    fun _ _ _ hab hac => h.biUnique.2 hab.1 hac.1⟩
  root := ⟨h.root, h.sound_left.sweep.live_root⟩
  total {a} hlive := by
    obtain ⟨b, hab⟩ := h.total (live_sweep.mp hlive).live
    exact ⟨b, hab, hlive⟩
  scope {a b} := by
    rintro ⟨hab, hlive⟩
    obtain ⟨scope, scope', hscope, hscope', hrenamed⟩ := h.scope hab
    have hleft : (s.sweep kept).scope? a = some scope :=
      (live_sweep.mp hlive).scope?_sweep.trans hscope
    refine ⟨scope, scope', hleft, hscope', hrenamed.imp ?_⟩
    intro c d hlink hcd
    exact ⟨hcd, h.sound_left.sweep.live_of_link hleft c hlink⟩

/-- What is reached in the first store goes with what is reached in the second one. -/
theorem Renamed.reaches (h : Renamed ρ s t) {starts starts' : List ScopeId}
    (hstarts : List.Forall₂ ρ starts starts') (ha : s.Reaches starts a) :
    ∀ {b}, ρ a b → t.Reaches starts' b := by
  induction ha with
  | @start a hmem hlive =>
    intro b hab
    obtain ⟨hlength, hrel⟩ := List.forall₂_iff_get.mp hstarts
    obtain ⟨i, rfl⟩ := List.get_of_mem hmem
    have hi : i < starts'.length := hlength ▸ i.isLt
    rw [h.biUnique.2 hab (hrel i i.isLt hi)]
    exact .start (List.get_mem _ _) (h.live_right (hrel i i.isLt hi))
  | @link c a scope hreaches hscope hlink hlive ih =>
    intro b hab
    obtain ⟨d, hcd⟩ := h.total hreaches.live
    obtain ⟨scope₁, scope', hscope₁, hscope', hrenamed⟩ := h.scope hcd
    obtain rfl := Option.some.inj (hscope.symm.trans hscope₁)
    obtain ⟨b', hlink', hab'⟩ := hrenamed.exists_link hlink
    rw [h.biUnique.2 hab hab']
    exact .link (ih hcd) hscope' hlink' (h.live_right hab')

/-- **Sweeps of both stores** only restrict the renaming, if what they keep is related. -/
theorem Renamed.sweep_sweep (h : Renamed ρ s t) {kept kept' : List ScopeId}
    (hkept : List.Forall₂ ρ kept kept') :
    Renamed (ρ.restrict (s.sweep kept)) (s.sweep kept) (t.sweep kept') where
  sound_left := h.sound_left.sweep
  sound_right := h.sound_right.sweep
  biUnique := (h.sweep kept).biUnique
  root := (h.sweep kept).root
  total := (h.sweep kept).total
  scope {a b} := by
    rintro ⟨hab, hlive⟩
    obtain ⟨scope, scope', hscope, hscope', hrenamed⟩ := (h.sweep kept).scope ⟨hab, hlive⟩
    have hreaches := h.reaches (.cons h.root hkept) (live_sweep.mp hlive) hab
    exact ⟨scope, scope', hscope, hreaches.scope?_sweep.trans hscope', hrenamed⟩

end Store

end ScriptLang
