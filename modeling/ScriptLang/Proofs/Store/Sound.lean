import Mathlib.Data.Finset.Card
import ScriptLang.Store

/-!
# Sound stores

A store is tidy if its list of released slots is right. In a sound store, moreover, nothing refers
to a released slot, and the scopes around any scope lead to the root scope. Slots are used again, so
a scope may stand in a lower slot than the one around it, and the numbers of slots say nothing about
that; what does is that a scope is made inside one that leads to the root already, and that it is in
a slot that nothing refers to.

Binding a name and making a scope keep every store tidy. They keep a store sound if what they are
given refers to live scopes.
-/

namespace ScriptLang

namespace Store

variable {s : Store} {id outer : ScopeId} {scope : Scope} {name : String} {value : Value}

/-! ## Live slots -/

/-- The slot holds a scope. -/
def Live (s : Store) (id : ScopeId) : Prop := (s.scope? id).isSome

theorem Live.exists_scope (h : s.Live id) : ∃ scope, s.scope? id = some scope :=
  Option.isSome_iff_exists.mp h

theorem live_of_scope (h : s.scope? id = some scope) : s.Live id := by
  rw [Live, h]
  rfl

/-- A live slot is one of the slots. -/
theorem Live.lt_size (h : s.Live id) : id < s.slots.size := by
  obtain ⟨scope, hscope⟩ := h.exists_scope
  by_contra hge
  rw [scope?, Array.getElem?_eq_none (Nat.le_of_not_lt hge)] at hscope
  cases hscope

/-! ## What the steps do to slots -/

/-- Binding a name changes the scope that it is bound in. -/
theorem scope?_insert_self (h : s.scope? id = some scope) :
    (s.insert id name value).scope? id = some (scope.insert name value) := by
  have hlt : id < s.slots.size := (live_of_scope h).lt_size
  rw [Store.insert, h]
  show (s.slots.setIfInBounds id _)[id]?.join = _
  rw [Array.getElem?_setIfInBounds, if_pos rfl, if_pos hlt]
  rfl

/-- Binding a name leaves all other scopes as they are. -/
theorem scope?_insert_of_ne {j : ScopeId} (hne : j ≠ id) :
    (s.insert id name value).scope? j = s.scope? j := by
  rw [Store.insert]
  split
  · rfl
  · show (s.slots.setIfInBounds id _)[j]?.join = _
    rw [Array.getElem?_setIfInBounds, if_neg hne.symm]
    rfl

/-- Binding a name neither makes nor releases a scope. -/
theorem live_insert {j : ScopeId} : (s.insert id name value).Live j ↔ s.Live j := by
  by_cases hj : j = id
  · subst hj
    cases hscope : s.scope? j with
    | none => rw [Store.insert, hscope]
    | some scope => rw [Live, Live, scope?_insert_self hscope, hscope]; rfl
  · rw [Live, Live, scope?_insert_of_ne hj]

/-- Binding a name in a scope neither moves that scope nor its slots. -/
theorem free_insert : (s.insert id name value).free = s.free := by
  rw [Store.insert]
  split <;> rfl

theorem size_slots_insert : (s.insert id name value).slots.size = s.slots.size := by
  rw [Store.insert]
  split
  · rfl
  · exact Array.size_setIfInBounds

end Store

namespace Scope

variable {scope : Scope} {link : ScopeId}

/-! ## The names of a scope -/

theorem find?_insert_self (a : Scope) (name : String) (value : Value) :
    (a.insert name value).find? name = some value := by
  simp [insert, find?]

theorem find?_insert_of_ne {name other : String} (hne : other ≠ name) (a : Scope) (value : Value) :
    (a.insert name value).find? other = a.find? other := by
  have hother : (other == name) = false := beq_false_of_ne hne
  show List.lookup other ((name, value) :: a.bindings.filter (·.1 ≠ name)) = a.bindings.lookup other
  rw [List.lookup_cons, hother]
  show List.lookup other (a.bindings.filter (·.1 ≠ name)) = a.bindings.lookup other
  induction a.bindings with
  | nil => rfl
  | cons b bindings ih =>
    by_cases hb : b.1 = name
    · rw [List.filter_cons_of_neg (by simp [hb]), ih, List.lookup_cons, hb, hother]
    · rw [List.filter_cons_of_pos (by simp [hb]), List.lookup_cons, List.lookup_cons, ih]

/-! ## What scopes and values refer to -/

/-- A scope refers to the scope around it and to the scopes of its values. -/
theorem mem_links : link ∈ scope.links ↔
    scope.outer = some link ∨ ∃ b ∈ scope.bindings, b.2.scope? = some link := by
  rw [links, List.mem_append, Option.mem_toList, List.mem_filterMap]

/-- Binding a name adds no reference but that of the value. -/
theorem mem_links_insert {name : String} {value : Value}
    (h : link ∈ (scope.insert name value).links) :
    link ∈ scope.links ∨ value.scope? = some link := by
  rcases mem_links.mp h with houter | ⟨b, hb, hlink⟩
  · exact Or.inl (mem_links.mpr (Or.inl houter))
  · rcases List.mem_cons.mp hb with rfl | hb
    · exact Or.inr hlink
    · exact Or.inl (mem_links.mpr (Or.inr ⟨b, List.mem_of_mem_filter hb, hlink⟩))

end Scope

namespace Value

/-- What a unary operator gives refers to no scope. -/
theorem scope?_applyUnary (operator : TokenKind) (v : Value) :
    (applyUnary operator v).scope? = none := by
  rw [applyUnary.eq_def]
  split <;> rfl

/-- What a binary operator gives refers to no scope. -/
theorem scope?_applyBinary (operator : TokenKind) (a b : Value) :
    (applyBinary operator a b).scope? = none := by
  rw [applyBinary.eq_def]
  split
  · rw [applyInteger.eq_def]
    split <;> (try split) <;> rfl
  · rw [applyString.eq_def]
    split <;> rfl
  · unfold applyOther
    split_ifs <;> rfl

/-- Taking off a layer of `returned` leaves what a value refers to. -/
theorem scope?_unwrap (v : Value) : v.unwrap.scope? = v.scope? := by
  cases v <;> rfl

end Value

namespace Store

variable {s : Store} {id outer : ScopeId} {scope : Scope} {name : String} {value : Value}

/-! ## Sound stores -/

/-- The store knows which slots are released. -/
structure Tidy (s : Store) : Prop where
  live_root : s.Live root
  /-- Slots are released once. -/
  nodup_free : s.free.toList.Nodup
  /-- The released slots are those that hold nothing. -/
  mem_free : ∀ id, id ∈ s.free ↔ id < s.slots.size ∧ ¬s.Live id

/-- The scopes around a scope lead to the root. -/
inductive Grounded (s : Store) : ScopeId → Prop where
  | root : Grounded s root
  | inner {id outer : ScopeId} {scope : Scope} : s.scope? id = some scope →
      scope.outer = some outer → Grounded s outer → Grounded s id

/-- Scopes refer to scopes, and all of them are inside the root. -/
structure Sound (s : Store) : Prop extends Tidy s where
  /-- There is nothing around the root scope. -/
  root_outer : ∀ {scope}, s.scope? root = some scope → scope.outer = none
  /-- What a scope refers to is live. -/
  live_of_link : ∀ {id scope}, s.scope? id = some scope → ∀ link ∈ scope.links, s.Live link
  /-- From every scope one comes to the root. -/
  grounded : ∀ {id}, s.Live id → s.Grounded id

/-- The scope that a value refers to is live, if there is one. -/
def Backs (s : Store) (value : Value) : Prop := ∀ id, value.scope? = some id → s.Live id

theorem backs_of_scope?_eq_none (h : value.scope? = none) : s.Backs value := by
  intro id hid
  rw [h] at hid
  cases hid

/-- A new session starts with a sound store. -/
theorem sound_initial : initial.Sound := by
  have hzero : ∀ {id}, initial.Live id → id = root := by
    intro id hlive
    exact Nat.lt_one_iff.mp hlive.lt_size
  have hroot : initial.scope? root = some ⟨[], none⟩ := rfl
  constructor
  case toTidy =>
    refine ⟨live_of_scope hroot, List.nodup_nil, fun id => ?_⟩
    constructor
    · intro h
      exact absurd h (Array.not_mem_empty id)
    · rintro ⟨hlt, hdead⟩
      obtain rfl : id = root := Nat.lt_one_iff.mp hlt
      exact absurd (live_of_scope hroot) hdead
  case root_outer =>
    intro scope hscope
    obtain rfl := Option.some.inj (hroot.symm.trans hscope)
    rfl
  case live_of_link =>
    intro id scope hscope link hlink
    obtain rfl := hzero (live_of_scope hscope)
    obtain rfl := Option.some.inj (hroot.symm.trans hscope)
    exact absurd hlink List.not_mem_nil
  case grounded =>
    intro id hlive
    obtain rfl := hzero hlive
    exact .root

/-! ## Binding a name -/

theorem Tidy.insert (hs : s.Tidy) : (s.insert id name value).Tidy where
  live_root := live_insert.mpr hs.live_root
  nodup_free := by
    rw [free_insert]
    exact hs.nodup_free
  mem_free j := by
    rw [free_insert, size_slots_insert, live_insert]
    exact hs.mem_free j

/-- What a scope is after a name has been bound: there is as much around it, and it refers to no
more than before, but for the value. -/
theorem exists_of_scope?_insert {j : ScopeId} {scope' : Scope}
    (hscope' : (s.insert id name value).scope? j = some scope') :
    ∃ scope, s.scope? j = some scope ∧ scope'.outer = scope.outer ∧
      ∀ link ∈ scope'.links, link ∈ scope.links ∨ value.scope? = some link := by
  by_cases hj : j = id
  · subst hj
    obtain ⟨scope, hscope⟩ := (live_insert.mp (live_of_scope hscope')).exists_scope
    rw [scope?_insert_self hscope] at hscope'
    obtain rfl := Option.some.inj hscope'
    exact ⟨scope, hscope, rfl, fun link hlink => Scope.mem_links_insert hlink⟩
  · rw [scope?_insert_of_ne hj] at hscope'
    exact ⟨scope', hscope', rfl, fun link hlink => Or.inl hlink⟩

/-- Binding a name leaves the scopes around a scope as they are. -/
theorem Grounded.insert (h : s.Grounded id) {j : ScopeId} :
    (s.insert j name value).Grounded id := by
  induction h with
  | root => exact .root
  | @inner id outer scope hscope houter _ ih =>
    by_cases hj : id = j
    · subst hj
      exact .inner (scope?_insert_self hscope) houter ih
    · exact .inner ((scope?_insert_of_ne hj).trans hscope) houter ih

/-- **Binding a value that refers to a live scope keeps a store sound.** -/
theorem Sound.insert (hs : s.Sound) (hvalue : s.Backs value) : (s.insert id name value).Sound := by
  constructor
  case toTidy => exact hs.toTidy.insert
  case root_outer =>
    intro scope' hscope'
    obtain ⟨scope, hscope, houter, -⟩ := exists_of_scope?_insert hscope'
    exact houter.trans (hs.root_outer hscope)
  case live_of_link =>
    intro j scope' hscope' link hlink
    obtain ⟨scope, hscope, -, hlinks⟩ := exists_of_scope?_insert hscope'
    rw [live_insert]
    rcases hlinks link hlink with hlink | hlink
    · exact hs.live_of_link hscope link hlink
    · exact hvalue link hlink
  case grounded =>
    intro j hlive
    exact (hs.grounded (live_insert.mp hlive)).insert

/-! ## Making a scope -/

/-- A new scope takes the slot released last, which is then no longer released. -/
theorem enclose_of_back (h : s.free.back? = some id) :
    s.enclose outer = (id, ⟨s.slots.setIfInBounds id (some ⟨[], some outer⟩), s.free.pop⟩) := by
  rw [enclose, h]

/-- A new scope takes a new slot if none is released. -/
theorem enclose_of_back_none (h : s.free.back? = none) :
    s.enclose outer = (s.slots.size, { s with slots := s.slots.push (some ⟨[], some outer⟩) }) := by
  rw [enclose, h]

/-- The released slots are the last one and the others. -/
theorem toList_free_of_back (h : s.free.back? = some id) :
    s.free.toList = s.free.pop.toList ++ [id] := by
  have hlast : s.free.toList.getLast? = some id := by rw [← h, Array.getLast?_toList]
  rw [Array.toList_pop, List.dropLast_append_getLast? id hlast]

theorem mem_free_of_back (h : s.free.back? = some id) : id ∈ s.free := by
  rw [← Array.mem_toList_iff, toList_free_of_back h]
  exact List.mem_append_right _ (List.mem_singleton_self id)

/-- The slot of a new scope held nothing. -/
theorem Tidy.not_live_enclose (hs : s.Tidy) : ¬s.Live (s.enclose outer).1 := by
  cases hback : s.free.back? with
  | none =>
    rw [enclose_of_back_none hback]
    exact fun hlive => Nat.lt_irrefl _ hlive.lt_size
  | some id =>
    rw [enclose_of_back hback]
    exact ((hs.mem_free id).mp (mem_free_of_back hback)).2

/-- Making a scope puts an empty one in its slot. -/
theorem Tidy.scope?_enclose_self (hs : s.Tidy) :
    (s.enclose outer).2.scope? (s.enclose outer).1 = some ⟨[], some outer⟩ := by
  cases hback : s.free.back? with
  | none =>
    rw [enclose_of_back_none hback]
    show (s.slots.push _)[s.slots.size]?.join = _
    rw [Array.getElem?_push, if_pos rfl]
    rfl
  | some id =>
    have hlt := ((hs.mem_free id).mp (mem_free_of_back hback)).1
    rw [enclose_of_back hback]
    show (s.slots.setIfInBounds id _)[id]?.join = _
    rw [Array.getElem?_setIfInBounds, if_pos rfl, if_pos hlt]
    rfl

/-- Making a scope leaves all other slots as they are. -/
theorem scope?_enclose_of_ne {j : ScopeId} (hne : j ≠ (s.enclose outer).1) :
    (s.enclose outer).2.scope? j = s.scope? j := by
  cases hback : s.free.back? with
  | none =>
    rw [enclose_of_back_none hback] at hne ⊢
    show (s.slots.push _)[j]?.join = _
    rw [Array.getElem?_push, if_neg hne]
    rfl
  | some id =>
    rw [enclose_of_back hback] at hne ⊢
    show (s.slots.setIfInBounds id _)[j]?.join = _
    rw [Array.getElem?_setIfInBounds, if_neg (Ne.symm hne)]
    rfl

/-- Making a scope makes its slot live and no other one. -/
theorem Tidy.live_enclose (hs : s.Tidy) {j : ScopeId} :
    (s.enclose outer).2.Live j ↔ j = (s.enclose outer).1 ∨ s.Live j := by
  by_cases hj : j = (s.enclose outer).1
  · rw [hj]
    exact ⟨fun _ => Or.inl rfl, fun _ => live_of_scope hs.scope?_enclose_self⟩
  · rw [Live, Live, scope?_enclose_of_ne hj]
    exact ⟨Or.inr, fun h => h.resolve_left hj⟩

/-- Making a scope takes its slot off the released ones. -/
theorem Tidy.mem_free_enclose (hs : s.Tidy) {j : ScopeId} :
    j ∈ (s.enclose outer).2.free ↔ j ≠ (s.enclose outer).1 ∧ j ∈ s.free := by
  cases hback : s.free.back? with
  | none =>
    have hfree : s.free = #[] := Array.back?_eq_none_iff.mp hback
    rw [enclose_of_back_none hback, hfree]
    constructor
    · intro h
      exact absurd h (Array.not_mem_empty j)
    · intro h
      exact h.2
  | some id =>
    -- No slot is released twice, so the last one is not among the others.
    have hnodup := hs.nodup_free
    rw [toList_free_of_back hback] at hnodup
    rw [enclose_of_back hback, ← Array.mem_toList_iff, ← Array.mem_toList_iff,
      toList_free_of_back hback, List.mem_append, List.mem_singleton]
    constructor
    · intro h
      refine ⟨?_, Or.inl h⟩
      rintro rfl
      exact (List.nodup_append.mp hnodup).2.2 _ h _ (List.mem_singleton_self _) rfl
    · rintro ⟨hne, h⟩
      exact h.resolve_right hne

/-- The slots after a scope has been made: the old ones and that of the scope. -/
theorem Tidy.lt_size_slots_enclose (hs : s.Tidy) {j : ScopeId} :
    j < (s.enclose outer).2.slots.size ↔ j = (s.enclose outer).1 ∨ j < s.slots.size := by
  cases hback : s.free.back? with
  | none =>
    rw [enclose_of_back_none hback]
    show j < (s.slots.push _).size ↔ j = s.slots.size ∨ j < s.slots.size
    rw [Array.size_push, Nat.lt_succ_iff_lt_or_eq, or_comm]
  | some id =>
    have hlt := ((hs.mem_free id).mp (mem_free_of_back hback)).1
    rw [enclose_of_back hback]
    show j < (s.slots.setIfInBounds id _).size ↔ j = id ∨ j < s.slots.size
    rw [Array.size_setIfInBounds]
    constructor
    · exact Or.inr
    · rintro (rfl | h)
      · exact hlt
      · exact h

/-- Making a scope leaves the scopes around a scope as they are, for no scope was in its slot. -/
theorem Tidy.grounded_enclose (hs : s.Tidy) (h : s.Grounded id) :
    (s.enclose outer).2.Grounded id := by
  induction h with
  | root => exact .root
  | @inner id outer' scope hscope houter _ ih =>
    have hne : id ≠ (s.enclose outer).1 := by
      intro hid
      exact hs.not_live_enclose (hid ▸ live_of_scope hscope)
    exact .inner ((scope?_enclose_of_ne hne).trans hscope) houter ih

theorem Tidy.enclose (hs : s.Tidy) : (s.enclose outer).2.Tidy where
  live_root := hs.live_enclose.mpr (Or.inr hs.live_root)
  nodup_free := by
    cases hback : s.free.back? with
    | none =>
      rw [enclose_of_back_none hback]
      exact hs.nodup_free
    | some id =>
      have hnodup := hs.nodup_free
      rw [toList_free_of_back hback] at hnodup
      rw [enclose_of_back hback]
      exact (List.nodup_append.mp hnodup).1
  mem_free j := by
    rw [hs.mem_free_enclose, hs.mem_free, hs.lt_size_slots_enclose, hs.live_enclose]
    constructor
    · rintro ⟨hne, hlt, hdead⟩
      exact ⟨Or.inr hlt, fun h => h.elim hne hdead⟩
    · rintro ⟨hlt, hdead⟩
      have hne : j ≠ (s.enclose outer).1 := fun h => hdead (Or.inl h)
      exact ⟨hne, hlt.resolve_left hne, fun h => hdead (Or.inr h)⟩

/-- **Making a scope inside a live one keeps a store sound.** -/
theorem Sound.enclose (hs : s.Sound) (houter : s.Live outer) : (s.enclose outer).2.Sound := by
  have hself : (s.enclose outer).2.scope? (s.enclose outer).1 = some ⟨[], some outer⟩ :=
    hs.scope?_enclose_self
  constructor
  case toTidy => exact hs.toTidy.enclose
  case root_outer =>
    intro scope hscope
    have hne : root ≠ (s.enclose outer).1 := by
      intro hroot
      exact hs.not_live_enclose (hroot ▸ hs.live_root)
    rw [scope?_enclose_of_ne hne] at hscope
    exact hs.root_outer hscope
  case live_of_link =>
    intro j scope hscope link hlink
    rw [hs.live_enclose]
    by_cases hj : j = (s.enclose outer).1
    · rw [hj, hself] at hscope
      obtain rfl := Option.some.inj hscope
      rcases Scope.mem_links.mp hlink with h | ⟨b, hb, -⟩
      · rw [← Option.some.inj h]
        exact Or.inr houter
      · exact absurd hb List.not_mem_nil
    · rw [scope?_enclose_of_ne hj] at hscope
      exact Or.inr (hs.live_of_link hscope link hlink)
  case grounded =>
    intro j hlive
    -- The new scope is inside one that leads to the root; no other scope has come to be inside it.
    rcases hs.live_enclose.mp hlive with rfl | hlive
    · exact .inner hself rfl (hs.grounded_enclose (hs.grounded houter))
    · exact hs.grounded_enclose (hs.grounded hlive)

end Store

end ScriptLang
