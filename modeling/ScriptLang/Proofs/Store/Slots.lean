import Mathlib.Order.Bounds.Basic
import ScriptLang.Proofs.Store.Collection

/-!
# Use of slots

Whatever is done to the scopes of a new session, in whatever order, its store knows which slots are
released. A new scope takes one of these if there is one, and it never takes a slot that is in use.
So there are as many slots as there have ever been live scopes at once.

What is done may be pointless: scopes may be made inside released ones, names may be bound in slots
that do not exist, and anything may be asked to be kept.
-/

namespace ScriptLang

namespace Store

variable {s : Store} {id outer : ScopeId}

/-! ## What tidiness comes to -/

/-- A slot that is there and holds nothing. -/
theorem getElem?_eq_some_none_iff :
    s.slots[id]? = some none ↔ id < s.slots.size ∧ ¬s.Live id := by
  rw [Live, scope?]
  constructor
  · intro h
    refine ⟨(Array.getElem?_eq_some_iff.mp h).1, ?_⟩
    rw [h]
    exact Bool.false_ne_true
  · rintro ⟨hlt, hdead⟩
    rw [Array.getElem?_eq_getElem hlt] at hdead ⊢
    cases hslot : s.slots[id] with
    | none => rfl
    | some scope =>
      rw [hslot] at hdead
      exact absurd rfl hdead

/-- Making a scope puts an empty one in a slot that held nothing, and leaves the others alone. No
slot is added as long as one is released. -/
structure Encloses (s : Store) (outer id : ScopeId) (t : Store) : Prop where
  not_live : ¬s.Live id
  /-- The slot is the one released last, which is one of the slots. -/
  reuses : ∀ released, s.free.back? = some released → id = released ∧ released < s.slots.size
  scope? : t.scope? id = some ⟨[], some outer⟩
  scope?_of_ne : ∀ j, j ≠ id → t.scope? j = s.scope? j
  size_slots : t.slots.size = if s.free.size = 0 then s.slots.size + 1 else s.slots.size

theorem Tidy.encloses (hs : s.Tidy) (outer : ScopeId) :
    s.Encloses outer (s.enclose outer).1 (s.enclose outer).2 where
  not_live := hs.not_live_enclose
  reuses released hback := by
    rw [enclose_of_back hback]
    exact ⟨rfl, ((hs.mem_free released).mp (mem_free_of_back hback)).1⟩
  scope? := hs.scope?_enclose_self
  scope?_of_ne j hne := scope?_enclose_of_ne hne
  size_slots := by
    cases hback : s.free.back? with
    | none =>
      have hfree : s.free = #[] := Array.back?_eq_none_iff.mp hback
      rw [enclose_of_back_none hback, hfree]
      exact Array.size_push _
    | some released =>
      have hpos : 0 < s.free.size := Array.size_pos_of_mem (mem_free_of_back hback)
      rw [enclose_of_back hback, if_neg (Nat.ne_of_gt hpos)]
      exact Array.size_setIfInBounds

/-- The store knows which of its slots are in use. -/
structure Accounted (s : Store) : Prop where
  /-- No slot is released twice. -/
  nodup_free : s.free.toList.Nodup
  /-- The released slots are those that hold nothing. -/
  mem_free : ∀ id, id ∈ s.free ↔ s.slots[id]? = some none
  /-- The root scope is there. -/
  live_root : s.Live root
  root_not_mem_free : root ∉ s.free
  /-- The slots that are not released are counted, and there are enough slots for that. -/
  size_eq : s.size = s.liveSlots.card
  size_free_le : s.free.size ≤ s.slots.size
  one_le_size : 1 ≤ s.size
  encloses : ∀ outer, s.Encloses outer (s.enclose outer).1 (s.enclose outer).2

theorem Tidy.accounted (hs : s.Tidy) : s.Accounted where
  nodup_free := hs.nodup_free
  mem_free id := by rw [hs.mem_free, getElem?_eq_some_none_iff]
  live_root := hs.live_root
  root_not_mem_free hmem := ((hs.mem_free root).mp hmem).2 hs.live_root
  size_eq := hs.card_liveSlots.symm
  size_free_le := by
    have hcard := hs.card_liveSlots_add_size_free
    omega
  one_le_size := by
    rw [← hs.card_liveSlots, Nat.one_le_iff_ne_zero, Finset.card_ne_zero]
    exact ⟨root, mem_liveSlots.mpr hs.live_root⟩
  encloses := hs.encloses

/-! ## How many slots there are -/

/-- Making a scope makes one more of them. -/
theorem Tidy.size_enclose (hs : s.Tidy) : (s.enclose outer).2.size = s.size + 1 := by
  have hlive : (s.enclose outer).2.liveSlots =
      Insert.insert (s.enclose outer).1 s.liveSlots := by
    ext j
    rw [mem_liveSlots, hs.live_enclose, Finset.mem_insert, mem_liveSlots]
  have hnew : (s.enclose outer).1 ∉ s.liveSlots := mt mem_liveSlots.mp hs.not_live_enclose
  rw [← hs.enclose.card_liveSlots, hlive, Finset.card_insert_of_notMem hnew, hs.card_liveSlots]

/-- A slot is added only if all slots are live, and then they are all live again. -/
theorem Tidy.size_slots_enclose (hs : s.Tidy) :
    (s.enclose outer).2.slots.size = max s.slots.size (s.enclose outer).2.size := by
  have hcard := hs.card_liveSlots_add_size_free
  rw [(hs.encloses outer).size_slots, hs.size_enclose, ← hs.card_liveSlots]
  split <;> omega

end Store

/-! ## Operations -/

namespace Session

/-- What is done to the scopes of a session. -/
inductive Operation where
  | enclose (outer : ScopeId)
  | insert (id : ScopeId) (name : String) (value : Value)
  | sweep (kept : List ScopeId)

/-- The session after an operation. -/
def Operation.apply (s : Session) : Operation → Session
  | enclose outer => (s.enclose outer).2
  | insert id name value => s.insert id name value
  | sweep kept => (s.sweep kept).2

/-- The session that operations lead to from a new one. -/
def after (operations : List Operation) : Session := operations.foldl Operation.apply initial

theorem after_concat (operations : List Operation) (operation : Operation) :
    after (operations ++ [operation]) = operation.apply (after operations) :=
  List.foldl_concat ..

/-- Binding a name changes the store just as if the scope were known to be live. -/
theorem store_insert (s : Session) (id : ScopeId) (name : String) (value : Value) :
    (s.insert id name value).store = s.store.insert id name value := by
  rw [Session.insert]
  cases hscope : s.store.scope? id with
  | none =>
    rw [Store.insert, hscope]
    rfl
  | some scope => rfl

/-- Every operation keeps a store tidy. -/
theorem tidy_apply {s : Session} (hs : s.store.Tidy) (operation : Operation) :
    (operation.apply s).store.Tidy := by
  cases operation with
  | enclose outer => exact hs.enclose
  | insert id name value =>
    show (s.insert id name value).store.Tidy
    rw [store_insert]
    exact hs.insert
  | sweep kept => exact hs.sweep

/-- No operation takes a slot away, and one is added only for want of a released one. -/
theorem size_slots_apply {s : Session} (hs : s.store.Tidy) (operation : Operation) :
    (operation.apply s).store.slots.size =
      max s.store.slots.size (operation.apply s).store.size := by
  -- However many scopes there are, no fewer slots are there.
  have hle : (operation.apply s).store.size ≤ (operation.apply s).store.slots.size :=
    Nat.sub_le _ _
  cases operation with
  | enclose outer => exact hs.size_slots_enclose
  | insert id name value =>
    have hslots : (s.insert id name value).store.slots.size = s.store.slots.size := by
      rw [store_insert, Store.size_slots_insert]
    exact (hslots.trans (max_eq_left (hle.trans_eq hslots)).symm)
  | sweep kept =>
    have hslots : (s.sweep kept).2.store.slots.size = s.store.slots.size :=
      Store.size_slots_sweep
    exact (hslots.trans (max_eq_left (hle.trans_eq hslots)).symm)

theorem tidy_after (operations : List Operation) : (after operations).store.Tidy := by
  induction operations using List.reverseRecOn with
  | nil => exact Store.sound_initial.toTidy
  | append_singleton operations operation ih =>
    rw [after_concat]
    exact tidy_apply ih operation

/-- The numbers of live scopes that there have been on the way. -/
def sizes (operations : List Operation) : Set Nat :=
  {n | ∃ before, before <+: operations ∧ (after before).store.size = n}

theorem sizes_concat (operations : List Operation) (operation : Operation) :
    sizes (operations ++ [operation]) =
      Insert.insert (after (operations ++ [operation])).store.size (sizes operations) := by
  ext n
  show (∃ before, _) ↔ _ ∨ ∃ before, _
  constructor
  · rintro ⟨before, hbefore, rfl⟩
    rcases List.prefix_concat_iff.mp hbefore with rfl | hbefore
    · exact Or.inl rfl
    · exact Or.inr ⟨before, hbefore, rfl⟩
  · rintro (rfl | ⟨before, hbefore, rfl⟩)
    · exact ⟨_, List.prefix_rfl, rfl⟩
    · exact ⟨before, hbefore.trans (List.prefix_append _ _), rfl⟩

/-- The slots are as many as the most scopes that were live at once. -/
theorem isGreatest_size_slots (operations : List Operation) :
    IsGreatest (sizes operations) (after operations).store.slots.size := by
  induction operations using List.reverseRecOn with
  | nil =>
    refine ⟨⟨[], List.prefix_rfl, rfl⟩, ?_⟩
    rintro n ⟨before, hbefore, rfl⟩
    rw [List.prefix_nil.mp hbefore]
    exact Nat.le_refl 1
  | append_singleton operations operation ih =>
    have hslots := size_slots_apply (tidy_after operations) operation
    rw [← after_concat, max_comm] at hslots
    rw [sizes_concat, hslots]
    exact ih.insert _

/-- **Slots are accounted for.** After any operations on a new session the store knows which of its
slots are released, whatever the operations are given. So none of them is lost and none is used
twice: there are as many slots as the largest number of scopes that were live at once. -/
theorem slots_accounted (operations : List Operation) :
    (after operations).store.Accounted ∧
      IsGreatest (sizes operations) (after operations).store.slots.size :=
  ⟨(tidy_after operations).accounted, isGreatest_size_slots operations⟩

-- The second scope is released, and the third one takes its slot although it is made inside a slot
-- that does not exist.
example :
    let s := after [.enclose 0, .sweep [], .enclose 7]
    s.store.slots.size = 2 ∧ s.store.free = #[] ∧ s.store.size = 2 := by
  decide +kernel

end Session

end ScriptLang
