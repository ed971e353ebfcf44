import Mathlib.Data.List.TakeWhile
import ScriptLang.Proofs.Store.Sound

/-!
# Sweeping

What a sweep keeps: the live scopes that can be reached through live scopes, from the root or from a
scope to be kept. This holds of every store. The marking of slots ends before all of them are marked
only if nothing is left to be done, and while it goes on every reference of a marked scope is to a
marked slot or to one that is pending.

Thus a sweep keeps a tidy store tidy and a sound one sound: what a scope refers to can be reached
where the scope can.
-/

namespace ScriptLang

namespace Store

variable {s : Store} {id link : ScopeId} {scope : Scope} {starts kept pending : List ScopeId}
  {marked : Array Bool}

/-- The live slots that one comes to from some slots, through live ones. -/
inductive Reaches (s : Store) (starts : List ScopeId) : ScopeId → Prop where
  | start {id : ScopeId} : id ∈ starts → s.Live id → Reaches s starts id
  | link {id link : ScopeId} {scope : Scope} : Reaches s starts id → s.scope? id = some scope →
      link ∈ scope.links → s.Live link → Reaches s starts link

theorem Reaches.live (h : s.Reaches starts id) : s.Live id := by
  cases h with
  | start _ hlive => exact hlive
  | link _ _ _ hlive => exact hlive

/-! ## Marks -/

/-- The slot has a mark. -/
def IsMarked (marked : Array Bool) (id : ScopeId) : Prop := marked.getD id false = true

theorem isMarked_iff : IsMarked marked id ↔ marked[id]? = some true := by
  rw [IsMarked, Array.getD_eq_getD_getElem?]
  cases marked[id]? <;> simp

theorem not_isMarked_replicate (n : Nat) : ¬IsMarked (Array.replicate n false) id := by
  rw [isMarked_iff, Array.getElem?_replicate]
  split <;> simp

/-- Marking a slot adds its mark and no other one. -/
theorem isMarked_setIfInBounds {j : ScopeId} (hlt : id < marked.size) :
    IsMarked (marked.setIfInBounds id true) j ↔ j = id ∨ IsMarked marked j := by
  rw [isMarked_iff, isMarked_iff, Array.getElem?_setIfInBounds]
  by_cases hj : id = j
  · subst hj
    simp [hlt]
  · rw [if_neg hj]
    exact ⟨Or.inr, fun h => h.resolve_left (Ne.symm hj)⟩

/-- Marking a slot that had no mark leaves one less to be marked. -/
theorem count_setIfInBounds (hlt : id < marked.size) (hid : ¬IsMarked marked id) :
    (marked.setIfInBounds id true).count false + 1 = marked.count false := by
  have hfalse : marked[id] = false := by
    rw [isMarked_iff, Array.getElem?_eq_getElem hlt] at hid
    simpa using hid
  have hpos : 0 < marked.count false := by
    rw [Array.count_pos_iff, ← hfalse]
    exact Array.getElem_mem hlt
  rw [Array.setIfInBounds, dif_pos hlt, Array.count_set, hfalse]
  simp
  omega

/-! ## Marking -/

/-- The pending slots that marking passes over are those that are marked and those that are not
live. -/
theorem skipped_iff (hsize : marked.size = s.slots.size) :
    (marked.getD id true || (s.scope? id).isNone) = true ↔ IsMarked marked id ∨ ¬s.Live id := by
  have hlive : (s.scope? id).isNone = true ↔ ¬s.Live id := by
    rw [Live]
    cases s.scope? id <;> simp
  rw [Bool.or_eq_true, hlive]
  by_cases hlt : id < marked.size
  · rw [isMarked_iff, Array.getD_eq_getD_getElem?, Array.getElem?_eq_getElem hlt]
    simp
  · have hdead : ¬s.Live id := fun h => hlt (hsize ▸ h.lt_size)
    exact ⟨fun _ => Or.inr hdead, fun _ => Or.inr hdead⟩

/-- How marking goes on: it is done if it passes over all pending slots, and otherwise it takes the
first one that it does not pass over. -/
theorem mark_cases (hsize : marked.size = s.slots.size) (n : Nat) (pending : List ScopeId) :
    (s.mark (n + 1) marked pending = marked ∧ ∀ id ∈ pending, IsMarked marked id ∨ ¬s.Live id) ∨
      ∃ passed id rest scope, pending = passed ++ id :: rest ∧
        (∀ j ∈ passed, IsMarked marked j ∨ ¬s.Live j) ∧ ¬IsMarked marked id ∧
        s.scope? id = some scope ∧
        s.mark (n + 1) marked pending =
          s.mark n (marked.setIfInBounds id true) (scope.links ++ rest) := by
  set skipped : ScopeId → Bool := fun id => marked.getD id true || (s.scope? id).isNone
    with hskipped
  have hsplit : pending.takeWhile skipped ++ pending.dropWhile skipped = pending :=
    List.takeWhile_append_dropWhile
  have hpassed : ∀ j ∈ pending.takeWhile skipped, IsMarked marked j ∨ ¬s.Live j := by
    intro j hj
    have hskip : skipped j = true := List.mem_takeWhile_imp hj
    exact (skipped_iff hsize).mp hskip
  cases hleft : pending.dropWhile skipped with
  | nil =>
    refine Or.inl ⟨?_, ?_⟩
    · rw [mark, ← hskipped, hleft]
    · rw [← hsplit, hleft, List.append_nil]
      exact hpassed
  | cons id rest =>
    have hid : ¬skipped id = true := by
      have hhead := List.head?_dropWhile_not skipped pending
      rw [hleft] at hhead
      simpa using hhead
    obtain ⟨hunmarked, hlive⟩ := not_or.mp (mt (skipped_iff hsize).mpr hid)
    obtain ⟨scope, hscope⟩ := (not_not.mp hlive).exists_scope
    refine Or.inr ⟨pending.takeWhile skipped, id, rest, scope, ?_, hpassed, hunmarked, hscope, ?_⟩
    · rw [← hleft, hsplit]
    · rw [mark, ← hskipped, hleft]
      show s.mark n _ (((s.scope? id).map Scope.links).getD [] ++ rest) = _
      rw [hscope]
      rfl

/-- Marking reaches no slot but those that can be reached. -/
theorem reaches_of_isMarked_mark {n : Nat} (hsize : marked.size = s.slots.size)
    (hmarked : ∀ id, IsMarked marked id → s.Reaches starts id)
    (hpending : ∀ id ∈ pending, s.Live id → s.Reaches starts id)
    (h : IsMarked (s.mark n marked pending) id) : s.Reaches starts id := by
  induction n generalizing marked pending with
  | zero => exact hmarked id h
  | succ n ih =>
    rcases mark_cases hsize n pending with
      ⟨hdone, -⟩ | ⟨passed, j, rest, scope, rfl, -, -, hscope, hgo⟩
    · rw [hdone] at h
      exact hmarked id h
    · rw [hgo] at h
      -- The slot that is marked was pending. What is pending now is a reference of it, or was so.
      have hj : s.Reaches starts j :=
        hpending j (List.mem_append_right _ List.mem_cons_self) (live_of_scope hscope)
      refine ih (by rw [Array.size_setIfInBounds, hsize]) ?_ ?_ h
      · intro k hk
        have hlt : j < marked.size := hsize ▸ (live_of_scope hscope).lt_size
        rcases (isMarked_setIfInBounds hlt).mp hk with rfl | hk
        · exact hj
        · exact hmarked k hk
      · intro k hk hlive
        rcases List.mem_append.mp hk with hk | hk
        · exact .link hj hscope hk hlive
        · exact hpending k (List.mem_append_right _ (List.mem_cons_of_mem _ hk)) hlive

/-- What is left to be marked for the sake of the marked scopes is pending. -/
def Closed (s : Store) (marked : Array Bool) (pending : List ScopeId) : Prop :=
  ∀ {id scope link}, IsMarked marked id → s.scope? id = some scope → link ∈ scope.links →
    s.Live link → IsMarked marked link ∨ link ∈ pending

/-- Marking goes on until nothing is pending, for it cannot mark more slots than there are. -/
theorem closed_mark {n : Nat} (hsize : marked.size = s.slots.size)
    (hcount : marked.count false ≤ n) (hclosed : s.Closed marked pending) :
    (∀ id, IsMarked marked id → IsMarked (s.mark n marked pending) id) ∧
      (∀ id ∈ pending, s.Live id → IsMarked (s.mark n marked pending) id) ∧
      s.Closed (s.mark n marked pending) [] := by
  induction n generalizing marked pending with
  | zero =>
    -- All slots are marked.
    have hall : ∀ id, s.Live id → IsMarked marked id := by
      intro id hlive
      by_contra hid
      have := count_setIfInBounds (hsize ▸ hlive.lt_size) hid
      omega
    exact ⟨fun id h => h, fun id _ hlive => hall id hlive,
      fun _ _ _ hlive => Or.inl (hall _ hlive)⟩
  | succ n ih =>
    rcases mark_cases hsize n pending with
      ⟨hdone, hpassed⟩ | ⟨passed, j, rest, scope, rfl, hpassed, hunmarked, hscope, hgo⟩
    · rw [hdone]
      have hpending : ∀ id ∈ pending, s.Live id → IsMarked marked id := by
        intro id hid hlive
        exact (hpassed id hid).resolve_right (not_not.mpr hlive)
      refine ⟨fun id h => h, hpending, ?_⟩
      intro id scope link hid hscope hlink hlive
      rcases hclosed hid hscope hlink hlive with hmarked | hmem
      · exact Or.inl hmarked
      · exact Or.inl (hpending link hmem hlive)
    · have hlt : j < marked.size := hsize ▸ (live_of_scope hscope).lt_size
      have hmarks : ∀ {k}, IsMarked (marked.setIfInBounds j true) k ↔ k = j ∨ IsMarked marked k :=
        isMarked_setIfInBounds hlt
      -- A pending slot is marked by now or stays pending.
      have hstep : ∀ k ∈ passed ++ j :: rest, s.Live k →
          IsMarked (marked.setIfInBounds j true) k ∨ k ∈ rest := by
        intro k hk hlive
        rcases List.mem_append.mp hk with hk | hk
        · exact Or.inl (hmarks.mpr (Or.inr ((hpassed k hk).resolve_right (not_not.mpr hlive))))
        · rcases List.mem_cons.mp hk with rfl | hk
          · exact Or.inl (hmarks.mpr (Or.inl rfl))
          · exact Or.inr hk
      have hclosed' : s.Closed (marked.setIfInBounds j true) (scope.links ++ rest) := by
        intro id scope' link hid hscope' hlink hlive
        rcases hmarks.mp hid with rfl | hid
        · obtain rfl := Option.some.inj (hscope.symm.trans hscope')
          exact Or.inr (List.mem_append_left _ hlink)
        · rcases hclosed hid hscope' hlink hlive with hmarked | hmem
          · exact Or.inl (hmarks.mpr (Or.inr hmarked))
          · exact (hstep link hmem hlive).imp_right (List.mem_append_right _)
      have hcount' := count_setIfInBounds hlt hunmarked
      obtain ⟨hkept, hdone, hfinal⟩ :=
        ih (by rw [Array.size_setIfInBounds, hsize]) (by omega) hclosed'
      rw [hgo]
      refine ⟨fun id hid => hkept id (hmarks.mpr (Or.inr hid)), fun id hid hlive => ?_, hfinal⟩
      rcases hstep id hid hlive with hmarked | hmem
      · exact hkept id hmarked
      · exact hdone id (List.mem_append_right _ hmem) hlive

/-- **Marking marks exactly what can be reached.** -/
theorem isMarked_reached : IsMarked (s.reached kept) id ↔ s.Reaches (root :: kept) id := by
  have hsize : (Array.replicate s.slots.size false).size = s.slots.size := Array.size_replicate
  constructor
  · intro h
    refine reaches_of_isMarked_mark hsize ?_ (fun id hid hlive => .start hid hlive) h
    intro id hid
    exact absurd hid (not_isMarked_replicate _)
  · intro h
    -- To begin with nothing is marked, and all slots are still to be counted.
    have hcount : (Array.replicate s.slots.size false).count false ≤ s.slots.size :=
      Array.count_le_size.trans_eq hsize
    have hclosed : s.Closed (Array.replicate s.slots.size false) (root :: kept) :=
      fun hid => absurd hid (not_isMarked_replicate _)
    obtain ⟨-, hpending, hfinal⟩ := closed_mark hsize hcount hclosed
    induction h with
    | start hid hlive => exact hpending _ hid hlive
    | link _ hscope hlink hlive ih =>
      exact (hfinal ih hscope hlink hlive).resolve_right List.not_mem_nil

/-! ## Sweeping -/

/-- A sweep leaves a slot as it is, or empties it if it is not marked. -/
theorem scope?_sweep : (s.sweep kept).scope? id =
    if (s.reached kept).getD id false then s.scope? id else none := by
  show (s.slots.mapIdx _)[id]?.join = _
  rw [Array.getElem?_mapIdx, scope?]
  cases s.slots[id]? with
  | none => simp
  | some slot => rfl

/-- A sweep leaves the scopes that can be reached as they are. -/
theorem Reaches.scope?_sweep (h : s.Reaches (root :: kept) id) :
    (s.sweep kept).scope? id = s.scope? id := by
  rw [Store.scope?_sweep]
  exact if_pos (isMarked_reached.mpr h)

/-- **The slots that are live after a sweep are those that can be reached.** -/
theorem live_sweep : (s.sweep kept).Live id ↔ s.Reaches (root :: kept) id := by
  constructor
  · intro hlive
    rw [Live, Store.scope?_sweep] at hlive
    split at hlive
    next hmarked => exact isMarked_reached.mp hmarked
    next => cases hlive
  · intro h
    rw [Live, h.scope?_sweep]
    exact h.live

/-- A scope that is there after a sweep was there before. -/
theorem scope?_of_sweep (h : (s.sweep kept).scope? id = some scope) :
    s.scope? id = some scope := by
  rw [← (live_sweep.mp (live_of_scope h)).scope?_sweep, h]

/-- A sweep releases the live slots that cannot be reached. -/
theorem mem_garbage : id ∈ s.garbage kept ↔ s.Live id ∧ ¬s.Reaches (root :: kept) id := by
  rw [garbage, List.mem_filter, List.mem_range, Bool.and_eq_true, Bool.not_eq_true',
    ← isMarked_reached, IsMarked, Bool.not_eq_true]
  exact ⟨fun h => h.2, fun h => ⟨Live.lt_size h.1, h⟩⟩

theorem Tidy.sweep (hs : s.Tidy) : (s.sweep kept).Tidy where
  live_root := live_sweep.mpr (.start List.mem_cons_self hs.live_root)
  nodup_free := by
    show (s.free ++ (s.garbage kept).toArray).toList.Nodup
    rw [Array.toList_append, List.nodup_append]
    refine ⟨hs.nodup_free, List.nodup_range.filter _, ?_⟩
    rintro i hi j hj rfl
    exact ((hs.mem_free i).mp (Array.mem_toList_iff.mp hi)).2 (mem_garbage.mp hj).1
  mem_free j := by
    show j ∈ s.free ++ (s.garbage kept).toArray ↔ j < (s.slots.mapIdx _).size ∧ _
    rw [Array.mem_append, hs.mem_free, List.mem_toArray, mem_garbage, Array.size_mapIdx,
      live_sweep]
    constructor
    · rintro (⟨hlt, hdead⟩ | ⟨hlive, hunreached⟩)
      · exact ⟨hlt, fun h => hdead h.live⟩
      · exact ⟨hlive.lt_size, hunreached⟩
    · rintro ⟨hlt, hunreached⟩
      by_cases hlive : s.Live j
      · exact Or.inr ⟨hlive, hunreached⟩
      · exact Or.inl ⟨hlt, hlive⟩

/-- What a reached scope refers to is reached too. -/
theorem Sound.reaches_link (hs : s.Sound) (h : s.Reaches starts id)
    (hscope : s.scope? id = some scope) (hlink : link ∈ scope.links) : s.Reaches starts link :=
  .link h hscope hlink (hs.live_of_link hscope link hlink)

/-- **A sweep keeps a store sound.** -/
theorem Sound.sweep (hs : s.Sound) : (s.sweep kept).Sound := by
  constructor
  case toTidy => exact hs.toTidy.sweep
  case root_outer =>
    intro scope hscope
    exact hs.root_outer (scope?_of_sweep hscope)
  case live_of_link =>
    intro id scope hscope link hlink
    have hreaches := live_sweep.mp (live_of_scope hscope)
    exact live_sweep.mpr (hs.reaches_link hreaches (scope?_of_sweep hscope) hlink)
  case grounded =>
    intro id hlive
    have hreaches := live_sweep.mp hlive
    have hgrounded := hs.grounded hreaches.live
    clear hlive
    -- Along the way to the root every scope is reached from the one before it.
    induction hgrounded with
    | root => exact .root
    | inner hscope houter _ ih =>
      have hlink := Scope.mem_links.mpr (Or.inl houter)
      exact .inner (hreaches.scope?_sweep.trans hscope) houter
        (ih (hs.reaches_link hreaches hscope hlink))

/-- A sweep keeps what a value refers to, if it is asked to. -/
theorem backs_sweep {value : Value} (h : s.Backs value) :
    (s.sweep value.scope?.toList).Backs value := by
  intro id hid
  refine live_sweep.mpr (.start ?_ (h id hid))
  exact List.mem_cons_of_mem _ (Option.mem_toList.mpr hid)

end Store

end ScriptLang
