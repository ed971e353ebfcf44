import ScriptLang.Proofs.Store.Sound

/-!
# From a scope to the root

How many steps it takes from a scope to the root, in a sound store. The number is the only one,
since nothing is around the root; so no scope is met twice on the way, and there are fewer steps
than live scopes. Looking a name up comes to an end, therefore, and the bound on the scopes that it
searches never cuts it short.
-/

namespace ScriptLang

namespace Store

variable {s : Store} {id outer : ScopeId} {scope : Scope}

/-! ## Steps outward -/

/-- The scope that one comes to by `n` steps outward. -/
def ancestor (s : Store) : Nat → ScopeId → Option ScopeId
  | 0, id => some id
  | n + 1, id => ((s.scope? id).bind Scope.outer).bind (s.ancestor n)

theorem ancestor_succ (hscope : s.scope? id = some scope) (houter : scope.outer = some outer)
    (n : Nat) : s.ancestor (n + 1) id = s.ancestor n outer := by
  rw [ancestor, hscope, Option.bind_some, houter, Option.bind_some]

/-- The first of some steps outward. -/
theorem exists_of_ancestor_succ {n : Nat} {j : ScopeId} (h : s.ancestor (n + 1) id = some j) :
    ∃ scope outer, s.scope? id = some scope ∧ scope.outer = some outer ∧
      s.ancestor n outer = some j := by
  obtain ⟨outer, houter, hj⟩ := Option.bind_eq_some_iff.mp h
  obtain ⟨scope, hscope, houter⟩ := Option.bind_eq_some_iff.mp houter
  exact ⟨scope, outer, hscope, houter, hj⟩

/-- Some steps outward and then some more. -/
theorem ancestor_add (m n : Nat) (id : ScopeId) :
    s.ancestor (m + n) id = (s.ancestor m id).bind (s.ancestor n) := by
  induction m generalizing id with
  | zero => rw [Nat.zero_add, ancestor, Option.bind_some]
  | succ m ih =>
    rw [Nat.succ_add, ancestor, ancestor, funext ih, ← Option.bind_assoc]

/-- A grounded scope is some steps away from the root. -/
theorem Grounded.exists_ancestor (h : s.Grounded id) :
    ∃ n, s.ancestor n id = some Store.root := by
  induction h with
  | root => exact ⟨0, rfl⟩
  | inner hscope houter _ ih =>
    obtain ⟨n, hn⟩ := ih
    exact ⟨n + 1, (ancestor_succ hscope houter n).trans hn⟩

/-- No step leads outward from the root. -/
theorem Sound.ancestor_root (hs : s.Sound) (n : Nat) : s.ancestor (n + 1) root = none := by
  obtain ⟨scope, hscope⟩ := hs.live_root.exists_scope
  rw [ancestor, hscope, Option.bind_some, hs.root_outer hscope, Option.bind_none]

/-- The number of steps to the root is the only one. -/
theorem Sound.ancestor_root_unique (hs : s.Sound) {m n : Nat} (hm : s.ancestor m id = some root)
    (hn : s.ancestor n id = some root) : m = n := by
  -- The two ways run in step until one of them is at the root, where the other one must end too.
  induction m generalizing n id with
  | zero =>
    obtain rfl : id = root := Option.some.inj hm
    cases n with
    | zero => rfl
    | succ n =>
      rw [hs.ancestor_root] at hn
      cases hn
  | succ m ih =>
    cases n with
    | zero =>
      obtain rfl : id = root := Option.some.inj hn
      rw [hs.ancestor_root] at hm
      cases hm
    | succ n =>
      obtain ⟨scope, outer, hscope, houter, hm⟩ := exists_of_ancestor_succ hm
      rw [ancestor_succ hscope houter] at hn
      rw [ih hm hn]

/-- Steps outward from a live scope lead to live scopes. -/
theorem Sound.live_of_ancestor (hs : s.Sound) (hlive : s.Live id) {n : Nat} {j : ScopeId}
    (h : s.ancestor n id = some j) : s.Live j := by
  induction n generalizing id with
  | zero =>
    obtain rfl : id = j := Option.some.inj h
    exact hlive
  | succ n ih =>
    obtain ⟨scope, outer, hscope, houter, h⟩ := exists_of_ancestor_succ h
    exact ih (hs.live_of_link hscope outer (Scope.mem_links.mpr (Or.inl houter))) h

/-! ## How many steps -/

instance : DecidablePred s.Live :=
  fun id => inferInstanceAs (Decidable ((s.scope? id).isSome = true))

/-- The live slots. -/
def liveSlots (s : Store) : Finset ScopeId := (Finset.range s.slots.size).filter s.Live

theorem mem_liveSlots : id ∈ s.liveSlots ↔ s.Live id := by
  rw [liveSlots, Finset.mem_filter, Finset.mem_range]
  exact ⟨And.right, fun h => ⟨h.lt_size, h⟩⟩

/-- Every slot is live or released. -/
theorem Tidy.card_liveSlots_add_size_free (hs : s.Tidy) :
    s.liveSlots.card + s.free.size = s.slots.size := by
  have hfree : (Finset.range s.slots.size).filter (fun id => ¬s.Live id) =
      s.free.toList.toFinset := by
    ext id
    rw [Finset.mem_filter, Finset.mem_range, List.mem_toFinset, Array.mem_toList_iff, hs.mem_free]
  have hcard := Finset.card_filter_add_card_filter_not (s := Finset.range s.slots.size) s.Live
  rwa [hfree, List.toFinset_card_of_nodup hs.nodup_free, Finset.card_range, Array.length_toList]
    at hcard

/-- The slots that are not released are the live ones. -/
theorem Tidy.card_liveSlots (hs : s.Tidy) : s.liveSlots.card = s.size := by
  have hcard := hs.card_liveSlots_add_size_free
  rw [size]
  omega

/-- No scope is met twice on the way outward. -/
def Acyclic (s : Store) (id : ScopeId) : Prop :=
  ∀ i j outer, s.ancestor i id = some outer → s.ancestor j id = some outer → i = j

/-- Where a scope is on the way to a live one, it is live itself. -/
theorem live_of_ancestor_live {n : Nat} {j : ScopeId} (h : s.ancestor n id = some j)
    (hlive : s.Live j) : s.Live id := by
  cases n with
  | zero =>
    obtain rfl : id = j := Option.some.inj h
    exact hlive
  | succ n =>
    obtain ⟨scope, outer, hscope, -, -⟩ := exists_of_ancestor_succ h
    exact live_of_scope hscope

/-- If no scope is met twice, there are fewer steps to a live scope than there are live scopes. -/
theorem Acyclic.lt_card_liveSlots (hacyclic : s.Acyclic id) {n : Nat} {j : ScopeId}
    (hn : s.ancestor n id = some j) (hlive : s.Live j) : n < s.liveSlots.card := by
  have hway : ∀ i, i ≤ n → ∃ k, s.ancestor i id = some k ∧ s.Live k := by
    intro i hi
    have hsplit := ancestor_add i (n - i) id (s := s)
    rw [Nat.add_sub_cancel' hi, hn] at hsplit
    obtain ⟨k, hk, hrest⟩ := Option.bind_eq_some_iff.mp hsplit.symm
    exact ⟨k, hk, live_of_ancestor_live hrest hlive⟩
  have hmaps : ∀ i ∈ Finset.range (n + 1), (s.ancestor i id).getD root ∈ s.liveSlots := by
    intro i hi
    obtain ⟨k, hk, hkl⟩ := hway i (Nat.lt_succ_iff.mp (Finset.mem_range.mp hi))
    rw [hk, Option.getD_some, mem_liveSlots]
    exact hkl
  have hinj : Set.InjOn (fun i => (s.ancestor i id).getD root) (Finset.range (n + 1)) := by
    intro i hi k hk heq
    obtain ⟨a, ha, -⟩ := hway i (Nat.lt_succ_iff.mp (Finset.mem_range.mp hi))
    obtain ⟨b, hb, -⟩ := hway k (Nat.lt_succ_iff.mp (Finset.mem_range.mp hk))
    have hab : a = b := by simpa only [ha, hb, Option.getD_some] using heq
    subst hab
    exact hacyclic i k a ha hb
  have hcard := Finset.card_le_card_of_injOn _ hmaps hinj
  rw [Finset.card_range] at hcard
  omega

/-- In a sound store no scope is met twice, for from one scope there is one number of steps to the
root. -/
theorem Sound.acyclic (hs : s.Sound) (hlive : s.Live id) : s.Acyclic id := by
  intro i j outer hi hj
  obtain ⟨n, hn⟩ := (hs.grounded (hs.live_of_ancestor hlive hi)).exists_ancestor
  have hroot : ∀ k, s.ancestor k id = some outer → s.ancestor (k + n) id = some root := by
    intro k hk
    rw [ancestor_add, hk]
    exact hn
  have := hs.ancestor_root_unique (hroot i hi) (hroot j hj)
  omega

/-- **The root is fewer steps away from a live scope than there are live scopes.** -/
theorem Sound.exists_ancestor_lt (hs : s.Sound) (hlive : s.Live id) :
    ∃ n, n < s.size ∧ s.ancestor n id = some root := by
  obtain ⟨n, hn⟩ := (hs.grounded hlive).exists_ancestor
  refine ⟨n, ?_, hn⟩
  rw [← hs.card_liveSlots]
  exact (hs.acyclic hlive).lt_card_liveSlots hn hs.live_root

/-! ## Looking names up -/

theorem chain_succ (hscope : s.scope? id = some scope) (n : Nat) :
    s.chain (n + 1) id = scope :: (scope.outer.map (s.chain n)).getD [] := by
  rw [chain, hscope]

theorem chain_of_not_live (h : ¬s.Live id) (n : Nat) : s.chain n id = [] := by
  cases n with
  | zero => rfl
  | succ n => rw [chain, Option.not_isSome_iff_eq_none.mp h]

/-- The scopes that are searched are those on the way to the root. -/
theorem Sound.chain_eq_of_ancestor (hs : s.Sound) {n m : Nat} (hn : s.ancestor n id = some root)
    (hm : n < m) : s.chain m id = s.chain (n + 1) id := by
  induction n generalizing id m with
  | zero =>
    obtain rfl : id = root := Option.some.inj hn
    obtain ⟨scope, hscope⟩ := hs.live_root.exists_scope
    obtain ⟨m, rfl⟩ : ∃ k, m = k + 1 := ⟨m - 1, by omega⟩
    rw [chain_succ hscope, chain_succ hscope, hs.root_outer hscope]
    rfl
  | succ n ih =>
    obtain ⟨scope, outer, hscope, houter, hn⟩ := exists_of_ancestor_succ hn
    obtain ⟨m, rfl⟩ : ∃ k, m = k + 1 := ⟨m - 1, by omega⟩
    rw [chain_succ hscope, chain_succ hscope, houter, Option.map_some, Option.map_some,
      ih hn (by omega)]

/-- **A bound on the scopes that are searched cuts nothing off** if there are no more live
scopes. -/
theorem Sound.chain_eq (hs : s.Sound) (id : ScopeId) {m : Nat} (hm : s.size ≤ m) :
    s.chain m id = s.chain s.size id := by
  by_cases hlive : s.Live id
  · obtain ⟨n, hlt, hn⟩ := hs.exists_ancestor_lt hlive
    rw [hs.chain_eq_of_ancestor hn hlt, hs.chain_eq_of_ancestor hn (Nat.lt_of_lt_of_le hlt hm)]
  · rw [chain_of_not_live hlive, chain_of_not_live hlive]

theorem exists_of_mem_chain {n : Nat} (h : scope ∈ s.chain n id) :
    ∃ j, s.scope? j = some scope := by
  induction n generalizing id with
  | zero => exact absurd h List.not_mem_nil
  | succ n ih =>
    cases hscope : s.scope? id with
    | none =>
      rw [chain, hscope] at h
      exact absurd h List.not_mem_nil
    | some scope' =>
      rw [chain_succ hscope] at h
      rcases List.mem_cons.mp h with rfl | h
      · exact ⟨id, hscope⟩
      · cases houter : scope'.outer with
        | none =>
          rw [houter] at h
          exact absurd h List.not_mem_nil
        | some outer =>
          rw [houter] at h
          exact ih h

/-- The value of a name is bound in some scope. -/
theorem exists_of_find? {name : String} {value : Value} (h : s.find? id name = some value) :
    ∃ j scope, s.scope? j = some scope ∧ (name, value) ∈ scope.bindings := by
  obtain ⟨scope, hmem, hfind⟩ := List.exists_of_findSome?_eq_some h
  obtain ⟨j, hscope⟩ := exists_of_mem_chain hmem
  obtain ⟨before, after, hbindings, -⟩ := List.lookup_eq_some_iff.mp hfind
  refine ⟨j, scope, hscope, ?_⟩
  rw [hbindings]
  exact List.mem_append_right _ List.mem_cons_self

/-! ## What soundness comes to -/

/-- Nothing in the store leads astray. -/
structure Intact (s : Store) : Prop where
  /-- The root scope is there, and there is nothing around it. -/
  root : ∃ scope, s.scope? root = some scope ∧ scope.outer = none
  /-- What is around a scope is live. -/
  outer : ∀ {id scope outer}, s.scope? id = some scope → scope.outer = some outer → s.Live outer
  /-- What a bound value refers to is live. -/
  value : ∀ {id scope name value}, s.scope? id = some scope → (name, value) ∈ scope.bindings →
    s.Backs value
  /-- From every scope it takes fewer steps to the root than there are live scopes. -/
  ancestor : ∀ {id}, s.Live id → ∃ n, n < s.size ∧ s.ancestor n id = some Store.root
  /-- Looking a name up comes to an end: searching more scopes than there are live ones finds no
  more. -/
  find? : ∀ id name m, s.size ≤ m →
    (s.chain m id).findSome? (fun scope => scope.find? name) = s.find? id name

theorem Sound.intact (hs : s.Sound) : s.Intact where
  root := by
    obtain ⟨scope, hscope⟩ := hs.live_root.exists_scope
    exact ⟨scope, hscope, hs.root_outer hscope⟩
  outer hscope houter := hs.live_of_link hscope _ (Scope.mem_links.mpr (Or.inl houter))
  value {id scope name value} hscope hmem link hlink :=
    hs.live_of_link hscope link (Scope.mem_links.mpr (Or.inr ⟨(name, value), hmem, hlink⟩))
  ancestor := hs.exists_ancestor_lt
  find? id name m hm := by
    have hall : s.size ≤ s.slots.size := Nat.sub_le _ _
    rw [Store.find?, hs.chain_eq id hm, hs.chain_eq id hall]

end Store

end ScriptLang
