import Mathlib.Data.List.Sort
import ScriptLang.Eval
import ScriptLang.Proofs.Store.Chain
import ScriptLang.Proofs.Store.Sweep

/-!
# What a sweep releases

A sweep releases the scopes that are out of reach, all of them and nothing else, whatever the store
is and whatever is asked to be kept. It leaves the other scopes as they are, and so the names that
can be looked up from them. The slots that it releases are listed in ascending order. Neither they
nor their order depends on the order in which a scope lists its names, although it is in that order
that a sweep follows them.
-/

namespace ScriptLang

/-- The value is a function that was made in the scope, or is wrapped around one. -/
inductive Value.Captures : Value → ScopeId → Prop where
  | function (closure : Closure) : Captures (.function closure) closure.scope
  | returned {value : Value} {id : ScopeId} : Captures value id → Captures (.returned value) id

theorem Value.captures_iff {value : Value} {id : ScopeId} :
    value.Captures id ↔ value.scope? = some id := by
  constructor
  · intro h
    induction h with
    | function closure => rfl
    | returned _ ih => exact ih
  · intro h
    induction value with
    | function closure =>
      obtain rfl : closure.scope = id := Option.some.inj h
      exact .function closure
    | returned value ih => exact .returned (ih h)
    | _ => cases h

/-- The scopes bind the same names to the same values, but may list them in another order. -/
def Scope.Shuffled (a b : Scope) : Prop := a.outer = b.outer ∧ a.bindings.Perm b.bindings

namespace Store

variable {s t : Store} {id : ScopeId} {kept : List ScopeId}

/-! ## What is in reach -/

/-- The live scopes that one comes to from the root scope, or from one that is to be kept, by going
from live scopes to what is around them and to what the functions bound in them were made in. -/
inductive Reachable (s : Store) (kept : List ScopeId) : ScopeId → Prop where
  | root : s.Live root → Reachable s kept root
  | start {id : ScopeId} : id ∈ kept → s.Live id → Reachable s kept id
  | outer {id outer : ScopeId} {scope : Scope} : Reachable s kept id →
      s.scope? id = some scope → scope.outer = some outer → s.Live outer → Reachable s kept outer
  | value {id link : ScopeId} {scope : Scope} {name : String} {value : Value} :
      Reachable s kept id → s.scope? id = some scope → (name, value) ∈ scope.bindings →
      value.Captures link → s.Live link → Reachable s kept link

/-- What is in reach is what is reached by following the references of scopes. -/
theorem reachable_iff : s.Reachable kept id ↔ s.Reaches (Store.root :: kept) id := by
  constructor
  · intro h
    induction h with
    | root hlive => exact .start List.mem_cons_self hlive
    | start hmem hlive => exact .start (List.mem_cons_of_mem _ hmem) hlive
    | outer _ hscope houter hlive ih =>
      exact .link ih hscope (Scope.mem_links.mpr (Or.inl houter)) hlive
    | @value _ _ _ name value _ hscope hmem hcaptures hlive ih =>
      have hvalue : value.scope? = some _ := Value.captures_iff.mp hcaptures
      exact .link ih hscope (Scope.mem_links.mpr (Or.inr ⟨(name, value), hmem, hvalue⟩)) hlive
  · intro h
    induction h with
    | start hmem hlive =>
      rcases List.mem_cons.mp hmem with rfl | hmem
      · exact .root hlive
      · exact .start hmem hlive
    | link _ hscope hlink hlive ih =>
      rcases Scope.mem_links.mp hlink with houter | ⟨⟨name, value⟩, hmem, hvalue⟩
      · exact .outer ih hscope houter hlive
      · exact .value ih hscope hmem (Value.captures_iff.mpr hvalue) hlive

/-! ## What is released -/

/-- Slots are released in ascending order. -/
theorem pairwise_garbage : (s.garbage kept).Pairwise (· < ·) := List.pairwise_lt_range.filter _

/-- The slots that are released are those that were live and are not any more. -/
theorem mem_garbage_iff_live :
    id ∈ s.garbage kept ↔ s.Live id ∧ ¬(s.sweep kept).Live id := by
  rw [mem_garbage, live_sweep]

/-! ## What is left -/

/-- The scopes around one that is left are left as they are. -/
theorem chain_sweep (hlive : (s.sweep kept).Live id) (n : Nat) :
    (s.sweep kept).chain n id = s.chain n id := by
  induction n generalizing id with
  | zero => rfl
  | succ n ih =>
    obtain ⟨scope, hscope⟩ := hlive.exists_scope
    have hbefore : s.scope? id = some scope := scope?_of_sweep hscope
    rw [chain_succ hscope, chain_succ hbefore]
    cases houter : scope.outer with
    | none => rfl
    | some outer =>
      -- What is around the scope is in reach as well, unless it was released long before.
      have hsame : (s.sweep kept).chain n outer = s.chain n outer := by
        by_cases hout : s.Live outer
        · refine ih (live_sweep.mpr (.link (live_sweep.mp hlive) hbefore ?_ hout))
          exact Scope.mem_links.mpr (Or.inl houter)
        · have hout' : ¬(s.sweep kept).Live outer := fun h => hout (live_sweep.mp h).live
          rw [chain_of_not_live hout, chain_of_not_live hout']
      rw [Option.map_some, Option.map_some, hsame]

theorem size_slots_sweep : (s.sweep kept).slots.size = s.slots.size := Array.size_mapIdx

theorem free_sweep : (s.sweep kept).free = s.free ++ (s.garbage kept).toArray := rfl

/-- What a sweep comes to, given the number that it tells and the store that it leaves. -/
structure Collected (s : Store) (kept : List ScopeId) (count : Nat) (t : Store) : Prop where
  /-- A slot is live if it was so and is in reach. -/
  live : ∀ id, t.Live id ↔ s.Live id ∧ s.Reachable kept id
  /-- A scope that is left is what it was. -/
  scope? : ∀ id, t.Live id → t.scope? id = s.scope? id
  size_slots : t.slots.size = s.slots.size
  /-- The slots that have been released are added to those that were free, in ascending order, and
  they are counted. -/
  released : ∃ released : List ScopeId, released.Pairwise (· < ·) ∧
    (∀ id, id ∈ released ↔ s.Live id ∧ ¬t.Live id) ∧
    t.free = s.free ++ released.toArray ∧ count = released.length
  /-- From a scope that is left one goes outward as before, however far, -/
  chain : ∀ id, t.Live id → ∀ n, t.chain n id = s.chain n id
  /-- and there finds what every name was bound to. -/
  find? : ∀ id, t.Live id → ∀ name, t.find? id name = s.find? id name

theorem collected_sweep (s : Store) (kept : List ScopeId) :
    s.Collected kept (s.garbage kept).length (s.sweep kept) where
  live id := by
    rw [live_sweep, reachable_iff]
    exact ⟨fun h => ⟨h.live, h⟩, And.right⟩
  scope? id hlive := (live_sweep.mp hlive).scope?_sweep
  size_slots := size_slots_sweep
  released := ⟨s.garbage kept, pairwise_garbage, fun _ => mem_garbage_iff_live, free_sweep, rfl⟩
  chain id hlive n := chain_sweep hlive n
  find? id hlive name := by rw [Store.find?, Store.find?, size_slots_sweep, chain_sweep hlive]

/-! ## The order of names -/

/-- The scopes of the two stores may list their names in another order. -/
structure Shuffled (s t : Store) : Prop where
  scope? : ∀ id, Option.Rel Scope.Shuffled (s.scope? id) (t.scope? id)
  size_slots : s.slots.size = t.slots.size
  free : s.free = t.free

theorem Shuffled.symm (h : s.Shuffled t) : t.Shuffled s where
  scope? id := by
    have hslot := h.scope? id
    generalize s.scope? id = a, t.scope? id = b at hslot
    cases hslot with
    | none => exact .none
    | some hsame => exact .some ⟨hsame.1.symm, hsame.2.symm⟩
  size_slots := h.size_slots.symm
  free := h.free.symm

theorem Shuffled.exists_scope (h : s.Shuffled t) {scope : Scope}
    (hscope : s.scope? id = some scope) :
    ∃ scope', t.scope? id = some scope' ∧ scope.Shuffled scope' := by
  have hslot := h.scope? id
  rw [hscope] at hslot
  generalize t.scope? id = slot at hslot
  cases hslot with
  | some hsame => exact ⟨_, rfl, hsame⟩

theorem Shuffled.live (h : s.Shuffled t) (hlive : s.Live id) : t.Live id := by
  obtain ⟨scope, hscope⟩ := hlive.exists_scope
  obtain ⟨scope', hscope', -⟩ := h.exists_scope hscope
  exact live_of_scope hscope'

/-- What is in reach does not depend on the order of names. -/
theorem Shuffled.reachable (h : s.Shuffled t) (hid : s.Reachable kept id) :
    t.Reachable kept id := by
  induction hid with
  | root hlive => exact .root (h.live hlive)
  | start hmem hlive => exact .start hmem (h.live hlive)
  | outer _ hscope houter hlive ih =>
    obtain ⟨scope', hscope', hsame, -⟩ := h.exists_scope hscope
    exact .outer ih hscope' (hsame ▸ houter) (h.live hlive)
  | value _ hscope hmem hcaptures hlive ih =>
    obtain ⟨scope', hscope', -, hperm⟩ := h.exists_scope hscope
    exact .value ih hscope' (hperm.mem_iff.mp hmem) hcaptures (h.live hlive)

/-- **The same slots are released, in the same order.** -/
theorem Shuffled.garbage_eq (h : s.Shuffled t) : s.garbage kept = t.garbage kept := by
  refine pairwise_garbage.eq_of_mem_iff pairwise_garbage fun {id} => ?_
  have hlive : s.Live id ↔ t.Live id := ⟨h.live, h.symm.live⟩
  have hreachable : s.Reachable kept id ↔ t.Reachable kept id := ⟨h.reachable, h.symm.reachable⟩
  rw [mem_garbage, mem_garbage, ← reachable_iff, ← reachable_iff, hlive, hreachable]

/-- What a sweep leaves is the same again, up to the order of names. -/
theorem Shuffled.sweep (h : s.Shuffled t) : (s.sweep kept).Shuffled (t.sweep kept) where
  scope? id := by
    by_cases hid : s.Reachable kept id
    · rw [(reachable_iff.mp hid).scope?_sweep, (reachable_iff.mp (h.reachable hid)).scope?_sweep]
      exact h.scope? id
    · have hdead : ¬(s.sweep kept).Live id := mt live_sweep.mp (mt reachable_iff.mpr hid)
      have hdead' : ¬(t.sweep kept).Live id :=
        fun hlive => hid (h.symm.reachable (reachable_iff.mpr (live_sweep.mp hlive)))
      rw [Option.not_isSome_iff_eq_none.mp hdead, Option.not_isSome_iff_eq_none.mp hdead']
      exact .none
  size_slots := by rw [size_slots_sweep, size_slots_sweep, h.size_slots]
  free := by rw [free_sweep, free_sweep, h.free, h.garbage_eq]

end Store

theorem Session.fst_sweep (s : Session) (kept : List ScopeId) :
    (s.sweep kept).1 = (s.store.garbage kept).length := rfl

theorem Session.store_sweep (s : Session) (kept : List ScopeId) :
    (s.sweep kept).2.store = s.store.sweep kept := rfl

/-- **A sweep releases exactly what is out of reach**, from every session and whatever is to be
kept, be it live, released or no slot at all. It tells how many scopes it releases, and leaves the
others as they are. In a session whose scopes list their names in another order, it tells the same
number, releases the same slots, and leaves the free ones in the same order. -/
theorem Session.sweep_releases_unreachable (s : Session) (kept : List ScopeId) :
    s.store.Collected kept (s.sweep kept).1 (s.sweep kept).2.store ∧
      ∀ t : Session, s.store.Shuffled t.store →
        (s.sweep kept).1 = (t.sweep kept).1 ∧
          (s.sweep kept).2.store.Shuffled (t.sweep kept).2.store := by
  rw [fst_sweep, store_sweep]
  refine ⟨s.store.collected_sweep kept, fun t hshuffled => ?_⟩
  rw [fst_sweep, store_sweep, hshuffled.garbage_eq]
  exact ⟨rfl, hshuffled.sweep⟩

/-- A function in the root scope keeps the second scope. The last two scopes refer to each other,
and nothing else refers to them. -/
def Session.cyclic (bindings : List (String × Value)) : Session :=
  let madeIn (id : ScopeId) : Value := .function ⟨[], default, id⟩
  ⟨⟨#[some ⟨bindings, none⟩, some ⟨[], some 0⟩, some ⟨[("g", madeIn 3)], some 0⟩,
    some ⟨[("h", .returned (madeIn 2))], some 1⟩], #[]⟩, #[]⟩

/-- A cycle is released, and a slot that does not exist keeps nothing. -/
theorem Session.sweep_releases_unreachable_cyclic :
    let s := cyclic [("f", .function ⟨[], default, 1⟩), ("x", .integer 1)]
    let t := cyclic [("x", .integer 1), ("f", .function ⟨[], default, 1⟩)]
    s.store.Shuffled t.store ∧ (s.sweep [7]).1 = 2 ∧ (t.sweep [7]).1 = 2 ∧
      (s.sweep [7]).2.store.Shuffled (t.sweep [7]).2.store ∧
      (s.sweep [7]).2.store.free = #[2, 3] := by
  intro s t
  have hshuffled : s.store.Shuffled t.store := by
    constructor
    case scope? =>
      intro id
      rcases id with _ | _ | _ | _ | id
      · exact .some ⟨rfl, List.Perm.swap _ _ []⟩
      · exact .some ⟨rfl, .refl _⟩
      · exact .some ⟨rfl, .refl _⟩
      · exact .some ⟨rfl, .refl _⟩
      · exact .none
    case size_slots => rfl
    case free => rfl
  have hgarbage : s.store.garbage [7] = [2, 3] := by decide +kernel
  obtain ⟨-, hsame⟩ := sweep_releases_unreachable s [7]
  obtain ⟨hcount, hleft⟩ := hsame t hshuffled
  have htwo : (s.sweep [7]).1 = 2 := by
    rw [fst_sweep, hgarbage]
    rfl
  have hfree : (s.sweep [7]).2.store.free = #[2, 3] := by
    rw [store_sweep, Store.free_sweep, hgarbage]
    rfl
  exact ⟨hshuffled, htwo, hcount.symm.trans htwo, hleft, hfree⟩

end ScriptLang
