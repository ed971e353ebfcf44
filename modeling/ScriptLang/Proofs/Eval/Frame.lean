import Mathlib.Data.Set.Insert
import ScriptLang.Proofs.Eval.Correspondence

/-!
# What evaluation leaves alone

Names are bound in the scope that is evaluated in and in no other one. A call is evaluated in a
scope of its own, which takes a slot that held nothing; so a call changes no scope that was there
before it, neither that of the caller nor the one that the function was made in, and what is
evaluated in a scope changes this scope alone, where it binds more names or binds them anew.

For this the free slots have to be dead when evaluation starts. While it goes on a slot may be both
live and free, if it was listed twice. So what is followed through evaluation are the slots that are
live and not free: a new scope never takes one of these.
-/

namespace ScriptLang

/-! ## Scopes that are bound in -/

namespace Scope

variable {a b c : Scope}

/-- The second scope is inside the same one, and it binds all names that the first one does. -/
structure Extends (a b : Scope) : Prop where
  outer : b.outer = a.outer
  isSome_find? : ∀ name, (a.find? name).isSome → (b.find? name).isSome

theorem Extends.refl (a : Scope) : a.Extends a := ⟨rfl, fun _ h => h⟩

theorem Extends.trans (h : a.Extends b) (h' : b.Extends c) : a.Extends c where
  outer := h'.outer.trans h.outer
  isSome_find? name hname := h'.isSome_find? name (h.isSome_find? name hname)

theorem extends_insert (a : Scope) (name : String) (value : Value) :
    a.Extends (a.insert name value) where
  outer := rfl
  isSome_find? other h := by
    by_cases hname : other = name
    · rw [hname, find?_insert_self]
      rfl
    · rwa [find?_insert_of_ne hname]

end Scope

/-! ## Stores -/

namespace Store

variable {s t u : Store} {id : ScopeId} {written written' : Set ScopeId}

/-- The slot holds a scope, and no new scope is to take it. -/
def Guarded (s : Store) (id : ScopeId) : Prop := s.Live id ∧ id ∉ s.free

/-- What was guarded is so still, and no scope in a guarded slot has changed but for those in
`written`, where names have been bound. -/
structure Frame (written : Set ScopeId) (s t : Store) : Prop where
  guarded : ∀ id, s.Guarded id → t.Guarded id
  same : ∀ id, s.Guarded id → id ∉ written → t.scope? id = s.scope? id
  grown : ∀ id ∈ written, s.Guarded id → ∀ before, s.scope? id = some before →
    ∃ after, t.scope? id = some after ∧ before.Extends after

theorem Frame.refl (written : Set ScopeId) (s : Store) : s.Frame written s where
  guarded _ h := h
  same _ _ _ := rfl
  grown _ _ _ before hbefore := ⟨before, hbefore, .refl before⟩

theorem Frame.trans (h : s.Frame written t) (h' : t.Frame written u) : s.Frame written u where
  guarded id hid := h'.guarded id (h.guarded id hid)
  same id hid hout := (h'.same id (h.guarded id hid) hout).trans (h.same id hid hout)
  grown id hin hid before hbefore := by
    obtain ⟨between, hbetween, hextends⟩ := h.grown id hin hid before hbefore
    obtain ⟨after, hafter, hextends'⟩ := h'.grown id hin (h.guarded id hid) between hbetween
    exact ⟨after, hafter, hextends.trans hextends'⟩

theorem Frame.mono (h : s.Frame written t) (hsub : written ⊆ written') : s.Frame written' t where
  guarded := h.guarded
  same id hid hout := h.same id hid fun hin => hout (hsub hin)
  grown id _ hid before hbefore := by
    by_cases hin : id ∈ written
    · exact h.grown id hin hid before hbefore
    · exact ⟨before, (h.same id hid hin).trans hbefore, .refl before⟩

/-- What is bound in a scope that was not there at first is no change of a scope that was. -/
theorem Frame.hide (h : s.Frame ∅ t) (h' : t.Frame {id} u) (hid : ¬s.Guarded id) :
    s.Frame ∅ u where
  guarded j hj := h'.guarded j (h.guarded j hj)
  same j hj hout := by
    have hne : j ∉ ({id} : Set ScopeId) := by
      rintro rfl
      exact hid hj
    exact (h'.same j (h.guarded j hj) hne).trans (h.same j hj hout)
  grown _ hin := absurd hin (Set.notMem_empty _)

theorem frame_insert (s : Store) (id : ScopeId) (name : String) (value : Value) :
    s.Frame {id} (s.insert id name value) where
  guarded j hj := by
    rw [Guarded, live_insert, free_insert]
    exact hj
  same j _ hout := scope?_insert_of_ne hout
  grown j hin _ before hbefore := by
    obtain rfl : j = id := hin
    exact ⟨_, scope?_insert_self hbefore, before.extends_insert name value⟩

/-- A new scope takes no guarded slot. -/
theorem not_guarded_enclose (s : Store) (outer : ScopeId) : ¬s.Guarded (s.enclose outer).1 := by
  rintro ⟨hlive, hfree⟩
  cases hback : s.free.back? with
  | none =>
    rw [enclose_of_back_none hback] at hlive
    exact Nat.lt_irrefl _ hlive.lt_size
  | some id =>
    rw [enclose_of_back hback] at hfree
    exact hfree (mem_free_of_back hback)

/-- Making a scope frees no slot. -/
theorem mem_free_of_mem_enclose {outer : ScopeId} (h : id ∈ (s.enclose outer).2.free) :
    id ∈ s.free := by
  cases hback : s.free.back? with
  | none => rwa [enclose_of_back_none hback] at h
  | some last =>
    rw [enclose_of_back hback] at h
    rw [← Array.mem_toList_iff, toList_free_of_back hback]
    exact List.mem_append_left _ (Array.mem_toList_iff.mpr h)

theorem frame_enclose (s : Store) (outer : ScopeId) : s.Frame ∅ (s.enclose outer).2 := by
  have hsame : ∀ id, s.Guarded id → (s.enclose outer).2.scope? id = s.scope? id := by
    intro id hid
    refine scope?_enclose_of_ne ?_
    rintro rfl
    exact s.not_guarded_enclose outer hid
  constructor
  case guarded =>
    intro id hid
    refine ⟨?_, fun h => hid.2 (mem_free_of_mem_enclose h)⟩
    rw [Live, hsame id hid]
    exact hid.1
  case same => exact fun id hid _ => hsame id hid
  case grown => exact fun _ hin => absurd hin (Set.notMem_empty _)

/-- No scope that was live has changed but for those in `written`. These are still inside the same
scope, and bind all names that they did. -/
structure Preserves (written : Set ScopeId) (s t : Store) : Prop where
  same : ∀ id, s.Live id → id ∉ written → t.scope? id = s.scope? id
  grown : ∀ id ∈ written, ∀ before, s.scope? id = some before →
    ∃ after, t.scope? id = some after ∧ before.Extends after

/-- If the free slots are dead, all live ones are guarded. -/
theorem Frame.preserves (h : s.Frame written t) (hfree : ∀ id ∈ s.free, ¬s.Live id) :
    s.Preserves written t := by
  have hguarded : ∀ id, s.Live id → s.Guarded id :=
    fun id hlive => ⟨hlive, fun hid => hfree id hid hlive⟩
  constructor
  case same => exact fun id hlive hout => h.same id (hguarded id hlive) hout
  case grown =>
    intro id hin before hbefore
    exact h.grown id hin (hguarded id (live_of_scope hbefore)) before hbefore

end Store

/-! ## Runs -/

namespace Run

variable {α β : Type} {written written' : Set ScopeId} {Q Q' : α → Prop} {R : β → Prop}

/-- Wherever the run starts, if it comes to an end then it has bound names in these scopes only, as
far as guarded slots go. If it goes on, then with a result like this. -/
def WritesOnly (written : Set ScopeId) (Q : α → Prop) (run : Run α) : Prop :=
  ∀ s r s', run s = some (r, s') → s.store.Frame written s'.store ∧ ∀ a, r = .ok a → Q a

theorem WritesOnly.mono {run : Run α} (h : WritesOnly written Q run) (hsub : written ⊆ written')
    (hQ : ∀ a, Q a → Q' a) : WritesOnly written' Q' run := by
  intro s r s' hrun
  obtain ⟨hframe, hresult⟩ := h s r s' hrun
  exact ⟨hframe.mono hsub, fun a ha => hQ a (hresult a ha)⟩

theorem writesOnly_tooDeep : WritesOnly written Q (tooDeep : Run α) := by
  rintro s r s' ⟨⟩

theorem writesOnly_pure {a : α} (ha : Q a) : WritesOnly written Q (pure a) := by
  rintro s r s' ⟨⟩
  refine ⟨.refl written s.store, ?_⟩
  rintro _ ⟨⟩
  exact ha

theorem writesOnly_unwind (v : Value) : WritesOnly written Q (unwind v : Run α) := by
  rintro s r s' ⟨⟩
  refine ⟨.refl written s.store, ?_⟩
  rintro _ ⟨⟩

theorem writesOnly_lookup {Q : Value → Prop} (id : ScopeId) (name : String) (hQ : ∀ v, Q v) :
    WritesOnly written Q (lookup id name) := by
  rintro s r s' ⟨⟩
  exact ⟨.refl written s.store, fun v _ => hQ v⟩

/-- One run after the other. -/
theorem WritesOnly.bind {run : Run α} {f : α → Run β} (hrun : WritesOnly written Q run)
    (hf : ∀ a, Q a → WritesOnly written R (f a)) : WritesOnly written R (run >>= f) := by
  intro s r s' h
  have hbind : Run.bind run f s = some (r, s') := h
  rw [Run.bind] at hbind
  rcases hfirst : run s with _ | ⟨v | a, t⟩ <;> rw [hfirst] at hbind
  · cases hbind
  · obtain ⟨⟩ := hbind
    refine ⟨(hrun s _ _ hfirst).1, ?_⟩
    rintro _ ⟨⟩
  · obtain ⟨hframe, ha⟩ := hrun s _ t hfirst
    obtain ⟨hframe', hresult⟩ := hf a (ha a rfl) t r s' hbind
    exact ⟨hframe.trans hframe', hresult⟩

/-- The end of a call leaves the session as it is. -/
theorem WritesOnly.catchReturned {Q : Value → Prop} {run : Run Value}
    (hrun : WritesOnly written Q run) :
    WritesOnly written (fun _ => True) (Run.catchReturned run) := by
  intro s r s' h
  refine ⟨?_, fun _ _ => trivial⟩
  unfold Run.catchReturned at h
  split at h
  next v t hreturned =>
    obtain ⟨⟩ := h
    exact (hrun s _ _ hreturned).1
  next => exact (hrun s r s' h).1

theorem writesOnly_assign {Q : Unit → Prop} (id : ScopeId) (name : String) (value : Value)
    (hQ : Q ()) : WritesOnly {id} Q (assign id name value) := by
  rintro s r s' ⟨⟩
  refine ⟨?_, fun _ _ => hQ⟩
  rw [Session.insert]
  split
  · exact s.store.frame_insert id name value
  · exact .refl _ s.store

/-- What is done in a new scope changes none that was there. -/
theorem writesOnly_enclose {outer : ScopeId} {f : ScopeId → Run α}
    (hf : ∀ id, WritesOnly {id} Q (f id)) : WritesOnly ∅ Q (enclose outer >>= f) := by
  intro s r s' h
  have hrun : f (s.store.enclose outer).1 (s.enclose outer).2 = some (r, s') := h
  obtain ⟨hframe, hresult⟩ := hf _ _ r s' hrun
  refine ⟨?_, hresult⟩
  exact (s.store.frame_enclose outer).hide hframe (s.store.not_guarded_enclose outer)

/-- Evaluation binds names in the scope that it is in, and calls bind them in no scope that is there
already. -/
def framing : Simulation Run Run :=
  { Correspondence.same.simulation False with
    Code w x _ _ R p _ := WritesOnly {x} (fun a => ∃ b, R w a b) p
    Calls _ p _ := WritesOnly ∅ (fun _ => True) p
    pure h := writesOnly_pure ⟨_, h⟩
    bind hp hf := hp.bind fun _ ⟨_, h⟩ => hf trivial h
    tooDeep := writesOnly_tooDeep
    error _ := writesOnly_unwind _
    returned _ := writesOnly_unwind _
    lookup _ name := writesOnly_lookup _ name fun v => ⟨v, rfl⟩
    assign _ _ name := writesOnly_assign _ name _ ⟨(), trivial⟩
    code_of_calls h := h.mono (Set.empty_subset _) fun v _ => ⟨v, rfl⟩
    call _ hcode := writesOnly_enclose fun x => (hcode () x x trivial rfl).catchReturned
    call_tooDeep := writesOnly_tooDeep
    call_error _ := writesOnly_unwind _ }

end Run

namespace Session

/-- **A call changes no scope, and evaluation in a scope changes no other one.** Let the free slots
of a session be dead, and let a run from there come to an end, with a value or by unwinding. If it
is a call, every scope that was live is what it was, whatever is called with whatever arguments. If
it evaluates an expression, a statement or a block in some scope, then this holds of all other
scopes; and in that scope itself no name is missing, and around it there is what was around it. -/
theorem preserves_scopes {s : Session} (hfree : ∀ id ∈ s.store.free, ¬s.store.Live id)
    (depth : Nat) :
    (∀ f values r s', Run.apply depth f values s = some (r, s') →
      s.store.Preserves ∅ s'.store) ∧
    ∀ scope,
      (∀ e r s', Run.expression depth e scope s = some (r, s') →
        s.store.Preserves {scope} s'.store) ∧
      (∀ st r s', Run.statement depth st scope s = some (r, s') →
        s.store.Preserves {scope} s'.store) ∧
      ∀ b r s', Run.block depth b scope s = some (r, s') →
        s.store.Preserves {scope} s'.store := by
  have hframed := Run.framing.along depth
  refine ⟨?_, fun scope => ⟨?_, ?_, ?_⟩⟩
  · intro f values r s' h
    have hvalues : List.Forall₂ Eq values values := List.forall₂_refl values
    exact (hframed.apply (w := ()) rfl hvalues s r s' h).1.preserves hfree
  · intro e r s' h
    exact (hframed.expression (w := ()) rfl rfl s r s' h).1.preserves hfree
  · intro st r s' h
    exact (hframed.statement (w := ()) rfl rfl s r s' h).1.preserves hfree
  · intro b r s' h
    exact (hframed.block (w := ()) rfl rfl s r s' h).1.preserves hfree

/-- A name that is bound both in the root scope and in one inside it, and a released slot. -/
def shadowed : Session :=
  ⟨⟨#[some ⟨[("x", .integer 1)], none⟩, some ⟨[("x", .integer 5)], some Store.root⟩, none], #[2]⟩,
    #[]⟩

/-- A function made in the inner scope of `shadowed`. It binds the name of its parameter anew. -/
def rebinding : Closure :=
  let x : Ident := ⟨⟨⟨.ident, "x"⟩, default⟩⟩
  let sum : Expr := .binary default .plus (.ident x) (.integer default 1)
  ⟨[x], .mk default [.binding default x sum, .expression default (.ident x)], 1⟩

/-- What is bound in the call is in the slot that was free. -/
theorem preserves_scopes_rebinding :
    (∀ id ∈ shadowed.store.free, ¬shadowed.store.Live id) ∧
      ∃ s', Run.apply 6 (.function rebinding) [.integer 7] shadowed = some (.ok (.integer 8), s') ∧
        s'.store.scope? 2 = some ⟨[("x", .integer 8)], some 1⟩ ∧
        shadowed.store.Preserves ∅ s'.store := by
  have hfree : ∀ id ∈ shadowed.store.free, ¬shadowed.store.Live id := by
    intro id hid
    obtain rfl : id = 2 := Array.mem_singleton.mp hid
    exact Bool.false_ne_true
  have hrun : ∃ s', Run.apply 6 (.function rebinding) [.integer 7] shadowed =
      some (.ok (.integer 8), s') ∧ s'.store.scope? 2 = some ⟨[("x", .integer 8)], some 1⟩ := by
    simp only [Run.apply, Machine.apply, Machine.block, Machine.statements, Machine.statement,
      Machine.expression, rebinding, Block.statements]
    exact ⟨_, rfl, rfl⟩
  obtain ⟨s', hrun, hnew⟩ := hrun
  obtain ⟨hcall, -⟩ := preserves_scopes hfree 6
  exact ⟨hfree, s', hrun, hnew, hcall _ _ _ _ hrun⟩

end Session

end ScriptLang
