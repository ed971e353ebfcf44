import ScriptLang.Proofs.Store.Sound
import ScriptLang.Proofs.Tree.Erase

/-!
# Stores without places

A function carries the tree of its body, and so the places in it get into the store. Erasing takes
them out of every value that is bound. Nothing that is done with values and stores looks at what is
erased: it comes to the same whether the places are taken out before or after.
-/

namespace ScriptLang

/-! ## Values -/

/-- A function without places. -/
def Closure.erase (c : Closure) : Closure :=
  { c with parameters := c.parameters.map Ident.erase, body := c.body.erase }

namespace Value

/-- A value without places. -/
def erase : Value → Value
  | returned value => returned value.erase
  | function closure => function closure.erase
  | v => v

/-- Only functions hold places. -/
theorem erase_of_scope?_eq_none {v : Value} (h : v.scope? = none) : v.erase = v := by
  induction v with
  | returned v ih => exact congrArg returned (ih h)
  | function closure => cases h
  | _ => rfl

@[simp] theorem type_erase (v : Value) : v.erase.type = v.type := by
  cases v <;> rfl

/-- The text of a function shows nothing of what is erased. -/
@[simp] theorem form_erase (v : Value) : v.erase.form = v.form := by
  induction v with
  | returned v ih => exact ih
  | function closure =>
    simp only [erase, form, Closure.erase, Ident.listForm_erase, Block.form_erase]
  | _ => rfl

@[simp] theorem scope?_erase (v : Value) : v.erase.scope? = v.scope? := by
  induction v with
  | returned v ih => exact ih
  | _ => rfl

@[simp] theorem unwrap_erase (v : Value) : v.erase.unwrap = v.unwrap.erase := by
  cases v <;> rfl

theorem applyUnary_erase (operator : TokenKind) (v : Value) :
    applyUnary operator v.erase = (applyUnary operator v).erase := by
  rw [erase_of_scope?_eq_none (scope?_applyUnary operator v)]
  cases v <;> cases operator <;> rfl

theorem applyBinary_erase (operator : TokenKind) (a b : Value) :
    applyBinary operator a.erase b.erase = (applyBinary operator a b).erase := by
  rw [erase_of_scope?_eq_none (scope?_applyBinary operator a b)]
  cases a <;> cases b <;> rfl

end Value

/-! ## Scopes -/

namespace Scope

/-- A scope without places. -/
def erase (s : Scope) : Scope :=
  { s with bindings := s.bindings.map fun b => (b.1, b.2.erase) }

theorem find?_erase (s : Scope) (name : String) :
    s.erase.find? name = (s.find? name).map Value.erase := by
  obtain ⟨bindings, outer⟩ := s
  show List.lookup name (bindings.map fun b => (b.1, b.2.erase)) =
    (List.lookup name bindings).map Value.erase
  induction bindings with
  | nil => rfl
  | cons b bindings ih =>
    obtain ⟨other, value⟩ := b
    by_cases hname : name = other
    · simp [hname]
    · have hne : (name == other) = false := beq_false_of_ne hname
      simp only [List.map_cons, List.lookup_cons, hne, ih]

theorem insert_erase (s : Scope) (name : String) (value : Value) :
    s.erase.insert name value.erase = (s.insert name value).erase := by
  simp only [erase, insert, List.map_cons, List.filter_map]
  rfl

/-- Erasing takes no reference away. -/
theorem links_erase (s : Scope) : s.erase.links = s.links := by
  simp only [erase, links, List.filterMap_map, Function.comp_def, Value.scope?_erase]

end Scope

/-! ## Stores -/

namespace Store

/-- A store without places. -/
def erase (s : Store) : Store := { s with slots := s.slots.map (Option.map Scope.erase) }

variable (s : Store)

theorem size_slots_erase : s.erase.slots.size = s.slots.size := Array.size_map

theorem scope?_erase (id : ScopeId) : s.erase.scope? id = (s.scope? id).map Scope.erase := by
  show (s.slots.map (Option.map Scope.erase))[id]?.join = _
  rw [Array.getElem?_map, scope?]
  cases s.slots[id]? <;> rfl

theorem chain_erase (n : Nat) (id : ScopeId) :
    s.erase.chain n id = (s.chain n id).map Scope.erase := by
  induction n generalizing id with
  | zero => rfl
  | succ n ih =>
    rw [chain, chain, scope?_erase]
    cases s.scope? id with
    | none => rfl
    | some scope =>
      show scope.erase :: (scope.outer.map (s.erase.chain n)).getD [] = _
      cases houter : scope.outer with
      | none => simp [houter]
      | some outer => simp [houter, ih]

/-- **A name has the same value**, places apart. -/
theorem find?_erase (id : ScopeId) (name : String) :
    s.erase.find? id name = (s.find? id name).map Value.erase := by
  rw [find?, find?, chain_erase, size_slots_erase]
  induction s.chain s.slots.size id with
  | nil => rfl
  | cons scope scopes ih =>
    rw [List.map_cons, List.findSome?_cons, List.findSome?_cons, Scope.find?_erase]
    cases scope.find? name with
    | none => exact ih
    | some value => rfl

theorem insert_erase (id : ScopeId) (name : String) (value : Value) :
    s.erase.insert id name value.erase = (s.insert id name value).erase := by
  rw [insert, insert, scope?_erase]
  cases s.scope? id with
  | none => rfl
  | some scope =>
    simp only [Option.map_some, erase, Scope.insert_erase, Array.map_setIfInBounds]

/-- A new scope takes the same slot. -/
theorem enclose_erase (outer : ScopeId) :
    s.erase.enclose outer = ((s.enclose outer).1, (s.enclose outer).2.erase) := by
  cases hback : s.free.back? with
  | none =>
    rw [enclose_of_back_none hback, enclose_of_back_none (s := s.erase) hback]
    simp [erase, Scope.erase, Array.map_push]
  | some id =>
    rw [enclose_of_back hback, enclose_of_back (s := s.erase) hback]
    simp [erase, Scope.erase, Array.map_setIfInBounds]

/-! ### Sweeping -/

theorem mark_erase (n : Nat) (marked : Array Bool) (pending : List ScopeId) :
    s.erase.mark n marked pending = s.mark n marked pending := by
  induction n generalizing marked pending with
  | zero => rfl
  | succ n ih =>
    have hlinks : ∀ id, ((s.erase.scope? id).map Scope.links).getD [] =
        ((s.scope? id).map Scope.links).getD [] := by
      intro id
      rw [scope?_erase]
      cases s.scope? id with
      | none => rfl
      | some scope => simp [Scope.links_erase]
    simp only [mark, scope?_erase, Option.isNone_map]
    split
    · rfl
    · rw [← scope?_erase, hlinks, ih]

theorem reached_erase (kept : List ScopeId) : s.erase.reached kept = s.reached kept := by
  rw [reached, reached, mark_erase, size_slots_erase]

theorem garbage_erase (kept : List ScopeId) : s.erase.garbage kept = s.garbage kept := by
  simp only [garbage, reached_erase, size_slots_erase, scope?_erase, Option.isSome_map]

/-- **The same scopes are released**, and their slots are listed in the same order. -/
theorem sweep_erase (kept : List ScopeId) : s.erase.sweep kept = (s.sweep kept).erase := by
  have hslots : ∀ marked : Array Bool,
      s.erase.slots.mapIdx (fun id slot => if marked.getD id false then slot else none) =
        (s.slots.mapIdx fun id slot => if marked.getD id false then slot else none).map
          (Option.map Scope.erase) := by
    intro marked
    refine Array.ext_getElem? fun id => ?_
    simp only [erase, Array.getElem?_mapIdx, Array.getElem?_map, Option.map_map]
    congr 1
    funext slot
    by_cases hid : marked.getD id false
    · simp [hid]
    · simp [hid]
  rw [sweep, sweep, reached_erase, garbage_erase, hslots]
  rfl

end Store

end ScriptLang
