import ScriptLang.Value

/-!
# The store of scopes

Scopes live in numbered slots and refer to each other by number. A slot is live or released, and a
released slot is used again for a later scope. `Store.sweep` releases the scopes that nothing can
reach: neither the root scope, nor the scopes that are asked to be kept, nor what these lead to.
-/

namespace ScriptLang

/-- The names bound in one scope, and the scope around it. -/
structure Scope where
  /-- Each name occurs once. -/
  bindings : List (String × Value)
  outer : Option ScopeId
  deriving Inhabited

namespace Scope

/-- The value bound to a name in this very scope. -/
def find? (s : Scope) (name : String) : Option Value := s.bindings.lookup name

/-- Binds a name in this scope, in place of what it was bound to. -/
def insert (s : Scope) (name : String) (value : Value) : Scope :=
  { s with bindings := (name, value) :: s.bindings.filter (·.1 ≠ name) }

/-- The scopes that a scope refers to: the one around it, and those that the functions bound in it
were made in. -/
def links (s : Scope) : List ScopeId :=
  s.outer.toList ++ s.bindings.filterMap fun (_, value) => value.scope?

end Scope

/-- Numbered scopes. -/
structure Store where
  /-- The slots; a released slot holds nothing. -/
  slots : Array (Option Scope)
  /-- The released slots. The last one is the next to be used. -/
  free : Array ScopeId
  deriving Inhabited

namespace Store

/-- The slot of the outermost scope. -/
def root : ScopeId := 0

/-- The store that holds an empty root scope and nothing else. -/
def initial : Store := ⟨#[some ⟨[], none⟩], #[]⟩

/-- The scope in a slot, if the slot is live. -/
def scope? (s : Store) (id : ScopeId) : Option Scope := s.slots[id]?.join

/-- How many slots are live. -/
def size (s : Store) : Nat := s.slots.size - s.free.size

/-! ## Names -/

/-- The scopes that are searched from a slot on, from the inside out. At most `n` are listed. -/
def chain (s : Store) : Nat → ScopeId → List Scope
  | 0, _ => []
  | n + 1, id =>
    match s.scope? id with
    | none => []
    | some scope => scope :: (scope.outer.map (s.chain n)).getD []

/-- The value of a name in a scope: that of the innermost scope around it that binds the name. If
the scopes around it lead back to one that has been searched, the search would go on for ever where
none of them binds the name; here it is cut off after as many scopes as there are slots, and the
name has no value. -/
def find? (s : Store) (id : ScopeId) (name : String) : Option Value :=
  (s.chain s.slots.size id).findSome? (·.find? name)

/-- Binds a name in the scope in a slot. Nothing happens if the slot is released. -/
def insert (s : Store) (id : ScopeId) (name : String) (value : Value) : Store :=
  match s.scope? id with
  | none => s
  | some scope => { s with slots := s.slots.setIfInBounds id (some (scope.insert name value)) }

/-- Makes an empty scope inside another one. It takes the slot released last, or else a new one. -/
def enclose (s : Store) (outer : ScopeId) : ScopeId × Store :=
  let scope : Scope := ⟨[], some outer⟩
  match s.free.back? with
  | some id => (id, ⟨s.slots.setIfInBounds id (some scope), s.free.pop⟩)
  | none => (s.slots.size, { s with slots := s.slots.push (some scope) })

/-! ## Releasing scopes -/

/-- Marks the live slots that can be reached from pending ones, without going through slots that
are marked already. At most `n` slots are marked. -/
def mark (s : Store) : Nat → Array Bool → List ScopeId → Array Bool
  | 0, marked, _ => marked
  | n + 1, marked, pending =>
    match pending.dropWhile fun id => marked.getD id true || (s.scope? id).isNone with
    | [] => marked
    | id :: rest =>
      let links := ((s.scope? id).map Scope.links).getD []
      s.mark n (marked.setIfInBounds id true) (links ++ rest)

/-- Which slots can be reached from the root scope and from those in `kept`. -/
def reached (s : Store) (kept : List ScopeId) : Array Bool :=
  s.mark s.slots.size (Array.replicate s.slots.size false) (root :: kept)

/-- The live slots that cannot be reached, in ascending order. -/
def garbage (s : Store) (kept : List ScopeId) : List ScopeId :=
  let marked := s.reached kept
  (List.range s.slots.size).filter fun id => (s.scope? id).isSome && !marked.getD id false

/-- Releases all scopes that can be reached neither from the root scope nor from those in `kept`. -/
def sweep (s : Store) (kept : List ScopeId) : Store :=
  let marked := s.reached kept
  { slots := s.slots.mapIdx fun id slot => if marked.getD id false then slot else none
    free := s.free ++ (s.garbage kept).toArray }

end Store

end ScriptLang
