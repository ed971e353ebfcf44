import ScriptLang.Proofs.Store.Slots

/-!
# Where a name is found

A search for a name goes outward from scope to scope, up to the first one that binds the name; it
ends in vain where nothing is around a scope, or where what is around it has been released.
`Store.Searches` tells which slots a search comes to. If no scope is met twice on the way outward,
the value of a name is that of the scope where the search for it ends, however far away that is.

Binding a name changes what a search finds if the search comes to the scope that the name is bound
in, be it from the scope itself or from another one that shares it. It changes no other search:
neither one for another name, nor one that a scope before shadows, nor one that a released scope
cuts short.
-/

namespace ScriptLang

namespace Store

variable {s : Store} {id j start outer : ScopeId} {scope : Scope} {name other : String}
  {value : Value}

/-! ## Searching outward -/

/-- A search for the name that starts in the first slot comes to the second one: it is there by
going outward, and no scope before it binds the name. -/
inductive Searches (s : Store) (name : String) : ScopeId → ScopeId → Prop where
  | here (id : ScopeId) : Searches s name id id
  | outward {id outer j : ScopeId} {scope : Scope} : s.scope? id = some scope →
      scope.find? name = none → scope.outer = some outer → Searches s name outer j →
      Searches s name id j

/-- What is found among the scopes that are listed is bound where a search comes to. -/
theorem exists_searches_of_findSome? {n : Nat}
    (h : (s.chain n start).findSome? (fun scope => scope.find? name) = some value) :
    ∃ j scope, s.Searches name start j ∧ s.scope? j = some scope ∧
      scope.find? name = some value := by
  induction n generalizing start with
  | zero => cases h
  | succ n ih =>
    cases hscope : s.scope? start with
    | none =>
      rw [chain, hscope] at h
      cases h
    | some scope =>
      rw [chain_succ hscope, List.findSome?_cons] at h
      cases hfind : scope.find? name with
      | some found =>
        rw [hfind] at h
        exact ⟨start, scope, .here start, hscope, hfind.trans h⟩
      | none =>
        rw [hfind] at h
        cases houter : scope.outer with
        | none =>
          rw [houter] at h
          cases h
        | some outer =>
          rw [houter] at h
          obtain ⟨j, scope', hsearches, hbinds⟩ := ih h
          exact ⟨j, scope', .outward hscope hfind houter hsearches, hbinds⟩

/-- What is bound where a search comes to is found, if enough scopes are listed to get there. -/
theorem Searches.exists_ancestor (h : s.Searches name start j) (hscope : s.scope? j = some scope)
    (hvalue : scope.find? name = some value) :
    ∃ n, s.ancestor n start = some j ∧ ∀ m, n < m →
      (s.chain m start).findSome? (fun scope => scope.find? name) = some value := by
  induction h with
  | here id =>
    refine ⟨0, rfl, fun m hm => ?_⟩
    obtain ⟨m, rfl⟩ : ∃ k, m = k + 1 := ⟨m - 1, by omega⟩
    rw [chain_succ hscope, List.findSome?_cons, hvalue]
  | @outward id outer j inner hinner hnone houter _ ih =>
    obtain ⟨n, hn, hfound⟩ := ih hscope
    refine ⟨n + 1, (ancestor_succ hinner houter n).trans hn, fun m hm => ?_⟩
    obtain ⟨m, rfl⟩ : ∃ k, m = k + 1 := ⟨m - 1, by omega⟩
    rw [chain_succ hinner, List.findSome?_cons, hnone, houter]
    exact hfound m (by omega)

/-- **A name has the value that it is bound to where the search for it comes to a scope that binds
it**, if no scope is met twice on the way outward. -/
theorem Acyclic.find?_eq_some_iff (hacyclic : s.Acyclic start) :
    s.find? start name = some value ↔
      ∃ j scope, s.Searches name start j ∧ s.scope? j = some scope ∧
        scope.find? name = some value := by
  constructor
  · exact exists_searches_of_findSome?
  · rintro ⟨j, scope, hsearches, hscope, hvalue⟩
    obtain ⟨n, hn, hfound⟩ := hsearches.exists_ancestor hscope hvalue
    -- There are more slots than steps, so the scopes that are listed go far enough.
    have hlt := hacyclic.lt_card_liveSlots hn (live_of_scope hscope)
    have hle : s.liveSlots.card ≤ s.slots.size := by
      have hcard := Finset.card_filter_le (Finset.range s.slots.size) s.Live
      rwa [Finset.card_range] at hcard
    exact hfound s.slots.size (by omega)

/-! ## Binding a name -/

/-- Binding a name changes neither what is around a scope nor what other names are bound to. -/
theorem exists_scope?_insert (id : ScopeId) (name : String) (value : Value)
    (hscope : s.scope? j = some scope) :
    ∃ scope', (s.insert id name value).scope? j = some scope' ∧ scope'.outer = scope.outer ∧
      ∀ other, (other = name → j ≠ id) → scope'.find? other = scope.find? other := by
  by_cases hj : j = id
  · subst hj
    refine ⟨scope.insert name value, scope?_insert_self hscope, rfl, fun other hother => ?_⟩
    exact Scope.find?_insert_of_ne (fun heq => hother heq rfl) scope value
  · exact ⟨scope, (scope?_insert_of_ne hj).trans hscope, rfl, fun _ _ => rfl⟩

/-- A scope in which a name may have been bound. -/
theorem exists_scope?_of_insert {scope' : Scope}
    (hscope' : (s.insert id name value).scope? j = some scope') :
    ∃ scope, s.scope? j = some scope ∧ scope'.outer = scope.outer ∧
      ∀ other, (other = name → j ≠ id) → scope'.find? other = scope.find? other := by
  obtain ⟨scope, hscope⟩ := (live_insert.mp (live_of_scope hscope')).exists_scope
  obtain ⟨scope'', hscope'', hsame⟩ := exists_scope?_insert id name value hscope
  obtain rfl := Option.some.inj (hscope''.symm.trans hscope')
  exact ⟨scope, hscope, hsame⟩

/-- The name is bound in its scope. -/
theorem find?_of_scope?_insert {scope' : Scope}
    (hscope' : (s.insert id name value).scope? id = some scope') :
    scope'.find? name = some value := by
  obtain ⟨scope, hscope⟩ := (live_insert.mp (live_of_scope hscope')).exists_scope
  rw [scope?_insert_self hscope] at hscope'
  rw [← Option.some.inj hscope']
  exact Scope.find?_insert_self scope name value

theorem ancestor_insert (n : Nat) (start : ScopeId) :
    (s.insert id name value).ancestor n start = s.ancestor n start := by
  induction n generalizing start with
  | zero => rfl
  | succ n ih =>
    cases hscope : s.scope? start with
    | none =>
      have hdead : ¬(s.insert id name value).Live start := by
        rw [live_insert, Live, hscope]
        exact Bool.false_ne_true
      rw [ancestor, ancestor, hscope, Option.not_isSome_iff_eq_none.mp hdead]
      rfl
    | some scope =>
      obtain ⟨scope', hscope', houter, -⟩ :=
        exists_scope?_insert id name value hscope
      rw [ancestor, ancestor, hscope, hscope', Option.bind_some, Option.bind_some, houter,
        funext ih]

theorem Acyclic.insert (hacyclic : s.Acyclic start) :
    (s.insert id name value).Acyclic start := by
  intro i j outer hi hj
  rw [ancestor_insert] at hi hj
  exact hacyclic i j outer hi hj

/-- No search goes further than before. -/
theorem Searches.of_insert (h : (s.insert id name value).Searches other start j) :
    s.Searches other start j := by
  induction h with
  | here j => exact .here j
  | @outward k outer j scope' hscope' hnone houter' _ ih =>
    obtain ⟨scope, hscope, houter, hsame⟩ := exists_scope?_of_insert hscope'
    have hother : other = name → k ≠ id := by
      -- A search for the name would have ended in the scope where it is bound.
      rintro rfl rfl
      rw [find?_of_scope?_insert hscope'] at hnone
      cases hnone
    exact .outward hscope ((hsame other hother).symm.trans hnone) (houter.symm.trans houter') ih

/-- A search goes as far as before, unless it is for the name and comes to where this is bound. -/
theorem Searches.insert (h : s.Searches other start j)
    (hother : other = name → ¬s.Searches name start id) :
    (s.insert id name value).Searches other start j := by
  induction h with
  | here j => exact .here j
  | @outward k outer j scope hscope hnone houter _ ih =>
    obtain ⟨scope', hscope', houter', hsame⟩ := exists_scope?_insert id name value hscope
    have hk : other = name → k ≠ id := by
      rintro hname rfl
      exact hother hname (.here k)
    refine .outward hscope' ((hsame other hk).trans hnone) (houter'.trans houter) (ih ?_)
    rintro rfl hsearches
    exact hother rfl (.outward hscope hnone houter hsearches)

/-- A search that comes to where the name is bound does so still. -/
theorem Searches.insert_self (h : s.Searches name start id) :
    (s.insert id name value).Searches name start id := by
  induction h with
  | here id => exact .here id
  | @outward k outer id scope hscope hnone houter _ ih =>
    by_cases hk : k = id
    · subst hk
      exact .here k
    · exact .outward ((scope?_insert_of_ne hk).trans hscope) hnone houter ih

/-- A search that comes to where the name is bound finds the value. -/
theorem Acyclic.find?_insert_self (hacyclic : s.Acyclic start) (hlive : s.Live id)
    (h : s.Searches name start id) : (s.insert id name value).find? start name = some value := by
  have hlive' : (s.insert id name value).Live id := live_insert.mpr hlive
  obtain ⟨scope', hscope'⟩ := hlive'.exists_scope
  exact hacyclic.insert.find?_eq_some_iff.mpr
    ⟨id, scope', h.insert_self, hscope', find?_of_scope?_insert hscope'⟩

/-- All other searches find what they found before. -/
theorem Acyclic.find?_insert_of_not (hacyclic : s.Acyclic start)
    (h : ¬(other = name ∧ s.Searches name start id)) :
    (s.insert id name value).find? start other = s.find? start other := by
  refine Option.ext fun found => ?_
  rw [hacyclic.insert.find?_eq_some_iff, hacyclic.find?_eq_some_iff]
  constructor
  · rintro ⟨j, scope', hsearches, hscope', hfound⟩
    obtain ⟨scope, hscope, -, hsame⟩ := exists_scope?_of_insert hscope'
    refine ⟨j, scope, hsearches.of_insert, hscope, (hsame other ?_).symm.trans hfound⟩
    rintro rfl rfl
    exact h ⟨rfl, hsearches.of_insert⟩
  · rintro ⟨j, scope, hsearches, hscope, hfound⟩
    obtain ⟨scope', hscope', -, hsame⟩ := exists_scope?_insert id name value hscope
    refine ⟨j, scope', hsearches.insert fun hname hid => h ⟨hname, hid⟩, hscope',
      (hsame other ?_).trans hfound⟩
    rintro rfl rfl
    exact h ⟨rfl, hsearches⟩

end Store

/-- **What names are after one has been bound.** If the scope is live, the name has the value from
wherever a search for it comes to this scope, that is, where the scope is on the way outward and no
scope before it binds the name. All else is as it was: other names everywhere, and the name from
everywhere else. If the scope is not live, all names are everywhere what they were. -/
theorem Session.find?_insert (s : Session) (id : ScopeId) (name : String) (value : Value) :
    (s.store.Live id → ∀ start, s.store.Acyclic start → ∀ other,
      (other = name ∧ s.store.Searches name start id →
        (s.insert id name value).store.find? start other = some value) ∧
      (¬(other = name ∧ s.store.Searches name start id) →
        (s.insert id name value).store.find? start other = s.store.find? start other)) ∧
    (¬s.store.Live id → ∀ start other,
      (s.insert id name value).store.find? start other = s.store.find? start other) := by
  rw [store_insert]
  refine ⟨fun hlive start hacyclic other => ⟨?_, hacyclic.find?_insert_of_not⟩, fun hdead => ?_⟩
  · rintro ⟨rfl, hsearches⟩
    exact hacyclic.find?_insert_self hlive hsearches
  · intro start other
    rw [Store.insert, Option.not_isSome_iff_eq_none.mp hdead]

/-- Slots 1 and 5 are inside the root; slot 1 binds the name that the root binds, and slot 2 is
inside it. Slot 3 has been released, and slot 4 was inside it. -/
def Session.branching : Session :=
  ⟨⟨#[some ⟨[("x", .integer 1)], none⟩, some ⟨[("x", .integer 2)], some 0⟩, some ⟨[], some 1⟩, none,
    some ⟨[], some 3⟩, some ⟨[], some 0⟩], #[3]⟩, #[]⟩

/-- A name that is bound in the root shows in a scope inside it. It shows neither where a scope
between them binds it, nor where a scope between them has been released. -/
theorem Session.find?_insert_branching :
    let s := branching
    let t := s.insert 0 "x" (.integer 9)
    (s.store.Live 0 ∧ ∀ start, start = 2 ∨ start = 4 ∨ start = 5 → s.store.Acyclic start) ∧
      (t.store.find? 5 "x" = some (.integer 9) ∧
        t.store.find? 2 "x" = s.store.find? 2 "x" ∧ t.store.find? 4 "x" = s.store.find? 4 "x") ∧
      ¬s.store.Live 3 ∧
        (s.insert 3 "x" (.integer 9)).store.find? 4 "x" = s.store.find? 4 "x" := by
  intro s t
  have hacyclic : ∀ start, start = 2 ∨ start = 4 ∨ start = 5 → s.store.Acyclic start := by
    -- From none of the three are there more than two steps outward.
    rintro start (rfl | rfl | rfl) i j outer hi hj
    all_goals
      rcases i with _ | _ | _ | i <;> rcases j with _ | _ | _ | j <;> cases hi <;> cases hj <;> rfl
  have hsearches : s.store.Searches "x" 5 0 := .outward rfl rfl rfl (.here 0)
  have hshadowed : ¬s.store.Searches "x" 2 0 := by
    intro h
    cases h with
    | outward hscope hnone houter h =>
      cases hscope
      cases houter
      cases h with
      | outward hscope hnone houter h =>
        cases hscope
        cases hnone
  have hcut : ¬s.store.Searches "x" 4 0 := by
    intro h
    cases h with
    | outward hscope hnone houter h =>
      cases hscope
      cases houter
      cases h with
      | outward hscope hnone houter h => cases hscope
  have hdead : ¬s.store.Live 3 := Bool.false_ne_true
  obtain ⟨hbound, -⟩ := find?_insert s 0 "x" (.integer 9)
  obtain ⟨-, hreleased⟩ := find?_insert s 3 "x" (.integer 9)
  refine ⟨⟨rfl, hacyclic⟩, ⟨?_, ?_, ?_⟩, hdead, hreleased hdead 4 "x"⟩
  · exact (hbound rfl 5 (hacyclic 5 (by simp)) "x").1 ⟨rfl, hsearches⟩
  · exact (hbound rfl 2 (hacyclic 2 (by simp)) "x").2 fun h => hshadowed h.2
  · exact (hbound rfl 4 (hacyclic 4 (by simp)) "x").2 fun h => hcut h.2

end ScriptLang
