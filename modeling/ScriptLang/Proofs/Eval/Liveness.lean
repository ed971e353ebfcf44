import ScriptLang.Proofs.Eval.Trace
import ScriptLang.Proofs.Store.Chain
import ScriptLang.Proofs.Store.Sweep

/-!
# No evaluation turns to a released scope

Nothing is released while a program runs. So a scope that is live when it is named stays live, and
so does the scope of a value that is not bound to any name but only on its way: a function to be
called, an argument, a result. Every step of a run thus turns to a live scope and finds the store
sound, and so does every run of a session, since the sweep after it leaves the store sound and keeps
the scope of its result.
-/

namespace ScriptLang

/-! ## What a run does to a session -/

namespace Session

variable {s s' s'' : Session} {id : ScopeId} {value : Value}

/-- The session after a run: the store is sound, what was live is live, and nothing was noted. -/
structure Keeps (s s' : Session) : Prop where
  sound : s'.store.Sound
  live : ∀ {id}, s.store.Live id → s'.store.Live id
  log : s'.log = s.log

theorem Keeps.refl (hs : s.store.Sound) : s.Keeps s := ⟨hs, fun h => h, rfl⟩

theorem Keeps.trans (h : s.Keeps s') (h' : s'.Keeps s'') : s.Keeps s'' where
  sound := h'.sound
  live hlive := h'.live (h.live hlive)
  log := h'.log.trans h.log

/-- Binding a name in a live scope gives no warning. -/
theorem keeps_insert (hs : s.store.Sound) (hlive : s.store.Live id) (hvalue : s.store.Backs value)
    (name : String) : s.Keeps (s.insert id name value) := by
  obtain ⟨scope, hscope⟩ := hlive.exists_scope
  have hinsert : s.insert id name value = { s with store := s.store.insert id name value } := by
    rw [Session.insert, hscope]
  rw [hinsert]
  exact ⟨hs.insert hvalue, Store.live_insert.mpr, rfl⟩

theorem keeps_enclose (hs : s.store.Sound) (hlive : s.store.Live id) :
    s.Keeps (s.enclose id).2 :=
  ⟨hs.enclose hlive, fun h => hs.live_enclose.mpr (Or.inr h), rfl⟩

end Session

/-! ## Safe steps -/

/-- The step turns to a live scope of a sound store, leaves the store sound, and gives no
warning. -/
structure Access.IsSafe (a : Access) : Prop where
  sound_before : a.before.store.Sound
  live : a.before.store.Live a.scope
  sound_after : a.after.store.Sound
  log : a.after.log = a.before.log

/-- The steps lead from one session to another, each from where the one before it has led. -/
def Access.Path : Session → List Access → Session → Prop
  | s, [], s' => s = s'
  | s, a :: trace, s' => a.before = s ∧ Path a.after trace s'

theorem Access.Path.append {s s' s'' : Session} {trace trace' : List Access}
    (h : Path s trace s') (h' : Path s' trace' s'') : Path s (trace ++ trace') s'' := by
  induction trace generalizing s with
  | nil =>
    obtain rfl : s = s' := h
    exact h'
  | cons a trace ih => exact ⟨h.1, ih h.2⟩

namespace Traced

variable {α β : Type} {s s' : Session} {t : Traced α} {P : Store → α → Prop}
  {Q : Store → β → Prop}

/-- What a computation comes to satisfies a condition, or what it unwinds with refers to a live
scope. -/
def Settled (P : Store → α → Prop) (store : Store) : Except Value α → Prop
  | .ok a => P store a
  | .error v => store.Backs v

/-- All steps of a computation are safe, and what it comes to satisfies a condition. -/
structure SafeFrom (s : Session) (t : Traced α) (P : Store → α → Prop) : Prop where
  isSafe : ∀ a ∈ (t s).1, a.IsSafe
  path : ∃ last, Access.Path s (t s).1 last ∧ ∀ {r s'}, (t s).2 = some (r, s') → s' = last
  outcome : ∀ {r s'}, (t s).2 = some (r, s') → s.Keeps s' ∧ Settled P s'.store r

/-- A computation that does not turn to the store. -/
theorem safeFrom_quiet {r : Run α} (hr : ∀ {x s'}, r s = some (x, s') → s' = s)
    (hs : s.store.Sound) (hsettled : ∀ {x s'}, r s = some (x, s') → Settled P s.store x) :
    SafeFrom s (quiet r) P where
  isSafe _ h := absurd h List.not_mem_nil
  path := ⟨s, rfl, hr⟩
  outcome {x s'} h := by
    obtain rfl := hr h
    exact ⟨.refl hs, hsettled h⟩

theorem safeFrom_tooDeep : SafeFrom s (quiet Run.tooDeep) P where
  isSafe _ h := absurd h List.not_mem_nil
  path := by
    refine ⟨s, rfl, ?_⟩
    rintro r s' ⟨⟩
  outcome := by
    rintro r s' ⟨⟩

theorem safeFrom_pure {a : α} (hs : s.store.Sound) (ha : P s.store a) :
    SafeFrom s (pure a) P := by
  refine safeFrom_quiet ?_ hs ?_
  · rintro x s' ⟨⟩
    rfl
  · rintro x s' ⟨⟩
    exact ha

theorem safeFrom_unwind {v : Value} (hs : s.store.Sound) (hv : s.store.Backs v) :
    SafeFrom s (quiet (Run.unwind v)) P := by
  refine safeFrom_quiet ?_ hs ?_
  · rintro x s' ⟨⟩
    rfl
  · rintro x s' ⟨⟩
    exact hv

/-- What a value comes to refers to what the value refers to. -/
theorem settled_outcome {v : Value} {store : Store} (hv : store.Backs v) :
    Settled Store.Backs store v.outcome := by
  rw [Value.outcome]
  split
  · exact hv
  · exact hv

theorem SafeFrom.imp {P' : Store → α → Prop} (h : SafeFrom s t P)
    (hP : ∀ store a, P store a → P' store a) : SafeFrom s t P' where
  isSafe := h.isSafe
  path := h.path
  outcome {r s'} hr := by
    obtain ⟨hkeeps, hsettled⟩ := h.outcome hr
    cases r with
    | ok a => exact ⟨hkeeps, hP _ a hsettled⟩
    | error v => exact ⟨hkeeps, hsettled⟩

/-- A step that turns to a live scope. -/
theorem safeFrom_access {scope : ScopeId} {run : Run α} {r : Except Value α}
    (hrun : run s = some (r, s')) (hs : s.store.Sound) (hlive : s.store.Live scope)
    (hkeeps : s.Keeps s') (hr : Settled P s'.store r) : SafeFrom s (access scope run) P := by
  have hafter : ((run s).map Prod.snd).getD s = s' := by rw [hrun]; rfl
  constructor
  case isSafe =>
    intro a ha
    obtain rfl := List.mem_singleton.mp ha
    refine ⟨hs, hlive, ?_, ?_⟩
    · show (((run s).map Prod.snd).getD s).store.Sound
      rw [hafter]
      exact hkeeps.sound
    · show (((run s).map Prod.snd).getD s).log = s.log
      rw [hafter]
      exact hkeeps.log
  case path =>
    refine ⟨s', ⟨rfl, hafter⟩, ?_⟩
    intro x s'' h
    obtain ⟨⟩ := hrun.symm.trans h
    rfl
  case outcome =>
    intro x s'' h
    obtain ⟨⟩ := hrun.symm.trans h
    exact ⟨hkeeps, hr⟩

/-- One computation after the other. The second one starts in a session that keeps what was live
before the first. -/
theorem SafeFrom.bind {f : α → Traced β} (ht : SafeFrom s t P)
    (hf : ∀ a s', s.Keeps s' → P s'.store a → SafeFrom s' (f a) Q) : SafeFrom s (t >>= f) Q := by
  obtain ⟨hsafe, ⟨last, hpath, hlast⟩, hout⟩ := ht
  have hbind : (t >>= f) s = Traced.bind t f s := rfl
  rw [Traced.bind] at hbind
  rcases ht : t s with ⟨trace, _ | ⟨_ | a, s'⟩⟩ <;> rw [ht] at hbind hsafe hpath hlast hout
  case none =>
    constructor
    case isSafe => rwa [hbind]
    case path =>
      rw [hbind]
      refine ⟨last, hpath, ?_⟩
      rintro r s' ⟨⟩
    case outcome =>
      rw [hbind]
      rintro r s' ⟨⟩
  case some.error =>
    obtain ⟨hkeeps, hv⟩ := hout rfl
    constructor
    case isSafe => rwa [hbind]
    case path =>
      rw [hbind]
      refine ⟨last, hpath, ?_⟩
      rintro r s'' ⟨⟩
      exact hlast rfl
    case outcome =>
      rw [hbind]
      rintro r s'' ⟨⟩
      exact ⟨hkeeps, hv⟩
  case some.ok =>
    obtain ⟨hkeeps, ha⟩ := hout rfl
    -- The second path starts where the first one ends.
    obtain rfl := hlast rfl
    obtain ⟨hsafe', ⟨last', hpath', hlast'⟩, hout'⟩ := hf a s' hkeeps ha
    constructor
    case isSafe =>
      rw [hbind]
      intro x hx
      exact (List.mem_append.mp hx).elim (hsafe x) (hsafe' x)
    case path =>
      rw [hbind]
      exact ⟨last', hpath.append hpath', hlast'⟩
    case outcome =>
      rw [hbind]
      intro r s'' h
      obtain ⟨hkeeps', hr⟩ := hout' h
      exact ⟨hkeeps.trans hkeeps', hr⟩

/-- What a call comes to refers to what the value returned refers to. -/
theorem SafeFrom.catchReturned {t : Traced Value} (ht : SafeFrom s t Store.Backs) :
    SafeFrom s (catchReturned t) Store.Backs := by
  have hcatch : ∀ {r s'}, Run.catchReturned (fun _ => (t s).2) s = some (r, s') →
      ∃ r', (t s).2 = some (r', s') ∧
        (Settled Store.Backs s'.store r' → Settled Store.Backs s'.store r) := by
    intro r s' h
    unfold Run.catchReturned at h
    split at h
    next v s'' hreturned =>
      -- The wrapped value refers to what its wrapper refers to.
      obtain ⟨⟩ := h
      exact ⟨_, hreturned, fun hv => settled_outcome hv⟩
    next => exact ⟨r, h, fun hr => hr⟩
  constructor
  case isSafe => exact ht.isSafe
  case path =>
    obtain ⟨last, hpath, hlast⟩ := ht.path
    refine ⟨last, hpath, ?_⟩
    intro r s' h
    obtain ⟨r', hr', -⟩ := hcatch h
    exact hlast hr'
  case outcome =>
    intro r s' h
    obtain ⟨r', hr', hsettled⟩ := hcatch h
    obtain ⟨hkeeps, hv⟩ := ht.outcome hr'
    exact ⟨hkeeps, hsettled hv⟩

/-! ## The steps of evaluation -/

/-- The value of a name refers to a live scope, and so does the error if there is none. -/
theorem safeFrom_lookup {scope : ScopeId} (hs : s.store.Sound) (hlive : s.store.Live scope)
    (name : String) : SafeFrom s (Machine.lookup scope name) Store.Backs := by
  have hvalue : s.store.Backs ((s.store.find? scope name).getD (.error (.unbound name))) := by
    cases hfind : s.store.find? scope name with
    | none => exact Store.backs_of_scope?_eq_none rfl
    | some value =>
      obtain ⟨j, scope', hscope, hmem⟩ := Store.exists_of_find? hfind
      exact hs.intact.value hscope hmem
  exact safeFrom_access rfl hs hlive (.refl hs) (settled_outcome hvalue)

theorem safeFrom_assign {scope : ScopeId} {value : Value} (hs : s.store.Sound)
    (hlive : s.store.Live scope) (hvalue : s.store.Backs value) (name : String) :
    SafeFrom s (Machine.assign scope name value) (fun _ _ => True) :=
  safeFrom_access rfl hs hlive (Session.keeps_insert hs hlive hvalue name) trivial

/-- A new scope is live. -/
theorem safeFrom_enclose {outer : ScopeId} (hs : s.store.Sound) (hlive : s.store.Live outer) :
    SafeFrom s (enclose outer) Store.Live :=
  safeFrom_access rfl hs hlive (Session.keeps_enclose hs hlive)
    (hs.live_enclose.mpr (Or.inl rfl))

/-- Evaluation is safe in a live scope, with values that refer to live scopes. What is live stays
so while it goes on. -/
def safety : Simulation Traced Traced where
  World := Store
  Later store store' := store'.Sound ∧ ∀ id, store.Live id → store'.Live id
  likeness := .same
  Scopes store x y := x = y ∧ store.Live x
  Values store u v := u = v ∧ store.Backs u
  Code store _ _ _ R t _ := ∀ s, s.store = store → store.Sound →
    SafeFrom s t fun store a => ∃ b, R store a b
  Calls store t _ := ∀ s, s.store = store → store.Sound → SafeFrom s t Store.Backs
  scopes_later hlater h := ⟨h.1, hlater.2 _ h.2⟩
  values_later hlater h := ⟨h.1, fun id hid => hlater.2 id (h.2 id hid)⟩
  values_self _ hscope := ⟨rfl, Store.backs_of_scope?_eq_none hscope⟩
  values_function := by
    rintro store is _ b _ x _ rfl rfl ⟨rfl, hlive⟩
    refine ⟨rfl, ?_⟩
    rintro id ⟨⟩
    exact hlive
  callees := by
    rintro store v _ ⟨rfl, hv⟩
    exact .refl _ fun id hid => ⟨rfl, hv id hid⟩
  applyUnary_eq h operator := congrArg (Value.applyUnary operator) h.1
  applyBinary_eq h h' operator := congrArg₂ (Value.applyBinary operator) h.1 h'.1
  pure h := by
    rintro s rfl hs
    exact safeFrom_pure hs ⟨_, h⟩
  bind ht hf := by
    rintro s rfl hs
    refine (ht s rfl hs).bind ?_
    rintro a s' hkeeps ⟨b, h⟩
    exact hf ⟨hkeeps.sound, fun _ => hkeeps.live⟩ h s' rfl hkeeps.sound
  tooDeep _ _ _ := safeFrom_tooDeep
  error cause := by
    rintro s rfl hs
    exact safeFrom_unwind hs (Store.backs_of_scope?_eq_none rfl)
  returned h := by
    rintro s rfl hs
    exact safeFrom_unwind hs h.2
  lookup h name := by
    rintro s rfl hs
    exact (safeFrom_lookup hs h.2 name).imp fun _ v hv => ⟨v, rfl, hv⟩
  assign h hvalue name := by
    rintro s rfl hs
    exact (safeFrom_assign hs h.2 hvalue.2 name).imp fun _ _ h => ⟨(), h⟩
  code_of_calls h s hstore hs := (h s hstore hs).imp fun _ v hv => ⟨v, rfl, hv⟩
  call h hcode := by
    rintro s rfl hs
    refine (safeFrom_enclose hs h.2).bind ?_
    intro x s' hkeeps hlive
    have hbody := hcode s'.store x x ⟨hkeeps.sound, fun _ => hkeeps.live⟩ ⟨rfl, hlive⟩ s' rfl
      hkeeps.sound
    exact (hbody.imp fun _ _ ⟨_, hv⟩ => hv.2).catchReturned
  call_tooDeep _ _ _ := safeFrom_tooDeep
  call_error cause := by
    rintro s rfl hs
    exact safeFrom_unwind hs (Store.backs_of_scope?_eq_none rfl)

/-- **Every step of a program is safe**, and the steps lead to where the program ends. -/
theorem safe_program (hs : s.store.Sound) (depth : Nat) (p : Program) :
    (∀ a ∈ (program depth p s).1, a.IsSafe) ∧
      ∃ last, Access.Path s (program depth p s).1 last ∧ ∀ {v s'},
        Run.program depth p s = some (v, s') → s' = last ∧ s.Keeps s' ∧ s'.store.Backs v := by
  have hnull : s.store.Backs .null := Store.backs_of_scope?_eq_none rfl
  have hstatements := (safety.along depth).statements ⟨rfl, hs.live_root⟩ ⟨rfl, hnull⟩
    (Likeness.forall₂_same p.statements) s rfl hs
  obtain ⟨hsafe, ⟨last, hpath, hlast⟩, hout⟩ :
      SafeFrom s (Machine.statements depth .null p.statements Store.root) Store.Backs :=
    hstatements.imp fun _ _ ⟨_, hv⟩ => hv.2
  rw [← run_program, program]
  rcases hrun : (Machine.statements depth .null p.statements Store.root : Traced Value) s with
    ⟨trace, _ | ⟨_ | v, s'⟩⟩ <;> rw [hrun] at hsafe hpath hlast hout
  case none =>
    refine ⟨hsafe, last, hpath, ?_⟩
    rintro w s'' ⟨⟩
  case some.error v =>
    obtain ⟨hkeeps, hv⟩ := hout rfl
    refine ⟨hsafe, last, hpath, ?_⟩
    rintro w s'' ⟨⟩
    refine ⟨hlast rfl, hkeeps, ?_⟩
    intro id hid
    exact hv id ((Value.scope?_unwrap v).symm.trans hid)
  case some.ok =>
    obtain ⟨hkeeps, hv⟩ := hout rfl
    refine ⟨hsafe, last, hpath, ?_⟩
    rintro w s'' ⟨⟩
    exact ⟨hlast rfl, hkeeps, hv⟩

end Traced

/-- Safe steps lead to a sound store. -/
theorem Access.Path.sound {s s' : Session} {trace : List Access} (h : Path s trace s')
    (hsafe : ∀ a ∈ trace, a.IsSafe) (hs : s.store.Sound) : s'.store.Sound := by
  induction trace generalizing s with
  | nil =>
    obtain rfl : s = s' := h
    exact hs
  | cons a trace ih =>
    obtain ⟨ha, hrest⟩ := List.forall_mem_cons.mp hsafe
    exact ih h.2 hrest ha.sound_after

/-! ## Sessions -/

namespace Session

variable {s s' : Session} {depth : Nat} {p : Program} {v : Value}

/-- A program is evaluated by running it, and then sweeping the store. -/
theorem exists_of_evaluate (h : s.evaluate depth p = some (v, s')) :
    ∃ s₁, Run.program depth p s = some (v, s₁) ∧
      s'.store = s₁.store.sweep v.scope?.toList := by
  rw [evaluate] at h
  rcases hrun : Run.program depth p s with _ | ⟨v₁, s₁⟩ <;> rw [hrun] at h
  case none => cases h
  case some =>
    obtain ⟨rfl, rfl⟩ := Prod.mk.inj (Option.some.inj h)
    exact ⟨s₁, rfl, rfl⟩

/-- Evaluating a program leaves the store sound, and its value refers to a live scope. -/
theorem sound_evaluate (hs : s.store.Sound) (h : s.evaluate depth p = some (v, s')) :
    s'.store.Sound ∧ s'.store.Backs v := by
  obtain ⟨s₁, hrun, hstore⟩ := exists_of_evaluate h
  obtain ⟨-, last, -, hlast⟩ := Traced.safe_program hs depth p
  obtain ⟨-, hkeeps, hv⟩ := hlast hrun
  rw [hstore]
  exact ⟨hkeeps.sound.sweep, Store.backs_sweep hv⟩

/-- The sessions that one comes to by evaluating programs one after another. -/
inductive Reached : Session → Prop where
  | initial : Reached initial
  | evaluate {s s' : Session} {depth : Nat} {p : Program} {v : Value} : Reached s →
      s.evaluate depth p = some (v, s') → Reached s'

theorem Reached.sound (h : s.Reached) : s.store.Sound := by
  induction h with
  | initial => exact Store.sound_initial
  | evaluate _ h ih => exact (sound_evaluate ih h).1

/-- **No scope that is referred to is ever released.** In every session that evaluation leads to,
and before and after every step of the next evaluation, whether that ends or not, nothing in the
store leads astray. Every step turns to a live scope, and none gives a warning. The steps are all
that happens to the session until the program has run. After the sweep that follows, the scope that
the value of the program refers to is live too. -/
theorem Reached.intact_throughout (hs : s.Reached) (depth : Nat) (p : Program) :
    s.store.Intact ∧
      (Traced.program depth p s).2 = Run.program depth p s ∧
      (∀ a ∈ (Traced.program depth p s).1, a.before.store.Intact ∧ a.before.store.Live a.scope ∧
        a.after.store.Intact ∧ a.after.log = a.before.log) ∧
      (∃ last, Access.Path s (Traced.program depth p s).1 last ∧ last.store.Intact ∧
        ∀ v s', Run.program depth p s = some (v, s') → s' = last) ∧
      ∀ v s', s.evaluate depth p = some (v, s') → s'.store.Intact ∧ s'.store.Backs v := by
  obtain ⟨hsafe, last, hpath, hlast⟩ := Traced.safe_program hs.sound depth p
  refine ⟨hs.sound.intact, Traced.run_program depth p s, ?_, ⟨last, hpath, ?_, ?_⟩, ?_⟩
  · intro a ha
    obtain ⟨hbefore, hlive, hafter, hlog⟩ := hsafe a ha
    exact ⟨hbefore.intact, hlive, hafter.intact, hlog⟩
  · exact (hpath.sound hsafe hs.sound).intact
  · intro v s' hrun
    exact (hlast hrun).1
  · intro v s' h
    obtain ⟨hsound, hv⟩ := sound_evaluate hs.sound h
    exact ⟨hsound.intact, hv⟩

/-- A call whose value is a function that was made in the scope of the call. -/
def closureProgram : Program :=
  let inner : Expr := .function default [] default
  let outer : Expr := .function default [default] (.mk default [.expression default inner])
  ⟨[.expression default (.call default outer [.integer default 1])], default⟩

/-- The scope of a call outlives the call if a function that was made in it is the result. -/
theorem intact_throughout_closureProgram : ∃ s',
    initial.evaluate 9 closureProgram = some (.function ⟨[], default, 1⟩, s') ∧
      s'.store.Intact ∧ s'.store.Live 1 := by
  have hvalue : (initial.evaluate 9 closureProgram).map Prod.fst =
      some (.function ⟨[], default, 1⟩) := by
    simp only [evaluate, closureProgram, Run.program, Run.statements, Machine.statements,
      Machine.statement, Machine.expression, Machine.expressions, bind, Run.bind, pure, Run.pure]
    simp only [Machine.apply, Machine.block, Machine.statements, Machine.statement,
      Machine.expression, Block.statements, bind]
    rfl
  obtain ⟨⟨v, s'⟩, heval, rfl⟩ := Option.map_eq_some_iff.mp hvalue
  obtain ⟨-, -, -, -, hafter⟩ := Reached.initial.intact_throughout 9 closureProgram
  obtain ⟨hintact, hbacks⟩ := hafter _ _ heval
  exact ⟨s', heval, hintact, hbacks 1 rfl⟩

end Session

end ScriptLang
