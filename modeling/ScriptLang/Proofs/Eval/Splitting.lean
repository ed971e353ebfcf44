import ScriptLang.Proofs.Eval.Liveness
import ScriptLang.Proofs.Eval.Reclamation
import ScriptLang.Proofs.Eval.Unwinding

/-!
# Splitting a session

Statements that are evaluated as one program, compared with the same statements in two programs that
are evaluated one after the other. After the first of the two there is a sweep, which releases the
scopes that only values on the way referred to, and scopes that are made later take their slots. But
what is left is the same up to renaming, and so is what the second program makes of it.

If a statement of the first part unwinds, the second part is never evaluated.
-/

namespace ScriptLang

/-! ## Statements one after the other -/

namespace Run

variable {α β γ : Type} {scope : ScopeId} {s t : Session} {vs : List Value}

theorem bind_assoc (run : Run α) (f : α → Run β) (g : β → Run γ) :
    (run >>= f) >>= g = run >>= fun a => f a >>= g := by
  funext s
  show Run.bind (Run.bind run f) g s = Run.bind run (fun a => Run.bind (f a) g) s
  rw [Run.bind, Run.bind, Run.bind]
  rcases run s with _ | ⟨_ | _, _⟩ <;> rfl

/-- Statements are evaluated up to some place and on from there. Each of them takes a level of
depth. -/
theorem statements_append (n : Nat) (last : Value) (before after : List Stmt) (scope : ScopeId) :
    statements n last (before ++ after) scope =
      statements n last before scope >>= fun v => statements (n - before.length) v after scope := by
  induction before generalizing n last with
  | nil =>
    cases n with
    | zero =>
      rw [statements, Machine.statements, Machine.statements]
      rfl
    | succ n =>
      have hnil : statements (n + 1) last [] scope = pure last := by
        rw [statements, Machine.statements]
      rw [hnil]
      rfl
  | cons st before ih =>
    cases n with
    | zero =>
      rw [statements, Machine.statements, Machine.statements]
      rfl
    | succ n =>
      rw [List.cons_append, statements, Machine.statements, Machine.statements, bind_assoc,
        List.length_cons, Nat.succ_sub_succ]
      exact congrArg (statement n st scope >>= ·) (funext fun v => ih n v)

/-- The value before the first statement does not matter if there is a first statement. -/
theorem statements_eq_of_ne_nil {after : List Stmt} (hafter : after ≠ []) (n : Nat)
    (last last' : Value) : statements n last after scope = statements n last' after scope := by
  obtain ⟨st, rest, rfl⟩ := List.exists_cons_of_ne_nil hafter
  cases n with
  | zero => rw [statements, Machine.statements, Machine.statements]
  | succ n => rw [statements, Machine.statements, Machine.statements]

/-- Statements that do not unwind. -/
theorem settles_statements {before : List (Term .statement)}
    (h : Stmt.EvaluateAll scope before s vs t) (last : Value) :
    ∃ v, Settles (statements · last before scope) s (.ok v, t) := by
  induction h generalizing last with
  | nil s =>
    refine ⟨last, .succ ?_⟩
    simp only [statements, Machine.statements]
    exact settles_pure last s
  | @cons st rest s s' t v vs hst hv _ ih =>
    have hfirst := (Term.evaluates_iff_of_isData hv).mp hst
    obtain ⟨w, hrest⟩ := ih v
    refine ⟨w, .succ ?_⟩
    simp only [statements, Machine.statements]
    exact hfirst.bind hrest

/-- After statements that do not unwind, the others are evaluated as if they stood alone. -/
theorem settles_append_iff {before after : List Stmt} {x : Except Value Value × Session}
    (hbefore : Stmt.EvaluateAll scope before s vs t) (hafter : after ≠ []) :
    Settles (statements · .null (before ++ after) scope) s x ↔
      Settles (statements · .null after scope) t x := by
  obtain ⟨v, i, hi⟩ := settles_statements hbefore .null
  have hrun : ∀ n, i ≤ n → statements n .null (before ++ after) scope s =
      statements (n - before.length) .null after scope t := by
    intro n hn
    rw [statements_append, bind_ok (hi n hn), statements_eq_of_ne_nil hafter _ v .null]
  constructor
  · rintro ⟨j, hj⟩
    refine ⟨max i j, fun n hn => ?_⟩
    have hsum := hrun (n + before.length) (by omega)
    rw [Nat.add_sub_cancel] at hsum
    exact hsum.symm.trans (hj _ (by omega))
  · rintro ⟨j, hj⟩
    refine ⟨max i (j + before.length), fun n hn => ?_⟩
    exact (hrun n (by omega)).trans (hj _ (by omega))

end Run

/-! ## Programs -/

namespace Program

variable {p q r : Program} {s s' t m : Session} {v w : Value} {vs : List Value}

/-- A program evaluates to what its statements come to. -/
theorem evaluates_iff_settles : p.Evaluates s w m ↔
    ∃ v, Run.Settles (Run.statements · .null p.statements Store.root) s (Value.outcome v, m) ∧
      w = v.unwrap := by
  -- The statements are those of the body, one level up.
  have hbody : ∀ n, Run.block (n + 1) p.body Store.root =
      Run.statements n .null p.statements Store.root := by
    intro n
    rw [Run.block, Machine.block]
    rfl
  rw [evaluates_iff]
  refine exists_congr fun v => and_congr_left fun _ => ?_
  refine (Term.evaluates_iff (k := .block) (t := p.body)).trans ?_
  constructor
  · rintro ⟨depth, h⟩
    refine ⟨depth, fun n hn => ?_⟩
    show Run.statements n .null p.statements Store.root s = _
    rw [← hbody]
    exact h (n + 1) (by omega)
  · intro h
    refine .succ ?_
    simp only [Term.run, hbody]
    exact h

/-- A program evaluates to one value at most, and leads to one session at most. -/
theorem Evaluates.unique (h : p.Evaluates s v m) (h' : p.Evaluates s w t) : v = w ∧ m = t := by
  obtain ⟨v, hv, rfl⟩ := evaluates_iff.mp h
  obtain ⟨w, hw, rfl⟩ := evaluates_iff.mp h'
  obtain ⟨rfl, rfl⟩ := hv.unique hw
  exact ⟨rfl, rfl⟩

/-- Statements that do not unwind lead to where a program of them leads. -/
theorem exists_evaluates (h : Stmt.EvaluateAll Store.root p.statements s vs t) :
    ∃ v, p.Evaluates s v t := by
  obtain ⟨v, depth, hrun⟩ := Run.settles_statements h .null
  have hend : Run.statements depth .null p.statements Store.root s = some (.ok v, t) :=
    hrun depth (Nat.le_refl depth)
  exact ⟨v, depth, by rw [Run.program, hend]⟩

/-- A program whose first statements do not unwind comes to what the others come to. -/
theorem evaluates_append_iff (hr : r.statements = p.statements ++ q.statements)
    (hp : Stmt.EvaluateAll Store.root p.statements s vs t) (hq : q.statements ≠ []) :
    r.Evaluates s w m ↔ q.Evaluates t w m := by
  rw [evaluates_iff_settles, evaluates_iff_settles, hr]
  simp only [Run.settles_append_iff hp hq]

/-- A program of which a statement unwinds is not evaluated any further. -/
theorem run_append_of_unwinds (hr : r.statements = p.statements ++ q.statements)
    {before after : List Stmt} {st : Stmt} (hp : p.statements = before ++ st :: after)
    (hbefore : Stmt.EvaluateAll Store.root before s vs t) (hst : st.Evaluates Store.root t v m)
    (hv : v.unwinds) (depth : Nat) : Run.program depth r s = Run.program depth p s := by
  -- At no depth do the statements of `p` come to a value to go on with.
  have hsettles := settles_statements_unwind hbefore hst hv after .null
  rw [← hp] at hsettles
  have hrun : Run.statements depth .null r.statements Store.root s =
      Run.statements depth .null p.statements Store.root s := by
    rw [hr, Run.statements_append]
    rcases hdepth : Run.statements depth .null p.statements Store.root s with _ | ⟨u | u, t'⟩
    · show Run.bind _ _ s = _
      rw [Run.bind, hdepth]
    · rw [Run.bind_error hdepth]
    · have hok := Run.settles_of_refines
        (fun n => Run.refines_statements n .null p.statements Store.root) hdepth
      cases (Prod.mk.inj (hok.unique hsettles)).1
  rw [Run.program, Run.program, hrun]

end Program

/-! ## Sessions -/

namespace Session

variable {ρ : Renaming} {s s' t t' : Session} {p q r : Program} {v w : Value}

/-- Evaluating the program in the session ends with a value and leaves another session. -/
def Evaluates (s : Session) (p : Program) (v : Value) (s' : Session) : Prop :=
  ∃ depth, s.evaluate depth p = some (v, s')

theorem Evaluates.exists_program (h : s.Evaluates p v s') :
    ∃ m, p.Evaluates s v m ∧ s'.store = m.store.sweep v.scope?.toList := by
  obtain ⟨depth, heval⟩ := h
  obtain ⟨m, hrun, hstore⟩ := exists_of_evaluate heval
  exact ⟨m, ⟨depth, hrun⟩, hstore⟩

/-- Where a program comes to an end, so does its evaluation. -/
theorem exists_evaluates {m : Session} (h : p.Evaluates s v m) : ∃ s', s.Evaluates p v s' := by
  obtain ⟨depth, hrun⟩ := h
  unfold Evaluates evaluate
  exact ⟨_, depth, by rw [hrun]⟩

/-- Sweeps at the end of related runs, each of which keeps the value of its run. -/
theorem alike_of_sweeps {m m' : Session} (hvalue : v.Renamed ρ w)
    (hstore : m.store.Renamed ρ m'.store) (hs' : s'.store = m.store.sweep v.scope?.toList)
    (ht' : t'.store = m'.store.sweep w.scope?.toList) : ∃ ρ', Alike ρ' (v, s') (w, t') := by
  have hkept : List.Forall₂ ρ v.scope?.toList w.scope?.toList := by
    cases hv : v.scope? with
    | some a =>
      obtain ⟨b, hw, hab⟩ := hvalue.exists_right hv
      rw [hw]
      exact .cons hab .nil
    | none =>
      cases hw : w.scope? with
      | none => exact .nil
      | some b =>
        obtain ⟨a, ha, -⟩ := hvalue.exists_left hw
        cases hv.symm.trans ha
  have hswept := hstore.sweep_sweep hkept
  rw [← hs', ← ht'] at hswept
  refine ⟨_, alike_of_renamed (hvalue.imp fun a b ha hab => ⟨hab, ?_⟩) hswept⟩
  rw [hs']
  exact Store.backs_sweep (hstore.backs_left hvalue) a ha

/-- The sweep after a program leaves what the program has led to, up to renaming. -/
theorem renamed_of_evaluates {m : Session} (hs : s.store.Sound) (hm : p.Evaluates s v m)
    (h : s.Evaluates p v s') : ∃ ρ, s'.store.Renamed ρ m.store := by
  obtain ⟨m', hm', hstore⟩ := h.exists_program
  obtain ⟨-, rfl⟩ := hm.unique hm'
  obtain ⟨depth, hrun⟩ := hm
  obtain ⟨-, last, -, hlast⟩ := Traced.safe_program hs depth p
  obtain ⟨-, hkeeps, -⟩ := hlast hrun
  rw [hstore]
  exact ⟨_, hkeeps.sound.renamed_self.sweep _⟩

/-- A program comes to an end in both of two related sessions or in neither, and alike in both. -/
theorem rel_evaluates (h : s.store.Renamed ρ t.store) :
    ((∃ v m, p.Evaluates s v m) ↔ ∃ w m', p.Evaluates t w m') ∧
      ∀ v m w m', p.Evaluates s v m → p.Evaluates t w m' →
        ∃ ρ', v.Renamed ρ' w ∧ m.store.Renamed ρ' m'.store := by
  have hright : ∀ depth v m, Run.program depth p s = some (v, m) →
      ∃ w m', Run.program depth p t = some (w, m') ∧
        ∃ ρ', v.Renamed ρ' w ∧ m.store.Renamed ρ' m'.store := by
    intro depth v m hrun
    have hrel := Run.rel_program h depth p
    rw [hrun] at hrel
    rcases hrun' : Run.program depth p t with _ | ⟨w, m'⟩ <;> rw [hrun'] at hrel <;> cases hrel
    case some hrel => exact ⟨w, m', rfl, hrel⟩
  have hleft : ∀ depth w m', Run.program depth p t = some (w, m') →
      ∃ v m, Run.program depth p s = some (v, m) := by
    intro depth w m' hrun
    have hrel := Run.rel_program h depth p
    rw [hrun] at hrel
    rcases hrun' : Run.program depth p s with _ | ⟨v, m⟩ <;> rw [hrun'] at hrel <;> cases hrel
    case some => exact ⟨v, m, rfl⟩
  refine ⟨⟨?_, ?_⟩, ?_⟩
  · rintro ⟨v, m, depth, hrun⟩
    obtain ⟨w, m', hrun', -⟩ := hright depth v m hrun
    exact ⟨w, m', depth, hrun'⟩
  · rintro ⟨w, m', depth, hrun⟩
    obtain ⟨v, m, hrun'⟩ := hleft depth w m' hrun
    exact ⟨v, m, depth, hrun'⟩
  · rintro v m w m' ⟨depth, hrun⟩ hw
    obtain ⟨w', m'', hrun', hrel⟩ := hright depth v m hrun
    obtain ⟨rfl, rfl⟩ := hw.unique ⟨depth, hrun'⟩
    exact hrel

/-- **Splitting a session does not matter.** Take the statements of two programs as one program, in
any session that evaluation leads to. If no statement of the first part unwinds, and the second part
has a statement, then the whole comes to an end just if the two programs do one after the other. The
values are then of the same sort and have the same text, and the names in the root scope have the
same values; functions differ at most in the slots of their scopes, and these one to one. If some
statement of the first part unwinds, the whole comes to the same as the first part, with the same
store, at whatever depth. -/
theorem splitting_unobservable (hs : s.Reached)
    (hr : r.statements = p.statements ++ q.statements) :
    (q.statements ≠ [] →
      (∃ values t, Stmt.EvaluateAll Store.root p.statements s values t) →
      ((∃ w s', s.Evaluates r w s') ↔
          ∃ v₁ s₁ v₂ s₂, s.Evaluates p v₁ s₁ ∧ s₁.Evaluates q v₂ s₂) ∧
        ∀ v₁ s₁ v₂ s₂ w s', s.Evaluates p v₁ s₁ → s₁.Evaluates q v₂ s₂ → s.Evaluates r w s' →
          ∃ ρ, Alike ρ (v₂, s₂) (w, s')) ∧
    ((∃ before st after values t v t', p.statements = before ++ st :: after ∧
        Stmt.EvaluateAll Store.root before s values t ∧ st.Evaluates Store.root t v t' ∧
        v.unwinds) →
      ∀ depth, (s.evaluate depth r).map (fun x => (x.1, x.2.store)) =
        (s.evaluate depth p).map fun x => (x.1, x.2.store)) := by
  refine ⟨?_, ?_⟩
  · rintro hq ⟨values, t, hp⟩
    obtain ⟨v₀, hprogram⟩ := Program.exists_evaluates hp
    have hwhole : ∀ {w m}, r.Evaluates s w m ↔ q.Evaluates t w m :=
      Program.evaluates_append_iff hr hp hq
    -- What the second program starts from is what the first part has led to, up to renaming.
    have hseam : ∀ {v₁ s₁}, s.Evaluates p v₁ s₁ → ∃ ρ, s₁.store.Renamed ρ t.store := by
      intro v₁ s₁ h
      obtain ⟨m, hm, -⟩ := h.exists_program
      obtain ⟨rfl, rfl⟩ := hprogram.unique hm
      exact renamed_of_evaluates hs.sound hprogram h
    refine ⟨⟨?_, ?_⟩, ?_⟩
    · rintro ⟨w, s', h⟩
      obtain ⟨m, hm, -⟩ := h.exists_program
      obtain ⟨s₁, hs₁⟩ := exists_evaluates hprogram
      obtain ⟨ρ, hρ⟩ := hseam hs₁
      obtain ⟨v₂, m₂, hm₂⟩ := (rel_evaluates hρ).1.mpr ⟨w, m, hwhole.mp hm⟩
      obtain ⟨s₂, hs₂⟩ := exists_evaluates hm₂
      exact ⟨v₀, s₁, v₂, s₂, hs₁, hs₂⟩
    · rintro ⟨v₁, s₁, v₂, s₂, hs₁, hs₂⟩
      obtain ⟨m₂, hm₂, -⟩ := hs₂.exists_program
      obtain ⟨ρ, hρ⟩ := hseam hs₁
      obtain ⟨w, m, hm⟩ := (rel_evaluates hρ).1.mp ⟨v₂, m₂, hm₂⟩
      obtain ⟨s', hs'⟩ := exists_evaluates (hwhole.mpr hm)
      exact ⟨w, s', hs'⟩
    · intro v₁ s₁ v₂ s₂ w s' hs₁ hs₂ hs'
      obtain ⟨m₂, hm₂, hstore₂⟩ := hs₂.exists_program
      obtain ⟨m, hm, hstore⟩ := hs'.exists_program
      obtain ⟨ρ, hρ⟩ := hseam hs₁
      obtain ⟨ρ', hvalue, hrenamed⟩ := (rel_evaluates hρ).2 v₂ m₂ w m hm₂ (hwhole.mp hm)
      exact alike_of_sweeps hvalue hrenamed hstore₂ hstore
  · rintro ⟨before, st, after, values, t, v, t', hp, hbefore, hst, hv⟩ depth
    rw [evaluate, evaluate, Program.run_append_of_unwinds hr hp hbefore hst hv depth]
    rcases Run.program depth p s with _ | ⟨w, m⟩ <;> rfl

/-- The scope of the first call is released between the two programs, and the second call takes its
slot; in one program it takes the next one. After `return` the call is not made. -/
theorem splitting_unobservable_closureProgram :
    let p : Program := ⟨closureProgram.statements ++ [.expression default (.integer default 5)],
      default⟩
    let r : Program := ⟨p.statements ++ closureProgram.statements, default⟩
    let returning : Stmt := .returning default (.integer default 5)
    (∃ v₁ s₁ v₂ s₂ w s' ρ, initial.Evaluates p v₁ s₁ ∧ s₁.Evaluates closureProgram v₂ s₂ ∧
      initial.Evaluates r w s' ∧ v₂.scope? = some 1 ∧ w.scope? = some 2 ∧
      Alike ρ (v₂, s₂) (w, s')) ∧
    ∀ depth, (initial.evaluate depth ⟨returning :: closureProgram.statements, default⟩).map
        (fun x => (x.1, x.2.store)) =
      (initial.evaluate depth ⟨[returning], default⟩).map fun x => (x.1, x.2.store) := by
  intro p r returning
  have hsplit : ((initial.evaluate 9 p).bind fun x => x.2.evaluate 9 closureProgram).map
      (fun x => x.1.scope?) = some (some 1) := by
    decide +kernel
  have hjoined : (initial.evaluate 12 r).map (fun x => x.1.scope?) = some (some 2) := by
    decide +kernel
  have hcall : ∀ st ∈ closureProgram.statements, (Run.statement 9 st Store.root initial).map
      Prod.fst = some (.ok (.function ⟨[], default, 1⟩)) := by
    simp only [closureProgram, List.mem_singleton, forall_eq, Run.statement, Machine.statement,
      Machine.expression, Machine.expressions, bind, Run.bind, pure, Run.pure]
    simp only [Machine.apply, Machine.block, Machine.statements, Machine.statement,
      Machine.expression, Block.statements, bind]
    rfl
  refine ⟨?_, ?_⟩
  · obtain ⟨⟨v₂, s₂⟩, heval, hv₂⟩ := Option.map_eq_some_iff.mp hsplit
    obtain ⟨⟨v₁, s₁⟩, hp, hq⟩ := Option.bind_eq_some_iff.mp heval
    obtain ⟨⟨w, s'⟩, hr, hw⟩ := Option.map_eq_some_iff.mp hjoined
    obtain ⟨⟨_, t⟩, hfirst, rfl⟩ := Option.map_eq_some_iff.mp (hcall _ (List.mem_singleton_self _))
    have hall : Stmt.EvaluateAll Store.root p.statements initial
        [.function ⟨[], default, 1⟩, .integer 5] t :=
      .cons ⟨9, _, hfirst, rfl⟩ rfl (.cons ⟨2, _, by
        simp only [Term.run, Run.statement, Machine.statement, Machine.expression]
        rfl, rfl⟩ rfl (.nil t))
    obtain ⟨-, halike⟩ := (splitting_unobservable .initial (r := r) rfl).1
      (List.cons_ne_nil _ _) ⟨_, t, hall⟩
    obtain ⟨ρ, hρ⟩ := halike v₁ s₁ v₂ s₂ w s' ⟨9, hp⟩ ⟨9, hq⟩ ⟨12, hr⟩
    exact ⟨v₁, s₁, v₂, s₂, w, s', ρ, ⟨9, hp⟩, ⟨9, hq⟩, ⟨12, hr⟩, hv₂, hw, hρ⟩
  · have hreturning : Term.Evaluates (k := .statement) returning Store.root initial
        (.returned (.integer 5)) initial := ⟨2, .error _, by
      simp only [returning, Term.run, Run.statement, Machine.statement, Machine.expression]
      rfl, rfl⟩
    exact (splitting_unobservable .initial (p := ⟨[returning], default⟩)
      (q := closureProgram) rfl).2
      ⟨[], returning, [], [], initial, _, initial, rfl, .nil _, hreturning, rfl⟩

end Session

end ScriptLang
