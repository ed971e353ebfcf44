import ScriptLang.Proofs.Eval.Correspondence
import ScriptLang.Proofs.Parse.RoundTrip
import ScriptLang.Proofs.Store.Erase

/-!
# Evaluation does not depend on places

A program that is evaluated without its places, in a session whose functions have none, does what it
does with them; only the places are missing in its value and in the functions that it has bound. As
the canonical form of a program is parsed as the same program up to places, evaluating the one comes
to the same as evaluating the other.
-/

namespace ScriptLang

/-- A session whose functions have no places. -/
def Session.erase (s : Session) : Session := { s with store := s.store.erase }

theorem Session.insert_erase (s : Session) (id : ScopeId) (name : String) (value : Value) :
    s.erase.insert id name value.erase = (s.insert id name value).erase := by
  have hscope : s.erase.store.scope? id = (s.store.scope? id).map Scope.erase :=
    s.store.scope?_erase id
  rw [Session.insert, Session.insert, hscope]
  cases s.store.scope? id with
  | none => rfl
  | some scope => simp [Session.erase, Store.insert_erase]

/-! ## Terms without places -/

theorem Expr.forall₂_eraseAll (es : List Expr) :
    List.Forall₂ (fun e f : Expr => f = e.erase) es (Expr.eraseAll es) := by
  induction es with
  | nil => exact .nil
  | cons e es ih => exact .cons rfl ih

theorem Stmt.forall₂_eraseAll (ss : List Stmt) :
    List.Forall₂ (fun s t : Stmt => t = s.erase) ss (Stmt.eraseAll ss) := by
  induction ss with
  | nil => exact .nil
  | cons s ss ih => exact .cons rfl ih

/-- A term without places is like the term. -/
def Likeness.erased : Likeness where
  names is js := js = is.map Ident.erase
  expr e f := f = e.erase
  stmt s t := t = s.erase
  block b c := c = b.erase
  names_alike := by
    rintro is _ rfl
    rw [List.map_map]
    rfl
  expr_alike := by
    rintro e _ rfl
    cases e with
    | ident => exact .ident rfl
    | integer => exact .integer _
    | string => exact .string rfl
    | boolean => exact .boolean _
    | unary => exact .unary _ rfl
    | binary => exact .binary _ rfl rfl
    | conditional _ _ _ alternative =>
      cases alternative with
      | none => exact .conditional rfl rfl .none
      | some => exact .conditional rfl rfl (.some rfl)
    | function => exact .function rfl rfl
    | call _ _ arguments => exact .call rfl (Expr.forall₂_eraseAll arguments)
  stmt_alike := by
    rintro s _ rfl
    cases s with
    | binding => exact .binding rfl rfl
    | returning => exact .returning rfl
    | expression => exact .expression rfl
    | block => exact .block rfl
  block_alike := by
    rintro ⟨origin, statements⟩ _ rfl
    exact Stmt.forall₂_eraseAll statements

/-- A session goes with the session without places, in which everything stands where it did. -/
def Correspondence.erased : Correspondence where
  World := Unit
  Le _ _ := True
  likeness := .erased
  Sessions _ s t := t = s.erase
  Scopes _ := Eq
  Values _ u v := v = u.erase
  le_refl _ := trivial
  le_trans _ _ := trivial
  scopes_mono _ h := h
  values_mono _ h := h
  values_self h := (Value.erase_of_scope?_eq_none h).symm
  values_function := by
    rintro _ is _ b _ x _ rfl rfl rfl
    rfl
  values_returned := congrArg Value.returned
  values_unwrap := by
    rintro _ u _ rfl
    exact u.unwrap_erase
  type_eq := by
    rintro _ u _ rfl
    exact u.type_erase.symm
  callees := by
    rintro _ u _ rfl
    cases u with
    | function f => exact .function rfl rfl rfl
    | _ => exact .other rfl (by rintro ⟨⟩)
  applyUnary_eq := by
    rintro _ u _ rfl operator
    rw [Value.applyUnary_erase, Value.erase_of_scope?_eq_none (Value.scope?_applyUnary operator u)]
  applyBinary_eq := by
    rintro _ u _ u' _ rfl rfl operator
    rw [Value.applyBinary_erase,
      Value.erase_of_scope?_eq_none (Value.scope?_applyBinary operator u u')]
  find? := by
    rintro _ s _ x _ rfl rfl name
    have hfind : s.erase.store.find? x name = (s.store.find? x name).map Value.erase :=
      s.store.find?_erase x name
    rw [hfind]
    cases s.store.find? x name with
    | none => exact .none
    | some v => exact .some rfl
  insert := by
    rintro _ s _ x _ u _ rfl rfl rfl name
    exact s.insert_erase x name u
  enclose := by
    rintro _ s _ x _ rfl rfl
    have henclose : s.erase.enclose x = ((s.enclose x).1, (s.enclose x).2.erase) := by
      simp [Session.enclose, Session.erase, Store.enclose_erase]
    rw [henclose]
    exact ⟨(), trivial, rfl, rfl⟩

/-- **What a program comes to does not depend on places.** -/
theorem Run.program_erase (depth : Nat) (p : Program) (s : Session) :
    program depth p.erase s.erase = (program depth p s).map fun x => (x.1.erase, x.2.erase) := by
  have hrel := Correspondence.erased.rel_program (w := ()) (p := p) (q := p.erase)
    (Stmt.forall₂_eraseAll p.statements) rfl (s := s) rfl depth
  generalize program depth p s = x at hrel
  generalize program depth p.erase s.erase = y at hrel
  cases hrel with
  | none => rfl
  | some h =>
    obtain ⟨_, hvalue, hsession⟩ := h
    exact congrArg some (Prod.ext hvalue hsession)

namespace Session

theorem sweep_erase (s : Session) (kept : List ScopeId) :
    s.erase.sweep kept = ((s.sweep kept).1, (s.sweep kept).2.erase) := by
  have hsize : (s.store.sweep kept).erase.size = (s.store.sweep kept).size := by
    rw [Store.size, Store.size, Store.size_slots_erase]
    rfl
  simp only [sweep, erase, note, Store.garbage_erase, Store.sweep_erase, hsize]

/-- **Evaluation does not depend on places**: not in what it comes to, nor in what it binds,
releases or notes down. -/
theorem evaluate_erase (depth : Nat) (p : Program) (s : Session) :
    s.erase.evaluate depth p.erase =
      (s.evaluate depth p).map fun x => (x.1.erase, x.2.erase) := by
  rw [evaluate, evaluate, Run.program_erase]
  rcases Run.program depth p s with _ | ⟨v, s'⟩
  · rfl
  · have hlength : p.erase.statements.length = p.statements.length :=
      Stmt.length_eraseAll p.statements
    simp only [Option.map_some, Value.scope?_erase, Value.type_erase, sweep_erase, hlength]
    rfl

/-- Two results of evaluation that are the same but for places: values of one type, with one text,
that keep the same scope alive, and stores that agree in every slot and list the same free ones. -/
structure EqualUpToPlaces (x y : Value × Session) : Prop where
  type_name : x.1.type.name = y.1.type.name
  form : x.1.form = y.1.form
  scope : x.1.scope? = y.1.scope?
  store : x.2.store.erase = y.2.store.erase

theorem equalUpToPlaces_of_erase_eq {x y : Value × Session} (hvalue : x.1.erase = y.1.erase)
    (hsession : x.2.erase = y.2.erase) : EqualUpToPlaces x y where
  type_name := by rw [← x.1.type_erase, hvalue, y.1.type_erase]
  form := by rw [← x.1.form_erase, hvalue, y.1.form_erase]
  scope := by rw [← x.1.scope?_erase, hvalue, y.1.scope?_erase]
  store := congrArg Session.store hsession

/-- **The canonical form of a program means the same.** Let `p` be the program of any source, and
`q` that of its canonical form. Evaluated from any session and to any depth, either both come to
nothing, or both come to results that are the same but for places. In particular the one runs for
ever, that is it comes to nothing at any depth, if and only if the other does. -/
theorem evaluate_form (source : String) (depth : Nat) (s : Session) :
    let p := (parse source).program
    let q := (parse p.form).program
    Option.Rel EqualUpToPlaces (s.evaluate depth p) (s.evaluate depth q) := by
  intro p q
  have herase : q.erase = p.erase := Program.erase_parse_form (wellFormed_parse source)
  have hsame := s.evaluate_erase depth q
  rw [herase, s.evaluate_erase depth p] at hsame
  rcases hp : s.evaluate depth p with _ | x <;> rcases hq : s.evaluate depth q with _ | y <;>
    rw [hp, hq] at hsame
  · exact .none
  · cases hsame
  · cases hsame
  · simp only [Option.map_some, Option.some.injEq, Prod.mk.injEq] at hsame
    exact .some (equalUpToPlaces_of_erase_eq hsame.1 hsame.2)

end Session

end ScriptLang
