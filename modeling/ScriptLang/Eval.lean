import ScriptLang.Store
import ScriptLang.Log

/-!
# Evaluation

A session is a store together with a log. Evaluating a program in a session runs its statements in
the root scope and then releases the scopes that nothing can reach any more. A run either goes on
with a value or unwinds with one: an error unwinds to the end of the program, and a returned value
to the end of the call that it is in.

What evaluation does with a session is left to a `Machine`, and `Run` is the one that sessions are
run with. Evaluation need not end. A number bounds how deep it nests; a run that would nest deeper
has no result.
-/

namespace ScriptLang

/-- A store and what has been noted down about it. -/
structure Session where
  store : Store
  log : Array LogRecord
  deriving Inhabited

namespace Session

/-- A new session. -/
def initial : Session := ⟨Store.initial, #[]⟩

/-- Adds a record to the log. -/
def note (s : Session) (record : LogRecord) : Session := { s with log := s.log.push record }

/-- Binds a name in a scope. If the scope has been released this is noted and nothing is bound. -/
def insert (s : Session) (id : ScopeId) (name : String) (value : Value) : Session :=
  match s.store.scope? id with
  | some _ => { s with store := s.store.insert id name value }
  | none => s.note (.warn ("binding into released scope " ++ toString id))

/-- Makes an empty scope inside another one. -/
def enclose (s : Session) (outer : ScopeId) : ScopeId × Session :=
  let (id, store) := s.store.enclose outer
  (id, { s with store })

/-- Releases the scopes that nothing can reach, and tells how many these are. -/
def sweep (s : Session) (kept : List ScopeId) : Nat × Session :=
  let released := (s.store.garbage kept).length
  let store := s.store.sweep kept
  let record := .debug ("released " ++ toString released ++ " scopes, " ++ toString store.size ++
    " alive")
  (released, { s with store }.note record)

end Session

/-- What a value comes to: evaluation goes on with it, or unwinds with it if it is one that does. -/
def Value.outcome (v : Value) : Except Value Value := if v.unwinds then .error v else .ok v

/-! ## Evaluation -/

/-- What evaluation asks for as it goes on. -/
class Machine (m : Type → Type) extends Monad m where
  /-- Has no result. -/
  tooDeep {α : Type} : m α
  /-- Unwinds with a value. -/
  unwind {α : Type} (v : Value) : m α
  /-- The value of a name. -/
  lookup (id : ScopeId) (name : String) : m Value
  /-- Binds a name. -/
  assign (id : ScopeId) (name : String) (value : Value) : m Unit
  /-- Runs code in a new scope, inside another one. A value that the code returns is the result. -/
  call (outer : ScopeId) (code : ScopeId → m Value) : m Value

namespace Machine

variable {m : Type → Type} [Machine m]

/-- Goes on with a value, or unwinds if it is one that does. -/
def settle (v : Value) : m Value := if v.unwinds then unwind v else return v

/-- Binds parameters to arguments. -/
def assignAll (id : ScopeId) : List Ident → List Value → m Unit
  | name :: names, value :: values => do
    assign id name.name value
    assignAll id names values
  | _, _ => return ()

mutual

/-- The value of an expression in a scope. -/
@[specialize]
def expression : Nat → Expr → ScopeId → m Value
  | 0, _, _ => tooDeep
  | n + 1, e, scope =>
    match e with
    | .ident name => lookup scope name.name
    | .integer _ value => return .integer value
    | .string origin => return .string origin.token.literal
    | .boolean _ value => return .boolean value
    | .unary _ operator operand => do
      let v ← expression n operand scope
      settle (Value.applyUnary operator v)
    | .binary _ operator left right => do
      let a ← expression n left scope
      let b ← expression n right scope
      settle (Value.applyBinary operator a b)
    | .conditional _ condition consequence alternative => do
      let v ← expression n condition scope
      if v.isTruthy then
        block n consequence scope
      else
        match alternative with
        | some alternative => block n alternative scope
        | none => return .null
    | .function _ parameters body => return .function ⟨parameters, body, scope⟩
    | .call _ callee arguments => do
      let f ← expression n callee scope
      let values ← expressions n arguments scope
      apply n f values

/-- The values of expressions, from left to right. -/
@[specialize]
def expressions : Nat → List Expr → ScopeId → m (List Value)
  | 0, _, _ => tooDeep
  | _ + 1, [], _ => return []
  | n + 1, e :: es, scope => do
    let v ← expression n e scope
    let vs ← expressions n es scope
    return v :: vs

/-- A call. The body runs in a new scope, inside the one that the function was made in. -/
@[specialize]
def apply : Nat → Value → List Value → m Value
  | 0, _, _ => tooDeep
  | n + 1, .function f, values =>
    if f.parameters.length = values.length then
      call f.scope fun scope => do
        assignAll scope f.parameters values
        block n f.body scope
    else
      unwind (.error (.wrongCount f.parameters.length values.length))
  | _ + 1, v, _ => unwind (.error (.notFunction v.type))

/-- The value of a block: that of its last statement, or null. Blocks make no scope. -/
@[specialize]
def block : Nat → Block → ScopeId → m Value
  | 0, _, _ => tooDeep
  | n + 1, b, scope => statements n .null b.statements scope

/-- The value of the last statement, or `last` if there is none. -/
@[specialize]
def statements : Nat → Value → List Stmt → ScopeId → m Value
  | 0, _, _, _ => tooDeep
  | _ + 1, last, [], _ => return last
  | n + 1, _, s :: rest, scope => do
    let v ← statement n s scope
    statements n v rest scope

/-- The value of a statement. -/
@[specialize]
def statement : Nat → Stmt → ScopeId → m Value
  | 0, _, _ => tooDeep
  | n + 1, s, scope =>
    match s with
    | .binding _ name value => do
      let v ← expression n value scope
      assign scope name.name v
      return .null
    | .returning _ value => do
      let v ← expression n value scope
      unwind (.returned v)
    | .expression _ value => expression n value scope
    | .block body => block n body scope

end

end Machine

/-! ## Evaluation in a session -/

/-- Computations in a session. `none` is a run that nests too deep; otherwise there is a result to
go on with, or a value that unwinds. -/
def Run (α : Type) : Type := Session → Option (Except Value α × Session)

namespace Run

/-- Goes on with a result. -/
protected def pure {α : Type} (a : α) : Run α := fun s => some (.ok a, s)

/-- One computation after the other, unless the first one unwinds. -/
protected def bind {α β : Type} (run : Run α) (f : α → Run β) : Run β := fun s =>
  match run s with
  | none => none
  | some (.ok a, s) => f a s
  | some (.error v, s) => some (.error v, s)

instance : Monad Run where
  pure := Run.pure
  bind := Run.bind

/-- Has no result. -/
def tooDeep {α : Type} : Run α := fun _ => none

/-- Unwinds with a value. -/
def unwind {α : Type} (v : Value) : Run α := fun s => some (.error v, s)

/-- The value of a name. -/
def lookup (id : ScopeId) (name : String) : Run Value := fun s =>
  some (((s.store.find? id name).getD (.error (.unbound name))).outcome, s)

/-- Binds a name. -/
def assign (id : ScopeId) (name : String) (value : Value) : Run Unit := fun s =>
  some (.ok (), s.insert id name value)

/-- Makes a scope. -/
def enclose (outer : ScopeId) : Run ScopeId := fun s =>
  let (id, s) := s.enclose outer
  some (.ok id, s)

/-- The end of a call: a returned value is the result of the call. -/
def catchReturned (run : Run Value) : Run Value := fun s =>
  match run s with
  | some (.error (.returned v), s) => some (v.outcome, s)
  | outcome => outcome

instance : Machine Run where
  tooDeep := tooDeep
  unwind := unwind
  lookup := lookup
  assign := assign
  call outer code := do
    let scope ← enclose outer
    catchReturned (code scope)

/-- The value of an expression in a scope. -/
abbrev expression : Nat → Expr → ScopeId → Run Value := Machine.expression

/-- The values of expressions. -/
abbrev expressions : Nat → List Expr → ScopeId → Run (List Value) := Machine.expressions

/-- A call. -/
abbrev apply : Nat → Value → List Value → Run Value := Machine.apply

/-- The value of a block. -/
abbrev block : Nat → Block → ScopeId → Run Value := Machine.block

/-- The value of statements. -/
abbrev statements : Nat → Value → List Stmt → ScopeId → Run Value := Machine.statements

/-- The value of a statement. -/
abbrev statement : Nat → Stmt → ScopeId → Run Value := Machine.statement

/-- The value of a program. A value returned at the top is the value of the program, and so is an
error. -/
def program (depth : Nat) (p : Program) (s : Session) : Option (Value × Session) :=
  match statements depth .null p.statements Store.root s with
  | none => none
  | some (.ok v, s) => some (v, s)
  | some (.error v, s) => some (v.unwrap, s)

end Run

namespace Session

/-- How deep evaluation may nest. -/
def depthLimit : Nat := 1000000

/-- Evaluates a program, and releases the scopes that are then out of reach. The scope that the
value keeps alive is not released. -/
def evaluate (depth : Nat) (p : Program) (s : Session) : Option (Value × Session) :=
  match Run.program depth p s with
  | none => none
  | some (v, s) =>
    let (_, s) := s.sweep v.scope?.toList
    let record := .debug ("evaluated " ++ toString p.statements.length ++ " statements to " ++
      v.type.name)
    some (v, s.note record)

end Session

end ScriptLang
