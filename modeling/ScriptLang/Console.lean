import ScriptLang.Console.Command
import ScriptLang.Console.Output
import ScriptLang.Script
import ScriptLang.Tree.Dump

/-!
# The console

What the commands do with a file and what the interactive loops do with a line, as functions of
what is read.
-/

namespace ScriptLang.Console

/-! ## Files -/

namespace Command

/-- The heading of the line that announces the work. -/
def opening? : Command → Option Heading
  | lex => none
  | parse => some .parsing
  | dump => some .parsing
  | run => some .running

/-- The heading of the line that ends the work. -/
def closing? : Command → Option Heading
  | lex => none
  | parse => some .parsed
  | dump => some .parsed
  | run => some .finished

/-- Loads a file and prints something about its script. -/
def printing (path : String) (file : File) (text : Script → String) : Outcome :=
  let loaded := Script.loadFile path file
  match loaded.outcome with
  | .error failure => ⟨"", loaded.log, some failure⟩
  | .ok script => ⟨text script, loaded.log, none⟩

/-- Loads a file and runs it in a session of its own. -/
def running (path : String) (file : File) : Outcome :=
  let loaded := Script.loadFile path file
  match loaded.outcome with
  | .error failure => ⟨"", loaded.log, some failure⟩
  | .ok script =>
    match script.run Session.depthLimit .initial with
    | none => ⟨"", loaded.log, some (.tooDeep script.path script.source)⟩
    | some (.error failure, s) => ⟨"", loaded.log ++ s.log.toList, some failure⟩
    | some (.ok v, s) => ⟨valueText v, loaded.log ++ s.log.toList, none⟩

/-- What a command makes of the file found at a path. -/
def perform (command : Command) (path : String) (file : File) : Outcome :=
  match command with
  | lex =>
    let loaded := file.lex path
    match loaded.outcome with
    | .error failure => ⟨"", loaded.log, some failure⟩
    | .ok tokens => ⟨inLines (tokens.map fun x => x.token.form), loaded.log, none⟩
  | parse => printing path file fun script => inLines (script.program.statements.map Stmt.form)
  | dump => printing path file fun script => script.program.dump ++ "\n"
  | run => running path file

/-- The line that announces the work. -/
def announce (command : Command) (view : View) (path : String) : String :=
  (command.opening?.map fun heading => view.line heading path).getD ""

/-- The line that ends the work, unless it failed. -/
def conclude (command : Command) (view : View) (outcome : Outcome) (elapsed : String) : String :=
  if outcome.failure.isSome then ""
  else (command.closing?.map fun heading => view.line heading ("in " ++ elapsed)).getD ""

/-- All that a command prints, and its status. -/
def transcript (command : Command) (view : View) (path : String) (file : File) (elapsed : String) :
    Output × Nat :=
  let outcome := command.perform path file
  let before : Output := ⟨"", command.announce view path⟩
  let after : Output := ⟨"", command.conclude view outcome elapsed⟩
  ((before.append (outcome.output view)).append after, outcome.status)

end Command

/-! ## Loops -/

/-- What a loop prints before each line. -/
def prompt : String := ">> "

/-- The line that ends a loop. -/
def farewell : String := ".exit"

/-- The text of parse errors. -/
def errorText (parsed : Parsed) : String :=
  "Parse errors:\n\t" ++ String.intercalate "\n\t" (parsed.errors.map ParseError.message) ++ "\n"

/-- A line without its end. -/
def lineText (line : String) : String :=
  let chars := line.toList
  let chars := if chars.getLast? = some '\n' then chars.dropLast else chars
  let chars := if chars.getLast? = some '\r' then chars.dropLast else chars
  String.ofList chars

namespace Loop

/-- What a loop makes of a line. Bindings stay from line to line. -/
def perform (loop : Loop) (store : Store) (line : String) : Outcome × Store :=
  match loop with
  | lex =>
    let tokens := ScriptLang.lex line
    (⟨inLines (tokens.map Lexeme.form), tokens.filterMap Lexeme.warning?, none⟩, store)
  | parse =>
    let parsed := ScriptLang.parse line
    let text := if parsed.isOk then parsed.program.form ++ "\n" else errorText parsed
    (⟨text, parsed.log, none⟩, store)
  | eval =>
    let parsed := ScriptLang.parse line
    if parsed.isOk then
      match Session.evaluate Session.depthLimit parsed.program ⟨store, #[]⟩ with
      | none => (⟨"", parsed.log, some (.tooDeep "" line)⟩, store)
      | some (v, s) => (⟨valueText v, parsed.log ++ s.log.toList, none⟩, s.store)
    else (⟨errorText parsed, parsed.log, none⟩, store)

/-- How a loop goes on. -/
inductive Next where
  /-- With another line. -/
  | again (store : Store)
  /-- No more, with a status. -/
  | leave (status : Nat)
  deriving Inhabited

/-- What a loop prints after reading a line, given by its bytes, and how it goes on. -/
def turn (loop : Loop) (view : View) (store : Store) (line : ByteArray) : Output × Next :=
  if line.isEmpty then (⟨"\n", ""⟩, .leave 0)
  else
    match String.fromUTF8? line with
    | none =>
      let outcome : Outcome := ⟨"", [], some (.input .invalidData)⟩
      (outcome.output view, .leave outcome.status)
    | some line =>
      let text := lineText line
      if text = "" then (.empty, .again store)
      else if text = farewell then (.empty, .leave 0)
      else
        let (outcome, store) := loop.perform store text
        let next := if outcome.failure.isSome then .leave outcome.status else .again store
        (outcome.output view, next)

/-- All that a loop prints when it reads the given lines and then the end of its input, and its
status. -/
def transcript (loop : Loop) (view : View) (store : Store) : List ByteArray → Output × Nat
  | [] => (⟨prompt ++ "\n", ""⟩, 0)
  | line :: lines =>
    let (output, next) := loop.turn view store line
    let output := Output.append ⟨prompt, ""⟩ output
    match next with
    | .leave status => (output, status)
    | .again store =>
      let (others, status) := loop.transcript view store lines
      (output.append others, status)

end Loop

/-- Bytes cut into lines, each with the line feed that ends it. Those of `line`, last one first,
come before them. -/
def splitInput (line : List UInt8) : List UInt8 → List ByteArray
  | [] => if line.isEmpty then [] else [⟨line.reverse.toArray⟩]
  | b :: bytes =>
    if b = 10 then ⟨(b :: line).reverse.toArray⟩ :: splitInput [] bytes
    else splitInput (b :: line) bytes

/-- The lines of an input. -/
def inputLines (input : ByteArray) : List ByteArray := splitInput [] input.data.toList

/-! ## The command line -/

/-- All that a call with the given arguments prints, and its status. What is found at a path is
given by `files`, the input of interactive loops by `input`. -/
def transcript (arguments : List String) (colour : Bool) (files : String → File) (input : ByteArray)
    (elapsed : String) : Output × Nat :=
  let request := Request.ofArguments arguments
  let view : View := ⟨request.verbose, colour⟩
  match request.task with
  | .version => (⟨versionText, ""⟩, 0)
  | .usage => (⟨"", usageText⟩, 2)
  | .file command path => command.transcript view path (files path) elapsed
  | .loop loop => loop.transcript view Store.initial (inputLines input)

end ScriptLang.Console
