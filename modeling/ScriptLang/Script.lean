import ScriptLang.Eval
import ScriptLang.Failure
import ScriptLang.Parse
import ScriptLang.Token.Window

/-!
# Scripts

A script is a source that parses without errors, together with its program. It is loaded from a
text, or from a file that is decoded while its tokens are read.
-/

namespace ScriptLang

/-- A program and the source it was loaded from. -/
structure Script where
  path : String
  source : String
  program : Program
  deriving Inhabited

/-- What comes of reading, and what was noted on the way. -/
structure Loaded (α : Type) where
  outcome : Except Failure α
  log : List LogRecord

/-- The text of a file of a program. -/
def File.source (path : String) (file : File) : Except Failure String :=
  if Path.isProgram path then file.text.mapError .input else .error (.extension path)

/-- The tokens of a file of a program. -/
def File.lex (path : String) (file : File) : Loaded (List Lexeme) :=
  match file.source path with
  | .ok source => ⟨.ok (ScriptLang.lex source), (ScriptLang.lex source).filterMap Lexeme.warning?⟩
  | .error e => ⟨.error e, []⟩

/-! ## Reading while decoding -/

/-- A source that is parsed while its characters are asked for. -/
structure Reading where
  parsed : Parsed
  /-- The number of requests that were made for the tokens that parsing has asked for. -/
  asked : Nat
  /-- What these requests gave, up to the end of the source. -/
  made : List (Except ReadError Char)

namespace Reading

/-- Parses tokens that are read through a window. A request that fails looks like the end of the
source, so there are tokens up to the first one. How many of them are asked for, and so which
requests are made, is up to the parser. -/
def ofRequests (requests : List (Except ReadError Char)) : Reading :=
  let window := Window.ofRequests requests
  let parsed := parseRead window.lexemes.1
  let asked := (window.pull parsed.pulled).2.asked
  ⟨parsed, asked, requests.take asked⟩

/-- The error of a request, if it fails. -/
def requestError? : Except ReadError Char → Option ReadError
  | .ok _ => none
  | .error e => some e

/-- The last error among the requests that were made. -/
def error? (r : Reading) : Option ReadError := (r.made.filterMap requestError?).getLast?

/-- The characters that the requests gave. -/
def source (r : Reading) : String := String.ofList (r.made.filterMap Except.toOption)

end Reading

namespace Script

/-- The script of a source that has been parsed. Parse errors leave no script. -/
def ofParsed (path source : String) (parsed : Parsed) : Loaded Script :=
  if parsed.isOk then ⟨.ok ⟨path, source, parsed.program⟩, parsed.log⟩
  else
    let record := .debug (path ++ " has " ++ toString parsed.errors.length ++ " parse errors")
    ⟨.error (.parse path source parsed.errors), parsed.log ++ [record]⟩

/-- Loads a source. -/
def load (path source : String) : Loaded Script := ofParsed path source (parse source)

/-- Loads a source by requests for its characters. If any of them fails there is no script, and the
last failure is reported. -/
def loadRequests (path : String) (requests : List (Except ReadError Char)) : Loaded Script :=
  let reading := Reading.ofRequests requests
  match reading.error? with
  | some error => ⟨.error (.input error), reading.parsed.log⟩
  | none => ofParsed path reading.source reading.parsed

/-- Loads a file, which is decoded while its tokens are read. -/
def loadFile (path : String) (file : File) : Loaded Script :=
  if Path.isProgram path then
    match file with
    | .refused error => ⟨.error (.input error), []⟩
    | file => loadRequests path file.requests
  else ⟨.error (.extension path), []⟩

/-- Runs a script in a session. A program whose value is an error fails. -/
def run (depth : Nat) (script : Script) (s : Session) : Option (Except Failure Value × Session) :=
  match s.evaluate depth script.program with
  | none => none
  | some (.error cause, s) => some (.error (.runtime script.path script.source cause), s)
  | some (v, s) => some (.ok v, s)

end Script

end ScriptLang
