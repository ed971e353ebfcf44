import ScriptLang.Text.Utf8

/-!
# Files

What programs are loaded from: paths, what becomes of opening one, and why reading may fail.
-/

namespace ScriptLang

/-- Why something could not be read. -/
inductive ReadError where
  | notFound
  | permissionDenied
  | alreadyExists
  | invalidInput
  | invalidData
  | unexpectedEnd
  | isDirectory
  | notDirectory
  | interrupted
  | timedOut
  | brokenPipe
  | other
  deriving DecidableEq, Repr, Inhabited

/-- The reason in words. -/
def ReadError.message : ReadError → String
  | notFound => "entity not found"
  | permissionDenied => "permission denied"
  | alreadyExists => "entity already exists"
  | invalidInput => "invalid input parameter"
  | invalidData => "invalid data"
  | unexpectedEnd => "unexpected end of file"
  | isDirectory => "is a directory"
  | notDirectory => "not a directory"
  | interrupted => "operation interrupted"
  | timedOut => "timed out"
  | brokenPipe => "broken pipe"
  | other => "other error"

/-- The reason why a request for a character fails. -/
def ReadError.ofDecode : Text.Utf8.DecodeError → ReadError
  | .malformed => invalidData
  | .truncated => unexpectedEnd

/-- What is found at a path. -/
inductive File where
  /-- It cannot be opened. -/
  | refused (error : ReadError)
  /-- It can be opened, but nothing can be read from it. -/
  | unreadable (error : ReadError)
  /-- It holds these bytes. -/
  | contents (bytes : ByteArray)
  deriving Inhabited

namespace File

/-- What the first requests for characters give. Past the list, requests find the end of the
file; nobody makes more than two requests of a file that cannot be read. -/
def requests : File → List (Except ReadError Char)
  | refused error => [.error error, .error error]
  | unreadable error => [.error error, .error error]
  | contents bytes =>
    (Text.Utf8.decode bytes.data.toList).map fun r => r.mapError ReadError.ofDecode

/-- The whole text of a file. -/
def text : File → Except ReadError String
  | refused error => .error error
  | unreadable error => .error error
  | contents bytes =>
    match String.fromUTF8? bytes with
    | some text => .ok text
    | none => .error .invalidData

end File

/-! ## Paths -/

namespace Path

/-- The names that a path goes through. Empty ones and those of a single dot lead nowhere. -/
def names (path : String) : List String :=
  ((path.toList.splitOn '/').map String.ofList).filter fun name => name ≠ "" ∧ name ≠ "."

/-- What follows the last dot of a name, if anything stands before that dot. -/
def nameExtension? (name : String) : Option String :=
  let tail := (name.toList.reverse.takeWhile (· ≠ '.')).reverse
  if tail.length + 1 < name.length then some (String.ofList tail) else none

/-- The extension of the last name of a path. -/
def extension? (path : String) : Option String :=
  match (names path).getLast? with
  | none => none
  | some ".." => none
  | some name => nameExtension? name

/-- The extension of the files that hold programs. -/
def programExtension : String := "cacti"

/-- Whether a path is that of a program. -/
def isProgram (path : String) : Bool := extension? path = some programExtension

end Path

end ScriptLang
