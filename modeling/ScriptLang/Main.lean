import ScriptLang.Console

/-!
# The command line

Reads arguments, files and lines, and prints what the console makes of them.
-/

namespace ScriptLang

open Console

/-- What is found at a path. -/
def openFile (path : String) : IO File := do
  try
    return .contents (← IO.FS.readBinFile path)
  catch e =>
    return match e with
      | .noFileOrDirectory .. => .refused .notFound
      | .permissionDenied .. => .refused .permissionDenied
      | .inappropriateType (some _) .. => .refused .notDirectory
      | .inappropriateType none .. => .unreadable .isDirectory
      | .interrupted .. => .unreadable .interrupted
      | .timeExpired .. => .unreadable .timedOut
      | _ => .refused .other

/-- Reads a line with the line feed that ends it. -/
def readLine (input : IO.FS.Stream) : IO ByteArray := do
  let mut line := ByteArray.empty
  repeat
    let next ← input.read 1
    if next.isEmpty then break
    line := line ++ next
    if next.data[0]? = some 10 then break
  return line

/-- Prints on both channels. -/
def printOutput (output : Output) : IO Unit := do
  IO.print output.results
  (← IO.getStdout).flush
  IO.eprint output.messages

/-- Carries out a command on a file. -/
def runFile (command : Command) (view : View) (path : String) : IO UInt32 := do
  IO.eprint (command.announce view path)
  let start ← IO.monoMsNow
  let outcome := command.perform path (← openFile path)
  printOutput (outcome.output view)
  let elapsed := (← IO.monoMsNow) - start
  IO.eprint (command.conclude view outcome (seconds elapsed))
  return outcome.status.toUInt32

/-- Carries out an interactive loop. -/
def runLoop (loop : Loop) (view : View) : IO UInt32 := do
  let input ← IO.getStdin
  let mut store := Store.initial
  repeat
    printOutput ⟨prompt, ""⟩
    let (output, next) := loop.turn view store (← readLine input)
    printOutput output
    match next with
    | .again after => store := after
    | .leave status => return status.toUInt32
  return 0

end ScriptLang

open ScriptLang Console in
/-- The command line. -/
def main (arguments : List String) : IO UInt32 := do
  let forced := (← IO.getEnv "FORCE_COLOR").any (·.length > 0)
  let colour := forced || (← (← IO.getStderr).isTty)
  let request := Request.ofArguments arguments
  let view : View := ⟨request.verbose, colour⟩
  match request.task with
  | .version =>
    IO.print versionText
    return 0
  | .usage =>
    IO.eprint usageText
    return 2
  | .file command path => runFile command view path
  | .loop loop => runLoop loop view
