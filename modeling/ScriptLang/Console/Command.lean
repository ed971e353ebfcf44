/-!
# Commands

What the arguments of the command line ask for.
-/

namespace ScriptLang.Console

/-- What an interactive loop does with a line. -/
inductive Loop where
  /-- It prints the tokens. -/
  | lex
  /-- It prints the canonical form. -/
  | parse
  /-- It prints the value. -/
  | eval
  deriving DecidableEq, Repr, Inhabited

/-- What to do with a file. -/
inductive Command where
  /-- Print the tokens. -/
  | lex
  /-- Print the program in canonical form. -/
  | parse
  /-- Print all that the tree of the program holds. -/
  | dump
  /-- Run the program and print its value. -/
  | run
  deriving DecidableEq, Repr, Inhabited

/-- What is asked for. -/
inductive Task where
  | file (command : Command) (path : String)
  | loop (loop : Loop)
  | version
  | usage
  deriving DecidableEq, Repr, Inhabited

/-- A flag. -/
inductive Flag where
  | verbose
  | dump
  | version
  /-- A flag that nobody knows. -/
  | unknown
  deriving DecidableEq, Repr, Inhabited

namespace Flag

/-- The flag with the given long name. -/
def ofName (name : String) : Flag :=
  match name with
  | "verbose" => .verbose
  | "print-ast" => .dump
  | "version" => .version
  | _ => .unknown

/-- The flag with the given letter. -/
def ofLetter (letter : Char) : Flag :=
  match letter with
  | 'v' => .verbose
  | 'V' => .version
  | _ => .unknown

/-- The flags that an argument gives: one by its long name after two dashes, or any number by
their letters after one dash. A word gives none, and a dash that stands alone is a word. -/
def ofArgument (argument : String) : List Flag :=
  match argument.toList with
  | '-' :: '-' :: name => [ofName (String.ofList name)]
  | '-' :: letters => letters.map ofLetter
  | _ => []

end Flag

/-- The flags that have been given. -/
structure Options where
  verbose : Bool
  dump : Bool
  deriving DecidableEq, Repr, Inhabited

namespace Options

/-- No flags. -/
def none : Options := ⟨false, false⟩

/-- One more flag, where those of `known` may be given, each of them once. To ask for the version
settles the task, whatever comes after it. -/
def add (known : List Flag) (options : Options) (flag : Flag) : Except Task Options :=
  if flag ∈ known then
    match flag with
    | .verbose => if options.verbose then .error .usage else .ok { options with verbose := true }
    | .dump => if options.dump then .error .usage else .ok { options with dump := true }
    | .version => .error .version
    | .unknown => .error .usage
  else .error .usage

/-- The flags and the words among arguments. After two dashes there are only words. -/
def sort (known : List Flag) : Options → List String → Except Task (Options × List String)
  | options, [] => .ok (options, [])
  | options, argument :: rest =>
    if argument = "--" then .ok (options, rest)
    else
      match Flag.ofArgument argument with
      | [] => do
        let (options, words) ← sort known options rest
        return (options, argument :: words)
      | flags => do
        let options ← flags.foldlM (add known) options
        sort known options rest

end Options

/-- What a call asks for, and whether all log records are to be shown. -/
structure Request where
  verbose : Bool
  task : Task
  deriving DecidableEq, Repr, Inhabited

namespace Request

/-- The flags that may come after the name of a command. -/
def flagsAfter (name : String) : List Flag :=
  if name = "parse" then [.verbose, .dump] else [.verbose]

/-- The task that a command with the given name does with the words after it. -/
def taskNamed (name : String) (dump : Bool) (words : List String) : Task :=
  match name, words with
  | "tokenize", [path] => if path.isEmpty then .usage else .file .lex path
  | "parse", [path] =>
    if path.isEmpty then .usage else .file (if dump then .dump else .parse) path
  | "run", [path] => if path.isEmpty then .usage else .file .run path
  | "rlpl", [] => .loop .lex
  | "rppl", [] => .loop .parse
  | "repl", [] => .loop .eval
  | _, _ => .usage

/-- Reads flags up to the name of a command, then the flags and words of the command. The task is
an error where it is settled before the last argument. -/
def read : Options → List String → Except Task Request
  | _, [] => .error .usage
  | options, argument :: rest =>
    match Flag.ofArgument argument with
    | [] => do
      let (own, words) ← Options.sort (flagsAfter argument) .none rest
      return ⟨options.verbose || own.verbose, taskNamed argument own.dump words⟩
    | flags => do
      let options ← flags.foldlM (Options.add [.verbose, .version]) options
      read options rest

/-- What the arguments of a call ask for. -/
def ofArguments (arguments : List String) : Request :=
  match read .none arguments with
  | .ok request => request
  | .error task => ⟨false, task⟩

end Request

/-- What is printed if the version is asked for. -/
def versionText : String := "cacti 0.1.0\n"

/-- What is printed if the arguments make no sense. -/
def usageText : String :=
  "Usage: cacti [--verbose] <tokenize|parse|run> <PATH>\n" ++
    "       cacti [--verbose] <rlpl|rppl|repl>\n"

end ScriptLang.Console
