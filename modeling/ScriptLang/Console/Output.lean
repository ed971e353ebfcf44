import ScriptLang.Failure
import ScriptLang.Log
import ScriptLang.Text.Pad

/-!
# Output

What commands print: results on one channel; status lines, log records and reports on the other.
-/

namespace ScriptLang.Console

/-- How to print. -/
structure View where
  /-- Whether records of all levels are shown, and not only warnings. -/
  verbose : Bool
  /-- Whether headings are coloured. -/
  colour : Bool
  deriving DecidableEq, Repr, Inhabited

/-- The word that starts a status line, and the number of its colour. -/
structure Heading where
  word : String
  colour : Nat
  deriving DecidableEq, Repr, Inhabited

/-- Before a file is parsed. -/
def Heading.parsing : Heading := ⟨"Parsing", 13⟩

/-- After a file has been parsed. -/
def Heading.parsed : Heading := ⟨"Parsed", 10⟩

/-- Before a file is run. -/
def Heading.running : Heading := ⟨"Running", 14⟩

/-- After a file has been run. -/
def Heading.finished : Heading := ⟨"Finished", 10⟩

/-- The heading of a log record. -/
def Heading.ofLevel : LogLevel → Heading
  | .warn => ⟨"warning", 11⟩
  | .debug => ⟨"debug", 12⟩

namespace View

/-- A status line. Headings end in the same column. -/
def line (v : View) (heading : Heading) (text : String) : String :=
  let word := Text.padLeft 11 heading.word
  let shown :=
    if v.colour then
      "\x1b[0m\x1b[1m\x1b[38;5;" ++ toString heading.colour ++ "m" ++ word ++ "\x1b[0m"
    else word
  shown ++ " " ++ text ++ "\n"

/-- Whether records of a level are shown. -/
def shows (v : View) (level : LogLevel) : Bool := v.verbose || level = .warn

/-- Log records, as far as they are shown. -/
def records (v : View) (log : List LogRecord) : String :=
  String.join ((log.filter fun r => v.shows r.level).map fun r => v.line (.ofLevel r.level) r.text)

end View

/-- A time in seconds, to the nearest hundredth. -/
def seconds (milliseconds : Nat) : String :=
  let hundredths := (milliseconds + 5) / 10
  let places := toString (hundredths % 100)
  toString (hundredths / 100) ++ "." ++ (if places.length < 2 then "0" ++ places else places) ++ "s"

/-- What has been printed on the two channels. -/
structure Output where
  results : String
  messages : String
  deriving DecidableEq, Repr, Inhabited

namespace Output

/-- Nothing. -/
def empty : Output := ⟨"", ""⟩

/-- One output after the other. -/
def append (a b : Output) : Output := ⟨a.results ++ b.results, a.messages ++ b.messages⟩

end Output

/-- What comes of a piece of work. -/
structure Outcome where
  /-- The results to print. -/
  results : String
  /-- What was noted on the way. -/
  log : List LogRecord
  failure : Option Failure
  deriving Inhabited

namespace Outcome

/-- What is printed about an outcome. -/
def output (o : Outcome) (view : View) : Output :=
  ⟨o.results, view.records o.log ++ (o.failure.map Failure.form).getD ""⟩

/-- The status that a program ends with: 0, or 1 after a failure. -/
def status (o : Outcome) : Nat := if o.failure.isSome then 1 else 0

end Outcome

/-- Texts, each on a line of its own. -/
def inLines (texts : List String) : String := String.join (texts.map (· ++ "\n"))

/-- A value as it is printed. Null is not. -/
def valueText : Value → String
  | .null => ""
  | v => v.form ++ "\n"

end ScriptLang.Console
