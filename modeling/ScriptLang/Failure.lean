import ScriptLang.File
import ScriptLang.Parse.Error
import ScriptLang.Report.Layout
import ScriptLang.Value

/-!
# Failures

Why a program could not be loaded or run, and the reports about it.
-/

namespace ScriptLang

/-- Why a program could not be loaded or run. -/
inductive Failure where
  /-- The source has parse errors. -/
  | parse (path source : String) (errors : List ParseError)
  /-- The value of the program is an error. -/
  | runtime (path source : String) (cause : RuntimeError)
  /-- The source could not be read. -/
  | input (error : ReadError)
  /-- The path is not that of a program. -/
  | extension (path : String)
  deriving Inhabited

/-- The report of a parse error. -/
def ParseError.report (path source : String) (e : ParseError) : Report where
  title := e.message
  notes := e.hints
  excerpt := some {
    path
    source
    primary := ⟨e.label, e.span⟩
    secondary := e.opened.map fun span => ⟨"unclosed delimiter opened here", span⟩ }

namespace Failure

/-- The failure of a program that nests too deep to be run. -/
def tooDeep (path source : String) : Failure :=
  runtime path source (.custom "evaluation nests too deep")

/-- A failure in one line. -/
def message : Failure → String
  | parse _ _ _ => "failed to parse source code"
  | runtime _ _ cause => cause.message
  | input _ => "IO operation failed"
  | extension _ => "file does not end with ." ++ Path.programExtension

/-- What there is to say about a failure. -/
def reports : Failure → List Report
  | parse path source errors => errors.map (ParseError.report path source)
  | runtime path _ cause => [⟨cause.message, ["while evaluating " ++ path], none⟩]
  | input error => [⟨"Standard IO error", [error.message], none⟩]
  | extension path =>
    [⟨(extension path).message, [path ++ " is not a " ++ Path.programExtension ++ " source file"],
      none⟩]

/-- The reports in text, each followed by an empty line. -/
def form (f : Failure) : String := String.join (f.reports.map fun r => r.form ++ "\n")

end Failure

end ScriptLang
