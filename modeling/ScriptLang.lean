import ScriptLang.Main
import ScriptLang.Proofs.Token.Lexer
import ScriptLang.Proofs.Token.Spelling
import ScriptLang.Proofs.Parse.Depth
import ScriptLang.Proofs.Tree.Erase
import ScriptLang.Proofs.Tree.Tokens
import ScriptLang.Proofs.Parse.Reading
import ScriptLang.Proofs.Parse.Productions
import ScriptLang.Proofs.Parse.Canonical
import ScriptLang.Proofs.Parse.RoundTrip
import ScriptLang.Proofs.Parse.Soundness
import ScriptLang.Proofs.Parse.Completeness
import ScriptLang.Proofs.Parse.Acceptance
import ScriptLang.Proofs.Store.Chain
import ScriptLang.Proofs.Store.Sweep
import ScriptLang.Proofs.Eval.Trace
import ScriptLang.Proofs.Eval.Liveness
import ScriptLang.Proofs.Store.Renaming
import ScriptLang.Proofs.Eval.Reclamation
import ScriptLang.Proofs.Parse.Parenthesized
import ScriptLang.Proofs.Eval.Erasure
import ScriptLang.Proofs.Eval.Frame
import ScriptLang.Proofs.Store.Collection
import ScriptLang.Proofs.Eval.Invariant
import ScriptLang.Proofs.Eval.Evaluates
import ScriptLang.Proofs.Eval.Unwinding
import ScriptLang.Proofs.Eval.Bindings
import ScriptLang.Proofs.Parse.Conservation
import ScriptLang.Proofs.Token.Spans
import ScriptLang.Proofs.Store.Slots
import ScriptLang.Proofs.Eval.Splitting
import ScriptLang.Proofs.Token.Window
import ScriptLang.Proofs.Text.Utf8
import ScriptLang.Proofs.Script.Loading
import ScriptLang.Proofs.Parse.Shift
import ScriptLang.Proofs.Token.Locality
import ScriptLang.Proofs.Tree.Shift
import ScriptLang.Proofs.Parse.Locality
import ScriptLang.Proofs.Parse.Balance
import ScriptLang.Proofs.Parse.Concatenation
import ScriptLang.Proofs.Token.Slices
import ScriptLang.Proofs.Tree.Nodes
import ScriptLang.Proofs.Parse.Places
import ScriptLang.Proofs.Parse.Diagnostics
import ScriptLang.Proofs.Parse.Nesting
import ScriptLang.Proofs.Parse.Continuation
import ScriptLang.Proofs.Parse.Excerpts
import ScriptLang.Proofs.Console.Lines
import ScriptLang.Proofs.Store.Shadowing
import ScriptLang.Proofs.Eval.Arithmetic
import ScriptLang.Proofs.Parse.Attempts
import ScriptLang.Proofs.Token.Blanks
