import ScriptLang.Parse.Grammar
import ScriptLang.Token.Lexer

/-!
# Parsing

`parse` turns a source into a program, and `parseLexemes` does so for a list of tokens. Statements
that cannot be read are left out of the program and give an error each.
-/

namespace ScriptLang

/-- What parsing gives. -/
structure Parsed where
  /-- The statements that could be read. -/
  program : Program
  /-- What is wrong with the others. -/
  errors : List ParseError
  /-- What was noted on the way. -/
  log : List LogRecord
  /-- How many tokens were asked for: those that were read, the next one and the one after it. -/
  pulled : Nat
  deriving Inhabited

/-- Whether all statements could be read. -/
def Parsed.isOk (p : Parsed) : Bool := p.errors.isEmpty

/-- The record of a recovery. -/
def Fault.record (f : Fault) : LogRecord :=
  .debug ("recovering from parse error at " ++ f.error.span.form ++ ": " ++ f.error.message)

/-- The warnings that go with tokens together with the recoveries, in the order of events. The
warning of a token is given when it comes next in line, so those of all tokens seen by the time of
a recovery come before it. Of the tokens that the warnings belong to, the first is number `seen`
in a source of `total` tokens. -/
def interleave (total : Nat) : Nat → List (Option LogRecord) → List Fault → List LogRecord
  | _, warnings, [] => warnings.filterMap id
  | seen, warnings, f :: fs =>
    let upTo := total - f.unseen
    (warnings.take (upTo - seen)).filterMap id ++
      f.record :: interleave total upTo (warnings.drop (upTo - seen)) fs

/-- Parses tokens, each of which may come with a warning. Tokens that are not asked for give
none. -/
def parseTokens (warnings : List (Option LogRecord)) (tokens : List Lexeme) : Parsed :=
  let productions := Parser.productions (Parser.depth tokens.length)
  let reply := productions.program (TokenStream.ofLexemes tokens)
  let program := reply.outcome.toOption.getD default
  let summary := "parsed " ++ toString program.statements.length ++ " statements with " ++
    toString reply.faults.length ++ " errors"
  let pulled := tokens.length - (reply.stream.rest.length - 2)
  { program
    errors := reply.faults.map Fault.error
    log := interleave tokens.length 0 (warnings.take pulled) reply.faults ++ [.debug summary]
    pulled }

/-- Parses a list of tokens. -/
def parseLexemes (tokens : List Lexeme) : Parsed :=
  parseTokens (tokens.map fun _ => none) tokens

/-- Parses tokens that have been read from a source, with the warnings that belong to them. -/
def parseRead (tokens : List Lexeme) : Parsed :=
  parseTokens (tokens.map Lexeme.warning?) tokens

/-- Parses a source. -/
def parse (source : String) : Parsed := parseRead (lex source)

end ScriptLang
