import ScriptLang.Parse.Error
import ScriptLang.Log

/-!
# Parsers over tokens

A parser reads tokens off a stream and gives a result or an error. Whichever it is, it also tells
where in the stream it stopped and which errors it has recovered from on the way: `recovering`
turns an error into such a fault, so that reading goes on with the next statement.
-/

namespace ScriptLang

/-- Tokens still to be read. Past its end a stream holds nothing but end tokens. -/
structure TokenStream where
  /-- Where the token read last stops. -/
  last : Nat
  /-- The tokens to come. -/
  rest : List Lexeme
  deriving DecidableEq, Repr, Inhabited

namespace TokenStream

/-- The stream of given tokens, of which none has been read. -/
def ofLexemes (tokens : List Lexeme) : TokenStream := ⟨0, tokens⟩

/-- The next token. -/
def peek (s : TokenStream) : Lexeme := s.rest.headD (Lexeme.eof s.last)

/-- The stream after the next token. -/
def advance (s : TokenStream) : TokenStream := ⟨s.peek.span.stop, s.rest.tail⟩

/-- The stream after the next token, if that is of the given kind. -/
def skip (kind : TokenKind) (s : TokenStream) : TokenStream :=
  if s.peek.kind = kind then s.advance else s

end TokenStream

/-- An error that parsing recovered from. -/
structure Fault where
  error : ParseError
  /-- How many tokens were left, not counting the next one, when parsing recovered. -/
  unseen : Nat
  deriving DecidableEq, Repr, Inhabited

/-- What a parser leaves. -/
structure Reply (α : Type) where
  /-- The result, or why there is none. -/
  outcome : Except ParseError α
  /-- What has not been read. -/
  stream : TokenStream
  /-- The errors recovered from on the way, in order. -/
  faults : List Fault

/-- Parsers with results in `α`. -/
def Parser (α : Type) : Type := TokenStream → Reply α

namespace Parser

/-- Reads nothing and gives a result. -/
protected def pure {α : Type} (a : α) : Parser α := fun s => ⟨.ok a, s, []⟩

/-- One parser after the other. An error of the first one is an error of both. -/
protected def bind {α β : Type} (p : Parser α) (f : α → Parser β) : Parser β := fun s =>
  match p s with
  | ⟨.ok a, s, faults⟩ =>
    let reply := f a s
    ⟨reply.outcome, reply.stream, faults ++ reply.faults⟩
  | ⟨.error e, s, faults⟩ => ⟨.error e, s, faults⟩

instance : Monad Parser where
  pure := Parser.pure
  bind := Parser.bind

/-- Reads nothing and gives an error. -/
def fail {α : Type} (cause : ParseError.Cause) (span : Span) : Parser α :=
  fun s => ⟨.error ⟨cause, span, none⟩, s, []⟩

/-- The next token, which is left unread. -/
def peek : Parser Lexeme := fun s => ⟨.ok s.peek, s, []⟩

/-- Reads the next token. -/
def next : Parser Lexeme := fun s => ⟨.ok s.peek, s.advance, []⟩

/-- Reads the next token, which must be of the given kind. A token of another kind is left
unread. -/
def expect (kind : TokenKind) (opened : Option Span) : Parser Lexeme := fun s =>
  if s.peek.kind = kind then ⟨.ok s.peek, s.advance, []⟩
  else ⟨.error ⟨.unexpected kind s.peek.kind, s.peek.span, opened⟩, s, []⟩

/-- Reads the semicolon that may end a statement, and tells where the statement stops. -/
def finish : Parser Nat := fun s =>
  let s := s.skip .semicolon
  ⟨.ok s.last, s, []⟩

/-- Reads with `p`. If that fails the error becomes a fault, a semicolon that comes next is
dropped, and there is no result. -/
def recovering {α : Type} (p : Parser α) : Parser (Option α) := fun s =>
  match p s with
  | ⟨.ok a, s, faults⟩ => ⟨.ok (some a), s, faults⟩
  | ⟨.error e, s, faults⟩ => ⟨.ok none, s.skip .semicolon, faults ++ [⟨e, s.rest.length - 1⟩]⟩

end Parser

end ScriptLang
