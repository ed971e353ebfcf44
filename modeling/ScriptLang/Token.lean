import ScriptLang.Span

/-!
# Tokens

The alphabet of the language: kinds of tokens, tokens, and lexemes, which are tokens together with
the place where they stand in the source.
-/

namespace ScriptLang

/-- The kinds of tokens. The constructors that start with `kw` are the keywords. -/
inductive TokenKind where
  | illegal
  | eof
  | ident
  | int
  | string
  | assign
  | plus
  | minus
  | bang
  | asterisk
  | slash
  | lessThan
  | greaterThan
  | equal
  | notEqual
  | comma
  | semicolon
  | leftParen
  | rightParen
  | leftBrace
  | rightBrace
  | kwFn
  | kwLet
  | kwTrue
  | kwFalse
  | kwIf
  | kwElse
  | kwReturn
  deriving DecidableEq, Repr, Inhabited

namespace TokenKind

/-- All kinds, each once. -/
def all : List TokenKind :=
  [illegal, eof, ident, int, string, assign, plus, minus, bang, asterisk, slash, lessThan,
    greaterThan, equal, notEqual, comma, semicolon, leftParen, rightParen, leftBrace, rightBrace,
    kwFn, kwLet, kwTrue, kwFalse, kwIf, kwElse, kwReturn]

/-- The name by which messages call a kind. The name of a symbol is how it is spelled. -/
def name : TokenKind → String
  | illegal => "ILLEGAL"
  | eof => "EOF"
  | ident => "IDENT"
  | int => "INT"
  | string => "STRING"
  | assign => "="
  | plus => "+"
  | minus => "-"
  | bang => "!"
  | asterisk => "*"
  | slash => "/"
  | lessThan => "<"
  | greaterThan => ">"
  | equal => "=="
  | notEqual => "!="
  | comma => ","
  | semicolon => ";"
  | leftParen => "("
  | rightParen => ")"
  | leftBrace => "\x7b"
  | rightBrace => "\x7d"
  | kwFn => "FUNCTION"
  | kwLet => "LET"
  | kwTrue => "TRUE"
  | kwFalse => "FALSE"
  | kwIf => "IF"
  | kwElse => "ELSE"
  | kwReturn => "RETURN"

/-- The kind with a given name. -/
def ofName? (name : String) : Option TokenKind := all.find? (·.name == name)

/-- The spelling of a keyword; the other kinds have none. -/
def keyword? : TokenKind → Option String
  | kwFn => some "fn"
  | kwLet => some "let"
  | kwTrue => some "true"
  | kwFalse => some "false"
  | kwIf => some "if"
  | kwElse => some "else"
  | kwReturn => some "return"
  | _ => none

/-- The kind of a word: the keyword spelled so, or else an identifier. -/
def ofWord : String → TokenKind
  | "fn" => kwFn
  | "let" => kwLet
  | "true" => kwTrue
  | "false" => kwFalse
  | "if" => kwIf
  | "else" => kwElse
  | "return" => kwReturn
  | _ => ident

/-- The kind of the symbol that consists of one character. -/
def ofSymbol? : Char → Option TokenKind
  | '=' => some assign
  | '+' => some plus
  | '-' => some minus
  | '!' => some bang
  | '*' => some asterisk
  | '/' => some slash
  | '<' => some lessThan
  | '>' => some greaterThan
  | ',' => some comma
  | ';' => some semicolon
  | '(' => some leftParen
  | ')' => some rightParen
  | '\x7b' => some leftBrace
  | '\x7d' => some rightBrace
  | _ => none

/-- The symbol that a symbol becomes when an equals sign follows at once. -/
def withEquals? : TokenKind → Option TokenKind
  | assign => some equal
  | bang => some notEqual
  | _ => none

end TokenKind

/-- A token: its kind and the text it was read from. A string's quotes are not part of its text. -/
structure Token where
  kind : TokenKind
  literal : String
  deriving DecidableEq, Repr, Inhabited

namespace Token

/-- The token that ends every source. -/
def eof : Token := ⟨.eof, ""⟩

/-- The token of a word, which is a keyword or an identifier. -/
def ofWord (word : String) : Token := ⟨.ofWord word, word⟩

/-- The token of a symbol, spelled by its name. -/
def ofSymbol (kind : TokenKind) : Token := ⟨kind, kind.name⟩

/-- A token in text: the name of its kind, a space, its literal. -/
def form (t : Token) : String := t.kind.name ++ " " ++ t.literal

end Token

/-- A token where it stands in the source. -/
structure Lexeme where
  token : Token
  span : Span
  deriving DecidableEq, Repr, Inhabited

namespace Lexeme

/-- The kind of the token. -/
def kind (x : Lexeme) : TokenKind := x.token.kind

/-- The end of the input, found at an offset. -/
def eof (offset : Nat) : Lexeme := ⟨Token.eof, Span.empty offset⟩

/-- A lexeme in text, as in `[0..3] LET let`. -/
def form (x : Lexeme) : String := "[" ++ x.span.form ++ "] " ++ x.token.form

end Lexeme

end ScriptLang
