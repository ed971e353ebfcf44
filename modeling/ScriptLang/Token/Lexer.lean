import ScriptLang.Token

/-!
# Reading tokens

Characters come with the offsets at which they start. `CharStream.next` reads one lexeme off a
stream of them and `CharStream.lexemes` reads all up to the end of the input; `lex` does so for a
text. Blanks separate tokens, a word is as long as it can be, and a character that starts no token
is a token of its own, of kind `illegal`.
-/

namespace ScriptLang

/-- A character and the offset of its first byte. -/
structure Glyph where
  offset : Nat
  char : Char
  deriving DecidableEq, Repr, Inhabited

/-- Offsets are counted modulo this number. -/
def offsetLimit : Nat := UInt32.size

/-- The offset just past a character. -/
def Glyph.stop (g : Glyph) : Nat := (g.offset + g.char.utf8Size) % offsetLimit

/-- Characters that stand one after the other, the first at offset `start`. -/
def Glyph.locate (start : Nat) : List Char → List Glyph
  | [] => []
  | c :: cs => ⟨start, c⟩ :: locate (Glyph.stop ⟨start, c⟩) cs

/-- Characters still to be read. -/
structure CharStream where
  /-- The offset just past the character read last. -/
  last : Nat
  /-- The characters to come. -/
  rest : List Glyph
  deriving DecidableEq, Repr, Inhabited

namespace CharStream

/-- The stream of given characters, of which none has been read. -/
def ofGlyphs (glyphs : List Glyph) : CharStream := ⟨0, glyphs⟩

/-- The characters of a text, counted from offset 0. -/
def ofChars (chars : List Char) : CharStream := ofGlyphs (Glyph.locate 0 chars)

/-- Where the stream stands: at the next character or, at its end, past the last one. -/
def offset (s : CharStream) : Nat :=
  match s.rest with
  | [] => s.last
  | g :: _ => g.offset

/-- The stream after its longest stretch of characters that satisfy `p`. -/
def dropWhile (p : Char → Bool) (s : CharStream) : CharStream where
  last := ((s.rest.takeWhile fun g => p g.char).getLast?.map Glyph.stop).getD s.last
  rest := s.rest.dropWhile fun g => p g.char

/-- The text of the longest stretch of characters that satisfy `p`. -/
def takeWhile (p : Char → Bool) (s : CharStream) : String :=
  String.ofList ((s.rest.takeWhile fun g => p g.char).map Glyph.char)

/-- The stream after one more character, if that is `c`. -/
def skip (c : Char) (s : CharStream) : CharStream :=
  match s.rest with
  | [] => s
  | g :: rest => if g.char = c then ⟨g.stop, rest⟩ else s

end CharStream

/-! ## Character classes -/

/-- Blanks stand between tokens. -/
def isBlank (c : Char) : Bool := c = ' ' || c = '\t' || c = '\n' || c = '\r'

/-- Words consist of ASCII letters and underscores. -/
def isWordChar (c : Char) : Bool := c.isAlpha || c = '_'

/-- Everything but the quote that ends a string. -/
def isStringChar (c : Char) : Bool := c ≠ '"'

namespace CharStream

/-! ## One token -/

/-- The symbol that starts the stream, and what follows it. Given are the kind of the first
character alone and the stream after it; an equals sign that follows may join it. -/
def readSymbol (kind : TokenKind) (after : CharStream) : Token × CharStream :=
  match kind.withEquals?, after.rest with
  | some joined, g :: rest =>
    if g.char = '=' then (Token.ofSymbol joined, ⟨g.stop, rest⟩) else (Token.ofSymbol kind, after)
  | _, _ => (Token.ofSymbol kind, after)

/-- The string whose opening quote has just been read. It runs to the closing quote or, if there
is none, to the end of the input. -/
def readString (after : CharStream) : Token × CharStream :=
  (⟨.string, after.takeWhile isStringChar⟩, (after.dropWhile isStringChar).skip '"')

/-- The token that starts with the next character, and the stream after it. -/
def readToken (s : CharStream) : Token × CharStream :=
  match s.rest with
  | [] => (Token.eof, s)
  | g :: rest =>
    let after : CharStream := ⟨g.stop, rest⟩
    match TokenKind.ofSymbol? g.char with
    | some kind => readSymbol kind after
    | none =>
      if g.char = '"' then readString after
      else if isWordChar g.char then (Token.ofWord (s.takeWhile isWordChar), s.dropWhile isWordChar)
      else if g.char.isDigit then (⟨.int, s.takeWhile Char.isDigit⟩, s.dropWhile Char.isDigit)
      else (⟨.illegal, String.singleton g.char⟩, after)

/-- The next lexeme, and the stream after it. At the end of the input this is the end token, which
leaves the stream as it is. -/
def next (s : CharStream) : Lexeme × CharStream :=
  let s := s.dropWhile isBlank
  let (token, after) := s.readToken
  (⟨token, s.offset, after.offset⟩, after)

/-! ## All tokens -/

/-- The next `n` lexemes, and the stream after them. -/
def take : Nat → CharStream → List Lexeme × CharStream
  | 0, s => ([], s)
  | n + 1, s =>
    let (x, s) := s.next
    let (xs, s) := take n s
    (x :: xs, s)

/-- The lexemes up to the end token, at most `n` before it, and the stream after them. -/
def readAll : Nat → CharStream → List Lexeme × CharStream
  | 0, s => ([s.next.1], s.next.2)
  | n + 1, s =>
    let (x, s) := s.next
    if x.kind = .eof then ([x], s)
    else
      let (xs, s) := readAll n s
      (x :: xs, s)

/-- The lexemes up to the end token, and what is left of the stream. There are no more of them
than characters, since each takes at least one. -/
def lexemes (s : CharStream) : List Lexeme × CharStream := readAll s.rest.length s

end CharStream

/-- The lexemes of a text. The last one is the end token. -/
def lex (source : String) : List Lexeme := (CharStream.ofChars source.toList).lexemes.1

end ScriptLang
