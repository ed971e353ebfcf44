import ScriptLang.Token.Lexer

/-!
# Reading tokens while characters are asked for

A source that answers requests, one character each, is read through a window of two characters: the
next one and the one after it. Whenever a character is read, one more is asked for. A request that
fails shows no character, just as the end of the source does, and asking goes on after it.
-/

namespace ScriptLang

/-- Two characters of a source, and how the requests for the others go. -/
structure Window (ε : Type) where
  /-- The offset of the next character. -/
  position : Nat
  /-- The offset of the character after it. -/
  nextPosition : Nat
  /-- The next character. -/
  current : Option Char
  /-- The character after it. -/
  next : Option Char
  /-- The number of bytes of all characters that requests gave. -/
  counted : Nat
  /-- The number of requests made. -/
  asked : Nat
  /-- What the requests to come will give. Past the list they find the end of the source. -/
  pending : List (Except ε Char)
  deriving Inhabited

namespace Window

variable {ε : Type}

/-- Moves the window by one character, and asks for one. -/
def advance (w : Window ε) : Window ε :=
  match w.pending with
  | .ok c :: pending =>
    { position := w.nextPosition
      nextPosition := w.counted
      current := w.next
      next := some c
      counted := Glyph.stop ⟨w.counted, c⟩
      asked := w.asked + 1
      pending }
  | pending =>
    { position := w.nextPosition
      nextPosition :=
        match w.next with
        | some c => Glyph.stop ⟨w.nextPosition, c⟩
        | none => w.nextPosition
      current := w.next
      next := none
      counted := w.counted
      asked := w.asked + 1
      pending := pending.tail }

/-- A window that shows nothing yet. -/
def start (requests : List (Except ε Char)) : Window ε := ⟨0, 0, none, none, 0, 0, requests⟩

/-- The window on the first two characters. -/
def ofRequests (requests : List (Except ε Char)) : Window ε := (start requests).advance.advance

/-! ## One token -/

/-- The stretch of characters that satisfy `p`, at most `n` of them, and the window after it. -/
def readWhile (p : Char → Bool) : Nat → Window ε → List Char × Window ε
  | 0, w => ([], w)
  | n + 1, w =>
    match w.current with
    | none => ([], w)
    | some c =>
      if p c then
        let (cs, w) := readWhile p n w.advance
        (c :: cs, w)
      else ([], w)

/-- The longest stretch of characters that satisfy `p`, and the window after it. -/
def readStretch (p : Char → Bool) (w : Window ε) : List Char × Window ε :=
  readWhile p (w.pending.length + 2) w

/-- The symbol that the window starts with, and the window after it. An equals sign that follows
may join it. -/
def readSymbol (kind : TokenKind) (w : Window ε) : Token × Window ε :=
  match kind.withEquals? with
  | some joined =>
    if w.next = some '=' then (Token.ofSymbol joined, w.advance.advance)
    else (Token.ofSymbol kind, w.advance)
  | none => (Token.ofSymbol kind, w.advance)

/-- The string that the window starts with, and the window after it. -/
def readString (w : Window ε) : Token × Window ε :=
  let (cs, w) := w.advance.readStretch isStringChar
  (⟨.string, String.ofList cs⟩, if w.current = some '"' then w.advance else w)

/-- The token that starts with the next character, and the window after it. -/
def readToken (w : Window ε) : Token × Window ε :=
  match w.current with
  | none => (Token.eof, w)
  | some c =>
    match TokenKind.ofSymbol? c with
    | some kind => w.readSymbol kind
    | none =>
      if c = '"' then w.readString
      else if isWordChar c then
        let (cs, w) := w.readStretch isWordChar
        (Token.ofWord (String.ofList cs), w)
      else if c.isDigit then
        let (cs, w) := w.readStretch Char.isDigit
        (⟨.int, String.ofList cs⟩, w)
      else (⟨.illegal, String.singleton c⟩, w.advance)

/-- The next lexeme, and the window after it. -/
def nextLexeme (w : Window ε) : Lexeme × Window ε :=
  let (_, w) := w.readStretch isBlank
  let (token, after) := w.readToken
  (⟨token, w.position, after.position⟩, after)

/-! ## All tokens -/

/-- At most `n` lexemes, none of them after the end token, and the window after them. -/
def pull : Nat → Window ε → List Lexeme × Window ε
  | 0, w => ([], w)
  | n + 1, w =>
    let (x, w) := w.nextLexeme
    if x.kind = .eof then ([x], w)
    else
      let (xs, w) := pull n w
      (x :: xs, w)

/-- The lexemes up to the end token, and the window after them. Before the end token there are no
more of them than characters in sight or still to come. -/
def lexemes (w : Window ε) : List Lexeme × Window ε := pull (w.pending.length + 3) w

end Window
end ScriptLang
