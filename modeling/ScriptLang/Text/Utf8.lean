/-!
# Decoding UTF-8 one character at a time

`decode` gives what a reader gets who asks for one character after the other. A request that meets
bytes which encode no character fails, and the next one goes on after those bytes.
-/

namespace ScriptLang.Text.Utf8

/-- Why a request for a character fails. -/
inductive DecodeError where
  /-- The bytes encode no character. -/
  | malformed
  /-- The bytes end in the middle of a character. -/
  | truncated
  deriving DecidableEq, Repr, Inhabited

/-- The number of bytes that follow a first byte, and the bits of the code point that it gives. -/
def lead? (byte : UInt8) : Option (Nat × Nat) :=
  let b := byte.toNat
  if b < 0x80 then some (0, b)
  else if b < 0xc0 then none
  else if b < 0xe0 then some (1, b % 0x20)
  else if b < 0xf0 then some (2, b % 0x10)
  else if b < 0xf8 then some (3, b % 0x08)
  else none

/-- The least code point that needs as many bytes after the first. -/
def least : Nat → Nat
  | 0 => 0
  | 1 => 0x80
  | 2 => 0x800
  | _ => 0x10000

/-- Reads `n` more bytes of a code point of which `code` is known, and gives what follows them. A
byte that cannot be one of these is left unread. -/
def readTail : Nat → Nat → List UInt8 → Except DecodeError Nat × List UInt8
  | 0, code, bytes => (.ok code, bytes)
  | _ + 1, _, [] => (.error .truncated, [])
  | n + 1, code, b :: bytes =>
    if 0x80 ≤ b.toNat ∧ b.toNat < 0xc0 then readTail n (code * 0x40 + b.toNat % 0x40) bytes
    else (.error .malformed, b :: bytes)

/-- The character with a given code point, unless as many bytes after the first are too many. -/
def toChar (tail code : Nat) : Except DecodeError Char :=
  if least tail ≤ code ∧ code.isValidChar then .ok (Char.ofNat code) else .error .malformed

/-- The character that starts with a given byte, and what follows it. -/
def readChar (first : UInt8) (bytes : List UInt8) : Except DecodeError Char × List UInt8 :=
  match lead? first with
  | none => (.error .malformed, bytes)
  | some (tail, bits) =>
    match readTail tail bits bytes with
    | (.ok code, bytes) => (toChar tail code, bytes)
    | (.error e, bytes) => (.error e, bytes)

/-- What at most `n` requests give. -/
def requests : Nat → List UInt8 → List (Except DecodeError Char)
  | 0, _ => []
  | _ + 1, [] => []
  | n + 1, b :: bytes =>
    let (result, bytes) := readChar b bytes
    result :: requests n bytes

/-- What the requests for characters give, up to the end of the bytes. Each of them takes at least
one byte. -/
def decode (bytes : List UInt8) : List (Except DecodeError Char) := requests bytes.length bytes

end ScriptLang.Text.Utf8
