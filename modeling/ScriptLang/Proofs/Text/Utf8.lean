import ScriptLang.Text.Utf8
import Mathlib.Data.String.Basic

/-!
# Valid UTF-8

Requests for the characters of bytes give the characters that the bytes encode. A first byte and
those after it are the bits of a code point, each group of them after a mark, and as few bytes as
possible are used: so the bytes that a character is read from are its encoding, and they are all
that is read. The requests give nothing but characters just if the bytes are valid UTF-8.
-/

namespace ScriptLang.Text.Utf8

open String (utf8EncodeChar)

variable {bytes rest : List UInt8} {b : UInt8} {c : Char} {cs : List Char} {n bits code v : Nat}

/-! ## The bytes of a character -/

/-- How many values the bits of a first byte have, if `n` bytes follow it. -/
def room : Nat → Nat
  | 0 => 0x80
  | 1 => 0x20
  | 2 => 0x10
  | _ => 0x08

/-- What a first byte adds to its bits, if `n` bytes follow it. -/
def mark : Nat → Nat
  | 0 => 0
  | 1 => 0xc0
  | 2 => 0xe0
  | _ => 0xf0

theorem mark_add_room_le (n : Nat) : mark n + room n ≤ 256 := by
  unfold mark room
  split <;> decide

theorem toNat_ofNat_of_lt (h : v < 256) : (UInt8.ofNat v).toNat = v := Nat.mod_eq_of_lt h

theorem ofNat_eq_of_eq_toNat (h : v = b.toNat) : UInt8.ofNat v = b := by
  rw [h, UInt8.ofNat_toNat]

/-- A first byte is a mark and bits. -/
theorem lead?_eq_some_iff :
    lead? b = some (n, bits) ↔ n ≤ 3 ∧ bits < room n ∧ b.toNat = mark n + bits := by
  have hb : b.toNat < 256 := b.toNat_lt
  unfold lead?
  dsimp only
  constructor
  · intro h
    split_ifs at h <;> cases h <;> simp only [room, mark] <;> omega
  · rintro ⟨hn, hbits, heq⟩
    rw [heq]
    obtain rfl | rfl | rfl | rfl : n = 0 ∨ n = 1 ∨ n = 2 ∨ n = 3 := by omega
    all_goals simp only [room, mark] at hbits ⊢
    · rw [if_pos (by omega), Nat.zero_add]
    · rw [if_neg (by omega), if_neg (by omega), if_pos (by omega)]
      congr 2
      omega
    · rw [if_neg (by omega), if_neg (by omega), if_neg (by omega), if_pos (by omega)]
      congr 2
      omega
    · rw [if_neg (by omega), if_neg (by omega), if_neg (by omega), if_neg (by omega),
        if_pos (by omega)]
      congr 2
      omega

/-- The bytes after the first one, if there are `n` of them: six bits of the code point each. -/
def tailBytes : Nat → Nat → List UInt8
  | 0, _ => []
  | n + 1, v => tailBytes n (v / 0x40) ++ [UInt8.ofNat (v % 0x40 + 0x80)]

/-- The bits of the code point that are left to the first byte, if `n` bytes follow it. -/
def leadBits : Nat → Nat → Nat
  | 0, v => v
  | n + 1, v => leadBits n (v / 0x40)

/-- One byte more is read after the others. -/
theorem readTail_succ_eq_ok_iff : readTail (n + 1) code bytes = (.ok v, rest) ↔
    ∃ u b, readTail n code bytes = (.ok u, b :: rest) ∧ 0x80 ≤ b.toNat ∧ b.toNat < 0xc0 ∧
      v = u * 0x40 + b.toNat % 0x40 := by
  induction n generalizing code bytes with
  | zero =>
    cases bytes with
    | nil => simp [readTail]
    | cons b bytes =>
      simp only [readTail]
      split_ifs with hb
      · simp only [Prod.mk.injEq, Except.ok.injEq, List.cons.injEq]
        constructor
        · rintro ⟨rfl, rfl⟩
          exact ⟨code, b, ⟨rfl, rfl, rfl⟩, hb.1, hb.2, rfl⟩
        · rintro ⟨u, b', ⟨rfl, rfl, rfl⟩, -, -, rfl⟩
          exact ⟨rfl, rfl⟩
      · simp only [Prod.mk.injEq, reduceCtorEq, false_and, false_iff]
        rintro ⟨u, b', ⟨-, hbytes⟩, hle, hlt, -⟩
        obtain ⟨rfl, -⟩ := List.cons.inj hbytes
        exact hb ⟨hle, hlt⟩
  | succ n ih =>
    cases bytes with
    | nil => simp [readTail]
    | cons b bytes =>
      have hsucc : ∀ k, readTail (k + 1) code (b :: bytes) =
          if 0x80 ≤ b.toNat ∧ b.toNat < 0xc0 then readTail k (code * 0x40 + b.toNat % 0x40) bytes
          else (.error .malformed, b :: bytes) := fun k => rfl
      rw [hsucc, hsucc]
      split_ifs with hb
      · exact ih
      · simp

/-- The bytes after the first one are those that carry the code point. -/
theorem readTail_eq_ok_iff : readTail n bits bytes = (.ok v, rest) ↔
    bits = leadBits n v ∧ bytes = tailBytes n v ++ rest := by
  induction n generalizing v rest with
  | zero => simp [readTail, leadBits, tailBytes]
  | succ n ih =>
    rw [readTail_succ_eq_ok_iff, leadBits, tailBytes, List.append_assoc]
    simp only [ih]
    constructor
    · rintro ⟨u, b, ⟨hbits, hbytes⟩, hle, hlt, rfl⟩
      have hu : (u * 0x40 + b.toNat % 0x40) / 0x40 = u := by omega
      have hb : UInt8.ofNat ((u * 0x40 + b.toNat % 0x40) % 0x40 + 0x80) = b :=
        ofNat_eq_of_eq_toNat (by omega)
      rw [hu, hb]
      exact ⟨hbits, hbytes⟩
    · intro h
      have hb : (UInt8.ofNat (v % 0x40 + 0x80)).toNat = v % 0x40 + 0x80 :=
        toNat_ofNat_of_lt (by omega)
      refine ⟨v / 0x40, _, h, ?_, ?_, ?_⟩ <;> rw [hb] <;> omega

/-- A character has the code point that was read, and needs as many bytes as were read. -/
theorem toChar_eq_ok_iff : toChar n code = .ok c ↔ least n ≤ code ∧ c.val.toNat = code := by
  unfold toChar
  constructor
  · intro h
    split_ifs at h with hcode
    obtain rfl := Except.ok.inj h
    refine ⟨hcode.1, ?_⟩
    rw [Char.ofNat, dif_pos hcode.2]
    rfl
  · rintro ⟨hle, rfl⟩
    rw [if_pos ⟨hle, c.valid⟩]
    exact congrArg Except.ok c.ofNat_toNat

/-! ## One character -/

/-- The encoding of a character whose code point needs `n` bytes after the first and has room in
them. -/
theorem utf8EncodeChar_eq (hn : n ≤ 3) (hleast : least n ≤ c.val.toNat)
    (hroom : leadBits n c.val.toNat < room n) :
    utf8EncodeChar c = UInt8.ofNat (mark n + leadBits n c.val.toNat) ::
      tailBytes n c.val.toNat := by
  rw [String.utf8EncodeChar.eq_1]
  generalize c.val.toNat = v at hleast hroom
  obtain rfl | rfl | rfl | rfl : n = 0 ∨ n = 1 ∨ n = 2 ∨ n = 3 := by omega
  all_goals simp only [least, room, mark, leadBits, tailBytes] at hleast hroom ⊢
  · rw [if_pos (by omega), Nat.zero_add]
  · rw [if_neg (by omega), if_pos (by omega)]
    congr 2
    omega
  · rw [if_neg (by omega), if_neg (by omega), if_pos (by omega)]
    congr 2
    omega
  · have hthird : v / 64 / 64 = v / 4096 := Nat.div_div_eq_div_mul v 64 64
    rw [if_neg (by omega), if_neg (by omega), if_neg (by omega), hthird]
    congr 2
    omega

/-- Every character has an encoding of one of the four lengths. -/
theorem exists_length (c : Char) :
    ∃ n ≤ 3, least n ≤ c.val.toNat ∧ leadBits n c.val.toNat < room n := by
  have hc : c.val.toNat < 0x110000 := by
    rcases c.valid with hvalid | hvalid <;> omega
  generalize c.val.toNat = v at hc
  by_cases h0 : v < 0x80
  · exact ⟨0, by decide, Nat.zero_le v, h0⟩
  by_cases h1 : v < 0x800
  · refine ⟨1, by decide, ?_, ?_⟩ <;> simp only [least, leadBits, room] <;> omega
  by_cases h2 : v < 0x10000
  · refine ⟨2, by decide, ?_, ?_⟩ <;> simp only [least, leadBits, room] <;> omega
  · refine ⟨3, by decide, ?_, ?_⟩ <;> simp only [least, leadBits, room] <;> omega

/-- Reading a character: a first byte, the bytes after it, and the character with that code. -/
theorem readChar_eq_ok_iff_exists : readChar b bytes = (.ok c, rest) ↔
    ∃ n bits code, lead? b = some (n, bits) ∧ readTail n bits bytes = (.ok code, rest) ∧
      toChar n code = .ok c := by
  unfold readChar
  constructor
  · intro h
    rcases hlead : lead? b with _ | ⟨n, bits⟩ <;> rw [hlead] at h
    · cases h
    · dsimp only at h
      rcases htail : readTail n bits bytes with ⟨_ | code, rest'⟩ <;> rw [htail] at h
      · cases h
      · obtain ⟨hchar, rfl⟩ := Prod.mk.inj h
        exact ⟨n, bits, code, rfl, htail, hchar⟩
  · rintro ⟨n, bits, code, hlead, htail, hchar⟩
    rw [hlead]
    dsimp only
    rw [htail]
    exact congrArg (·, rest) hchar

/-- **A character is read from its encoding**, from nothing else, and no further. -/
theorem readChar_eq_ok_iff :
    readChar b bytes = (.ok c, rest) ↔ b :: bytes = utf8EncodeChar c ++ rest := by
  rw [readChar_eq_ok_iff_exists]
  simp only [lead?_eq_some_iff, readTail_eq_ok_iff, toChar_eq_ok_iff]
  constructor
  · rintro ⟨n, bits, code, ⟨hn, hroom, hb⟩, ⟨rfl, rfl⟩, hleast, rfl⟩
    rw [utf8EncodeChar_eq hn hleast hroom, ofNat_eq_of_eq_toNat hb.symm]
    rfl
  · intro h
    obtain ⟨n, hn, hleast, hroom⟩ := exists_length c
    rw [utf8EncodeChar_eq hn hleast hroom] at h
    obtain ⟨rfl, rfl⟩ := List.cons.inj h
    refine ⟨n, _, _, ⟨hn, hroom, toNat_ofNat_of_lt ?_⟩, ⟨rfl, rfl⟩, hleast, rfl⟩
    have hmark := mark_add_room_le n
    omega

/-! ## All characters -/

theorem length_readTail_le (n code : Nat) (bytes : List UInt8) :
    (readTail n code bytes).2.length ≤ bytes.length := by
  induction n generalizing code bytes with
  | zero => exact le_rfl
  | succ n ih =>
    cases bytes with
    | nil => exact le_rfl
    | cons b bytes =>
      rw [readTail]
      split_ifs
      · exact (ih _ bytes).trans (Nat.le_succ _)
      · exact le_rfl

theorem length_readChar_le (b : UInt8) (bytes : List UInt8) :
    (readChar b bytes).2.length ≤ bytes.length := by
  unfold readChar
  rcases lead? b with _ | ⟨n, bits⟩
  · exact le_rfl
  · have hle := length_readTail_le n bits bytes
    dsimp only
    rcases htail : readTail n bits bytes with ⟨_ | code, rest⟩ <;> rw [htail] at hle <;> exact hle

/-- Once the bound is as large as there are bytes, its value does not matter. -/
theorem requests_eq_of_le {n m : Nat} (hn : bytes.length ≤ n) (hm : bytes.length ≤ m) :
    requests n bytes = requests m bytes := by
  induction n generalizing m bytes with
  | zero =>
    obtain rfl : bytes = [] := List.length_eq_zero_iff.mp (Nat.le_zero.mp hn)
    cases m <;> rfl
  | succ n ih =>
    cases bytes with
    | nil => cases m <;> rfl
    | cons b bytes =>
      cases m with
      | zero => cases hm
      | succ m =>
        have hle := length_readChar_le b bytes
        rw [List.length_cons] at hn hm
        have hrest : requests n (readChar b bytes).2 = requests m (readChar b bytes).2 :=
          ih (by omega) (by omega)
        exact congrArg _ hrest

theorem decode_nil : decode [] = [] := rfl

theorem decode_cons (b : UInt8) (bytes : List UInt8) :
    decode (b :: bytes) = (readChar b bytes).1 :: decode (readChar b bytes).2 :=
  congrArg _ (requests_eq_of_le (length_readChar_le b bytes) le_rfl)

/-- **Requests give characters one after another just if the bytes are the encoding of these.** -/
theorem decode_eq_map_ok_iff :
    decode bytes = cs.map .ok ↔ bytes = cs.flatMap utf8EncodeChar := by
  induction cs generalizing bytes with
  | nil =>
    cases bytes with
    | nil => simp [decode_nil]
    | cons b bytes => simp [decode_cons]
  | cons c cs ih =>
    rw [List.map_cons, List.flatMap_cons]
    constructor
    · intro h
      cases bytes with
      | nil => cases h
      | cons b bytes =>
        rw [decode_cons] at h
        obtain ⟨hchar, hrest⟩ := List.cons.inj h
        rw [← ih.mp hrest]
        exact readChar_eq_ok_iff.mp (Prod.ext hchar rfl)
    · rintro rfl
      obtain ⟨b, bytes, hb⟩ := List.exists_cons_of_ne_nil (String.utf8EncodeChar_ne_nil (c := c))
      have hread : readChar b (bytes ++ cs.flatMap utf8EncodeChar) =
          (.ok c, cs.flatMap utf8EncodeChar) := readChar_eq_ok_iff.mpr (by rw [hb]; rfl)
      rw [hb, List.cons_append, decode_cons, hread, ih.mpr rfl]

/-- Bytes are valid UTF-8 just if every request gives a character. -/
theorem isValidUTF8_iff {bytes : ByteArray} :
    bytes.IsValidUTF8 ↔ ∃ cs : List Char, decode bytes.data.toList = cs.map .ok := by
  constructor
  · rintro ⟨cs, rfl⟩
    refine ⟨cs, decode_eq_map_ok_iff.mpr ?_⟩
    rw [List.utf8Encode, List.data_toByteArray]
  · rintro ⟨cs, h⟩
    refine ⟨cs, ?_⟩
    rw [List.utf8Encode, ← decode_eq_map_ok_iff.mp h]
    exact ByteArray.ext (by rw [List.data_toByteArray, Array.toArray_toList])

/-- The bytes of a text are decoded to its characters. -/
theorem decode_toUTF8 (text : String) :
    decode text.toUTF8.data.toList = text.toList.map .ok := by
  refine decode_eq_map_ok_iff.mpr ?_
  rw [String.toUTF8, ← String.utf8Encode_toList, List.utf8Encode, List.data_toByteArray]

end ScriptLang.Text.Utf8
