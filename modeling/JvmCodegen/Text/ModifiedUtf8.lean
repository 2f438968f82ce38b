/-
**Modified UTF-8.**

Class files hold text in a variant of UTF-8 that never writes a zero byte and never writes a group
of more than three bytes: the character U+0000 takes two bytes, and a character beyond U+FFFF is
written as the two halves of its surrogate pair, each as a group of three.

Main definitions:

* `ModifiedUtf8.encodeChar`, `ModifiedUtf8.encode` — the bytes of a character, and of a text;
* `ModifiedUtf8.charLength`, `ModifiedUtf8.length` — their number, without building them.

Main results: `ModifiedUtf8.length_encodeChar` and `ModifiedUtf8.length_encode` — the number is
exact.
-/

set_option relaxedAutoImplicit false
set_option autoImplicit false

namespace JvmCodegen.ModifiedUtf8

/-- A byte that goes on with a group: it carries the low six bits of `n`. -/
def tailByte (n : Nat) : UInt8 := UInt8.ofNat (0x80 + n % 64)

/-- The group of two bytes for a code below `0x800`. -/
def twoBytes (code : Nat) : List UInt8 := [UInt8.ofNat (0xC0 + code / 64), tailByte code]

/-- The group of three bytes for a code unit of 16 bits. -/
def threeBytes (unit : Nat) : List UInt8 :=
  [UInt8.ofNat (0xE0 + unit / 4096), tailByte (unit / 64), tailByte unit]

/-- The bytes of a character. -/
def encodeChar (c : Char) : List UInt8 :=
  let code := c.toNat
  if code = 0 then twoBytes 0
  else if code < 0x80 then [UInt8.ofNat code]
  else if code < 0x800 then twoBytes code
  else if code < 0x10000 then threeBytes code
  else
    let offset := code - 0x10000
    threeBytes (0xD800 + offset / 1024) ++ threeBytes (0xDC00 + offset % 1024)

/-- The bytes of a text. -/
def encode (s : String) : List UInt8 := s.toList.flatMap encodeChar

/-- The number of bytes of a character. -/
def charLength (c : Char) : Nat :=
  let code := c.toNat
  if code = 0 then 2
  else if code < 0x80 then 1
  else if code < 0x800 then 2
  else if code < 0x10000 then 3
  else 6

/-- The number of bytes of a text. -/
def length (s : String) : Nat := (s.toList.map charLength).foldr (· + ·) 0

theorem length_encodeChar (c : Char) : (encodeChar c).length = charLength c := by
  simp only [encodeChar, charLength]
  repeat' split
  all_goals simp [twoBytes, threeBytes]

/-- The announced length of a text is the number of its bytes. -/
theorem length_encode (s : String) : (encode s).length = length s := by
  simp only [encode, length, List.length_flatMap, List.sum_eq_foldr]
  congr 1
  exact List.map_congr_left fun c _ => length_encodeChar c

end JvmCodegen.ModifiedUtf8
