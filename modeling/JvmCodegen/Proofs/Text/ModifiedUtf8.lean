/-
**Reading modified UTF-8.**

Reading goes in two steps.  Groups of one, two or three bytes are code units of 16 bits; then the two
halves of a surrogate pair are joined to the character beyond U+FFFF that they stand for, and every
other code unit is a character by itself.

Main definitions:

* `ModifiedUtf8.readUnits?` — the code units of some bytes;
* `ModifiedUtf8.joinUnits?` — the characters of some code units;
* `ModifiedUtf8.decode?` — the text of some bytes.

Main results:

* `ModifiedUtf8.readUnits?_encodeChar`, `ModifiedUtf8.joinUnits?_charUnits` — one character;
* `ModifiedUtf8.decode?_encode` — **a text that was written is read**;
* `ModifiedUtf8.isPermitted_of_mem_encodeChar` — which bytes are never written;
* `ModifiedUtf8.encode_is_faithful` — **no two texts are written alike**, and the rules of the format are
  kept.
-/

import Mathlib.Logic.Function.Defs
import JvmCodegen.Text.ModifiedUtf8

set_option relaxedAutoImplicit false
set_option autoImplicit false

namespace JvmCodegen.ModifiedUtf8

/-! ### Reading -/

/-- The six bits that a byte contributes that goes on with a group. -/
def tailBits? (b : UInt8) : Option Nat :=
  if 0x80 ≤ b.toNat ∧ b.toNat < 0xC0 then some (b.toNat - 0x80) else none

/-- The code units of some bytes. A group begins with a byte that tells its length. -/
def readUnits? : List UInt8 → Option (List Nat)
  | [] => some []
  | a :: rest =>
      if a = 0 then none
      else if a.toNat < 0x80 then (readUnits? rest).map (a.toNat :: ·)
      else if a.toNat < 0xC0 then none
      else
        match rest with
        | [] => none
        | b :: rest =>
            if a.toNat < 0xE0 then
              (tailBits? b).bind fun low =>
                (readUnits? rest).map (((a.toNat - 0xC0) * 64 + low) :: ·)
            else
              match rest with
              | [] => none
              | c :: rest =>
                  if a.toNat < 0xF0 then
                    (tailBits? b).bind fun middle => (tailBits? c).bind fun low =>
                      (readUnits? rest).map (((a.toNat - 0xE0) * 4096 + middle * 64 + low) :: ·)
                  else none

/-- The code unit is the first half of a surrogate pair. -/
def IsHighHalf (unit : Nat) : Prop := 0xD800 ≤ unit ∧ unit < 0xDC00

/-- The code unit is the second half of a surrogate pair. -/
def IsLowHalf (unit : Nat) : Prop := 0xDC00 ≤ unit ∧ unit < 0xE000

instance (unit : Nat) : Decidable (IsHighHalf unit) := inferInstanceAs (Decidable (_ ∧ _))

instance (unit : Nat) : Decidable (IsLowHalf unit) := inferInstanceAs (Decidable (_ ∧ _))

/-- The characters of some code units. A half of a surrogate pair has to come with the other half. -/
def joinUnits? : List Nat → Option (List Char)
  | [] => some []
  | unit :: rest =>
      if IsHighHalf unit then
        match rest with
        | [] => none
        | low :: rest =>
            if IsLowHalf low then
              (joinUnits? rest).map
                (Char.ofNat (0x10000 + (unit - 0xD800) * 1024 + (low - 0xDC00)) :: ·)
            else none
      else if IsLowHalf unit then none
      else (joinUnits? rest).map (Char.ofNat unit :: ·)

/-- The text of some bytes. -/
def decode? (bytes : List UInt8) : Option String :=
  ((readUnits? bytes).bind joinUnits?).map String.ofList

/-! ### Groups -/

theorem toNat_tailByte (n : Nat) : (tailByte n).toNat = 0x80 + n % 64 := by
  rw [tailByte, UInt8.toNat_ofNat']
  omega

theorem tailBits?_tailByte (n : Nat) : tailBits? (tailByte n) = some (n % 64) := by
  have hvalue := toNat_tailByte n
  have hrange : 0x80 ≤ (tailByte n).toNat ∧ (tailByte n).toNat < 0xC0 := by omega
  rw [tailBits?, if_pos hrange, hvalue, Nat.add_sub_cancel_left]

theorem readUnits?_oneByte {code : Nat} (hpos : 0 < code) (hlt : code < 0x80) (rest : List UInt8) :
    readUnits? (UInt8.ofNat code :: rest) = (readUnits? rest).map (code :: ·) := by
  have hvalue : (UInt8.ofNat code).toNat = code := by
    rw [UInt8.toNat_ofNat']
    omega
  have hne : UInt8.ofNat code ≠ 0 := by
    intro h
    rw [h] at hvalue
    exact Nat.ne_of_lt hpos hvalue
  rw [readUnits?.eq_def]
  dsimp only
  rw [if_neg hne, hvalue, if_pos hlt]

theorem readUnits?_twoBytes {code : Nat} (hlt : code < 0x800) (rest : List UInt8) :
    readUnits? (twoBytes code ++ rest) = (readUnits? rest).map (code :: ·) := by
  have hvalue : (UInt8.ofNat (0xC0 + code / 64)).toNat = 0xC0 + code / 64 := by
    rw [UInt8.toNat_ofNat']
    omega
  have hne : UInt8.ofNat (0xC0 + code / 64) ≠ 0 := by
    intro h
    rw [h] at hvalue
    have : (0 : UInt8).toNat = 0 := rfl
    omega
  have hcode : (0xC0 + code / 64 - 0xC0) * 64 + code % 64 = code := by omega
  rw [twoBytes, List.cons_append, List.cons_append, List.nil_append, readUnits?.eq_def]
  dsimp only
  rw [if_neg hne, hvalue, if_neg (by omega), if_neg (by omega), if_pos (by omega),
    tailBits?_tailByte, Option.bind_some, hcode]

theorem readUnits?_threeBytes {unit : Nat} (hlt : unit < 0x10000) (rest : List UInt8) :
    readUnits? (threeBytes unit ++ rest) = (readUnits? rest).map (unit :: ·) := by
  have hvalue : (UInt8.ofNat (0xE0 + unit / 4096)).toNat = 0xE0 + unit / 4096 := by
    rw [UInt8.toNat_ofNat']
    omega
  have hne : UInt8.ofNat (0xE0 + unit / 4096) ≠ 0 := by
    intro h
    rw [h] at hvalue
    have : (0 : UInt8).toNat = 0 := rfl
    omega
  have hunit : (0xE0 + unit / 4096 - 0xE0) * 4096 + unit / 64 % 64 * 64 + unit % 64 = unit := by omega
  rw [threeBytes, List.cons_append, List.cons_append, List.cons_append, List.nil_append,
    readUnits?.eq_def]
  dsimp only
  rw [if_neg hne, hvalue, if_neg (by omega), if_neg (by omega), if_neg (by omega), if_pos (by omega),
    tailBits?_tailByte, tailBits?_tailByte, Option.bind_some, Option.bind_some,
    hunit]

/-! ### Characters -/

/-- The code units of a character. -/
def charUnits (c : Char) : List Nat :=
  if c.toNat < 0x10000 then [c.toNat]
  else [0xD800 + (c.toNat - 0x10000) / 1024, 0xDC00 + (c.toNat - 0x10000) % 1024]

/-- A code of a character is no half of a surrogate pair, and is not too large. -/
theorem toNat_bounds (c : Char) :
    c.toNat < 0xD800 ∨ (0xDFFF < c.toNat ∧ c.toNat < 0x110000) := c.valid

/-- The bytes of a character are read as its code units. -/
theorem readUnits?_encodeChar (c : Char) (rest : List UInt8) :
    readUnits? (encodeChar c ++ rest) = (readUnits? rest).map (charUnits c ++ ·) := by
  have hbounds := toNat_bounds c
  unfold encodeChar charUnits
  dsimp only
  by_cases hzero : c.toNat = 0
  · -- two bytes for the character 0, so that no byte is 0
    rw [if_pos hzero, if_pos (by omega), hzero]
    exact readUnits?_twoBytes (by omega) rest
  rw [if_neg hzero]
  by_cases hone : c.toNat < 0x80
  · rw [if_pos hone, if_pos (by omega)]
    exact readUnits?_oneByte (by omega) hone rest
  rw [if_neg hone]
  by_cases htwo : c.toNat < 0x800
  · rw [if_pos htwo, if_pos (by omega)]
    exact readUnits?_twoBytes htwo rest
  rw [if_neg htwo]
  by_cases hthree : c.toNat < 0x10000
  · rw [if_pos hthree, if_pos hthree]
    exact readUnits?_threeBytes hthree rest
  · rw [if_neg hthree, if_neg hthree, List.append_assoc, readUnits?_threeBytes (by omega),
      readUnits?_threeBytes (by omega), Option.map_map]
    rfl

/-- The code units of a character are joined to it. -/
theorem joinUnits?_charUnits (c : Char) (rest : List Nat) :
    joinUnits? (charUnits c ++ rest) = (joinUnits? rest).map (c :: ·) := by
  have hbounds := toNat_bounds c
  unfold charUnits
  split
  case isTrue hsmall =>
      -- no character stands in the range of the halves
      have hhigh : ¬ IsHighHalf c.toNat := by
        unfold IsHighHalf
        omega
      have hlow : ¬ IsLowHalf c.toNat := by
        unfold IsLowHalf
        omega
      rw [List.singleton_append, joinUnits?.eq_def]
      dsimp only
      rw [if_neg hhigh, if_neg hlow, Char.ofNat_toNat]
  case isFalse hlarge =>
      -- quotient and remainder by 1024 go into the two halves
      have hhigh : IsHighHalf (0xD800 + (c.toNat - 0x10000) / 1024) := by
        unfold IsHighHalf
        omega
      have hlow : IsLowHalf (0xDC00 + (c.toNat - 0x10000) % 1024) := by
        unfold IsLowHalf
        omega
      have hjoin : 0x10000 + (0xD800 + (c.toNat - 0x10000) / 1024 - 0xD800) * 1024 +
          (0xDC00 + (c.toNat - 0x10000) % 1024 - 0xDC00) = c.toNat := by
        omega
      rw [List.cons_append, List.singleton_append, joinUnits?.eq_def]
      dsimp only
      rw [if_pos hhigh, if_pos hlow, hjoin, Char.ofNat_toNat]

/-! ### Texts -/

/-- The code units of the bytes of some characters. -/
theorem readUnits?_flatMap_encodeChar (cs : List Char) :
    readUnits? (cs.flatMap encodeChar) = some (cs.flatMap charUnits) := by
  induction cs with
  | nil => rfl
  | cons c cs ih =>
      rw [List.flatMap_cons, readUnits?_encodeChar, ih, Option.map_some, List.flatMap_cons]

/-- The characters of their code units. -/
theorem joinUnits?_flatMap_charUnits (cs : List Char) :
    joinUnits? (cs.flatMap charUnits) = some cs := by
  induction cs with
  | nil => rfl
  | cons c cs ih => rw [List.flatMap_cons, joinUnits?_charUnits, ih, Option.map_some]

/-- **A text that was written is read.** -/
theorem decode?_encode (s : String) : decode? (encode s) = some s := by
  rw [decode?, encode, readUnits?_flatMap_encodeChar, Option.bind_some,
    joinUnits?_flatMap_charUnits, Option.map_some, String.ofList_toList]

/-! ### Bytes that are never written -/

/-- The byte is not zero, and it begins no group of more than three bytes. -/
def IsPermitted (b : UInt8) : Prop := b ≠ 0 ∧ b.toNat < 0xF0

theorem isPermitted_of_toNat {b : UInt8} {n : Nat} (h : b.toNat = n) (hpos : 0 < n) (hlt : n < 0xF0) :
    IsPermitted b := by
  refine ⟨fun hzero => ?_, by omega⟩
  simp [hzero] at h
  omega

theorem isPermitted_tailByte (n : Nat) : IsPermitted (tailByte n) :=
  isPermitted_of_toNat (toNat_tailByte n) (by omega) (by omega)

theorem isPermitted_of_mem_twoBytes {code : Nat} (hlt : code < 0x800) {b : UInt8}
    (h : b ∈ twoBytes code) : IsPermitted b := by
  simp only [twoBytes, List.mem_cons, List.not_mem_nil, or_false] at h
  rcases h with rfl | rfl
  · exact isPermitted_of_toNat UInt8.toNat_ofNat' (by omega) (by omega)
  · exact isPermitted_tailByte code

theorem isPermitted_of_mem_threeBytes {unit : Nat} (hlt : unit < 0x10000) {b : UInt8}
    (h : b ∈ threeBytes unit) : IsPermitted b := by
  simp only [threeBytes, List.mem_cons, List.not_mem_nil, or_false] at h
  rcases h with rfl | rfl | rfl
  · exact isPermitted_of_toNat UInt8.toNat_ofNat' (by omega) (by omega)
  · exact isPermitted_tailByte (unit / 64)
  · exact isPermitted_tailByte unit

/-- Both zero and the bytes from `0xF0` on are never written. -/
theorem isPermitted_of_mem_encodeChar {c : Char} {b : UInt8} (h : b ∈ encodeChar c) :
    IsPermitted b := by
  have hbounds := toNat_bounds c
  unfold encodeChar at h
  dsimp only at h
  by_cases hzero : c.toNat = 0
  · rw [if_pos hzero] at h
    exact isPermitted_of_mem_twoBytes (by omega) h
  rw [if_neg hzero] at h
  by_cases hone : c.toNat < 0x80
  · rw [if_pos hone, List.mem_singleton] at h
    rw [h]
    exact isPermitted_of_toNat UInt8.toNat_ofNat' (by omega) (by omega)
  rw [if_neg hone] at h
  by_cases htwo : c.toNat < 0x800
  · rw [if_pos htwo] at h
    exact isPermitted_of_mem_twoBytes htwo h
  rw [if_neg htwo] at h
  by_cases hthree : c.toNat < 0x10000
  · rw [if_pos hthree] at h
    exact isPermitted_of_mem_threeBytes hthree h
  · -- each half of the pair is a code unit of 16 bits
    rw [if_neg hthree] at h
    rcases List.mem_append.1 h with h | h
    · exact isPermitted_of_mem_threeBytes (by omega) h
    · exact isPermitted_of_mem_threeBytes (by omega) h

/-- **Modified UTF-8 is faithful.** No two texts are written alike. The bytes of a text are read as that
text, groups of one, two or three of them as code units and surrogate pairs as the character that they
stand for; no byte is zero, and none is in the range from `0xF0` to `0xFF`; and their number is the one that
is announced. -/
theorem encode_is_faithful :
    Function.Injective encode ∧
    ∀ s : String, decode? (encode s) = some s ∧
      (∀ b ∈ encode s, b ≠ 0 ∧ b.toNat < 0xF0) ∧
      length s = (encode s).length := by
  constructor
  · intro s t h
    have hread := congrArg decode? h
    rw [decode?_encode, decode?_encode] at hread
    exact Option.some.inj hread
  · intro s
    refine ⟨decode?_encode s, fun b hb => ?_, (length_encode s).symm⟩
    obtain ⟨c, _, hc⟩ := List.mem_flatMap.1 hb
    exact isPermitted_of_mem_encodeChar hc

/-- A character of each length: two bytes for zero, then groups of two and of three, and a pair. -/
example : encode "\x00é€😀" =
    [0xC0, 0x80, 0xC3, 0xA9, 0xE2, 0x82, 0xAC, 0xED, 0xA0, 0xBD, 0xED, 0xB8, 0x80] := by cbv

end JvmCodegen.ModifiedUtf8
