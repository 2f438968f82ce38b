/-
**Reading big-endian bytes.**

A number that was written in a fixed number of bytes is read back from them, whatever follows.

Main definitions:

* `Bytes.ofBigEndian` — the number that some bytes stand for;
* `Bytes.readNat?`, `Bytes.readU8?`, `Bytes.readU16?`, `Bytes.readU32?` — reading a number of a fixed
  width, with the bytes behind it.

Main results: `Bytes.readNat?_bigEndian` and `Bytes.readU16?_u16` — **what was written is read**.
-/

import Mathlib.Algebra.Group.Nat.Defs
import JvmCodegen.Bytes

set_option relaxedAutoImplicit false
set_option autoImplicit false

namespace JvmCodegen.Bytes

/-- The number that some bytes stand for, the most significant byte first. -/
def ofBigEndian (bytes : List UInt8) : Nat := bytes.foldl (fun n b => n * 256 + b.toNat) 0

theorem ofBigEndian_append_singleton (bytes : List UInt8) (b : UInt8) :
    ofBigEndian (bytes ++ [b]) = ofBigEndian bytes * 256 + b.toNat := by
  rw [ofBigEndian, List.foldl_append]
  rfl

/-- The low bytes of a small number are all of it. -/
theorem ofBigEndian_bigEndian {width n : Nat} (h : n < 256 ^ width) :
    ofBigEndian (bigEndian width n) = n := by
  induction width generalizing n with
  | zero =>
      rw [Nat.pow_zero] at h
      rw [Nat.lt_one_iff.1 h]
      rfl
  | succ width ih =>
      have hdiv : n / 256 < 256 ^ width := by
        rw [Nat.pow_succ] at h
        exact Nat.div_lt_of_lt_mul (Nat.mul_comm _ _ ▸ h)
      rw [bigEndian_succ, ofBigEndian_append_singleton, ih hdiv, UInt8.toNat_ofNat']
      omega

/-- The number in the first bytes, and what comes behind them. -/
def readNat? (width : Nat) (bytes : List UInt8) : Option (Nat × List UInt8) :=
  if width ≤ bytes.length then some (ofBigEndian (bytes.take width), bytes.drop width) else none

/-- **What was written is read.** -/
theorem readNat?_bigEndian {width n : Nat} (h : n < 256 ^ width) (rest : List UInt8) :
    readNat? width (bigEndian width n ++ rest) = some (n, rest) := by
  have hlength : (bigEndian width n).length = width := length_bigEndian width n
  have hle : width ≤ (bigEndian width n ++ rest).length := by
    rw [List.length_append, hlength]
    exact Nat.le_add_right width rest.length
  rw [readNat?, if_pos hle, List.take_left' hlength, List.drop_left' hlength,
    ofBigEndian_bigEndian h]

/-- A byte, and what comes behind it. -/
def readU8? : List UInt8 → Option (UInt8 × List UInt8)
  | [] => none
  | b :: rest => some (b, rest)

/-- A number of two bytes, and what comes behind it. -/
def readU16? (bytes : List UInt8) : Option (UInt16 × List UInt8) :=
  (readNat? 2 bytes).map fun (n, rest) => (UInt16.ofNat n, rest)

/-- A number of four bytes, and what comes behind it. -/
def readU32? (bytes : List UInt8) : Option (UInt32 × List UInt8) :=
  (readNat? 4 bytes).map fun (n, rest) => (UInt32.ofNat n, rest)

@[simp] theorem readU16?_u16 (n : UInt16) (rest : List UInt8) :
    readU16? (u16 n ++ rest) = some (n, rest) := by
  have hlt : n.toNat < 256 ^ 2 := n.toNat_lt
  simp only [readU16?, u16, readNat?_bigEndian hlt, Option.map_some, UInt16.ofNat_toNat]

@[simp] theorem readU32?_u32 (n : UInt32) (rest : List UInt8) :
    readU32? (u32 n ++ rest) = some (n, rest) := by
  have hlt : n.toNat < 256 ^ 4 := n.toNat_lt
  simp only [readU32?, u32, readNat?_bigEndian hlt, Option.map_some, UInt32.ofNat_toNat]

end JvmCodegen.Bytes
