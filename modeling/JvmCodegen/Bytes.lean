/-
**Big-endian bytes.**

Everything in a class file is big-endian.  Numbers are written with their most significant byte
first, and most sequences are written as a 16-bit count followed by their elements, so a sequence
that is too long for such a count cannot be written at all.

Main definitions:

* `Bytes.bigEndian` — the low bytes of a number;
* `Bytes.u8` … `Bytes.i64` — the bytes of the fixed-width integers;
* `EncodingError` — why something has no written form;
* `Bytes.counted`, `Bytes.countedM` — a counted sequence, of elements that may have no written form
  themselves in the second case.
-/

set_option relaxedAutoImplicit false
set_option autoImplicit false

namespace JvmCodegen

/-- Why something has no written form. -/
inductive EncodingError
  /-- A sequence longer than its 16-bit count can say. -/
  | tooManyElements (count : Nat)
  /-- A text longer than its 16-bit length can say. -/
  | textTooLong (bytes : Nat)
deriving DecidableEq

/-- The wording of an encoding error. -/
def EncodingError.message : EncodingError → String
  | .tooManyElements count => count.repr ++ " elements do not fit in a u16 count"
  | .textTooLong bytes => "utf8 constant of " ++ bytes.repr ++ " bytes"

namespace Bytes

/-! ### Integers -/

/-- The `width` low bytes of a number, the most significant one first. -/
def bigEndian : Nat → Nat → List UInt8
  | 0, _ => []
  | width + 1, n => bigEndian width (n / 256) ++ [UInt8.ofNat n]

@[simp] theorem bigEndian_zero (n : Nat) : bigEndian 0 n = [] := rfl

theorem bigEndian_succ (width n : Nat) :
    bigEndian (width + 1) n = bigEndian width (n / 256) ++ [UInt8.ofNat n] := rfl

@[simp] theorem length_bigEndian (width n : Nat) : (bigEndian width n).length = width := by
  induction width generalizing n with
  | zero => rfl
  | succ width ih => simp [bigEndian_succ, ih]

def u8 (n : UInt8) : List UInt8 := [n]

def u16 (n : UInt16) : List UInt8 := bigEndian 2 n.toNat

def u32 (n : UInt32) : List UInt8 := bigEndian 4 n.toNat

def u64 (n : UInt64) : List UInt8 := bigEndian 8 n.toNat

def i8 (n : Int8) : List UInt8 := u8 n.toUInt8

def i16 (n : Int16) : List UInt8 := u16 n.toUInt16

def i32 (n : Int32) : List UInt8 := u32 n.toUInt32

def i64 (n : Int64) : List UInt8 := u64 n.toUInt64

/-! ### Counted sequences -/

variable {α : Type}

/-- The 16-bit count of a sequence, if it has one. -/
def count (n : Nat) : Except EncodingError (List UInt8) :=
  if n ≤ 65535 then .ok (u16 (UInt16.ofNat n)) else .error (.tooManyElements n)

/-- A sequence: its count, then its elements. -/
def counted (encode : α → List UInt8) (xs : List α) : Except EncodingError (List UInt8) :=
  match count xs.length with
  | .error e => .error e
  | .ok n => .ok (n ++ xs.flatMap encode)

/-- The elements of a sequence in order, or why the first bad one has no written form. `acc` holds
the written forms so far, the last one first. -/
def encodeEach (encode : α → Except EncodingError (List UInt8)) (acc : List (List UInt8)) :
    List α → Except EncodingError (List UInt8)
  | [] => .ok acc.reverse.flatten
  | x :: xs =>
      match encode x with
      | .error e => .error e
      | .ok bytes => encodeEach encode (bytes :: acc) xs

/-- A sequence of elements that may have no written form: the count is judged first. -/
def countedM (encode : α → Except EncodingError (List UInt8)) (xs : List α) :
    Except EncodingError (List UInt8) :=
  match count xs.length with
  | .error e => .error e
  | .ok n =>
      match encodeEach encode [] xs with
      | .error e => .error e
      | .ok body => .ok (n ++ body)

end Bytes

end JvmCodegen
