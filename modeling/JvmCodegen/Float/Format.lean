/-
**Binary floating-point formats.**

A format is given by the widths of its two fields.  The pattern of a finite value without its sign
says which of the values of the format it is, in increasing order, so rounding a number to a format
is finding the right unit and counting in it.

Main definitions:

* `FloatFormat`, `FloatFormat.single`, `FloatFormat.double` — the formats;
* `FloatFormat.roundRatio` — the pattern of the value nearest to a ratio of natural numbers, of two
  equally near ones the one with an even pattern.
-/

set_option relaxedAutoImplicit false
set_option autoImplicit false

namespace JvmCodegen

/-- A binary format: a sign bit, then `exponentBits` bits, then `fractionBits` bits. -/
structure FloatFormat where
  exponentBits : Nat
  fractionBits : Nat
deriving DecidableEq

namespace FloatFormat

/-- Single precision. -/
def single : FloatFormat := ⟨8, 23⟩

/-- Double precision. -/
def double : FloatFormat := ⟨11, 52⟩

variable (f : FloatFormat)

/-- The pattern of positive infinity. The greater ones without a sign are not numbers. -/
def infinity : Nat := (1 <<< f.exponentBits - 1) <<< f.fractionBits

/-- The pattern that stands for all that are not numbers. -/
def quietNaN : Nat := f.infinity + 1 <<< (f.fractionBits - 1)

/-- The sign bit. -/
def signBit : Nat := 1 <<< (f.exponentBits + f.fractionBits)

/-- The binary exponent of the smallest positive value, which is the unit of the smallest values. -/
def leastExponent : Int := 2 - (1 <<< (f.exponentBits - 1) : Nat) - (f.fractionBits : Int)

/-- The quotient of `num` and `den`, rounded to the nearest natural number, a half to the even
one. -/
def roundDiv (num den : Nat) : Nat :=
  let q := num / den
  let r := num % den
  if 2 * r < den then q
  else if den < 2 * r then q + 1
  else if q % 2 = 0 then q else q + 1

/-- The ratio of `num` and `den` in units of `2 ^ e`, rounded to the nearest natural number. -/
def inUnits (num den : Nat) (e : Int) : Nat :=
  if 0 ≤ e then roundDiv num (den <<< e.toNat) else roundDiv (num <<< (-e).toNat) den

/-- The binary exponent of a ratio: the greatest `e` with `2 ^ e ≤ num / den`. -/
def ratioExponent (num den : Nat) : Int :=
  let e : Int := (num.log2 : Int) - den.log2
  let reaches := if 0 ≤ e then den <<< e.toNat ≤ num else den ≤ num <<< (-e).toNat
  if reaches then e else e - 1

/-- **The pattern of the value nearest to the ratio of two natural numbers.** A ratio beyond the
greatest finite value is rounded to infinity. -/
def roundRatio (num den : Nat) : Nat :=
  if num = 0 then 0
  else
    let unit := max (ratioExponent num den - f.fractionBits) f.leastExponent
    let steps := (unit - f.leastExponent).toNat
    min (steps <<< f.fractionBits + inUnits num den unit) f.infinity

end FloatFormat

end JvmCodegen
