/-
**Reading decimal numbers.**

A decimal number is a run of digits with at most one point among or around them, and perhaps a
power of ten behind an `e`; infinity and the value that is not a number are read by name, in either
case of letters.  All of them may have a sign.  The result is the nearest value of a format.

Main definitions:

* `Decimal`, `Decimal.read?` — unsigned decimal numbers;
* `FloatFormat.ofDecimal` — the nearest value of a format;
* `FloatFormat.read?` — the pattern that a text stands for.
-/

import JvmCodegen.Float.Format
import JvmCodegen.Text.Numeral

set_option relaxedAutoImplicit false
set_option autoImplicit false

namespace JvmCodegen

/-! ### Decimal numbers -/

/-- The decimal number `digits * 10 ^ exponent`, with the digits as they were written. -/
structure Decimal where
  digits : List Char
  exponent : Int

namespace Decimal

open Numeral

/-- The size of an exponent. Once it has reached 65536, more digits do not change it. -/
def exponentValue (digits : List Char) : Nat :=
  digits.foldl (fun n c => if n < 65536 then 10 * n + (c.toNat - '0'.toNat) else n) 0

/-- The power of ten that a whole text stands for: nothing, or an `e` and a number. -/
def readExponent? : List Char → Option Int
  | [] => some 0
  | c :: cs =>
      if c = 'e' || c = 'E' then
        let (negative, digits) := splitSign cs
        if digits ≠ [] && digits.all isDigit then
          some (if negative then -(exponentValue digits : Int) else exponentValue digits)
        else none
      else none

/-- The digits behind the point, if there is a point, and what follows them. -/
def splitFraction : List Char → List Char × List Char
  | '.' :: cs => (cs.takeWhile isDigit, cs.dropWhile isDigit)
  | cs => ([], cs)

/-- The decimal number that a whole text stands for. There is at least one digit. -/
def read? (cs : List Char) : Option Decimal :=
  let whole := cs.takeWhile isDigit
  let (fraction, rest) := splitFraction (cs.dropWhile isDigit)
  if whole = [] && fraction = [] then none
  else (readExponent? rest).map fun e => ⟨whole ++ fraction, e - fraction.length⟩

end Decimal

/-! ### Patterns -/

namespace FloatFormat

/-- A power of ten beyond which every positive number is rounded to infinity, and below whose
inverse every number is rounded to zero, in both formats. -/
def farExponent : Int := 400

/-- **The pattern of the value nearest to a decimal number.** -/
def ofDecimal (f : FloatFormat) (d : Decimal) : Nat :=
  let digits := d.digits.dropWhile (· = '0')
  let place := d.exponent + digits.length
  if digits = [] then 0
  else if farExponent < place then f.infinity
  else if place < -farExponent then 0
  else if 0 ≤ d.exponent then f.roundRatio (Numeral.value digits * Nat.pow 10 d.exponent.toNat) 1
  else f.roundRatio (Numeral.value digits) (Nat.pow 10 (-d.exponent).toNat)

/-- The pattern of an unsigned number. -/
def readUnsigned? (f : FloatFormat) (cs : List Char) : Option Nat :=
  match Decimal.read? cs with
  | some d => some (f.ofDecimal d)
  | none =>
      let word := String.ofList (cs.map Char.toLower)
      if word = "inf" || word = "infinity" then some f.infinity
      else if word = "nan" then some f.quietNaN
      else none

/-- **The pattern that a text stands for**, if it is a number. -/
def read? (f : FloatFormat) (s : String) : Option Nat :=
  let (negative, cs) := Numeral.splitSign s.toList
  (f.readUnsigned? cs).map fun bits => if negative then f.signBit + bits else bits

end FloatFormat

end JvmCodegen
