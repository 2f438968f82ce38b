/-
**The shortest decimal that reads back.**

Every value of a format stands for an interval of numbers that are rounded to it.  The shortest
decimal in that interval says the value without any digit too many.  It is found on ever finer
decimal grids: the first grid with a point in the interval has one next to the value, on one side
or the other; of two such points the nearer is taken, and the greater where both are equally near.

Main definitions:

* `FloatFormat.Interval`, `FloatFormat.interval` — the interval of a value;
* `FloatFormat.shortest` — the digits and the power of ten of the shortest decimal;
* `FloatNotation`, `FloatFormat.render` — the text of a value.
-/

import JvmCodegen.Float.Format

set_option relaxedAutoImplicit false
set_option autoImplicit false

namespace JvmCodegen

namespace FloatFormat

/-- The interval of the numbers that are rounded to a value. All three numbers are in units of
`1 / scale`. -/
structure Interval where
  low : Nat
  value : Nat
  high : Nat
  scale : Nat
  /-- Both ends belong to the interval. -/
  closed : Bool

/-- The interval of a positive finite value. Below a power of two the next value is only half as far
away. -/
def interval (f : FloatFormat) (bits : Nat) : Interval :=
  let fraction := bits % 1 <<< f.fractionBits
  let field := bits >>> f.fractionBits
  let m := if field = 0 then fraction else fraction + 1 <<< f.fractionBits
  let low := if fraction = 0 && field ≠ 0 then 4 * m - 1 else 4 * m - 2
  let e : Int := f.leastExponent + (max field 1 - 1 : Nat) - 2
  let up := e.toNat
  ⟨low <<< up, (4 * m) <<< up, (4 * m + 2) <<< up, 1 <<< (-e).toNat, m % 2 == 0⟩

/-- The point next to the value on the first grid, from the grid of `10 ^ place` on, that has a
point in the interval. Each step makes the grid ten times finer; `fuel` bounds the steps. -/
def shortestFrom : Nat → Interval → Int → Nat × Int
  | 0, i, place => (i.value / i.scale, place)
  | fuel + 1, i, place =>
      let n := i.value / i.scale
      let down := n * i.scale
      let up := (n + 1) * i.scale
      let downInside := if i.closed then i.low ≤ down else i.low < down
      let upInside := if i.closed then up ≤ i.high else up < i.high
      if downInside ∧ (¬ upInside ∨ i.value - down < up - i.value) then (n, place)
      else if upInside then (n + 1, place)
      else
        let finer := { i with low := 10 * i.low, value := 10 * i.value, high := 10 * i.high }
        shortestFrom fuel finer (place - 1)

/-- **The shortest decimal in the interval of a positive finite value**, as its digits and the power
of ten that they are multiplied with. -/
def shortest (f : FloatFormat) (bits : Nat) : Nat × Int :=
  let i := f.interval bits
  let start := (i.high / i.scale).repr.length
  let steps := start + 1 <<< f.exponentBits + f.fractionBits
  shortestFrom steps { i with scale := i.scale * Nat.pow 10 start } start

end FloatFormat

/-! ### Text -/

/-- How numbers are written. -/
structure FloatNotation where
  /-- Numbers from this power of ten on have an exponent. -/
  fromExponent : Int
  /-- Numbers below this power of ten have an exponent. -/
  belowExponent : Int
  /-- What stands before the exponent. -/
  exponentMark : String
  /-- What whole numbers without an exponent end with. -/
  wholeMark : String
  infinityText : String
  notANumberText : String

/-- The notation of reports: an exponent from `1e16` on and below `1e-4`, and a point in every other
number. -/
def FloatNotation.report : FloatNotation := ⟨16, -4, "e", ".0", "inf", "NaN"⟩

namespace FloatNotation

/-- The text of digits times a power of ten, with an exponent. -/
def scientific (style : FloatNotation) (digits : List Char) (place : Int) : String :=
  let exponent := place + digits.length - 1
  let fraction := digits.drop 1
  String.ofList (digits.take 1) ++ (if fraction = [] then "" else "." ++ String.ofList fraction)
    ++ style.exponentMark ++ exponent.repr

/-- The text of digits times a power of ten, without an exponent. -/
def positional (style : FloatNotation) (digits : List Char) (place : Int) : String :=
  if 0 ≤ place then
    String.ofList (digits ++ List.replicate place.toNat '0') ++ style.wholeMark
  else
    let places := (-place).toNat
    let padded := List.replicate (places + 1 - digits.length) '0' ++ digits
    let whole := padded.length - places
    String.ofList (padded.take whole) ++ "." ++ String.ofList (padded.drop whole)

/-- The text of digits times a power of ten. -/
def render (style : FloatNotation) (digits : List Char) (place : Int) : String :=
  let exponent := place + digits.length - 1
  if style.fromExponent ≤ exponent || exponent < style.belowExponent then
    style.scientific digits place
  else style.positional digits place

end FloatNotation

/-- **The text of a value of a format.** Values that are not numbers have no sign. -/
def FloatFormat.render (f : FloatFormat) (style : FloatNotation) (bits : Nat) : String :=
  let magnitude := bits % f.signBit
  let sign := if bits / f.signBit % 2 = 1 then "-" else ""
  if f.infinity < magnitude then style.notANumberText
  else if magnitude = f.infinity then sign ++ style.infinityText
  else if magnitude = 0 then sign ++ "0" ++ style.wholeMark
  else
    let (digits, place) := f.shortest magnitude
    sign ++ style.render (Nat.toDigits 10 digits) place

end JvmCodegen
