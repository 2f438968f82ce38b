/-
**Decimal numerals.**

A numeral is a run of decimal digits, with a sign in front where there may be one.  Leading zeros do
not matter, and there is no limit on the number of digits; a limit is set on the value.

Main definitions:

* `Numeral.isDigit`, `Numeral.value` — digits, and the number that a run of them stands for;
* `Numeral.splitSign` — the sign of a text and the rest of it;
* `Numeral.integer?`, `Numeral.integerBetween?` — the integer that a whole text stands for.
-/

set_option relaxedAutoImplicit false
set_option autoImplicit false

namespace JvmCodegen.Numeral

/-- The character is one of the ten digits. -/
def isDigit (c : Char) : Bool := '0' ≤ c && c ≤ '9'

/-- The number that a run of digits stands for. -/
def value (digits : List Char) : Nat :=
  digits.foldl (fun n c => 10 * n + (c.toNat - '0'.toNat)) 0

/-- A sign at the front, and whether it is a minus. -/
def splitSign : List Char → Bool × List Char
  | '-' :: cs => (true, cs)
  | '+' :: cs => (false, cs)
  | cs => (false, cs)

/-- The integer that a whole text stands for: at least one digit, perhaps behind a sign. -/
def integer? (s : String) : Option Int :=
  let (negative, digits) := splitSign s.toList
  if digits ≠ [] && digits.all isDigit then
    some (if negative then -(value digits : Int) else value digits)
  else none

/-- The integer that a whole text stands for, if it lies between two bounds. -/
def integerBetween? (least greatest : Int) (s : String) : Option Int :=
  (integer? s).filter fun n => least ≤ n && n ≤ greatest

theorem integerBetween?_bounds {least greatest n : Int} {s : String}
    (h : integerBetween? least greatest s = some n) : least ≤ n ∧ n ≤ greatest := by
  simpa using (Option.filter_eq_some_iff.1 h).2

end JvmCodegen.Numeral
