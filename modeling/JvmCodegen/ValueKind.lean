/-
**Kinds of values.**

The virtual machine itself tells five kinds of values apart: the small integer types all live on
the stack as `int`, and every reference is alike.  The kind decides which instruction loads a
value or returns it.

Main definitions: `ValueKind`, `ValueKind.ofType`, `ValueKind.slots`.
-/

import JvmCodegen.FieldType

set_option relaxedAutoImplicit false
set_option autoImplicit false

namespace JvmCodegen

/-- The kinds of values on the operand stack and among the local variables. -/
inductive ValueKind
  | int
  | long
  | float
  | double
  | reference
deriving DecidableEq, Hashable

namespace ValueKind

/-- The kind of the values of a type. -/
def ofType {C : Type} : FieldType C → ValueKind
  | .primitive .long => long
  | .primitive .float => float
  | .primitive .double => double
  | .primitive _ => int
  | .reference _ => reference

/-- The number of slots of a value. -/
def slots : ValueKind → Nat
  | long | double => 2
  | _ => 1

@[simp] theorem slots_ofType {C : Type} (t : FieldType C) : (ofType t).slots = t.slots := by
  cases t with
  | primitive p => cases p <;> rfl
  | reference r => rfl

end ValueKind

end JvmCodegen
