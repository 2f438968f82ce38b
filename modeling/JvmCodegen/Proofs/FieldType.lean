/-
**The structure of types.**

A reference type keeps the number of dimensions of an array beside its element type.  Seen as a
tree, it is a class, or the type of the arrays over another type: `RefType.array` builds every array
type, and from each type in one way.  What is proved of reference types goes by induction on that
tree.

Main definitions:

* `RefType.class?`, `FieldType.class?` — the class that a type mentions;
* `RefType.dimensions`, `FieldType.dimensions` — the number of dimensions of a type;
* `FieldType.IsElement` — a type that is not an array.

Main results:

* `RefType.array_induction` — the induction principle;
* `FieldType.exists_nestArray` — every type is its element type, nested as often as it has
  dimensions.
-/

import Mathlib
import JvmCodegen.FieldType.Parser

set_option relaxedAutoImplicit false
set_option autoImplicit false

namespace JvmCodegen

variable {C : Type}

/-! ### What a type mentions -/

namespace RefType

/-- The class that a reference type mentions, if it mentions one. -/
def class? : RefType C → Option C
  | object c => some c
  | objectArray _ c => some c
  | primitiveArray _ _ => none

/-- The number of dimensions of a reference type. A class has none. -/
def dimensions : RefType C → Nat
  | object _ => 0
  | objectArray extra _ => extra + 1
  | primitiveArray extra _ => extra + 1

end RefType

namespace FieldType

/-- The class that a type mentions, if it mentions one. -/
def class? : FieldType C → Option C
  | primitive _ => none
  | reference r => r.class?

/-- The number of dimensions of a type. -/
def dimensions : FieldType C → Nat
  | primitive _ => 0
  | reference r => r.dimensions

/-- The type is a primitive type or a class. -/
def IsElement (t : FieldType C) : Prop := t.dimensions = 0

end FieldType

@[simp] theorem RefType.class?_array (t : FieldType C) : (RefType.array t).class? = t.class? := by
  rcases t with p | (c | ⟨n, c⟩ | ⟨n, p⟩) <;> rfl

@[simp] theorem RefType.dimensions_array (t : FieldType C) :
    (RefType.array t).dimensions = t.dimensions + 1 := by
  rcases t with p | (c | ⟨n, c⟩ | ⟨n, p⟩) <;> rfl

/-! ### Array types as a tree -/

namespace RefType

theorem eq_object_or_array (r : RefType C) : (∃ c, r = .object c) ∨ ∃ t, r = .array t := by
  match r with
  | .object c => exact .inl ⟨c, rfl⟩
  | .objectArray 0 c => exact .inr ⟨.object c, rfl⟩
  | .objectArray (n + 1) c => exact .inr ⟨.reference (.objectArray n c), rfl⟩
  | .primitiveArray 0 p => exact .inr ⟨.primitive p, rfl⟩
  | .primitiveArray (n + 1) p => exact .inr ⟨.reference (.primitiveArray n p), rfl⟩

/-- **Induction on reference types**: a class, the arrays over a primitive type, and the arrays over
a reference type. -/
@[elab_as_elim] theorem array_induction {motive : RefType C → Prop}
    (object : ∀ c, motive (.object c)) (primitive : ∀ p, motive (array (.primitive p)))
    (reference : ∀ r, motive r → motive (array (.reference r))) (r : RefType C) : motive r := by
  cases r with
  | object c => exact object c
  | objectArray n c =>
      induction n with
      | zero => exact reference (.object c) (object c)
      | succ n ih => exact reference (.objectArray n c) ih
  | primitiveArray n p =>
      induction n with
      | zero => exact primitive p
      | succ n ih => exact reference (.primitiveArray n p) ih

end RefType

namespace FieldType

@[simp] theorem nestArray_zero (t : FieldType C) : t.nestArray 0 = t := rfl

theorem nestArray_succ (n : Nat) (t : FieldType C) : t.nestArray (n + 1) = array (t.nestArray n) :=
  rfl

@[simp] theorem class?_nestArray (n : Nat) (t : FieldType C) : (t.nestArray n).class? = t.class? := by
  induction n with
  | zero => rfl
  | succ n ih => rw [nestArray_succ, ← ih]; exact RefType.class?_array _

/-- A type is its element type, nested as often as it has dimensions. -/
theorem exists_nestArray (t : FieldType C) :
    ∃ e : FieldType C, e.IsElement ∧ t = e.nestArray t.dimensions := by
  cases t with
  | primitive p => exact ⟨.primitive p, rfl, rfl⟩
  | reference r =>
      induction r using RefType.array_induction with
      | object c => exact ⟨.object c, rfl, rfl⟩
      | primitive p => exact ⟨.primitive p, rfl, rfl⟩
      | reference r ih =>
          obtain ⟨e, he, h⟩ := ih
          refine ⟨e, he, ?_⟩
          have hd : (reference (.array (.reference r))).dimensions = (reference r).dimensions + 1 :=
            RefType.dimensions_array _
          rw [hd, nestArray_succ, ← h]
          rfl

end FieldType

end JvmCodegen
