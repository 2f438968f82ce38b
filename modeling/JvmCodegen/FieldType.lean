/-
**Field types and method descriptors.**

The type of a field, a parameter or a value is a primitive type, a class, or an array of either.
The types are parametric in what stands for a class: a binary name while a descriptor is read, a
class of the graph afterwards.  A method descriptor lists the types of the parameters and the
type of the result, and has no result type where nothing is returned.

Main definitions:

* `RefType`, `FieldType`, `MethodDescriptor` — the types;
* `FieldType.array` — the type of the arrays with given elements;
* `FieldType.map` — the same type over other classes;
* `FieldType.slots`, `MethodDescriptor.parameterSlots` — the room that values take;
* `FieldType.descriptor`, `MethodDescriptor.descriptor` — the text of a type in a class file.
-/

import JvmCodegen.Name
import JvmCodegen.Primitive

set_option relaxedAutoImplicit false
set_option autoImplicit false

namespace JvmCodegen

/-! ### Reference types -/

/-- A reference type over the classes `C`. An array has `extra + 1` dimensions, so that the types
of arrays without a dimension do not exist. -/
inductive RefType (C : Type)
  | object (c : C)
  | objectArray (extra : Nat) (element : C)
  | primitiveArray (extra : Nat) (element : Primitive)
deriving DecidableEq, Hashable

/-- The type of a field, a parameter or a value. -/
inductive FieldType (C : Type)
  | primitive (p : Primitive)
  | reference (r : RefType C)
deriving DecidableEq, Hashable

namespace RefType

variable {C D : Type}

/-- The same type over other classes. -/
def map (f : C → D) : RefType C → RefType D
  | object c => object (f c)
  | objectArray extra c => objectArray extra (f c)
  | primitiveArray extra p => primitiveArray extra p

/-- The type of the arrays whose elements have the given type. -/
def array : FieldType C → RefType C
  | .primitive p => primitiveArray 0 p
  | .reference (object c) => objectArray 0 c
  | .reference (objectArray extra c) => objectArray (extra + 1) c
  | .reference (primitiveArray extra p) => primitiveArray (extra + 1) p

/-- The characters of the descriptor of a reference type. -/
def chars : RefType BinaryName → List Char
  | object c => 'L' :: (c.text.toList ++ [';'])
  | objectArray extra c => List.replicate (extra + 1) '[' ++ 'L' :: (c.text.toList ++ [';'])
  | primitiveArray extra p => List.replicate (extra + 1) '[' ++ [p.letter]

/-- The descriptor of a reference type. -/
def descriptor (r : RefType BinaryName) : String := String.ofList r.chars

end RefType

/-! ### Field types -/

namespace FieldType

variable {C D : Type}

/-- The type of the instances of a class. -/
def object (c : C) : FieldType C := .reference (.object c)

/-- The type of the arrays whose elements have the given type. -/
def array (t : FieldType C) : FieldType C := .reference (.array t)

/-- The same type over other classes. -/
def map (f : C → D) : FieldType C → FieldType D
  | primitive p => primitive p
  | reference r => reference (r.map f)

/-- The same type over other classes, each of which is found by a computation. -/
def mapM {m : Type → Type} [Monad m] (f : C → m D) : FieldType C → m (FieldType D)
  | primitive p => return primitive p
  | reference (.object c) => return object (← f c)
  | reference (.objectArray extra c) => return reference (.objectArray extra (← f c))
  | reference (.primitiveArray extra p) => return reference (.primitiveArray extra p)

/-- The number of slots of a value of the type. -/
def slots : FieldType C → Nat
  | primitive p => p.slots
  | reference _ => 1

/-- The characters of the descriptor of a type. -/
def chars : FieldType BinaryName → List Char
  | primitive p => [p.letter]
  | reference r => r.chars

/-- The descriptor of a type. -/
def descriptor (t : FieldType BinaryName) : String := String.ofList t.chars

@[simp] theorem slots_map (f : C → D) (t : FieldType C) : (t.map f).slots = t.slots := by
  cases t <;> rfl

end FieldType

/-! ### Method descriptors -/

/-- The types of the parameters and of the result of a method. There is no result type where
nothing is returned. -/
structure MethodDescriptor (C : Type) where
  parameters : List (FieldType C)
  returns : Option (FieldType C)
deriving DecidableEq, Hashable

namespace MethodDescriptor

variable {C D : Type}

/-- The same descriptor over other classes. -/
def map (f : C → D) (d : MethodDescriptor C) : MethodDescriptor D :=
  ⟨d.parameters.map (·.map f), d.returns.map (·.map f)⟩

/-- The number of slots of the arguments, with one more for the receiver where there is one. -/
def parameterSlots (d : MethodDescriptor C) (receiver : Bool) : Nat :=
  (if receiver then 1 else 0) + (d.parameters.map FieldType.slots).foldr (· + ·) 0

/-- The characters of a method descriptor: the parameters between parentheses, without anything
between them, and then the result, with `V` for none. -/
def chars (d : MethodDescriptor BinaryName) : List Char :=
  '(' :: (d.parameters.flatMap FieldType.chars ++
    ')' :: (match d.returns with | none => ['V'] | some t => t.chars))

/-- The text of a method descriptor. -/
def descriptor (d : MethodDescriptor BinaryName) : String := String.ofList d.chars

end MethodDescriptor

end JvmCodegen
