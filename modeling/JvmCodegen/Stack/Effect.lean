/-
**Effects on the height of the operand stack.**

A piece of code is summed up by two numbers, both relative to the height of the stack before it:
by how much it changes the height, and how high the stack gets on the way.  They are integers without
bound; `Stack.Size` is what they come to in 32 bits, as long as they fit.

Main definitions:

* `Stack.SlotCount` — the room that one value takes: none, one slot or two;
* `Stack.Effect`, `Stack.Effect.andThen` — effects, and the effect of one after another.

Main results: `Stack.Effect.zero_andThen` and `Stack.Effect.andThen_assoc` — effects compose like
the code they sum up.
-/

import JvmCodegen.FieldType

set_option relaxedAutoImplicit false
set_option autoImplicit false

namespace JvmCodegen.Stack

/-! ### Effects -/

/-- The effect of a piece of code on the height of the stack. -/
structure Effect where
  /-- The height after it, relative to the height before it. -/
  impact : Int
  /-- The greatest height on the way, relative to the height before it. -/
  peak : Int
deriving DecidableEq

namespace Effect

/-- The effect of no code. -/
def zero : Effect := ⟨0, 0⟩

/-- The effect of pushing a value of `n` slots. -/
def pushing (n : Nat) : Effect := ⟨n, n⟩

/-- The effect of popping a value of `n` slots. -/
def popping (n : Nat) : Effect := ⟨-n, 0⟩

/-- The effect of one piece of code and then another. The second starts where the first ends. -/
def andThen (a b : Effect) : Effect := ⟨a.impact + b.impact, max a.peak (a.impact + b.peak)⟩

@[simp] theorem impact_andThen (a b : Effect) :
    (a.andThen b).impact = a.impact + b.impact := rfl

@[simp] theorem peak_andThen (a b : Effect) :
    (a.andThen b).peak = max a.peak (a.impact + b.peak) := rfl

theorem zero_andThen (a : Effect) (h : 0 ≤ a.peak) : zero.andThen a = a := by
  cases a
  simp only [andThen, zero, Effect.mk.injEq]
  simp only at h
  omega

theorem andThen_assoc (a b c : Effect) :
    (a.andThen b).andThen c = a.andThen (b.andThen c) := by
  simp only [andThen, Effect.mk.injEq]
  omega

end Effect

/-! ### The room of one value -/

/-- The room that a value takes on the stack. -/
inductive SlotCount
  | zero
  | single
  | double
deriving DecidableEq

namespace SlotCount

/-- The number of slots. -/
def slots : SlotCount → Nat
  | zero => 0
  | single => 1
  | double => 2

/-- The name of the room. -/
def title : SlotCount → String
  | zero => "Zero"
  | single => "Single"
  | double => "Double"

/-- The room of a value of a type. -/
def ofType {C : Type} (t : FieldType C) : SlotCount := if t.slots = 2 then double else single

/-- The room of what a method returns: none where there is no result. -/
def ofResult {C : Type} : Option (FieldType C) → SlotCount
  | none => zero
  | some t => ofType t

/-- The effect of pushing a value. -/
def pushed (n : SlotCount) : Effect := Effect.pushing n.slots

/-- The effect of popping a value. -/
def popped (n : SlotCount) : Effect := Effect.popping n.slots

/-- The greater of two rooms. -/
def greater (a b : SlotCount) : SlotCount := if a.slots ≤ b.slots then b else a

@[simp] theorem slots_ofType {C : Type} (t : FieldType C) : (ofType t).slots = t.slots := by
  cases t with
  | primitive p => cases p <;> rfl
  | reference r => rfl

end SlotCount

end JvmCodegen.Stack
