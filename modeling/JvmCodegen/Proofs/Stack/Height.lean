/-
**The height of the operand stack.**

Every instruction pops a number of slots that is known beforehand, and then pushes a number of
slots.  Because there are no jumps, the height of the stack along a list of instructions is a sum,
and how high it gets is a maximum over the prefixes of the list.  All heights here are relative to
the height before the first instruction.

Main definitions:

* `SlotEffect`, `Instruction.slotEffect` — the slots that an instruction pops and pushes;
* `Stack.netHeight`, `Stack.peakHeight` — the height after a list of instructions, and the greatest
  height before the first of them or after any of them.

Main results:

* `Stack.netHeight_append`, `Stack.peakHeight_append` — one list of instructions after another;
* `Stack.netHeight_take_le_peakHeight`, `Stack.exists_netHeight_take_eq` — the greatest height is
  that of a prefix, and no prefix goes higher.
-/

import JvmCodegen.Instruction
import JvmCodegen.Stack.Effect

set_option relaxedAutoImplicit false
set_option autoImplicit false

namespace JvmCodegen

/-! ### The slots of an instruction -/

/-- The slots that an instruction pops, and those that it pushes afterwards. -/
structure SlotEffect where
  popped : Nat
  pushed : Nat
deriving DecidableEq

/-- By how much the height of the stack changes. -/
def SlotEffect.net (e : SlotEffect) : Int := e.pushed - e.popped

/-- The slots of an instruction without operands. A store takes an array, an index and a value. -/
def BareOp.slotEffect : BareOp → SlotEffect
  | aconstNull | iconstM1 | iconst0 | iconst1 | iconst2 | iconst3 | iconst4 | iconst5 => ⟨0, 1⟩
  | fconst0 | fconst1 | fconst2 => ⟨0, 1⟩
  | lconst0 | lconst1 | dconst0 | dconst1 => ⟨0, 2⟩
  | iastore | fastore | aastore | bastore | castore | sastore => ⟨3, 0⟩
  | lastore | dastore => ⟨4, 0⟩
  | pop => ⟨1, 0⟩
  | pop2 => ⟨2, 0⟩
  | dup => ⟨1, 2⟩
  | dup2 => ⟨2, 4⟩
  | i2l | i2d | f2d => ⟨1, 2⟩
  | i2f => ⟨1, 1⟩
  | l2f => ⟨2, 1⟩
  | l2d => ⟨2, 2⟩
  | ireturn | freturn | areturn => ⟨1, 0⟩
  | lreturn | dreturn => ⟨2, 0⟩
  | voidReturn => ⟨0, 0⟩

/-- The slots of an instruction that reads or writes a field with values of `slots` slots. -/
def FieldOp.slotEffect (slots : Nat) : FieldOp → SlotEffect
  | getStatic => ⟨0, slots⟩
  | putStatic => ⟨slots, 0⟩
  | getField => ⟨1, slots⟩
  | putField => ⟨1 + slots, 0⟩

/-- The instruction is about a field of the class, not of an instance. -/
def FieldOp.isStatic : FieldOp → Bool
  | getStatic | putStatic => true
  | getField | putField => false

/-- The invocation takes a receiver from the stack. -/
def InvokeKind.hasReceiver : InvokeKind → Bool
  | static => false
  | special | virtual | interface _ => true

/-- **The slots that an instruction pops and pushes.** -/
def Instruction.slotEffect : SymbolicInstruction → SlotEffect
  | .bare op => op.slotEffect
  | .bipush _ | .sipush _ | .ldc _ => ⟨0, 1⟩
  | .ldc2 _ => ⟨0, 2⟩
  | .load kind _ => ⟨0, kind.slots⟩
  | .access op f => op.slotEffect f.type.slots
  | .invoke kind m =>
      ⟨m.descriptor.parameterSlots kind.hasReceiver,
        (Stack.SlotCount.ofResult m.descriptor.returns).slots⟩
  | .newArray _ | .newRefArray _ | .checkCast _ => ⟨1, 1⟩

namespace Stack

/-! ### The height along a list of instructions -/

/-- The height after the instructions. -/
def netHeight : List SymbolicInstruction → Int
  | [] => 0
  | i :: code => i.slotEffect.net + netHeight code

/-- The greatest height before the first instruction or after any of them. -/
def peakHeight : List SymbolicInstruction → Int
  | [] => 0
  | i :: code => max 0 (i.slotEffect.net + peakHeight code)

@[simp] theorem netHeight_nil : netHeight [] = 0 := rfl

@[simp] theorem netHeight_cons (i : SymbolicInstruction) (code : List SymbolicInstruction) :
    netHeight (i :: code) = i.slotEffect.net + netHeight code := rfl

@[simp] theorem peakHeight_nil : peakHeight [] = 0 := rfl

@[simp] theorem peakHeight_cons (i : SymbolicInstruction) (code : List SymbolicInstruction) :
    peakHeight (i :: code) = max 0 (i.slotEffect.net + peakHeight code) := rfl

theorem netHeight_append (a b : List SymbolicInstruction) :
    netHeight (a ++ b) = netHeight a + netHeight b := by
  induction a with
  | nil => simp
  | cons i a ih =>
      simp only [List.cons_append, netHeight_cons, ih]
      omega

theorem peakHeight_nonneg (code : List SymbolicInstruction) : 0 ≤ peakHeight code := by
  cases code with
  | nil => simp
  | cons i code => exact Int.le_max_left _ _

theorem netHeight_le_peakHeight (code : List SymbolicInstruction) :
    netHeight code ≤ peakHeight code := by
  induction code with
  | nil => simp
  | cons i code ih =>
      simp only [netHeight_cons, peakHeight_cons]
      omega

theorem peakHeight_append (a b : List SymbolicInstruction) :
    peakHeight (a ++ b) = max (peakHeight a) (netHeight a + peakHeight b) := by
  induction a with
  | nil =>
      have := peakHeight_nonneg b
      simp only [List.nil_append, peakHeight_nil, netHeight_nil]
      omega
  | cons i a ih =>
      simp only [List.cons_append, peakHeight_cons, netHeight_cons, ih]
      omega

/-! ### The peak as a maximum over prefixes -/

/-- No prefix goes higher than the peak. -/
theorem netHeight_take_le_peakHeight (code : List SymbolicInstruction) (n : Nat) :
    netHeight (code.take n) ≤ peakHeight code := by
  have hsplit : peakHeight code =
      max (peakHeight (code.take n)) (netHeight (code.take n) + peakHeight (code.drop n)) := by
    rw [← peakHeight_append, List.take_append_drop]
  have := peakHeight_nonneg (code.drop n)
  omega

/-- The peak is the height of some prefix. -/
theorem exists_netHeight_take_eq (code : List SymbolicInstruction) :
    ∃ n ≤ code.length, netHeight (code.take n) = peakHeight code := by
  induction code with
  | nil => exact ⟨0, Nat.le_refl 0, rfl⟩
  | cons i code ih =>
      obtain ⟨n, hn, hpeak⟩ := ih
      rcases Int.le_total (i.slotEffect.net + peakHeight code) 0 with h | h
      · refine ⟨0, Nat.zero_le _, ?_⟩
        simp only [List.take_zero, netHeight_nil, peakHeight_cons]
        omega
      · refine ⟨n + 1, Nat.succ_le_succ hn, ?_⟩
        simp only [List.take_succ_cons, netHeight_cons, peakHeight_cons, hpeak]
        omega

end Stack

end JvmCodegen
