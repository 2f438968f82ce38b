/-
**The instructions for numbers.**

A number is pushed by a short instruction, if it has one, and as an operand or a literal otherwise.
Which way is taken depends on the number, but most of what there is to say about the instruction
depends on the type of the number only.

The two precisions of floating-point numbers are treated alike: some patterns have a short instruction,
zero has one whatever its sign, and the others are loaded as literals, where one pattern stands for all
that are not numbers.  So what can be said about one precision is said about both.

Main definitions:

* `Stack.PushesNumber` — the instructions for the numbers of a type;
* `Stack.Precision` — the patterns of one precision and how they are pushed;
* `Stack.Precision.canonical`, `Stack.Precision.instruction` — the pattern that stands for a pattern,
  and the instruction for it;
* `Stack.Precision.single`, `Stack.Precision.double` — the two precisions.

Main results:

* `Stack.Precision.instruction_canonical` — the instruction does not tell patterns apart that are not
  numbers;
* `Stack.Precision.instruction_eq_iff` — **of the others it takes only the two zeros for one**.
-/

import Mathlib.Tactic.SplitIfs
import JvmCodegen.Stack.Operation

set_option relaxedAutoImplicit false
set_option autoImplicit false

namespace JvmCodegen

/-! ### Instructions by the type of the number -/

/-- The type of the number that an instruction pushes without an operand. -/
def BareOp.numberType? : BareOp → Option Primitive
  | iconstM1 | iconst0 | iconst1 | iconst2 | iconst3 | iconst4 | iconst5 => some .int
  | lconst0 | lconst1 => some .long
  | fconst0 | fconst1 | fconst2 => some .float
  | dconst0 | dconst1 => some .double
  | _ => none

namespace Stack

/-- The instructions that push a number of a type. -/
inductive PushesNumber : Primitive → SymbolicInstruction → Prop
  | short {type : Primitive} {op : BareOp} (h : op.numberType? = some type) : PushesNumber type (.bare op)
  | bipush (value : Int8) : PushesNumber .int (.bipush value)
  | sipush (value : Int16) : PushesNumber .int (.sipush value)
  | int (value : Int32) : PushesNumber .int (.ldc (.int value))
  | long (value : Int64) : PushesNumber .long (.ldc2 (.long value))
  | float (bits : UInt32) : PushesNumber .float (.ldc (.float bits))
  | double (bits : UInt64) : PushesNumber .double (.ldc2 (.double bits))

theorem pushesNumber_intInstruction (value : Int32) : PushesNumber .int (intInstruction value) := by
  unfold intInstruction
  split
  case h_8 =>
      split
      · exact .bipush _
      split
      · exact .sipush _
      · exact .int value
  all_goals exact .short rfl

theorem pushesNumber_longInstruction (value : Int64) : PushesNumber .long (longInstruction value) := by
  unfold longInstruction
  split
  · exact .short rfl
  split
  · exact .short rfl
  · exact .long value

/-! ### Floating-point numbers -/

/-- **How the patterns of one precision are pushed**: those in a table by a short instruction, and the
others as literals. -/
structure Precision (β : Type) [BEq β] where
  zero : β
  negativeZero : β
  isNaN : β → Bool
  /-- The pattern that stands for all that are not numbers. -/
  quietNaN : β
  /-- The patterns that have a short instruction. -/
  short : List (β × BareOp)
  /-- The short instruction for zero. -/
  zeroOp : BareOp
  load : β → SymbolicInstruction
  lookup_zero : short.lookup zero = some zeroOp
  lookup_negativeZero : short.lookup negativeZero = some zeroOp
  isNaN_quietNaN : isNaN quietNaN = true
  isNaN_of_mem_short : ∀ e ∈ short, isNaN e.1 = false
  /-- Each short instruction is for one number. -/
  short_injective : ∀ a ∈ short, ∀ b ∈ short, a.2 = b.2 →
    a.1 = b.1 ∨ (a.1 = zero ∨ a.1 = negativeZero) ∧ (b.1 = zero ∨ b.1 = negativeZero)
  load_injective : Function.Injective load
  load_ne_bare : ∀ (bits : β) (op : BareOp), load bits ≠ .bare op

namespace Precision

variable {β : Type} [BEq β] (P : Precision β) {x y : β}

/-- The pattern, or one fixed pattern for all that are not numbers. -/
def canonical (bits : β) : β := if P.isNaN bits then P.quietNaN else bits

/-- The instruction that pushes the pattern. -/
def instruction (bits : β) : SymbolicInstruction :=
  match P.short.lookup bits with
  | some op => .bare op
  | none => P.load (P.canonical bits)

theorem canonical_canonical (bits : β) : P.canonical (P.canonical bits) = P.canonical bits := by
  unfold canonical
  split_ifs with h hquiet
  · rfl
  · exact absurd P.isNaN_quietNaN hquiet
  · rfl

variable [LawfulBEq β]

theorem mem_short {bits : β} {op : BareOp} (h : P.short.lookup bits = some op) :
    (bits, op) ∈ P.short := by
  obtain ⟨before, after, hshort, -⟩ := List.lookup_eq_some_iff.1 h
  rw [hshort]
  exact List.mem_append_right before List.mem_cons_self

/-- A pattern that is not a number has no short instruction. -/
theorem lookup_of_isNaN {bits : β} (h : P.isNaN bits = true) : P.short.lookup bits = none := by
  cases hop : P.short.lookup bits with
  | none => rfl
  | some op =>
      have hnumber := P.isNaN_of_mem_short _ (P.mem_short hop)
      rw [h] at hnumber
      cases hnumber

/-- **The instruction does not tell patterns apart that are not numbers.** -/
theorem instruction_canonical (bits : β) : P.instruction (P.canonical bits) = P.instruction bits := by
  by_cases h : P.isNaN bits = true
  · have hcanonical : P.canonical bits = P.quietNaN := if_pos h
    rw [instruction, instruction, P.canonical_canonical, P.lookup_of_isNaN h, hcanonical,
      P.lookup_of_isNaN P.isNaN_quietNaN]
  · rw [canonical, if_neg h]

/-- One instruction stands for one canonical pattern, or for the two zeros. -/
theorem canonical_eq_of_instruction_eq (h : P.instruction x = P.instruction y) :
    P.canonical x = P.canonical y ∨
      (x = P.zero ∨ x = P.negativeZero) ∧ (y = P.zero ∨ y = P.negativeZero) := by
  unfold instruction at h
  split at h
  case h_1 op hx =>
      split at h
      case h_1 op' hy =>
          exact (P.short_injective _ (P.mem_short hx) _ (P.mem_short hy)
            (Instruction.bare.inj h)).imp_left (congrArg P.canonical)
      case h_2 hy => exact absurd h.symm (P.load_ne_bare _ op)
  case h_2 hx =>
      split at h
      case h_1 op hy => exact absurd h (P.load_ne_bare _ op)
      case h_2 hy => exact .inl (P.load_injective h)

/-- **Only the two zeros** have one instruction and are different numbers. -/
theorem instruction_eq_iff (hne : P.canonical x ≠ P.canonical y) :
    P.instruction x = P.instruction y ↔
      x = P.zero ∧ y = P.negativeZero ∨ x = P.negativeZero ∧ y = P.zero := by
  constructor
  · intro h
    rcases P.canonical_eq_of_instruction_eq h with heq | ⟨rfl | rfl, rfl | rfl⟩
    · exact absurd heq hne
    · exact absurd rfl hne
    · exact .inl ⟨rfl, rfl⟩
    · exact .inr ⟨rfl, rfl⟩
    · exact absurd rfl hne
  · rintro (⟨rfl, rfl⟩ | ⟨rfl, rfl⟩) <;>
      rw [instruction, instruction, P.lookup_zero, P.lookup_negativeZero]

/-- The instruction pushes a number of a type if those in the table and the literals do. -/
theorem pushesNumber_instruction {type : Primitive}
    (hshort : ∀ e ∈ P.short, e.2.numberType? = some type)
    (hload : ∀ bits, PushesNumber type (P.load bits)) (bits : β) :
    PushesNumber type (P.instruction bits) := by
  unfold instruction
  split
  case h_1 op hop => exact .short (hshort _ (P.mem_short hop))
  case h_2 => exact hload _

/-- A pattern that is not in the table is loaded as a literal. -/
theorem instruction_of_forall_ne {bits : β} (h : ∀ e ∈ P.short, bits ≠ e.1) :
    P.instruction bits = P.load (P.canonical bits) := by
  have hnone : P.short.lookup bits = none :=
    List.lookup_eq_none_iff.2 fun e he => bne_iff_ne.2 (h e he)
  rw [instruction, hnone]

/-- Single precision. -/
def single : Precision UInt32 where
  zero := 0
  negativeZero := 0x80000000
  isNaN := FloatBits.isNaNSingle
  quietNaN := 0x7FC00000
  short := [(0, .fconst0), (0x80000000, .fconst0), (0x3F800000, .fconst1), (0x40000000, .fconst2)]
  zeroOp := .fconst0
  load bits := .ldc (.float bits)
  lookup_zero := by decide
  lookup_negativeZero := by decide
  isNaN_quietNaN := by decide
  isNaN_of_mem_short := by decide
  short_injective := by decide
  load_injective _ _ h := Literal.float.inj (Instruction.ldc.inj h)
  load_ne_bare _ _ h := by cases h

/-- Double precision. -/
def double : Precision UInt64 where
  zero := 0
  negativeZero := 0x8000000000000000
  isNaN := FloatBits.isNaNDouble
  quietNaN := 0x7FF8000000000000
  short := [(0, .dconst0), (0x8000000000000000, .dconst0), (0x3FF0000000000000, .dconst1)]
  zeroOp := .dconst0
  load bits := .ldc2 (.double bits)
  lookup_zero := by decide
  lookup_negativeZero := by decide
  isNaN_quietNaN := by decide
  isNaN_of_mem_short := by decide
  short_injective := by decide
  load_injective _ _ h := Literal.double.inj (Instruction.ldc2.inj h)
  load_ne_bare _ _ h := by cases h

end Precision

theorem floatInstruction_eq (bits : UInt32) : floatInstruction bits = Precision.single.instruction bits := by
  unfold floatInstruction
  split
  case isTrue hzero =>
      have hzero : bits = 0 ∨ bits = 0x80000000 := by simpa using hzero
      rcases hzero with rfl | rfl <;> rfl
  case isFalse hzero =>
      split
      case isTrue hone => rw [hone]; rfl
      case isFalse hone =>
          split
          case isTrue htwo => rw [htwo]; rfl
          case isFalse htwo =>
              refine (Precision.single.instruction_of_forall_ne ?_).symm
              simp only [Bool.or_eq_true, decide_eq_true_eq, not_or] at hzero
              simp [Precision.single, hzero, hone, htwo]

theorem doubleInstruction_eq (bits : UInt64) :
    doubleInstruction bits = Precision.double.instruction bits := by
  unfold doubleInstruction
  split
  case isTrue hzero =>
      have hzero : bits = 0 ∨ bits = 0x8000000000000000 := by simpa using hzero
      rcases hzero with rfl | rfl <;> rfl
  case isFalse hzero =>
      split
      case isTrue hone => rw [hone]; rfl
      case isFalse hone =>
          refine (Precision.double.instruction_of_forall_ne ?_).symm
          simp only [Bool.or_eq_true, decide_eq_true_eq, not_or] at hzero
          simp [Precision.double, hzero, hone]

theorem pushesNumber_floatInstruction (bits : UInt32) : PushesNumber .float (floatInstruction bits) := by
  rw [floatInstruction_eq]
  exact Precision.single.pushesNumber_instruction (by decide) .float bits

theorem pushesNumber_doubleInstruction (bits : UInt64) :
    PushesNumber .double (doubleInstruction bits) := by
  rw [doubleInstruction_eq]
  exact Precision.double.pushesNumber_instruction (by decide) .double bits

end Stack

end JvmCodegen
