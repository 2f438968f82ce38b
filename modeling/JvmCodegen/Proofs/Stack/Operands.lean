/-
**Operands that fit.**

Which instruction is emitted and what its operand is are decided in different places: by the value of
a constant, by the flags of a field, by the class that owns a method.  An instruction that loads a
literal of one slot must not get one of two, an access to a static field is another instruction than
one to an instance field, and dynamic dispatch takes one instruction for the methods of classes and
another for those of interfaces.  All that plans emit agrees with its operand in these ways, provided
that invocations are put together as the library offers them.

Main definitions:

* `Instruction.LiteralFits`, `Instruction.MemberFits` — the operand is one that the instruction takes;
* `Stack.Operation.IsOffered`, `Stack.Plan.IsOffered` — invocations are in the way that the method
  calls for, or direct.

Main results:

* `Stack.Operation.literalFits`, `Stack.Operation.memberFits` — operations;
* `Stack.Plan.Emits.literalFits`, `Stack.Plan.Emits.memberFits` — **all that a plan emits**.
-/

import JvmCodegen.Proofs.Stack.CacheFields
import JvmCodegen.Proofs.Stack.Height
import JvmCodegen.Proofs.Stack.NumberInstructions

set_option relaxedAutoImplicit false
set_option autoImplicit false

namespace JvmCodegen

/-! ### Instructions and their operands -/

namespace Instruction

/-- A literal takes as many slots as the instruction that loads it is for. -/
def LiteralFits : SymbolicInstruction → Prop
  | .ldc l => l.isWide = false
  | .ldc2 l => l.isWide = true
  | _ => True

/-- A field is static exactly if the instruction is one for static fields, and a method is dispatched
on as one of an interface exactly if its owner is one. -/
def MemberFits : SymbolicInstruction → Prop
  | .access op f => f.isStatic = op.isStatic
  | .invoke .virtual m => m.owner.isInterface = false
  | .invoke (.interface _) m => m.owner.isInterface = true
  | _ => True

end Instruction

namespace Stack

open Instruction

/-! ### Operations -/

theorem ArrangesArray.literalFits {i : SymbolicInstruction} (h : ArrangesArray i) :
    LiteralFits i := by
  cases h <;> first | exact trivial | rfl

theorem ArrangesArray.memberFits {i : SymbolicInstruction} (h : ArrangesArray i) : MemberFits i := by
  cases h <;> exact trivial

/-- The method calls for a way of being invoked that its owner allows. -/
theorem memberFits_invokeKind (m : Method) : MemberFits (.invoke m.invokeKind m) := by
  unfold Method.invokeKind
  split
  · exact trivial
  split
  · exact trivial
  split
  · rename_i h
    exact h
  · rename_i h
    exact Bool.eq_false_iff.2 h

/-- A number has its short form, or is loaded as a literal of its size. -/
theorem PushesNumber.literalFits {type : Primitive} {i : SymbolicInstruction} (h : PushesNumber type i) :
    LiteralFits i := by
  cases h <;> first | exact trivial | rfl

theorem PushesNumber.memberFits {type : Primitive} {i : SymbolicInstruction} (h : PushesNumber type i) :
    MemberFits i := by
  cases h <;> exact trivial

theorem isStatic_classObjectField (type : Option Primitive) :
    (classObjectField type).isStatic = true := by
  cases type with
  | none => rfl
  | some p => cases p <;> rfl

namespace Operation

/-- An invocation is put together as the library offers it: in the way that the method calls for, or
without dynamic dispatch. -/
def IsOffered : Operation → Prop
  | invoke kind m => kind = m.invokeKind ∨ kind = .special
  | _ => True

/-- **A literal is loaded by an instruction for its size.** -/
theorem literalFits (o : Operation) : LiteralFits o.instruction := by
  cases o with
  | int value => exact (pushesNumber_intInstruction value).literalFits
  | long value => exact (pushesNumber_longInstruction value).literalFits
  | float bits => exact (pushesNumber_floatInstruction bits).literalFits
  | double bits => exact (pushesNumber_doubleInstruction bits).literalFits
  | text value => rfl
  | typeObject type => rfl
  | methodHandle target => rfl
  | _ => exact trivial

/-- **A member is used by an instruction for its kind.** -/
theorem memberFits {o : Operation} (h : o.IsOffered) : MemberFits o.instruction := by
  cases o with
  | int value => exact (pushesNumber_intInstruction value).memberFits
  | long value => exact (pushesNumber_longInstruction value).memberFits
  | float bits => exact (pushesNumber_floatInstruction bits).memberFits
  | double bits => exact (pushesNumber_doubleInstruction bits).memberFits
  | primitiveObject type => exact isStatic_classObjectField type
  | field access f =>
      -- the instruction is chosen by the same flag that it is held to
      have hop : (fieldOp access f.isStatic).isStatic = f.isStatic := by
        cases access <;> cases f.isStatic <;> rfl
      exact hop.symm
  | invoke kind m =>
      rcases h with rfl | rfl
      · exact memberFits_invokeKind m
      · exact trivial
  | unbox type => cases type <;> rfl
  | _ => exact trivial

end Operation

/-! ### Plans -/

namespace Plan

variable {plan : Plan} {c : ConstantCache} {i : SymbolicInstruction}

/-- All invocations of the plan are put together as the library offers them, also those inside cached
constants. -/
def IsOffered (plan : Plan) : Prop := ∀ o : Operation, .op o ∈ plan.subplans → o.IsOffered

theorem ComesFrom.isOffered {plans : List Plan} (h : ComesFrom plans plan)
    (hplans : ∀ p ∈ plans, p.IsOffered) : plan.IsOffered := by
  obtain ⟨p, hp, hinside⟩ := h
  exact fun o ho => hplans p hp o (hinside _ ho)

/-- **Every literal that a plan loads** is loaded by an instruction for its size. -/
theorem Emits.literalFits (h : plan.Emits c i) : LiteralFits i := by
  cases h with
  | op ho => exact Operation.literalFits _
  | array hi => exact hi.literalFits
  | cached hn hfind => exact trivial
  | classOf type => exact Operation.literalFits _
  | text value => rfl
  | lookup method => exact trivial

/-- **Every member that a plan uses** is used by an instruction for its kind: the fields of cached
constants are static, and so are those of class objects. -/
theorem Emits.memberFits (h : plan.Emits c i) (hplan : plan.IsOffered) (hc : c.Numbered) :
    MemberFits i := by
  cases h with
  | op ho => exact Operation.memberFits (hplan _ (op_mem_subplans ho))
  | array hi => exact hi.memberFits
  | cached hn hfind => exact hc.isStatic (ConstantCache.mem_fields_of_find? hfind)
  | classOf type =>
      refine Operation.memberFits ?_
      rcases type with _ | p | r <;> exact trivial
  | text value => exact trivial
  | lookup method =>
      have howner : (lookupMethod method).owner = Java.classClass := by
        unfold lookupMethod
        split <;> rfl
      rw [MemberFits, howner]
      rfl

end Plan

end Stack

end JvmCodegen
