/-
**Instructions.**

The instructions that generated code is made of.  There are no jumps, so a method body is a plain
list.  An instruction is parametric in its operands: first they are the classes, members and
literals themselves, later the indices of constants.  Forms of one instruction that differ only
in the width of an operand are one instruction here; the form is chosen when it is written.

Main definitions:

* `BareOp`, `FieldOp` — the instructions without operands, and those that use a field;
* `Instruction` — all instructions, over the types of their operands;
* `SymbolicInstruction`, `ResolvedInstruction` — before and after the operands are looked up in a
  constant pool;
* `SymbolicInstruction.resolve` — looking them up.
-/

import JvmCodegen.ConstantPool
import JvmCodegen.ValueKind

set_option relaxedAutoImplicit false
set_option autoImplicit false

namespace JvmCodegen

/-- An instruction without operands. -/
inductive BareOp
  | aconstNull
  | iconstM1 | iconst0 | iconst1 | iconst2 | iconst3 | iconst4 | iconst5
  | lconst0 | lconst1
  | fconst0 | fconst1 | fconst2
  | dconst0 | dconst1
  | iastore | lastore | fastore | dastore | aastore | bastore | castore | sastore
  | pop | pop2 | dup | dup2
  | i2l | i2f | i2d | l2f | l2d | f2d
  | ireturn | lreturn | freturn | dreturn | areturn | voidReturn
deriving DecidableEq, Hashable

/-- An instruction that reads or writes a field. -/
inductive FieldOp
  | getStatic
  | putStatic
  | getField
  | putField
deriving DecidableEq, Hashable

/-- An instruction over classes `C`, literals `K`, fields `F` and methods `M`. -/
inductive Instruction (C K F M : Type)
  | bare (op : BareOp)
  | bipush (value : Int8)
  | sipush (value : Int16)
  /-- Push a literal of one slot. -/
  | ldc (literal : K)
  /-- Push a literal of two slots. -/
  | ldc2 (literal : K)
  /-- Push a local variable. -/
  | load (kind : ValueKind) (slot : UInt16)
  | access (op : FieldOp) (field : F)
  | invoke (kind : InvokeKind) (method : M)
  /-- Create an array of primitive values. -/
  | newArray (element : Primitive)
  /-- Create an array of references. -/
  | newRefArray (element : C)
  | checkCast (target : C)
deriving DecidableEq

/-- An instruction whose operands are the classes, literals and members themselves. -/
abbrev SymbolicInstruction := Instruction (RefType Class) Literal Field Method

/-- An instruction whose operands are indices of constants. -/
abbrev ResolvedInstruction := Instruction PoolIndex PoolIndex PoolIndex PoolIndex

/-- The local variable that an instruction reads, and the number of slots of its value. -/
def Instruction.local? {C K F M : Type} : Instruction C K F M → Option (UInt16 × Nat)
  | .load kind slot => some (slot, kind.slots)
  | _ => none

/-- The instruction with its operands looked up in the pool. -/
def Instruction.resolve : SymbolicInstruction → PoolM ResolvedInstruction
  | .bare op => return .bare op
  | .bipush value => return .bipush value
  | .sipush value => return .sipush value
  | .ldc literal => return .ldc (← ConstantPool.literal literal)
  | .ldc2 literal => return .ldc2 (← ConstantPool.literal literal)
  | .load kind slot => return .load kind slot
  | .access op field => return .access op (← ConstantPool.field field)
  | .invoke kind method => return .invoke kind (← ConstantPool.method method)
  | .newArray element => return .newArray element
  | .newRefArray element => return .newRefArray (← ConstantPool.type element)
  | .checkCast target => return .checkCast (← ConstantPool.type target)

/-- The instructions with their operands looked up in the pool, in order. `done` holds those that
are already resolved, the last one first. -/
def Instruction.resolveEach (done : List ResolvedInstruction) :
    List SymbolicInstruction → PoolM (List ResolvedInstruction)
  | [], pool => (.ok done.reverse, pool)
  | instruction :: rest, pool =>
      match instruction.resolve pool with
      | (.error e, pool) => (.error e, pool)
      | (.ok resolved, pool) => resolveEach (resolved :: done) rest pool

end JvmCodegen
