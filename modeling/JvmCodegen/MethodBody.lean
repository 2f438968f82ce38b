/-
**Method bodies.**

Instructions are gathered by a collector.  A plain array is a collector; the draft of a body is one
too, and keeps track of how many slots of local variables the body needs: those of the arguments,
and every slot that is read.  The finished body is turned into the contents of a `Code` attribute by
looking its operands up in a constant pool.

Main definitions:

* `CodeCollector` — what instructions can be appended to;
* `MethodBody`, `BodyDraft`, `BodyDraft.finish` — bodies, and gathering one;
* `ClassFileError`, `ClassFileM` — what can go wrong while a class file is built, and computations
  that build one over a constant pool;
* `MethodBody.toAttribute` — the contents of the `Code` attribute;
* `namedAttribute`, `syntheticAttribute` — attributes with their names in the pool.
-/

import JvmCodegen.ClassFile
import JvmCodegen.Instruction.Encoding

set_option relaxedAutoImplicit false
set_option autoImplicit false

namespace JvmCodegen

/-! ### Building class files -/

/-- What can go wrong while a class file is built. -/
inductive ClassFileError
  | pool (reason : PoolError)
  | encoding (reason : EncodingError)
  /-- The operand stack is deeper than 16 bits can say. -/
  | stackTooDeep (depth : Nat)
  /-- There are more slots of local variables than 16 bits can say. -/
  | tooManyLocals (slots : Nat)
  /-- The bytecode of a method is longer than 65535 bytes. -/
  | codeTooLong (bytes : Nat)
deriving DecidableEq

/-- A computation that builds part of a class file over a constant pool. -/
abbrev ClassFileM := ExceptT ClassFileError (StateM ConstantPool)

/-- A request to the pool, as part of building a class file. -/
def PoolM.toClassFileM {α : Type} (request : PoolM α) : ClassFileM α := fun pool =>
  match request pool with
  | (.ok value, pool) => (.ok value, pool)
  | (.error reason, pool) => (.error (.pool reason), pool)

/-- An attribute whose name is looked up in the pool before its body is written. -/
def namedAttribute (name : String) (body : Except EncodingError (List UInt8)) :
    ClassFileM Attribute := do
  let name ← (ConstantPool.utf8 name).toClassFileM
  match body with
  | .ok info => return ⟨name, info⟩
  | .error reason => throw (.encoding reason)

/-- The attribute of members that do not appear in any source text. -/
def syntheticAttribute : ClassFileM Attribute := namedAttribute syntheticAttributeName (.ok [])

/-! ### Collectors -/

/-- What instructions can be appended to. -/
class CodeCollector (σ : Type) where
  append : σ → SymbolicInstruction → σ

instance : CodeCollector (Array SymbolicInstruction) := ⟨Array.push⟩

/-- A method body: the sizes of its frame, and its instructions. -/
structure MethodBody where
  maxLocals : UInt16
  maxStack : UInt16
  instructions : Array SymbolicInstruction

/-- A body under construction, with the slots of local variables that it needs so far. -/
structure BodyDraft where
  method : Method
  instructions : Array SymbolicInstruction
  maxLocals : Nat

namespace BodyDraft

/-- The empty body of a method. The arguments take up slots from the start. -/
def new (method : Method) : BodyDraft := ⟨method, #[], method.argumentSlots⟩

/-- The slots of local variables that are needed, with one instruction more. -/
def localsWith (maxLocals : Nat) (instruction : SymbolicInstruction) : Nat :=
  match instruction.local? with
  | none => maxLocals
  | some (slot, width) => max maxLocals (slot.toNat + width)

/-- The body with one instruction more. -/
def append (b : BodyDraft) (instruction : SymbolicInstruction) : BodyDraft :=
  { b with
    instructions := b.instructions.push instruction
    maxLocals := localsWith b.maxLocals instruction }

instance : CodeCollector BodyDraft := ⟨append⟩

/-- The finished body, for a depth of the operand stack that is known from elsewhere. Of two
overflows, that of the stack is reported. -/
def finish (b : BodyDraft) (maxStack : Nat) : Except ClassFileError MethodBody :=
  if maxStack > 65535 then .error (.stackTooDeep maxStack)
  else if b.maxLocals > 65535 then .error (.tooManyLocals b.maxLocals)
  else .ok ⟨UInt16.ofNat b.maxLocals, UInt16.ofNat maxStack, b.instructions⟩

end BodyDraft

/-! ### The `Code` attribute -/

/-- **The contents of the `Code` attribute of a body.** The length of the bytecode is judged after
every operand has been looked up. -/
def MethodBody.toAttribute (b : MethodBody) : ClassFileM CodeAttribute := do
  let resolved ← PoolM.toClassFileM (Instruction.resolveEach [] b.instructions.toList)
  let code := resolved.flatMap Instruction.encode
  if code.length > 65535 then throw (.codeTooLong code.length)
  return ⟨b.maxStack, b.maxLocals, code, []⟩

end JvmCodegen
