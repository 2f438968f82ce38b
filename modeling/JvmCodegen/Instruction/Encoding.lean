/-
**The bytes of an instruction.**

An instruction is written as an opcode followed by its operands, most significant byte first.  A
load has a form of one byte for the first four slots, of two bytes for a slot below 256, and a wide
form for the others; a literal of one slot has a short and a wide form.

Main definitions:

* `BareOp.opcode`, `FieldOp.opcode`, `ValueKind.loadOpcode`, … — the opcodes;
* `Instruction.encode` — the bytes of an instruction.
-/

import JvmCodegen.Instruction

set_option relaxedAutoImplicit false
set_option autoImplicit false

namespace JvmCodegen

/-! ### Opcodes -/

/-- The opcode of an instruction without operands. -/
def BareOp.opcode : BareOp → UInt8
  | aconstNull => 0x01
  | iconstM1 => 0x02
  | iconst0 => 0x03
  | iconst1 => 0x04
  | iconst2 => 0x05
  | iconst3 => 0x06
  | iconst4 => 0x07
  | iconst5 => 0x08
  | lconst0 => 0x09
  | lconst1 => 0x0A
  | fconst0 => 0x0B
  | fconst1 => 0x0C
  | fconst2 => 0x0D
  | dconst0 => 0x0E
  | dconst1 => 0x0F
  | iastore => 0x4F
  | lastore => 0x50
  | fastore => 0x51
  | dastore => 0x52
  | aastore => 0x53
  | bastore => 0x54
  | castore => 0x55
  | sastore => 0x56
  | pop => 0x57
  | pop2 => 0x58
  | dup => 0x59
  | dup2 => 0x5C
  | i2l => 0x85
  | i2f => 0x86
  | i2d => 0x87
  | l2f => 0x89
  | l2d => 0x8A
  | f2d => 0x8D
  | ireturn => 0xAC
  | lreturn => 0xAD
  | freturn => 0xAE
  | dreturn => 0xAF
  | areturn => 0xB0
  | voidReturn => 0xB1

/-- The opcode of an instruction that uses a field. -/
def FieldOp.opcode : FieldOp → UInt8
  | getStatic => 0xB2
  | putStatic => 0xB3
  | getField => 0xB4
  | putField => 0xB5

/-- The opcode of a load whose slot follows. -/
def ValueKind.loadOpcode : ValueKind → UInt8
  | int => 0x15
  | long => 0x16
  | float => 0x17
  | double => 0x18
  | reference => 0x19

/-- The opcode of the load from slot 0; those from the slots 1, 2 and 3 come after it. -/
def ValueKind.shortLoadOpcode : ValueKind → UInt8
  | int => 0x1A
  | long => 0x1E
  | float => 0x22
  | double => 0x26
  | reference => 0x2A

/-- The byte that stands for an element type when an array is created. -/
def Primitive.arrayCode : Primitive → UInt8
  | boolean => 4
  | char => 5
  | float => 6
  | double => 7
  | byte => 8
  | short => 9
  | int => 10
  | long => 11

/-- The opcode of the wide form of a load. -/
def wideOpcode : UInt8 := 0xC4

/-! ### Instructions -/

/-- The bytes of a load: the shortest form that has room for the slot. -/
def encodeLoad (kind : ValueKind) (slot : UInt16) : List UInt8 :=
  if slot ≤ 3 then [kind.shortLoadOpcode + slot.toUInt8]
  else if slot ≤ 255 then [kind.loadOpcode, slot.toUInt8]
  else wideOpcode :: kind.loadOpcode :: Bytes.u16 slot

/-- The bytes of a push of a literal of one slot: the shortest form that has room for the index. -/
def encodeLdc (i : PoolIndex) : List UInt8 :=
  if i.val ≤ 255 then [0x12, i.val.toUInt8] else 0x13 :: i.encode

/-- The bytes of an invocation. An interface invocation ends with its count and a zero. -/
def encodeInvoke (method : PoolIndex) : InvokeKind → List UInt8
  | .virtual => 0xB6 :: method.encode
  | .special => 0xB7 :: method.encode
  | .static => 0xB8 :: method.encode
  | .interface count => 0xB9 :: (method.encode ++ [count, 0])

/-- **The bytes of an instruction.** -/
def Instruction.encode : ResolvedInstruction → List UInt8
  | .bare op => [op.opcode]
  | .bipush value => 0x10 :: Bytes.i8 value
  | .sipush value => 0x11 :: Bytes.i16 value
  | .ldc literal => encodeLdc literal
  | .ldc2 literal => 0x14 :: literal.encode
  | .load kind slot => encodeLoad kind slot
  | .access op field => op.opcode :: field.encode
  | .invoke kind method => encodeInvoke method kind
  | .newArray element => [0xBC, element.arrayCode]
  | .newRefArray element => 0xBD :: element.encode
  | .checkCast target => 0xC0 :: target.encode

end JvmCodegen
