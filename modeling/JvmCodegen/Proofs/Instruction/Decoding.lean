/-
**Reading bytecode.**

The virtual machine reads bytecode from left to right: an opcode says what instruction begins here,
and the operands follow.  The table below is that of the machine, for the opcodes that the library
writes.  Forms of one instruction that differ only in the width of an operand are read as that one
instruction.

Main definitions:

* `OpcodeForm`, `OpcodeForm.ofOpcode?` — what an opcode announces;
* `Instruction.decode?` — the first instruction of some bytes, and the bytes behind it;
* `Instruction.decodeAll?` — the instructions that bytes consist of.

Main results:

* `Instruction.decode?_encode` — **an instruction that was written is read**, whatever follows;
* `Instruction.decodeAll?_flatMap_encode` — so are the instructions of a list;
* `Instruction.encodings_form_prefix_code` — **bytes are those of one list of instructions only**, and
  what begins alike was written alike.
-/

import JvmCodegen.Instruction.Encoding
import JvmCodegen.Proofs.Bytes

set_option relaxedAutoImplicit false
set_option autoImplicit false

namespace JvmCodegen

/-! ### Opcodes -/

/-- What an opcode announces. -/
inductive OpcodeForm
  | bare (op : BareOp)
  | bipush
  | sipush
  /-- A literal of one slot, with an index of one byte or of two. -/
  | ldc
  | ldcWide
  | ldc2
  /-- A load whose slot follows in one byte. -/
  | load (kind : ValueKind)
  /-- A load from one of the first four slots. -/
  | shortLoad (kind : ValueKind) (slot : UInt16)
  /-- The next opcode has an operand of two bytes. -/
  | wide
  | access (op : FieldOp)
  | invokeVirtual
  | invokeSpecial
  | invokeStatic
  | invokeInterface
  | newArray
  | newRefArray
  | checkCast

/-- The table of opcodes. -/
def OpcodeForm.ofOpcode? (opcode : UInt8) : Option OpcodeForm :=
  match opcode.toNat with
  | 0x01 => some (.bare .aconstNull)
  | 0x02 => some (.bare .iconstM1)
  | 0x03 => some (.bare .iconst0)
  | 0x04 => some (.bare .iconst1)
  | 0x05 => some (.bare .iconst2)
  | 0x06 => some (.bare .iconst3)
  | 0x07 => some (.bare .iconst4)
  | 0x08 => some (.bare .iconst5)
  | 0x09 => some (.bare .lconst0)
  | 0x0A => some (.bare .lconst1)
  | 0x0B => some (.bare .fconst0)
  | 0x0C => some (.bare .fconst1)
  | 0x0D => some (.bare .fconst2)
  | 0x0E => some (.bare .dconst0)
  | 0x0F => some (.bare .dconst1)
  | 0x10 => some .bipush
  | 0x11 => some .sipush
  | 0x12 => some .ldc
  | 0x13 => some .ldcWide
  | 0x14 => some .ldc2
  | 0x15 => some (.load .int)
  | 0x16 => some (.load .long)
  | 0x17 => some (.load .float)
  | 0x18 => some (.load .double)
  | 0x19 => some (.load .reference)
  | 0x1A => some (.shortLoad .int 0)
  | 0x1B => some (.shortLoad .int 1)
  | 0x1C => some (.shortLoad .int 2)
  | 0x1D => some (.shortLoad .int 3)
  | 0x1E => some (.shortLoad .long 0)
  | 0x1F => some (.shortLoad .long 1)
  | 0x20 => some (.shortLoad .long 2)
  | 0x21 => some (.shortLoad .long 3)
  | 0x22 => some (.shortLoad .float 0)
  | 0x23 => some (.shortLoad .float 1)
  | 0x24 => some (.shortLoad .float 2)
  | 0x25 => some (.shortLoad .float 3)
  | 0x26 => some (.shortLoad .double 0)
  | 0x27 => some (.shortLoad .double 1)
  | 0x28 => some (.shortLoad .double 2)
  | 0x29 => some (.shortLoad .double 3)
  | 0x2A => some (.shortLoad .reference 0)
  | 0x2B => some (.shortLoad .reference 1)
  | 0x2C => some (.shortLoad .reference 2)
  | 0x2D => some (.shortLoad .reference 3)
  | 0x4F => some (.bare .iastore)
  | 0x50 => some (.bare .lastore)
  | 0x51 => some (.bare .fastore)
  | 0x52 => some (.bare .dastore)
  | 0x53 => some (.bare .aastore)
  | 0x54 => some (.bare .bastore)
  | 0x55 => some (.bare .castore)
  | 0x56 => some (.bare .sastore)
  | 0x57 => some (.bare .pop)
  | 0x58 => some (.bare .pop2)
  | 0x59 => some (.bare .dup)
  | 0x5C => some (.bare .dup2)
  | 0x85 => some (.bare .i2l)
  | 0x86 => some (.bare .i2f)
  | 0x87 => some (.bare .i2d)
  | 0x89 => some (.bare .l2f)
  | 0x8A => some (.bare .l2d)
  | 0x8D => some (.bare .f2d)
  | 0xAC => some (.bare .ireturn)
  | 0xAD => some (.bare .lreturn)
  | 0xAE => some (.bare .freturn)
  | 0xAF => some (.bare .dreturn)
  | 0xB0 => some (.bare .areturn)
  | 0xB1 => some (.bare .voidReturn)
  | 0xB2 => some (.access .getStatic)
  | 0xB3 => some (.access .putStatic)
  | 0xB4 => some (.access .getField)
  | 0xB5 => some (.access .putField)
  | 0xB6 => some .invokeVirtual
  | 0xB7 => some .invokeSpecial
  | 0xB8 => some .invokeStatic
  | 0xB9 => some .invokeInterface
  | 0xBC => some .newArray
  | 0xBD => some .newRefArray
  | 0xC0 => some .checkCast
  | 0xC4 => some .wide
  | _ => none

/-- The type of the elements that a byte stands for when an array is created. -/
def Primitive.ofArrayCode? (code : UInt8) : Option Primitive :=
  match code.toNat with
  | 4 => some .boolean
  | 5 => some .char
  | 6 => some .float
  | 7 => some .double
  | 8 => some .byte
  | 9 => some .short
  | 10 => some .int
  | 11 => some .long
  | _ => none

theorem ofOpcode?_bareOp (op : BareOp) : OpcodeForm.ofOpcode? op.opcode = some (.bare op) := by
  cases op <;> rfl

theorem ofOpcode?_fieldOp (op : FieldOp) : OpcodeForm.ofOpcode? op.opcode = some (.access op) := by
  cases op <;> rfl

theorem ofOpcode?_load (kind : ValueKind) :
    OpcodeForm.ofOpcode? kind.loadOpcode = some (.load kind) := by
  cases kind <;> rfl

theorem ofOpcode?_shortLoad (kind : ValueKind) {slot : UInt16} (h : slot ≤ 3) :
    OpcodeForm.ofOpcode? (kind.shortLoadOpcode + slot.toUInt8) = some (.shortLoad kind slot) := by
  have hslot : slot = 0 ∨ slot = 1 ∨ slot = 2 ∨ slot = 3 := by
    have := UInt16.le_iff_toNat_le.1 h
    simp only [← UInt16.toNat_inj, UInt16.reduceToNat] at this ⊢
    omega
  rcases hslot with rfl | rfl | rfl | rfl <;> cases kind <;> rfl

theorem ofArrayCode?_arrayCode (p : Primitive) :
    Primitive.ofArrayCode? p.arrayCode = some p := by
  cases p <;> rfl

/-! ### Instructions -/

/-- An instruction whose operand is the index of a constant, and what comes behind it. -/
def readIndexed? (make : PoolIndex → ResolvedInstruction) (bytes : List UInt8) :
    Option (ResolvedInstruction × List UInt8) :=
  (Bytes.readU16? bytes).map fun (n, rest) => (make ⟨n⟩, rest)

/-- The load that a wide opcode announces. -/
def readWide? : List UInt8 → Option (ResolvedInstruction × List UInt8)
  | [] => none
  | opcode :: bytes =>
      match OpcodeForm.ofOpcode? opcode with
      | some (.load kind) => (Bytes.readU16? bytes).map fun (slot, rest) => (.load kind slot, rest)
      | _ => none

/-- The invocation of an interface method, which ends with its count and a zero. -/
def readInterface? (bytes : List UInt8) : Option (ResolvedInstruction × List UInt8) :=
  match Bytes.readU16? bytes with
  | some (method, count :: zero :: rest) =>
      if zero = 0 then some (.invoke (.interface count) ⟨method⟩, rest) else none
  | _ => none

/-- The instruction that an opcode announces, with the operands that follow. -/
def OpcodeForm.read? (bytes : List UInt8) : OpcodeForm → Option (ResolvedInstruction × List UInt8)
  | bare op => some (.bare op, bytes)
  | bipush => (Bytes.readU8? bytes).map fun (value, rest) => (.bipush value.toInt8, rest)
  | sipush => (Bytes.readU16? bytes).map fun (value, rest) => (.sipush value.toInt16, rest)
  | ldc => (Bytes.readU8? bytes).map fun (i, rest) => (.ldc ⟨i.toUInt16⟩, rest)
  | ldcWide => readIndexed? .ldc bytes
  | ldc2 => readIndexed? .ldc2 bytes
  | load kind => (Bytes.readU8? bytes).map fun (slot, rest) => (.load kind slot.toUInt16, rest)
  | shortLoad kind slot => some (.load kind slot, bytes)
  | wide => readWide? bytes
  | access op => readIndexed? (.access op) bytes
  | invokeVirtual => readIndexed? (.invoke .virtual) bytes
  | invokeSpecial => readIndexed? (.invoke .special) bytes
  | invokeStatic => readIndexed? (.invoke .static) bytes
  | invokeInterface => readInterface? bytes
  | newArray => (Bytes.readU8? bytes).bind fun (code, rest) =>
      (Primitive.ofArrayCode? code).map fun p => (.newArray p, rest)
  | newRefArray => readIndexed? .newRefArray bytes
  | checkCast => readIndexed? .checkCast bytes

namespace Instruction

/-- The instruction at the beginning of some bytes, and the bytes behind it. -/
def decode? : List UInt8 → Option (ResolvedInstruction × List UInt8)
  | [] => none
  | opcode :: bytes => (OpcodeForm.ofOpcode? opcode).bind fun form => form.read? bytes

/-- The instructions that bytes consist of, `fuel` of them at most. -/
def decodeEach? : Nat → List UInt8 → Option (List ResolvedInstruction)
  | _, [] => some []
  | 0, _ :: _ => none
  | fuel + 1, bytes =>
      match decode? bytes with
      | none => none
      | some (i, rest) => (decodeEach? fuel rest).map (i :: ·)

/-- The instructions that bytes consist of. There cannot be more of them than bytes. -/
def decodeAll? (bytes : List UInt8) : Option (List ResolvedInstruction) :=
  decodeEach? bytes.length bytes

end Instruction

/-! ### What was written is read -/

theorem readIndexed?_encode (make : PoolIndex → ResolvedInstruction) (i : PoolIndex)
    (rest : List UInt8) : readIndexed? make (i.encode ++ rest) = some (make i, rest) := by
  rw [readIndexed?, PoolIndex.encode, Bytes.readU16?_u16]
  rfl

/-- An index that fits in a byte is read from it. -/
theorem toUInt16_toUInt8 {n : UInt16} (h : n ≤ 255) : n.toUInt8.toUInt16 = n := by
  have hle := UInt16.le_iff_toNat_le.1 h
  rw [← UInt16.toNat_inj, UInt8.toNat_toUInt16, UInt16.toNat_toUInt8]
  simp only [UInt16.reduceToNat] at hle
  omega

namespace Instruction

theorem decode?_load (kind : ValueKind) (slot : UInt16) (rest : List UInt8) :
    decode? (encodeLoad kind slot ++ rest) = some (.load kind slot, rest) := by
  unfold encodeLoad
  split
  case isTrue hshort =>
      rw [List.singleton_append, decode?, ofOpcode?_shortLoad kind hshort]
      rfl
  case isFalse =>
      split
      case isTrue hbyte =>
          rw [List.cons_append, List.cons_append, List.nil_append, decode?, ofOpcode?_load]
          simp only [Option.bind_some, OpcodeForm.read?, Bytes.readU8?, Option.map_some,
            toUInt16_toUInt8 hbyte]
      case isFalse =>
          have hwide : OpcodeForm.ofOpcode? wideOpcode = some .wide := rfl
          rw [List.cons_append, List.cons_append, decode?, hwide]
          simp only [Option.bind_some, OpcodeForm.read?, readWide?, ofOpcode?_load,
            Bytes.readU16?_u16, Option.map_some]

theorem decode?_ldc (i : PoolIndex) (rest : List UInt8) :
    decode? (encodeLdc i ++ rest) = some (.ldc i, rest) := by
  unfold encodeLdc
  split
  case isTrue hbyte =>
      have hldc : OpcodeForm.ofOpcode? 0x12 = some .ldc := rfl
      rw [List.cons_append, List.cons_append, List.nil_append, decode?, hldc]
      simp only [Option.bind_some, OpcodeForm.read?, Bytes.readU8?, Option.map_some,
        toUInt16_toUInt8 hbyte]
  case isFalse => exact readIndexed?_encode .ldc i rest

theorem decode?_invoke (kind : InvokeKind) (method : PoolIndex) (rest : List UInt8) :
    decode? (encodeInvoke method kind ++ rest) = some (.invoke kind method, rest) := by
  cases kind with
  | virtual => exact readIndexed?_encode (.invoke .virtual) method rest
  | special => exact readIndexed?_encode (.invoke .special) method rest
  | static => exact readIndexed?_encode (.invoke .static) method rest
  | interface count =>
      have hread : readInterface? (method.encode ++ ([count, 0] ++ rest)) =
          some (.invoke (.interface count) method, rest) := by
        rw [readInterface?, PoolIndex.encode, Bytes.readU16?_u16]
        rfl
      rw [encodeInvoke, List.cons_append, List.append_assoc]
      exact hread

/-- **An instruction that was written is read**, whatever follows. -/
theorem decode?_encode (i : ResolvedInstruction) (rest : List UInt8) :
    decode? (i.encode ++ rest) = some (i, rest) := by
  cases i with
  | bare op =>
      rw [encode, List.singleton_append, decode?, ofOpcode?_bareOp]
      rfl
  | bipush value =>
      have hvalue : value.toUInt8.toInt8 = value := Int8.toInt8_toUInt8 value
      show some (Instruction.bipush value.toUInt8.toInt8, rest) = _
      rw [hvalue]
  | sipush value =>
      have hvalue : value.toUInt16.toInt16 = value := Int16.toInt16_toUInt16 value
      have hsipush : OpcodeForm.ofOpcode? 0x11 = some .sipush := rfl
      rw [encode, List.cons_append, decode?, hsipush]
      simp only [Option.bind_some, OpcodeForm.read?, Bytes.i16, Bytes.readU16?_u16, Option.map_some,
        hvalue]
  | ldc literal => exact decode?_ldc literal rest
  | ldc2 literal => exact readIndexed?_encode .ldc2 literal rest
  | load kind slot => exact decode?_load kind slot rest
  | access op field =>
      rw [encode, List.cons_append, decode?, ofOpcode?_fieldOp]
      exact readIndexed?_encode (.access op) field rest
  | invoke kind method => exact decode?_invoke kind method rest
  | newArray element =>
      show ((Primitive.ofArrayCode? element.arrayCode).map fun p =>
        (Instruction.newArray p, rest)) = _
      rw [ofArrayCode?_arrayCode]
      rfl
  | newRefArray element => exact readIndexed?_encode .newRefArray element rest
  | checkCast target => exact readIndexed?_encode .checkCast target rest

theorem encode_ne_nil (i : ResolvedInstruction) : i.encode ≠ [] := by
  intro h
  have hdecode := decode?_encode i []
  rw [h] at hdecode
  cases hdecode

theorem decodeEach?_flatMap_encode {code : List ResolvedInstruction} {fuel : Nat}
    (h : code.length ≤ fuel) : decodeEach? fuel (code.flatMap encode) = some code := by
  induction code generalizing fuel with
  | nil =>
      rw [List.flatMap_nil, decodeEach?]
  | cons i code ih =>
      obtain ⟨fuel, rfl⟩ : ∃ k, fuel = k + 1 := ⟨fuel - 1, by simp only [List.length_cons] at h; omega⟩
      have hrest := ih (Nat.le_of_succ_le_succ h)
      rw [List.flatMap_cons]
      have hdecode := decode?_encode i (code.flatMap encode)
      cases hbytes : i.encode ++ code.flatMap encode with
      | nil => exact absurd (List.append_eq_nil_iff.1 hbytes).1 (encode_ne_nil i)
      | cons b bytes =>
          rw [hbytes] at hdecode
          simp only [decodeEach?, hdecode, hrest, Option.map_some]

/-- Every instruction takes at least one byte. -/
theorem length_le_flatMap_encode (code : List ResolvedInstruction) :
    code.length ≤ (code.flatMap encode).length := by
  induction code with
  | nil => exact Nat.le_refl 0
  | cons i code ih =>
      have := List.length_pos_iff.2 (encode_ne_nil i)
      rw [List.length_cons, List.flatMap_cons, List.length_append]
      omega

/-- **Instructions that were written one after the other are read**, and nothing is left. -/
theorem decodeAll?_flatMap_encode (code : List ResolvedInstruction) :
    decodeAll? (code.flatMap encode) = some code :=
  decodeEach?_flatMap_encode (length_le_flatMap_encode code)

/-! ### A prefix code -/

/-- An instruction tells where its bytes end. -/
theorem encode_append_inj {i j : ResolvedInstruction} {rest rest' : List UInt8} :
    i.encode ++ rest = j.encode ++ rest' ↔ i = j ∧ rest = rest' := by
  constructor
  · intro h
    have hread := decode?_encode i rest
    rw [h, decode?_encode j rest'] at hread
    cases hread
    exact ⟨rfl, rfl⟩
  · rintro ⟨rfl, rfl⟩
    rfl

/-- Code whose bytes are at the beginning of those of other code is the beginning of that code. -/
theorem prefix_of_flatMap_encode_prefix {code code' : List ResolvedInstruction}
    (h : code.flatMap encode <+: code'.flatMap encode) : code <+: code' := by
  induction code generalizing code' with
  | nil => exact List.nil_prefix
  | cons i code ih =>
      obtain ⟨rest, hrest⟩ := h
      rw [List.flatMap_cons, List.append_assoc] at hrest
      cases code' with
      | nil => exact absurd (List.append_eq_nil_iff.1 hrest).1 (encode_ne_nil i)
      | cons j code' =>
          rw [List.flatMap_cons] at hrest
          obtain ⟨rfl, htail⟩ := encode_append_inj.1 hrest
          exact List.cons_prefix_cons.2 ⟨rfl, ih ⟨rest, htail⟩⟩

/-- **The encodings of instructions form a prefix code.** The bytes of an instruction tell where they
end, whatever follows; no instruction begins with the bytes of another one; the bytes of some code begin
with those of other code only if the code does; and bytes are those of one list of instructions only. -/
theorem encodings_form_prefix_code :
    (∀ (i j : ResolvedInstruction) (rest rest' : List UInt8),
      i.encode ++ rest = j.encode ++ rest' ↔ i = j ∧ rest = rest') ∧
    (∀ i j : ResolvedInstruction, i.encode <+: j.encode ↔ i = j) ∧
    (∀ code code' : List ResolvedInstruction,
      code.flatMap encode <+: code'.flatMap encode ↔ code <+: code') ∧
    ∀ code code' : List ResolvedInstruction,
      code.flatMap encode = code'.flatMap encode ↔ code = code' := by
  refine ⟨fun i j rest rest' => encode_append_inj, fun i j => ?_, fun code code' => ?_,
    fun code code' => ?_⟩
  · constructor
    · rintro ⟨rest, hrest⟩
      have hread : i.encode ++ rest = j.encode ++ [] := hrest.trans (List.append_nil _).symm
      exact (encode_append_inj.1 hread).1
    · rintro rfl
      exact List.prefix_rfl
  · constructor
    · exact prefix_of_flatMap_encode_prefix
    · rintro ⟨later, rfl⟩
      rw [List.flatMap_append]
      exact List.prefix_append _ _
  · constructor
    · intro h
      have hbegins : code <+: code' := prefix_of_flatMap_encode_prefix (h ▸ List.prefix_rfl)
      have hends : code' <+: code := prefix_of_flatMap_encode_prefix (h ▸ List.prefix_rfl)
      exact hbegins.eq_of_length (Nat.le_antisymm hbegins.length_le hends.length_le)
    · rintro rfl
      rfl

end Instruction

end JvmCodegen
