/-
**Reading a class file.**

The class file format is read from front to back: a tag tells what kind of constant comes next, the
count of the constants tells when the last one has been read, and everything that varies in length
says how long it is.  A class file that was written is read back whole, unless a length or an index
did not fit in its place.

Main definitions:

* `Constant.reader`, `Constant.readUpTo` — a constant, and all constants of a pool;
* `Attribute.reader`, `CodeAttribute.reader`, `MemberInfo.reader`, `ClassFile.reader` — the parts of
  a class file, and all of it;
* `ClassFile.IsSound` — every length and every index fits in its place.

Main results:

* `Constant.reads_encode`, `Constant.reads_encodeConstants` — what was written of a pool is read;
* `CodeAttribute.reads_encode` — so is a method body;
* `ClassFile.reads_encode` — **and so is a class file**.
-/

import JvmCodegen.ClassFile
import JvmCodegen.Proofs.Bytes.Reader
import JvmCodegen.Proofs.ConstantPool.Growth
import JvmCodegen.Proofs.Text.ModifiedUtf8

set_option relaxedAutoImplicit false
set_option autoImplicit false

namespace JvmCodegen

open Reader (Reads)

/-- What a computation with a result consists of. -/
theorem exists_of_bind_eq_ok {ε α β : Type} {x : Except ε α} {next : α → Except ε β} {b : β}
    (h : x >>= next = .ok b) : ∃ a, x = .ok a ∧ next a = .ok b := by
  cases x with
  | error e => cases h
  | ok a => exact ⟨a, rfl, h⟩

/-! ### Constants -/

def PoolIndex.reader : Reader PoolIndex := do return ⟨← Reader.u16⟩

theorem PoolIndex.reads_encode (i : PoolIndex) : Reads reader i.encode i :=
  (Reader.reads_u16 i.val).map

/-- The way of invoking that a byte stands for. -/
def HandleKind.ofCode? : UInt8 → Option HandleKind
  | 5 => some .invokeVirtual
  | 6 => some .invokeStatic
  | 7 => some .invokeSpecial
  | 8 => some .newInvokeSpecial
  | 9 => some .invokeInterface
  | _ => none

theorem HandleKind.ofCode?_code (kind : HandleKind) : ofCode? kind.code = some kind := by
  cases kind <;> rfl

namespace Constant

/-- A text: its length, and as many bytes. -/
def textReader : Reader String := do
  let length ← Reader.u16
  let content ← Reader.bytes length.toNat
  Reader.ofOption (ModifiedUtf8.decode? content)

/-- What follows a tag. -/
def bodyReader : UInt8 → Reader Constant
  | 1 => do return .utf8 (← textReader)
  | 3 => do return .integer (← Reader.u32).toInt32
  | 4 => do return .float (← Reader.u32)
  | 5 => do return .long (← Reader.u64).toInt64
  | 6 => do return .double (← Reader.u64)
  | 7 => do return .type (← PoolIndex.reader)
  | 8 => do return .text (← PoolIndex.reader)
  | 9 => do return .field (← PoolIndex.reader) (← PoolIndex.reader)
  | 10 => do return .method (← PoolIndex.reader) (← PoolIndex.reader) false
  | 11 => do return .method (← PoolIndex.reader) (← PoolIndex.reader) true
  | 12 => do return .nameAndType (← PoolIndex.reader) (← PoolIndex.reader)
  | 15 => do
      let code ← Reader.u8
      let kind ← Reader.ofOption (HandleKind.ofCode? code)
      return .methodHandle kind (← PoolIndex.reader)
  | _ => Reader.ofOption none

/-- A constant begins with its tag. -/
def reader : Reader Constant := do
  let tag ← Reader.u8
  bodyReader tag

/-- The constants that end at an offset, after those that were read before. -/
def readUpTo (stop : Nat) (xs : OffsetList Constant) : Reader (OffsetList Constant) :=
  if _hless : xs.next < stop then do
    let c ← reader
    readUpTo stop (xs.push c)
  else do
    Reader.check (xs.next = stop)
    return xs
termination_by stop - xs.next
decreasing_by
  have := c.width_pos
  rw [OffsetList.next_push]
  omega

theorem reads_encodeUtf8 {content : String} {written : List UInt8}
    (h : encodeUtf8 content = .ok written) : Reads textReader written content := by
  unfold encodeUtf8 at h
  dsimp only at h
  split at h
  case isFalse => cases h
  case isTrue hle =>
      cases h
      have hlength : (UInt16.ofNat (ModifiedUtf8.encode content).length).toNat =
          (ModifiedUtf8.encode content).length := by
        rw [UInt16.toNat_ofNat']
        exact Nat.mod_eq_of_lt (Nat.lt_succ_of_le hle)
      have hbytes := Reader.reads_bytes (ModifiedUtf8.encode content)
      rw [← hlength] at hbytes
      have hcontent := Reader.reads_ofOption (ModifiedUtf8.decode?_encode content)
      exact (Reader.reads_u16 _).bind (hbytes.before_none hcontent)

/-- A pair of indices. -/
theorem reads_indices (make : PoolIndex → PoolIndex → Constant) (i j : PoolIndex) :
    Reads (do return make (← PoolIndex.reader) (← PoolIndex.reader)) (i.encode ++ j.encode)
      (make i j) :=
  i.reads_encode.bind j.reads_encode.map

/-- What follows the tag of a constant is read by it. -/
theorem reads_encodeBody {c : Constant} {written : List UInt8} (h : c.encodeBody = .ok written) :
    Reads (bodyReader c.tag) written c := by
  cases c with
  | utf8 content => exact (reads_encodeUtf8 h).map
  | integer value =>
      cases h
      have hvalue := (Reader.reads_u32 value.toUInt32).map (f := fun n => integer n.toInt32)
      rw [Int32.toInt32_toUInt32] at hvalue
      exact hvalue
  | float bits =>
      cases h
      exact (Reader.reads_u32 bits).map
  | long value =>
      cases h
      have hvalue := (Reader.reads_u64 value.toUInt64).map (f := fun n => long n.toInt64)
      rw [Int64.toInt64_toUInt64] at hvalue
      exact hvalue
  | double bits =>
      cases h
      exact (Reader.reads_u64 bits).map
  | type name =>
      cases h
      exact name.reads_encode.map
  | text content =>
      cases h
      exact content.reads_encode.map
  | field owner member =>
      cases h
      exact reads_indices .field owner member
  | method owner member isInterface =>
      cases h
      cases isInterface with
      | false => exact reads_indices (method · · false) owner member
      | true => exact reads_indices (method · · true) owner member
  | nameAndType name descriptor =>
      cases h
      exact reads_indices .nameAndType name descriptor
  | methodHandle kind target =>
      cases h
      have hkind := Reader.reads_ofOption (HandleKind.ofCode?_code kind)
      exact (Reader.reads_u8 kind.code).bind (hkind.bind target.reads_encode.map)

/-- **A constant that was written is read.** -/
theorem reads_encode {c : Constant} {written : List UInt8} (h : c.encode = .ok written) :
    Reads reader written c := by
  unfold encode at h
  cases hbody : c.encodeBody with
  | error e =>
      rw [hbody] at h
      cases h
  | ok body =>
      rw [hbody] at h
      cases h
      exact (Reader.reads_u8 c.tag).bind (reads_encodeBody hbody)

/-- Consecutive constants that were written are read, and get their offsets again. -/
theorem reads_readUpTo {entries : List (Nat × Constant)} {stop : Nat} {written : List UInt8}
    (hwritten : Bytes.encodeEach encode [] (entries.map Prod.snd) = .ok written)
    {xs : OffsetList Constant} (h : OffsetList.Consecutive xs.next entries stop) :
    Reads (readUpTo stop xs) written ((entries.map Prod.snd).foldl OffsetList.push xs) := by
  induction entries generalizing xs written with
  | nil =>
      cases hwritten
      cases h
      rw [readUpTo, dif_neg (Nat.lt_irrefl _)]
      exact (Reader.reads_check rfl).bind (.pure xs)
  | cons entry entries ih =>
      obtain ⟨offset, c⟩ := entry
      obtain ⟨rfl, hrest⟩ := h
      obtain ⟨head, rest, hhead, hothers, rfl⟩ := Reader.encodeEach_cons_eq_ok.1 hwritten
      have hless : xs.next < stop :=
        Nat.lt_of_lt_of_le (Nat.lt_add_of_pos_right c.width_pos) hrest.start_le
      -- the constant goes to the offset that it came from, as nothing lies between two constants
      rw [readUpTo, dif_pos hless]
      exact (reads_encode hhead).bind (ih hothers hrest)

/-- **The constants of a pool that were written are read.** -/
theorem reads_encodeConstants {constants : OffsetList Constant} {written : List UInt8}
    (hwritten : ClassFile.encodeConstants constants = .ok written)
    (h : OffsetList.Consecutive 1 constants.toList constants.next) :
    Reads (readUpTo constants.next (OffsetList.startingAt 1)) written constants := by
  have hstart : OffsetList.Consecutive (OffsetList.startingAt 1 : OffsetList Constant).next
      constants.toList constants.next := h
  have heq : (constants.toList.map Prod.snd).foldl OffsetList.push (OffsetList.startingAt 1) =
      constants := by
    rw [hstart.foldl_push]
    simp [OffsetList.startingAt, OffsetList.toList]
  have hread := reads_readUpTo hwritten hstart
  rw [heq] at hread
  exact hread

end Constant

/-! ### Attributes -/

/-- The length of the body fits in 32 bits. -/
def Attribute.Fits (a : Attribute) : Prop := a.info.length < 2 ^ 32

/-- A length of 32 bits, and as many bytes. -/
def lengthPrefixed : Reader (List UInt8) := do
  let length ← Reader.u32
  Reader.bytes length.toNat

theorem reads_lengthPrefixed {info : List UInt8} (h : info.length < 2 ^ 32) :
    Reads lengthPrefixed (Bytes.u32 (UInt32.ofNat info.length) ++ info) info := by
  have hlength : (UInt32.ofNat info.length).toNat = info.length := by
    rw [UInt32.toNat_ofNat']
    exact Nat.mod_eq_of_lt h
  refine (Reader.reads_u32 _).bind ?_
  rw [hlength]
  exact Reader.reads_bytes info

/-- An attribute: its name, and a body that begins with its length. -/
def Attribute.reader : Reader Attribute := do
  let name ← PoolIndex.reader
  let info ← lengthPrefixed
  return ⟨name, info⟩

theorem Attribute.reads_encode {a : Attribute} (h : a.Fits) : Reads reader a.encode a := by
  rw [encode, List.append_assoc]
  exact a.name.reads_encode.bind (reads_lengthPrefixed h).map

/-- The contents of a `Code` attribute without exception handlers. -/
def CodeAttribute.reader : Reader CodeAttribute := do
  let maxStack ← Reader.u16
  let maxLocals ← Reader.u16
  let code ← lengthPrefixed
  let handlers ← Reader.u16
  Reader.check (handlers = 0)
  let attributes ← Reader.counted Attribute.reader
  return ⟨maxStack, maxLocals, code, attributes⟩

/-- **A method body that was written is read.** -/
theorem CodeAttribute.reads_encode {c : CodeAttribute} {written : List UInt8}
    (hcode : c.code.length < 2 ^ 32) (hattributes : ∀ a ∈ c.attributes, a.Fits)
    (h : c.encode = .ok written) : Reads reader written c := by
  unfold encode at h
  cases hcounted : Bytes.counted Attribute.encode c.attributes with
  | error e =>
      rw [hcounted] at h
      cases h
  | ok attributes =>
      rw [hcounted] at h
      cases h
      have hread := Reader.reads_counted hcounted fun a ha => Attribute.reads_encode (hattributes a ha)
      simp only [List.append_assoc]
      refine (Reader.reads_u16 _).bind ((Reader.reads_u16 _).bind ?_)
      -- the length of the code and the code itself are taken by one reader
      rw [← List.append_assoc]
      refine (reads_lengthPrefixed hcode).bind ?_
      refine (Reader.reads_u16 0).bind ?_
      exact (Reader.reads_check rfl).after_none hread.map

/-! ### Members -/

/-- The entry of a field or a method. -/
def MemberInfo.reader (kind : DeclarationKind) : Reader (MemberInfo kind) := do
  let flags ← Reader.u16
  let name ← PoolIndex.reader
  let descriptor ← PoolIndex.reader
  let attributes ← Reader.counted Attribute.reader
  return ⟨⟨flags⟩, name, descriptor, attributes⟩

theorem MemberInfo.reads_encode {kind : DeclarationKind} {m : MemberInfo kind} {written : List UInt8}
    (hattributes : ∀ a ∈ m.attributes, a.Fits) (h : m.encode = .ok written) :
    Reads (reader kind) written m := by
  unfold encode at h
  cases hcounted : Bytes.counted Attribute.encode m.attributes with
  | error e =>
      rw [hcounted] at h
      cases h
  | ok attributes =>
      rw [hcounted] at h
      cases h
      have hread := Reader.reads_counted hcounted fun a ha => Attribute.reads_encode (hattributes a ha)
      simp only [List.append_assoc]
      refine (Reader.reads_u16 _).bind (m.name.reads_encode.bind ?_)
      exact m.descriptor.reads_encode.bind hread.map

/-! ### Class files -/

namespace ClassFile

/-- Every length and every index of a class file fits in its place, and no superclass is at the index
that says that there is none. -/
structure IsSound (f : ClassFile) : Prop where
  consecutive : OffsetList.Consecutive 1 f.constants.toList f.constants.next
  next_le : f.constants.next ≤ 65535
  superClass : ∀ i, f.superClass = some i → i.val ≠ 0
  fields : ∀ m ∈ f.fields, ∀ a ∈ m.attributes, a.Fits
  methods : ∀ m ∈ f.methods, ∀ a ∈ m.attributes, a.Fits
  attributes : ∀ a ∈ f.attributes, a.Fits

/-- The index of the superclass, where 0 says that there is none. -/
def superReader : Reader (Option PoolIndex) := do
  let i ← Reader.u16
  return if i = 0 then none else some ⟨i⟩

/-- A class file, part by part. -/
def reader : Reader ClassFile := do
  let start ← Reader.bytes 4
  Reader.check (start = magic)
  let minor ← Reader.u16
  let major ← Reader.u16
  let count ← Reader.u16
  let constants ← Constant.readUpTo count.toNat (OffsetList.startingAt 1)
  let flags ← Reader.u16
  let thisClass ← PoolIndex.reader
  let superClass ← superReader
  let interfaces ← Reader.counted PoolIndex.reader
  let fields ← Reader.counted (MemberInfo.reader .field)
  let methods ← Reader.counted (MemberInfo.reader .method)
  let attributes ← Reader.counted Attribute.reader
  return ⟨⟨major, minor⟩, constants, ⟨flags⟩, thisClass, superClass, interfaces, fields, methods,
    attributes⟩

/-- The class file that some bytes are, all of them. -/
def decode? (written : List UInt8) : Option ClassFile := reader.run? written

theorem reads_superClass {superClass : Option PoolIndex} :
    (∀ i, superClass = some i → i.val ≠ 0) →
    Reads superReader (match superClass with | none => Bytes.u16 0 | some i => i.encode)
      superClass := by
  intro h
  cases superClass with
  | none => exact (Reader.reads_u16 0).map
  | some i =>
      have hread := (Reader.reads_u16 i.val).map
        (f := fun n => if n = 0 then none else some (PoolIndex.mk n))
      rw [if_neg (h i rfl)] at hread
      exact hread

/-- The count of a sound class file is not cut off. -/
theorem IsSound.toNat_count {f : ClassFile} (h : f.IsSound) :
    (UInt16.ofNat f.constants.next).toNat = f.constants.next := by
  rw [UInt16.toNat_ofNat']
  exact Nat.mod_eq_of_lt (Nat.lt_succ_of_le h.next_le)

/-- The parts that a written class file consists of. -/
theorem encode_eq_ok {f : ClassFile} {written : List UInt8} (h : f.encode = .ok written) :
    ∃ constants interfaces fields methods attributes,
      encodeConstants f.constants = .ok constants ∧
      Bytes.counted PoolIndex.encode f.interfaces = .ok interfaces ∧
      Bytes.countedM MemberInfo.encode f.fields = .ok fields ∧
      Bytes.countedM MemberInfo.encode f.methods = .ok methods ∧
      Bytes.counted Attribute.encode f.attributes = .ok attributes ∧
      written = magic ++ (Bytes.u16 f.version.minor ++ (Bytes.u16 f.version.major ++
        (Bytes.u16 (UInt16.ofNat f.constants.next) ++ (constants ++ (Bytes.u16 f.flags.bits ++
        (f.thisClass.encode ++ ((match f.superClass with | none => Bytes.u16 0 | some i => i.encode) ++
        (interfaces ++ (fields ++ (methods ++ attributes)))))))))) := by
  unfold encode at h
  obtain ⟨constants, hconstants, h⟩ := exists_of_bind_eq_ok h
  obtain ⟨interfaces, hinterfaces, h⟩ := exists_of_bind_eq_ok h
  obtain ⟨fields, hfields, h⟩ := exists_of_bind_eq_ok h
  obtain ⟨methods, hmethods, h⟩ := exists_of_bind_eq_ok h
  obtain ⟨attributes, hattributes, h⟩ := exists_of_bind_eq_ok h
  refine ⟨constants, interfaces, fields, methods, attributes, hconstants, hinterfaces, hfields,
    hmethods, hattributes, ?_⟩
  have hwritten := Except.ok.inj h
  simp only [Version.encode, List.append_assoc] at hwritten
  exact hwritten.symm

/-- **A class file that was written is read.** -/
theorem reads_encode {f : ClassFile} (h : f.IsSound) {written : List UInt8}
    (hwritten : f.encode = .ok written) : Reads reader written f := by
  obtain ⟨constants, interfaces, fields, methods, attributes, hconstants, hinterfaces, hfields,
    hmethods, hattributes, rfl⟩ := encode_eq_ok hwritten
  have hconstants := Constant.reads_encodeConstants hconstants h.consecutive
  rw [← h.toNat_count] at hconstants
  have hinterfaces := Reader.reads_counted hinterfaces fun i _ => i.reads_encode
  have hfields := Reader.reads_countedM hfields fun m hm _ => MemberInfo.reads_encode (h.fields m hm)
  have hmethods := Reader.reads_countedM hmethods fun m hm _ => MemberInfo.reads_encode (h.methods m hm)
  have hattributes := Reader.reads_counted hattributes fun a ha =>
    Attribute.reads_encode (h.attributes a ha)
  refine (Reader.reads_bytes magic).bind ((Reader.reads_check rfl).after_none ?_)
  refine (Reader.reads_u16 _).bind ((Reader.reads_u16 _).bind ((Reader.reads_u16 _).bind ?_))
  refine hconstants.bind ((Reader.reads_u16 _).bind (f.thisClass.reads_encode.bind ?_))
  refine (reads_superClass h.superClass).bind ?_
  refine hinterfaces.bind (hfields.bind ?_)
  exact hmethods.bind hattributes.map

/-- **All bytes of a class file are read as it.** -/
theorem decode?_encode {f : ClassFile} (h : f.IsSound) {written : List UInt8}
    (hwritten : f.encode = .ok written) : decode? written = some f :=
  (reads_encode h hwritten).run?_eq

end ClassFile

end JvmCodegen
