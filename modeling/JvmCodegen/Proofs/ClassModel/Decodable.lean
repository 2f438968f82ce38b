/-
**Class files are read back.**

Nothing is lost when the class file of a class is written: its texts are short enough, the count of
its constants is exact, and all other lengths and indices fit in their places.  So the bytes
determine the class file, constant by constant and member by member, and the bodies of its methods
with the sizes of their frames.

Main results:

* `ConstantPool.Grows.exists_encodeConstants` — a pool that has grown from nothing can be written;
* `ClassModel.isSound_of_toClassFile` — everything in the class file of a class fits;
* `ClassModel.class_file_is_read` — **the class file of a class is read back**.
-/

import Mathlib
import JvmCodegen.Proofs.ClassModel.Building

set_option relaxedAutoImplicit false
set_option autoImplicit false

namespace JvmCodegen

open ConstantPool

/-! ### Writing the constants -/

namespace ConstantPool

variable {pool : ConstantPool} {n : Nat}

/-- A constant that is built has a written form: a text that is too long is never built. -/
theorem Builds.exists_encode {o : Operand} {key : PoolKey} {c : Constant} (h : pool.Builds o key c) :
    ∃ written, c.encode = .ok written := by
  cases h with
  | @utf8 content hlength =>
      rw [← ModifiedUtf8.length_encode] at hlength
      have hcontent : Constant.encodeUtf8 content =
          .ok (Bytes.u16 (UInt16.ofNat (ModifiedUtf8.encode content).length) ++
            ModifiedUtf8.encode content) := if_pos hlength
      rw [Constant.encode, Constant.encodeBody, hcontent]
      exact ⟨_, rfl⟩
  | _ => exact ⟨_, rfl⟩

theorem Grows.exists_encode (h : Grows n .empty pool) :
    ∀ entry ∈ pool.constants.toList, ∃ written, entry.2.encode = .ok written := by
  induction h with
  | refl => exact fun entry hentry => absurd hentry List.not_mem_nil
  | add _ _ hbuilds _ _ ih =>
      intro entry hentry
      rw [constants_withConstant, OffsetList.toList_push] at hentry
      rcases List.mem_append.1 hentry with hold | hlatest
      · exact ih entry hold
      · cases List.mem_singleton.1 hlatest
        exact hbuilds.exists_encode

/-- **A pool that has grown from nothing can be written.** -/
theorem Grows.exists_encodeConstants (h : Grows n .empty pool) :
    ∃ written, ClassFile.encodeConstants pool.constants = .ok written := by
  refine Reader.exists_encodeEach fun c hc => ?_
  obtain ⟨entry, hentry, rfl⟩ := List.mem_map.1 hc
  exact h.exists_encode entry hentry

end ConstantPool

/-! ### Reading the class file -/

/-- The contents of a `Code` attribute that some bytes are, all of them. -/
def CodeAttribute.decode? (written : List UInt8) : Option CodeAttribute := reader.run? written

/-- The body of a method is read back out of its attribute. -/
theorem MethodBody.IsEncodedIn.decode?_eq {b : MethodBody} {a : Attribute} (h : b.IsEncodedIn a) :
    ∃ (pool : ConstantPool) (contents : CodeAttribute), (b.toAttribute pool).1 = .ok contents ∧
      contents.encode = .ok a.info ∧ CodeAttribute.decode? a.info = some contents ∧
      contents.maxStack = b.maxStack ∧ contents.maxLocals = b.maxLocals := by
  obtain ⟨pool, contents, hcontents, hwritten⟩ := h
  obtain ⟨hattributes, hlength, hstack, hlocals⟩ :=
    (MethodBody.onlyAdds_toAttribute (by decide) b.loadsBelow_four pool).result contents hcontents
  have hlt : contents.code.length < 2 ^ 32 := Nat.lt_of_le_of_lt hlength (by decide)
  have hfits : ∀ a ∈ contents.attributes, a.Fits := by
    rw [hattributes]
    exact fun a ha => absurd ha List.not_mem_nil
  have hread := CodeAttribute.reads_encode hlt hfits hwritten
  exact ⟨pool, contents, hcontents, hwritten, hread.run?_eq, hstack, hlocals⟩

namespace ClassModel

variable {m : ClassModel} {graph : ClassGraph} {version : Version} {file : ClassFile}

/-- Everything in a class file fits in its place. -/
theorem isSound_of_toClassFile (h : m.toClassFile graph version = .ok file) : file.IsSound := by
  obtain ⟨pool, hgrows, hbuilt⟩ := toClassFile_eq_ok h
  have hfaithful := hgrows.faithful faithful_empty
  have hlaid := hgrows.isLaidOut isLaidOut_empty faithful_empty
  refine ⟨?_, ?_, fun i hi hzero => ?_, fun info hinfo => ?_, fun info hinfo => ?_, ?_⟩
  · rw [hbuilt.constants]
    exact hlaid.consecutive
  · rw [hbuilt.constants]
    exact hlaid.next_le
  · -- the constants begin at 1, so no constant has the index 0
    obtain ⟨superclass, -, hindex⟩ := hbuilt.superClass i hi
    obtain ⟨c, hc⟩ := hfaithful.mem_of_index? hindex
    have hpos := (hlaid.consecutive.bounds hc).1
    rw [hzero] at hpos
    exact Nat.not_succ_le_zero 0 hpos
  · obtain ⟨f, -, hf⟩ := exists_mem_of_forall₂_right hbuilt.fields hinfo
    exact fun a ha => Attribute.fits_of_info_eq_nil (hf.empty a ha)
  · obtain ⟨method, -, hmethod⟩ := exists_mem_of_forall₂_right hbuilt.methods hinfo
    exact hmethod.fits
  · rw [hbuilt.attributes]
    exact fun a ha => absurd ha List.not_mem_nil

/-- The entry of a method with a body begins with an attribute that holds it. -/
theorem exists_code_of_toClassFile (h : m.toClassFile graph version = .ok file) {n : Nat}
    {method : MethodModel} {body : MethodBody} (hmethod : m.methods[n]? = some method)
    (hbody : method.body = some body) :
    ∃ (info : MemberInfo .method) (a : Attribute) (rest : List Attribute),
      file.methods[n]? = some info ∧ info.attributes = a :: rest ∧
      readText? file.constants a.name = some CodeAttribute.name ∧ body.IsEncodedIn a := by
  obtain ⟨pool, hgrows, hbuilt⟩ := toClassFile_eq_ok h
  have hfaithful := hgrows.faithful faithful_empty
  rw [← Array.getElem?_toList] at hmethod
  obtain ⟨info, hinfo, hentry⟩ := exists_getElem?_of_forall₂ hbuilt.methods hmethod
  obtain ⟨a, rest, hattributes, hname, hencoded⟩ := hentry.body body hbody
  rw [hbuilt.constants]
  exact ⟨info, a, rest, hinfo, hattributes, hfaithful.isReadAt hname, hencoded⟩

/-- **The class file of a class is read back.** Its constants always have a written form, and their
count is exact. If the class file has a written form, all of those bytes are read as that class file
again. The body of each method is read back out of the attribute that the entry of the method begins
with: what is read is what was made of the body, with the same sizes of the frame. -/
theorem class_file_is_read (h : m.toClassFile graph version = .ok file) :
    (∃ constants, ClassFile.encodeConstants file.constants = .ok constants) ∧
    (UInt16.ofNat file.constants.next).toNat = file.constants.next ∧
    (∀ written, file.encode = .ok written → ClassFile.decode? written = some file) ∧
    ∀ (n : Nat) (method : MethodModel) (body : MethodBody), m.methods[n]? = some method →
      method.body = some body →
      ∃ (info : MemberInfo .method) (a : Attribute) (rest : List Attribute) (pool : ConstantPool)
        (contents : CodeAttribute),
        file.methods[n]? = some info ∧ info.attributes = a :: rest ∧
        readText? file.constants a.name = some CodeAttribute.name ∧
        (body.toAttribute pool).1 = .ok contents ∧ contents.encode = .ok a.info ∧
        CodeAttribute.decode? a.info = some contents ∧
        contents.maxStack = body.maxStack ∧ contents.maxLocals = body.maxLocals := by
  have hsound := isSound_of_toClassFile h
  refine ⟨?_, hsound.toNat_count, fun written => ClassFile.decode?_encode hsound, ?_⟩
  · obtain ⟨pool, hgrows, hbuilt⟩ := toClassFile_eq_ok h
    rw [hbuilt.constants]
    exact hgrows.exists_encodeConstants
  · intro n method body hmethod hbody
    obtain ⟨info, a, rest, hinfo, hattributes, hname, hencoded⟩ :=
      exists_code_of_toClassFile h hmethod hbody
    obtain ⟨pool, contents, hcontents, hwritten, hread, hstack, hlocals⟩ := hencoded.decode?_eq
    exact ⟨info, a, rest, pool, contents, hinfo, hattributes, hname, hcontents, hwritten, hread,
      hstack, hlocals⟩

/-- A class that has bytes has a class file, of which they are the bytes. -/
theorem encode_eq_ok {written : List UInt8} (h : m.encode graph version = .ok written) :
    ∃ file, m.toClassFile graph version = .ok file ∧ file.encode = .ok written := by
  unfold encode at h
  split at h
  case h_1 => cases h
  case h_2 file hfile =>
      refine ⟨file, hfile, ?_⟩
      cases hwritten : file.encode with
      | error reason =>
          rw [hwritten] at h
          cases h
      | ok bytes =>
          rw [hwritten] at h
          cases h
          rfl

/-! ### A small class -/

/-- A class with a field of two slots, and a method that returns a number of two slots. -/
def wide : ClassModel :=
  let declared : Class := ⟨0, ⟨"A"⟩, ClassFlags.publicClass⟩
  let count : Field := ⟨0, declared, ⟨"n"⟩, .primitive .long, FieldFlags.staticFlag⟩
  let get : Method := ⟨0, declared, ⟨"m"⟩, ⟨[], some (.primitive .long)⟩, MethodFlags.staticFlag⟩
  ⟨declared, #[count], #[⟨get, some ⟨0, 2, #[.ldc2 (.long 5), .bare .lreturn]⟩⟩]⟩

theorem encode_wide : ∃ written, wide.encode .empty Version.java8 = .ok written := by
  have hok : (wide.encode .empty Version.java8).toBool = true := by cbv
  cases hwritten : wide.encode .empty Version.java8 with
  | error reason =>
      rw [hwritten] at hok
      cases hok
  | ok written => exact ⟨written, rfl⟩

/-- The class and the body of its method are read back. -/
theorem class_file_is_read_wide :
    ∃ (file : ClassFile) (written : List UInt8) (info : MemberInfo .method) (a : Attribute)
      (contents : CodeAttribute),
      wide.toClassFile .empty Version.java8 = .ok file ∧ file.encode = .ok written ∧
      ClassFile.decode? written = some file ∧ file.methods[0]? = some info ∧
      info.attributes.head? = some a ∧ CodeAttribute.decode? a.info = some contents ∧
      contents.maxStack = 2 ∧ contents.maxLocals = 0 := by
  obtain ⟨written, hbytes⟩ := encode_wide
  obtain ⟨file, hfile, hwritten⟩ := encode_eq_ok hbytes
  obtain ⟨-, -, hread, hmethods⟩ := class_file_is_read hfile
  obtain ⟨info, a, rest, pool, contents, hinfo, hattributes, -, -, -, hcode, hstack, hlocals⟩ :=
    hmethods 0 _ _ rfl rfl
  have hhead : info.attributes.head? = some a := by rw [hattributes, List.head?_cons]
  exact ⟨file, written, info, a, contents, hfile, hwritten, hread written hwritten, hinfo, hhead,
    hcode, hstack, hlocals⟩

end ClassModel

end JvmCodegen
