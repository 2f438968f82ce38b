/-
**The code in a class file.**

Writing a class file looks the operands of every instruction up in the constant pool, and writes the
instructions as bytes with the indices of their operands.  Reading goes the other way: the bytes are
read as bytecode, and the indices are followed through the pool.  By then the pool has grown, for the
other methods and for everything else in the class file, but the code still means the same.

Main definitions:

* `NamedInstruction`, `Instruction.named` — an instruction whose operands are the names of things;
* `Instruction.read?` — following the indices of an instruction through a pool;
* `CodeAttribute.read?` — reading the contents of a `Code` attribute;
* `MethodBody.IsWrittenIn` — the attribute of a method holds its body.

Main results:

* `Instruction.yields_resolve`, `MethodBody.yields_toAttribute` — looking the operands up;
* `ClassModel.yields_build` — building a class file, list by list;
* `ClassModel.isWrittenIn_of_toClassFile` — all bodies are in the class file;
* `ClassModel.code_means_instructions` — **the code array means the instructions**.
-/

import Mathlib
import JvmCodegen.ClassModel
import JvmCodegen.Proofs.ConstantPool.Growth
import JvmCodegen.Proofs.Instruction.Decoding

set_option relaxedAutoImplicit false
set_option autoImplicit false

namespace JvmCodegen

open ConstantPool

/-! ### Instructions with names -/

/-- An instruction whose operands are the names of classes, literals and members. -/
abbrev NamedInstruction := Instruction String LiteralName FieldName MethodName

namespace Instruction

/-- The instruction with the names of its operands. -/
def named : SymbolicInstruction → NamedInstruction
  | .bare op => .bare op
  | .bipush value => .bipush value
  | .sipush value => .sipush value
  | .ldc literal => .ldc literal.fullName
  | .ldc2 literal => .ldc2 literal.fullName
  | .load kind slot => .load kind slot
  | .access op field => .access op field.fullName
  | .invoke kind method => .invoke kind method.fullName
  | .newArray element => .newArray element
  | .newRefArray element => .newRefArray (typeName element)
  | .checkCast target => .checkCast (typeName target)

/-- The instruction with its operands read through a pool. -/
def read? (constants : OffsetList Constant) : ResolvedInstruction → Option NamedInstruction
  | .bare op => some (.bare op)
  | .bipush value => some (.bipush value)
  | .sipush value => some (.sipush value)
  | .ldc literal => (readLiteral? constants literal).map .ldc
  | .ldc2 literal => (readLiteral? constants literal).map .ldc2
  | .load kind slot => some (.load kind slot)
  | .access op field => (readField? constants field).map (.access op)
  | .invoke kind method => (readMethod? constants method).map (.invoke kind)
  | .newArray element => some (.newArray element)
  | .newRefArray element => (readType? constants element).map .newRefArray
  | .checkCast target => (readType? constants target).map .checkCast

variable {constants later : OffsetList Constant} {pool : ConstantPool}

theorem read?_of_extends (h : Extends constants later) {i : ResolvedInstruction}
    {n : NamedInstruction} (hread : i.read? constants = some n) : i.read? later = some n := by
  cases i with
  | ldc literal | ldc2 literal =>
      obtain ⟨value, hvalue, rfl⟩ := Option.map_eq_some_iff.1 hread
      rw [read?, readLiteral?_of_extends h hvalue, Option.map_some]
  | access op field =>
      obtain ⟨value, hvalue, rfl⟩ := Option.map_eq_some_iff.1 hread
      rw [read?, readField?_of_extends h hvalue, Option.map_some]
  | invoke kind method =>
      obtain ⟨value, hvalue, rfl⟩ := Option.map_eq_some_iff.1 hread
      rw [read?, readMethod?_of_extends h hvalue, Option.map_some]
  | newRefArray type | checkCast type =>
      obtain ⟨value, hvalue, rfl⟩ := Option.map_eq_some_iff.1 hread
      rw [read?, readType?_of_extends h hvalue, Option.map_some]
  | _ => exact hread

/-! ### Looking operands up -/

/-- **Looking the operands of an instruction up** gives indices under which they are read again. -/
theorem yields_resolve (hpool : pool.Faithful) (i : SymbolicInstruction) :
    Yields pool (i.resolve pool) fun constants r => r.read? constants = some i.named := by
  cases i with
  | ldc literal =>
      refine (yields_literal hpool literal).map fun constants index hindex => ?_
      rw [read?, hindex]
      rfl
  | ldc2 literal =>
      refine (yields_literal hpool literal).map fun constants index hindex => ?_
      rw [read?, hindex]
      rfl
  | access op field =>
      refine (yields_field hpool field).map fun constants index hindex => ?_
      rw [read?, hindex]
      rfl
  | invoke kind method =>
      refine (yields_method hpool method).map fun constants index hindex => ?_
      rw [read?, hindex]
      rfl
  | newRefArray element =>
      refine (yields_type hpool element).map fun constants index hindex => ?_
      rw [read?, hindex]
      rfl
  | checkCast target =>
      refine (yields_type hpool target).map fun constants index hindex => ?_
      rw [read?, hindex]
      rfl
  | _ => exact .pure hpool rfl

/-- The instructions that some resolved ones are read as. -/
def ReadAs (constants : OffsetList Constant) (code : List ResolvedInstruction)
    (names : List NamedInstruction) : Prop :=
  code.map (read? constants) = names.map some

theorem ReadAs.mono {code : List ResolvedInstruction} {names : List NamedInstruction}
    (h : ReadAs constants code names) (hlater : Extends constants later) :
    ReadAs later code names := by
  induction code generalizing names with
  | nil => exact h
  | cons i code ih =>
      cases names with
      | nil => cases h
      | cons n names =>
          obtain ⟨hhead, htail⟩ := List.cons_eq_cons.1 h
          exact List.cons_eq_cons.2 ⟨read?_of_extends hlater hhead, ih htail⟩

theorem ReadAs.append {code code' : List ResolvedInstruction} {names names' : List NamedInstruction}
    (h : ReadAs constants code names) (h' : ReadAs constants code' names') :
    ReadAs constants (code ++ code') (names ++ names') := by
  rw [ReadAs, List.map_append, List.map_append, h, h']

/-- Reading one instruction after the other. -/
theorem ReadAs.mapM_eq {code : List ResolvedInstruction} {names : List NamedInstruction}
    (h : ReadAs constants code names) : code.mapM (read? constants) = some names := by
  induction code generalizing names with
  | nil =>
      cases names with
      | nil => rfl
      | cons n names => cases h
  | cons i code ih =>
      cases names with
      | nil => cases h
      | cons n names =>
          obtain ⟨hhead, htail⟩ := List.cons_eq_cons.1 h
          rw [List.mapM_cons, hhead, ih htail]
          rfl

/-- The instructions of a list, with those before them already resolved. -/
theorem yields_resolveEach (hpool : pool.Faithful) (instructions : List SymbolicInstruction)
    {done : List ResolvedInstruction} {names : List NamedInstruction}
    (hdone : ReadAs pool.constants done.reverse names) :
    Yields pool (resolveEach done instructions pool) fun constants code =>
      ReadAs constants code (names ++ instructions.map named) := by
  induction instructions generalizing done names pool with
  | nil =>
      refine ⟨hpool, .refl _, fun code hcode => ?_⟩
      cases hcode
      rw [List.map_nil, List.append_nil]
      exact hdone
  | cons i rest ih =>
      have hi := yields_resolve hpool i
      rw [resolveEach]
      cases hout : i.resolve pool with
      | mk outcome pool₁ =>
          rw [hout] at hi
          cases outcome with
          | error reason => exact ⟨hi.faithful, hi.extends_, fun _ h => by cases h⟩
          | ok resolved =>
              have hresolved : ReadAs pool₁.constants [resolved] [i.named] :=
                congrArg (fun n => [n]) (hi.result resolved rfl)
              -- what was resolved before is read as before, though the pool may have grown
              have hdone₁ : ReadAs pool₁.constants (resolved :: done).reverse (names ++ [i.named]) := by
                rw [List.reverse_cons]
                exact (hdone.mono hi.extends_).append hresolved
              have hrest := ih hi.faithful hdone₁
              rw [List.append_assoc] at hrest
              exact ⟨hrest.faithful, hi.extends_.trans hrest.extends_, hrest.result⟩

end Instruction

/-! ### The `Code` attribute -/

/-- The contents of a `Code` attribute without exception handlers and without attributes of its own:
the sizes of the frame, and as many bytes of code as announced. -/
def CodeAttribute.read? (bytes : List UInt8) : Option CodeAttribute :=
  (Bytes.readU16? bytes).bind fun (maxStack, bytes) =>
    (Bytes.readU16? bytes).bind fun (maxLocals, bytes) =>
      (Bytes.readU32? bytes).bind fun (length, bytes) =>
        if bytes.drop length.toNat = Bytes.u16 0 ++ Bytes.u16 0 then
          some ⟨maxStack, maxLocals, bytes.take length.toNat, []⟩
        else none

/-- The contents that were written are read, if the code is not too long for its length. -/
theorem CodeAttribute.read?_encode {c : CodeAttribute} (hattributes : c.attributes = [])
    (hlength : c.code.length ≤ 65535) {bytes : List UInt8} (h : c.encode = .ok bytes) :
    read? bytes = some c := by
  rcases c with ⟨maxStack, maxLocals, code, attributes⟩
  simp only at hattributes hlength
  subst hattributes
  have hlt : code.length < 2 ^ 32 := Nat.lt_of_le_of_lt hlength (by decide)
  have htoNat : (UInt32.ofNat code.length).toNat = code.length := by
    rw [UInt32.toNat_ofNat', Nat.mod_eq_of_lt hlt]
  cases h
  simp only [read?, List.append_assoc, Bytes.readU16?_u16, Bytes.readU32?_u32, Option.bind_some,
    htoNat, List.drop_left, List.take_left]
  exact if_pos rfl

/-- The attribute holds the body: it has the name of such attributes, the sizes of the frame, and
bytecode that is read as the instructions of the body. -/
structure MethodBody.IsWrittenIn (b : MethodBody) (constants : OffsetList Constant) (a : Attribute) :
    Prop where
  name_eq : readText? constants a.name = some CodeAttribute.name
  read_eq : ∃ (contents : CodeAttribute) (code : List ResolvedInstruction),
    CodeAttribute.read? a.info = some contents ∧
    contents.maxStack = b.maxStack ∧ contents.maxLocals = b.maxLocals ∧
    Instruction.decodeAll? contents.code = some code ∧
    Instruction.ReadAs constants code (b.instructions.toList.map Instruction.named)

variable {constants later : OffsetList Constant} {pool : ConstantPool}

theorem MethodBody.IsWrittenIn.mono {b : MethodBody} {a : Attribute} (h : b.IsWrittenIn constants a)
    (hlater : Extends constants later) : b.IsWrittenIn later a := by
  obtain ⟨hname, contents, code, hread, hstack, hlocals, hdecode, hcode⟩ := h
  exact ⟨readText?_of_extends hlater hname, contents, code, hread, hstack, hlocals, hdecode,
    hcode.mono hlater⟩

/-! ### Building a class file -/

/-- A request to the pool yields the same as part of building a class file. -/
theorem yields_toClassFileM {α : Type} {request : PoolM α} {post : OffsetList Constant → α → Prop}
    (h : Yields pool (request pool) post) : Yields pool (request.toClassFileM pool) post := by
  rw [PoolM.toClassFileM]
  cases hout : request pool with
  | mk outcome pool₁ =>
      rw [hout] at h
      cases outcome with
      | error reason => exact ⟨h.faithful, h.extends_, fun _ ha => by cases ha⟩
      | ok value => exact ⟨h.faithful, h.extends_, fun a ha => h.result a (by cases ha; rfl)⟩

/-- The contents of the `Code` attribute of a body. -/
theorem MethodBody.yields_toAttribute (hpool : pool.Faithful) (b : MethodBody) :
    Yields pool (b.toAttribute pool) fun constants contents =>
      contents.attributes = [] ∧ contents.code.length ≤ 65535 ∧
      contents.maxStack = b.maxStack ∧ contents.maxLocals = b.maxLocals ∧
      ∃ code, contents.code = code.flatMap Instruction.encode ∧
        Instruction.ReadAs constants code (b.instructions.toList.map Instruction.named) := by
  have hnone : Instruction.ReadAs pool.constants [].reverse [] := rfl
  have hresolve := Instruction.yields_resolveEach hpool b.instructions.toList hnone
  refine (yields_toClassFileM hresolve).bind fun code pool₁ hpool₁ _ hcode => ?_
  dsimp only
  split
  case isTrue =>
      exact (Yields.throw (P := fun _ _ => False) hpool₁ _).bind fun _ _ _ _ h => h.elim
  case isFalse hlength =>
      refine .pure hpool₁ ⟨rfl, Nat.le_of_not_lt hlength, rfl, rfl, code, rfl, ?_⟩
      exact hcode

/-- An attribute is named, and then written. -/
theorem yields_namedAttribute (hpool : pool.Faithful) (name : String)
    (body : Except EncodingError (List UInt8)) :
    Yields pool (namedAttribute name body pool) fun constants a =>
      readText? constants a.name = some name ∧ body = .ok a.info := by
  refine (yields_toClassFileM (yields_utf8 hpool name)).bind fun index pool₁ hpool₁ _ hindex => ?_
  cases body with
  | error reason => exact .throw hpool₁ _
  | ok info => exact .pure hpool₁ ⟨hindex, rfl⟩

/-- The attribute of a body holds it. -/
theorem yields_bodyAttributes (hpool : pool.Faithful) (b : MethodBody) :
    Yields pool (bodyAttributes (some b) pool) fun constants attributes =>
      ∃ a, attributes = [a] ∧ b.IsWrittenIn constants a := by
  refine (b.yields_toAttribute hpool).bind fun contents pool₁ hpool₁ _ hcontents => ?_
  refine (yields_namedAttribute hpool₁ _ _).bind fun a pool₂ hpool₂ hlater ⟨hname, hinfo⟩ => ?_
  obtain ⟨hattributes, hlength, hstack, hlocals, code, hbytes, hcode⟩ := hcontents
  refine .pure hpool₂ ⟨a, rfl, hname, contents, code, ?_, hstack, hlocals, ?_, hcode.mono hlater⟩
  · exact CodeAttribute.read?_encode hattributes hlength hinfo
  · rw [hbytes]
    exact Instruction.decodeAll?_flatMap_encode code

/-- The entry of a method begins its attributes with its body. -/
def MethodModel.IsWrittenIn (m : MethodModel) (constants : OffsetList Constant)
    (info : MemberInfo .method) : Prop :=
  ∀ b, m.body = some b → ∃ a rest, info.attributes = a :: rest ∧ b.IsWrittenIn constants a

theorem MethodModel.IsWrittenIn.mono {m : MethodModel} {info : MemberInfo .method}
    (h : m.IsWrittenIn constants info) (hlater : Extends constants later) :
    m.IsWrittenIn later info := by
  intro b hb
  obtain ⟨a, rest, hattributes, hwritten⟩ := h b hb
  exact ⟨a, rest, hattributes, hwritten.mono hlater⟩

/-- A computation that keeps the pool faithful, whatever it returns. -/
abbrev KeepsFaithful {ε α : Type} (m : ExceptT ε (StateM ConstantPool) α) : Prop :=
  ∀ pool : ConstantPool, pool.Faithful → Yields pool (m pool) fun _ _ => True

theorem keepsFaithful_syntheticAttributes (isSynthetic : Bool) :
    KeepsFaithful (syntheticAttributes isSynthetic) := by
  intro pool hpool
  unfold syntheticAttributes
  split
  · rw [map_eq_pure_bind]
    exact (yields_namedAttribute hpool _ _).map fun _ _ _ => trivial
  · exact .pure hpool trivial

theorem MethodModel.yields_toInfo (m : MethodModel) (hpool : pool.Faithful) :
    Yields pool (m.toInfo pool) m.IsWrittenIn := by
  refine (yields_toClassFileM (yields_utf8 hpool _)).bind fun name pool₁ hpool₁ _ _ => ?_
  refine (yields_toClassFileM (yields_utf8 hpool₁ _)).bind fun descriptor pool₂ hpool₂ _ _ => ?_
  have hbody : Yields pool₂ (bodyAttributes m.body pool₂) fun constants attributes =>
      ∀ b, m.body = some b → ∃ a, attributes = [a] ∧ b.IsWrittenIn constants a := by
    cases hm : m.body with
    | none => exact .pure hpool₂ fun b hb => by cases hb
    | some body =>
        refine (yields_bodyAttributes hpool₂ body).mono fun constants attributes _ h b hb => ?_
        cases hb
        exact h
  refine hbody.bind fun attributes pool₃ hpool₃ _ hattributes => ?_
  refine (keepsFaithful_syntheticAttributes _ pool₃ hpool₃).bind fun mark pool₄ hpool₄ h₃₄ _ => ?_
  refine .pure hpool₄ fun b hb => ?_
  obtain ⟨a, rfl, hwritten⟩ := hattributes b hb
  exact ⟨a, mark, rfl, hwritten.mono h₃₄⟩

theorem Field.keepsFaithful_toInfo (f : Field) : KeepsFaithful f.toInfo := by
  intro pool hpool
  refine (yields_toClassFileM (yields_utf8 hpool _)).bind fun name pool₁ hpool₁ _ _ => ?_
  refine (yields_toClassFileM (yields_utf8 hpool₁ _)).bind fun descriptor pool₂ hpool₂ _ _ => ?_
  exact (keepsFaithful_syntheticAttributes _ pool₂ hpool₂).map fun _ _ _ => trivial

/-- One computation for each element of a list, with results that stay as they should be. -/
theorem yields_mapM {ε α β : Type} {f : α → ExceptT ε (StateM ConstantPool) β}
    (post : α → OffsetList Constant → β → Prop)
    (hmono : ∀ x y constants later, post x constants y → Extends constants later → post x later y)
    (xs : List α) (hf : ∀ x ∈ xs, ∀ pool, pool.Faithful → Yields pool (f x pool) (post x))
    (hpool : pool.Faithful) :
    Yields pool (xs.mapM f pool) fun constants ys =>
      ∀ (n : Nat) x, xs[n]? = some x → ∃ y, ys[n]? = some y ∧ post x constants y := by
  induction xs generalizing pool with
  | nil =>
      rw [List.mapM_nil]
      exact .pure hpool fun n x hx => by cases hx
  | cons x xs ih =>
      rw [List.mapM_cons]
      refine (hf x List.mem_cons_self pool hpool).bind fun y pool₁ hpool₁ _ hy => ?_
      have hrest := ih (fun x' hx' => hf x' (List.mem_cons_of_mem x hx')) hpool₁
      refine hrest.bind fun ys pool₂ hpool₂ h₁₂ hys => .pure hpool₂ fun n x' hx' => ?_
      cases n with
      | zero =>
          cases hx'
          exact ⟨y, rfl, hmono x y _ _ hy h₁₂⟩
      | succ n => exact hys n x' hx'

theorem keepsFaithful_mapM {ε α β : Type} {f : α → ExceptT ε (StateM ConstantPool) β}
    (xs : List α) (hf : ∀ x ∈ xs, KeepsFaithful (f x)) : KeepsFaithful (xs.mapM f) := by
  intro pool hpool
  exact (yields_mapM (fun _ _ _ => True) (fun _ _ _ _ _ _ => trivial) xs hf hpool).forget

namespace ClassModel

/-- **Building a class file** writes every body, whatever constants are added afterwards. -/
theorem yields_build (m : ClassModel) (superclass : Option Class) (interfaces : List Class)
    (version : Version) (hpool : pool.Faithful) :
    Yields pool (m.build superclass interfaces version pool) fun constants file =>
      (file constants).constants = constants ∧
      ∀ (n : Nat) method, m.methods[n]? = some method →
        ∃ info, (file constants).methods[n]? = some info ∧ method.IsWrittenIn constants info := by
  have htype (c : Class) : KeepsFaithful (ConstantPool.type (.object c)) := fun pool hpool =>
    (yields_type hpool (.object c)).forget
  have hsuper : KeepsFaithful (superclassIndex superclass) := by
    intro pool hpool
    cases superclass with
    | none => exact .pure hpool trivial
    | some c =>
        rw [superclassIndex, map_eq_pure_bind]
        exact (htype c pool hpool).map fun _ _ _ => trivial
  have hinterfaces : KeepsFaithful (classIndices interfaces) :=
    keepsFaithful_mapM interfaces fun c _ => htype c
  refine (yields_toClassFileM (htype m.declared pool hpool)).bind fun this pool₁ hpool₁ _ _ => ?_
  refine (yields_toClassFileM (hsuper pool₁ hpool₁)).bind fun super pool₂ hpool₂ _ _ => ?_
  refine (yields_toClassFileM (hinterfaces pool₂ hpool₂)).bind fun indices pool₃ hpool₃ _ _ => ?_
  have hfields := keepsFaithful_mapM m.fields.toList fun f _ => f.keepsFaithful_toInfo
  refine (hfields pool₃ hpool₃).bind fun fields pool₄ hpool₄ _ _ => ?_
  -- each method is written into the pool that the ones before it have left
  have hmethods := yields_mapM MethodModel.IsWrittenIn (fun _ _ _ _ h hlater => h.mono hlater)
    m.methods.toList (fun method _ pool hpool => method.yields_toInfo hpool) hpool₄
  refine hmethods.bind fun methods pool₅ hpool₅ _ hwritten => .pure hpool₅ ⟨rfl, fun n method hn => ?_⟩
  rw [← Array.getElem?_toList] at hn
  exact hwritten n method hn

/-- The class file of a class holds every body. -/
theorem isWrittenIn_of_toClassFile {m : ClassModel} {graph : ClassGraph} {version : Version}
    {file : ClassFile} (h : m.toClassFile graph version = .ok file) {n : Nat} {method : MethodModel}
    (hmethod : m.methods[n]? = some method) :
    ∃ info, file.methods[n]? = some info ∧ method.IsWrittenIn file.constants info := by
  have hbuild := m.yields_build (graph.superclass? m.declared) (graph.interfaces m.declared) version
    faithful_empty
  rw [toClassFile] at h
  split at h
  case h_1 => cases h
  case h_2 build pool hout =>
      cases h
      rw [hout] at hbuild
      obtain ⟨hconstants, hmethods⟩ := hbuild.result build rfl
      rw [hconstants]
      exact hmethods n method hmethod

/-- **The code array means the instructions.** In the class file of a class, the entry of every method
with a body begins with an attribute named `Code`. Its contents give the sizes of the frame and the
bytecode, all of which is read as instructions; and with their operands followed through the pool
of the class file, these are the instructions of the body, one by one. -/
theorem code_means_instructions {m : ClassModel} {graph : ClassGraph} {version : Version}
    {file : ClassFile} (h : m.toClassFile graph version = .ok file) {n : Nat} {method : MethodModel}
    {body : MethodBody} (hmethod : m.methods[n]? = some method) (hbody : method.body = some body) :
    ∃ (info : MemberInfo .method) (a : Attribute) (rest : List Attribute) (contents : CodeAttribute)
      (code : List ResolvedInstruction),
      file.methods[n]? = some info ∧ info.attributes = a :: rest ∧
      readText? file.constants a.name = some CodeAttribute.name ∧
      CodeAttribute.read? a.info = some contents ∧
      contents.maxStack = body.maxStack ∧ contents.maxLocals = body.maxLocals ∧
      Instruction.decodeAll? contents.code = some code ∧
      code.length = body.instructions.size ∧
      code.mapM (Instruction.read? file.constants) =
        some (body.instructions.toList.map Instruction.named) := by
  obtain ⟨info, hinfo, hwritten⟩ := isWrittenIn_of_toClassFile h hmethod
  obtain ⟨a, rest, hattributes, hname, contents, code, hread, hstack, hlocals, hdecode, hcode⟩ :=
    hwritten body hbody
  have hlength : code.length = body.instructions.size := by
    have hlengths := congrArg List.length hcode
    simpa using hlengths
  exact ⟨info, a, rest, contents, code, hinfo, hattributes, hname, hread, hstack, hlocals, hdecode,
    hlength, hcode.mapM_eq⟩

/-! ### A small class -/

/-- A class with a method that returns a text. -/
def greeting : ClassModel :=
  let declared : Class := ⟨0, ⟨"A"⟩, ClassFlags.publicClass⟩
  let greet : Method := ⟨0, declared, ⟨"m"⟩, ⟨[], some (.object declared)⟩, MethodFlags.staticFlag⟩
  ⟨declared, #[], #[⟨greet, some ⟨0, 1, #[.ldc (.text "hi"), .bare .areturn]⟩⟩]⟩

theorem toClassFile_greeting :
    ∃ file, greeting.toClassFile .empty Version.java8 = .ok file := by
  have hok : (greeting.toClassFile .empty Version.java8).toBool = true := by cbv
  cases hfile : greeting.toClassFile .empty Version.java8 with
  | error reason => rw [hfile] at hok; cases hok
  | ok file => exact ⟨file, rfl⟩

/-- The method is read back from its class file. -/
theorem code_means_instructions_greeting :
    ∃ (file : ClassFile) (info : MemberInfo .method) (a : Attribute) (contents : CodeAttribute)
      (code : List ResolvedInstruction),
      greeting.toClassFile .empty Version.java8 = .ok file ∧ file.methods[0]? = some info ∧
      CodeAttribute.read? a.info = some contents ∧
      Instruction.decodeAll? contents.code = some code ∧
      code.mapM (Instruction.read? file.constants) = some [.ldc (.text "hi"), .bare .areturn] := by
  obtain ⟨file, hfile⟩ := toClassFile_greeting
  obtain ⟨info, a, rest, contents, code, hinfo, -, -, hread, -, -, hdecode, -, hcode⟩ :=
    code_means_instructions hfile (n := 0) rfl rfl
  exact ⟨file, info, a, contents, code, hfile, hinfo, hread, hdecode, hcode⟩

end ClassModel

end JvmCodegen
