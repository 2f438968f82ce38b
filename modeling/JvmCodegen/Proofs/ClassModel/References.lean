/-
**Where the indices of a class file lead.**

A class file is held together by indices of constants, and each place that holds one calls for a
constant of a certain kind: a class, a text, a field, a literal of one slot.  The tables of a class
file keep this by themselves.  For an instruction it depends on the operand that was looked up: a
literal of two slots has a constant like any other, and only fitting operands lead to constants that
the instruction can be run with.

Main definitions:

* `ClassFile.references`, `ClassFile.HasContentsOnlyInCode` — the indices outside of the code, with the
  kinds that their places call for, and that there are no others;
* `Instruction.RefersRightly` — the index of an instruction leads to what the instruction takes.

Main results:

* `ClassModel.leadsTo_of_mem_references` — **every index outside of the code** leads to a constant of
  the right kind;
* `Instruction.refersRightly_of_read?` — an instruction with a fitting operand refers rightly;
* `MethodBody.IsWrittenIn.refersRightly` — **so does the code of a method with fitting operands**.
-/

import Mathlib
import JvmCodegen.Proofs.ClassModel.Decodable
import JvmCodegen.Proofs.ClassModel.MethodCode
import JvmCodegen.Proofs.Stack.Operands

set_option relaxedAutoImplicit false
set_option autoImplicit false

namespace JvmCodegen

open ConstantPool

/-! ### Indices outside of the code -/

/-- The name of an attribute is a text. -/
def Attribute.reference (a : Attribute) : ConstantKind × PoolIndex := (.utf8, a.name)

/-- The indices in the entry of a member. -/
def MemberInfo.references {kind : DeclarationKind} (m : MemberInfo kind) :
    List (ConstantKind × PoolIndex) :=
  (.utf8, m.name) :: (.utf8, m.descriptor) :: m.attributes.map Attribute.reference

/-- **The indices in a class file outside of its code**, each with the kind of the constant that has to
be there: those of the class, its superclass and its interfaces, those in the entries of its members,
those of the names of attributes, and those inside the constants themselves. -/
def ClassFile.references (file : ClassFile) : List (ConstantKind × PoolIndex) :=
  (file.thisClass :: file.superClass.toList ++ file.interfaces).map (fun i => (.type, i)) ++
    file.fields.flatMap MemberInfo.references ++ file.methods.flatMap MemberInfo.references ++
    file.attributes.map Attribute.reference ++
    file.constants.toList.flatMap fun entry => entry.2.references

namespace ConstantPool

variable {pool : ConstantPool}

theorem Faithful.leadsTo_reference (h : pool.Faithful) {a : Attribute} (ha : a.IsNamedIn pool) :
    LeadsTo pool.constants a.reference := by
  obtain ⟨name, hname⟩ := ha
  exact h.leadsTo hname

/-- The indices in the entry of a member lead to texts. -/
theorem Faithful.leadsTo_of_mem_references (h : pool.Faithful) {kind : DeclarationKind}
    {info : MemberInfo kind} {name descriptor : String}
    (hname : pool.index? (.utf8 name) = some info.name)
    (hdescriptor : pool.index? (.utf8 descriptor) = some info.descriptor)
    (hnamed : ∀ a ∈ info.attributes, a.IsNamedIn pool) :
    ∀ reference ∈ info.references, LeadsTo pool.constants reference := by
  intro reference hmem
  rcases List.mem_cons.1 hmem with rfl | hmem
  · exact h.leadsTo hname
  rcases List.mem_cons.1 hmem with rfl | hmem
  · exact h.leadsTo hdescriptor
  obtain ⟨a, ha, rfl⟩ := List.mem_map.1 hmem
  exact h.leadsTo_reference (hnamed a ha)

end ConstantPool

/-- **Every index outside of the code** leads to a constant of the right kind. -/
theorem ClassModel.leadsTo_of_mem_references {m : ClassModel} {graph : ClassGraph}
    {version : Version} {file : ClassFile} (h : m.toClassFile graph version = .ok file) :
    ∀ reference ∈ file.references, LeadsTo file.constants reference := by
  obtain ⟨pool, hgrows, hbuilt⟩ := toClassFile_eq_ok h
  have hfaithful := hgrows.faithful faithful_empty
  have hlaid := hgrows.isLaidOut isLaidOut_empty faithful_empty
  intro reference hmem
  rw [hbuilt.constants]
  simp only [ClassFile.references, hbuilt.constants, hbuilt.attributes, List.map_nil,
    List.append_nil, List.mem_append] at hmem
  rcases hmem with ((hclass | hfield) | hmethod) | hconstant
  · obtain ⟨i, hi, rfl⟩ := List.mem_map.1 hclass
    rcases List.mem_append.1 hi with hi | hi
    · rcases List.mem_cons.1 hi with rfl | hi
      · exact hfaithful.leadsTo hbuilt.thisClass
      · obtain ⟨c, -, hindex⟩ := hbuilt.superClass i (Option.mem_toList.1 hi)
        exact hfaithful.leadsTo hindex
    · obtain ⟨c, -, hindex⟩ := exists_mem_of_forall₂_right hbuilt.interfaces hi
      exact hfaithful.leadsTo hindex
  · obtain ⟨info, hinfo, hmem⟩ := List.mem_flatMap.1 hfield
    obtain ⟨f, -, hf⟩ := exists_mem_of_forall₂_right hbuilt.fields hinfo
    exact hfaithful.leadsTo_of_mem_references hf.name hf.descriptor hf.named reference hmem
  · obtain ⟨info, hinfo, hmem⟩ := List.mem_flatMap.1 hmethod
    obtain ⟨method, -, hm⟩ := exists_mem_of_forall₂_right hbuilt.methods hinfo
    exact hfaithful.leadsTo_of_mem_references hm.name hm.descriptor hm.named reference hmem
  · obtain ⟨entry, hentry, hmem⟩ := List.mem_flatMap.1 hconstant
    exact hlaid.leadsTo_reference hfaithful hentry hmem

/-- There is nothing in the attributes of the class and of its fields, and in those of a method after
the first. So there are no indices in them. -/
structure ClassFile.HasContentsOnlyInCode (file : ClassFile) : Prop where
  attributes : ∀ a ∈ file.attributes, a.info = []
  fields : ∀ info ∈ file.fields, ∀ a ∈ info.attributes, a.info = []
  methods : ∀ info ∈ file.methods, ∀ a ∈ info.attributes.tail, a.info = []

/-- **There are no indices elsewhere.** -/
theorem ClassModel.hasContentsOnlyInCode_of_toClassFile {m : ClassModel} {graph : ClassGraph}
    {version : Version} {file : ClassFile} (h : m.toClassFile graph version = .ok file) :
    file.HasContentsOnlyInCode := by
  obtain ⟨pool, -, hbuilt⟩ := toClassFile_eq_ok h
  refine ⟨fun a ha => ?_, fun info hinfo => ?_, fun info hinfo => ?_⟩
  · rw [hbuilt.attributes] at ha
    exact absurd ha List.not_mem_nil
  · obtain ⟨f, -, hf⟩ := exists_mem_of_forall₂_right hbuilt.fields hinfo
    exact hf.empty
  · obtain ⟨method, -, hm⟩ := exists_mem_of_forall₂_right hbuilt.methods hinfo
    exact hm.empty

/-! ### Indices in the code -/

/-- The kinds of the literals of one slot. -/
def ConstantKind.narrow : List ConstantKind := [.integer, .float, .text, .type, .methodHandle]

/-- The kinds of the literals of two slots. -/
def ConstantKind.wide : List ConstantKind := [.long, .double]

theorem Literal.kind_mem (l : Literal) :
    l.fullName.kind ∈ if l.isWide then ConstantKind.wide else ConstantKind.narrow := by
  cases l <;>
    simp [Literal.fullName, LiteralName.kind, Literal.isWide, ConstantKind.narrow, ConstantKind.wide]

namespace Instruction

/-- **The index of an instruction leads to what the instruction takes.** An instruction that loads a
literal takes the literals of its size. One that uses a field takes a field that is static exactly if
the instruction is for static fields; the field is the operand that was looked up. Virtual dispatch
takes no method of an interface, and dispatch on an interface nothing else. Creating an array and
casting take a class. -/
def RefersRightly (constants : OffsetList Constant) (i : SymbolicInstruction) :
    ResolvedInstruction → Prop
  | .ldc index => ∃ kind ∈ ConstantKind.narrow, LeadsTo constants (kind, index)
  | .ldc2 index => ∃ kind ∈ ConstantKind.wide, LeadsTo constants (kind, index)
  | .access op index => LeadsTo constants (.field, index) ∧ ∃ f : Field, i = .access op f ∧
      readField? constants index = some f.fullName ∧ f.isStatic = op.isStatic
  | .invoke kind index => ∃ owner member isInterface,
      constantAt? constants index = some (.method owner member isInterface) ∧
      (kind = .virtual → isInterface = false) ∧ ∀ count, kind = .interface count → isInterface = true
  | .newRefArray index | .checkCast index => LeadsTo constants (.type, index)
  | .bare _ | .bipush _ | .sipush _ | .load _ _ | .newArray _ => True

/-- An instruction that is read as one with a fitting operand refers rightly. -/
theorem refersRightly_of_read? {constants : OffsetList Constant} {i : SymbolicInstruction}
    {r : ResolvedInstruction} (h : r.read? constants = some i.named) (hliteral : i.LiteralFits)
    (hmember : i.MemberFits) : i.RefersRightly constants r := by
  cases r with
  | ldc index =>
      obtain ⟨name, hname, heq⟩ := Option.map_eq_some_iff.1 h
      cases i with
      | ldc l =>
          cases heq
          have hkind := l.kind_mem
          rw [show l.isWide = false from hliteral] at hkind
          exact ⟨_, hkind, .of_readLiteral? hname⟩
      | _ => cases heq
  | ldc2 index =>
      obtain ⟨name, hname, heq⟩ := Option.map_eq_some_iff.1 h
      cases i with
      | ldc2 l =>
          cases heq
          have hkind := l.kind_mem
          rw [show l.isWide = true from hliteral] at hkind
          exact ⟨_, hkind, .of_readLiteral? hname⟩
      | _ => cases heq
  | access op index =>
      obtain ⟨name, hname, heq⟩ := Option.map_eq_some_iff.1 h
      cases i with
      | access op' f =>
          cases heq
          obtain ⟨owner, member, hentry, -⟩ := readField?_eq_some_iff.1 hname
          exact ⟨⟨_, hentry, rfl⟩, f, rfl, hname, hmember⟩
      | _ => cases heq
  | invoke kind index =>
      obtain ⟨name, hname, heq⟩ := Option.map_eq_some_iff.1 h
      cases i with
      | invoke kind' m =>
          cases heq
          obtain ⟨owner, member, hentry, -⟩ := readMethod?_eq_some_iff.1 hname
          refine ⟨owner, member, _, hentry, ?_, ?_⟩
          · rintro rfl
            exact hmember
          · rintro count rfl
            exact hmember
      | _ => cases heq
  | newRefArray index | checkCast index =>
      obtain ⟨name, hname, -⟩ := Option.map_eq_some_iff.1 h
      obtain ⟨content, hentry, -⟩ := readType?_eq_some_iff.1 hname
      exact ⟨_, hentry, rfl⟩
  | _ => exact trivial

end Instruction

/-- **The code of a class file refers rightly** where the operands fit: the entry of a method begins
with an attribute that holds its body, and each instruction that is read in it refers to what it takes,
for the instruction of the body at its place. -/
theorem MethodBody.IsWrittenIn.refersRightly {b : MethodBody} {constants : OffsetList Constant}
    {a : Attribute} (h : b.IsWrittenIn constants a)
    (hfits : ∀ i ∈ b.instructions, i.LiteralFits ∧ i.MemberFits) :
    ∃ (contents : CodeAttribute) (code : List ResolvedInstruction),
      CodeAttribute.read? a.info = some contents ∧
      Instruction.decodeAll? contents.code = some code ∧ code.length = b.instructions.size ∧
      ∀ (k : Nat) r, code[k]? = some r →
        ∃ i, b.instructions[k]? = some i ∧ i.RefersRightly constants r := by
  obtain ⟨contents, code, hread, -, -, hdecode, hcode⟩ := h.read_eq
  have hlength := congrArg List.length hcode
  refine ⟨contents, code, hread, hdecode, by simpa using hlength, fun k r hr => ?_⟩
  have hk : (code.map (Instruction.read? constants))[k]? = some (r.read? constants) := by
    rw [List.getElem?_map, hr, Option.map_some]
  rw [hcode, List.map_map, List.getElem?_map] at hk
  obtain ⟨i, hi, heq⟩ := Option.map_eq_some_iff.1 hk
  rw [Array.getElem?_toList] at hi
  have hmem := hfits i (Array.mem_of_getElem? hi)
  exact ⟨i, hi, Instruction.refersRightly_of_read? heq.symm hmem.1 hmem.2⟩

end JvmCodegen
