/-
**Where the indices of a finished class lead.**

The code of a class comes from the bodies that were handed in and from the cached constants inside
them; of its own, the type initializer only stores constants into their fields, and returns if there is
nothing else to do.  So whatever plans emit with fitting operands is in the class with fitting operands,
and every index of the class leads to a constant that its place calls for.

Main definitions:

* `ClassDraft.Session.Writes` — where an instruction of the class comes from.

Main results:

* `ClassDraft.Session.Invariant.writes_made` — **all instructions of a class** come from bodies, or
  belong to the type initializer;
* `ClassDraft.Session.finish_references` — **every index of a finished class** leads to a constant of
  the right kind, in its class file.
-/

import Mathlib
import JvmCodegen.Proofs.ClassDraft.Frames
import JvmCodegen.Proofs.ClassModel.References

set_option relaxedAutoImplicit false
set_option autoImplicit false

namespace JvmCodegen.ClassDraft.Session

open Stack Stack.ConstantCache ConstantPool

variable {s : Session} {declared : Class} {settings : Settings} {c : ConstantCache}
  {i : SymbolicInstruction}

/-! ### Where instructions come from -/

/-- **Where an instruction of the class comes from**, with the constants of a cache: a body that was
handed in emits it, or a constant inside one does; or the type initializer stores a constant with it,
or returns. -/
inductive Writes (s : Session) (c : ConstantCache) : SymbolicInstruction → Prop
  | emitted {plan : Plan} {i : SymbolicInstruction} (hplan : Plan.ComesFrom s.bodies plan)
      (hi : plan.Emits c i) : Writes s c i
  | store {f : Field} (hf : f ∈ c.fields) : Writes s c (storeStatic f)
  | ret : Writes s c (.bare .voidReturn)

/-- **Every literal** is loaded by an instruction for its size. -/
theorem Writes.literalFits (h : s.Writes c i) : i.LiteralFits := by
  cases h with
  | emitted hplan hi => exact hi.literalFits
  | store hf => exact trivial
  | ret => exact trivial

/-- **Every member** is used by an instruction for its kind. -/
theorem Writes.memberFits (h : s.Writes c i) (hoffered : ∀ body ∈ s.bodies, body.IsOffered)
    (hc : c.Numbered) : i.MemberFits := by
  cases h with
  | emitted hplan hi => exact hi.memberFits (hplan.isOffered hoffered) hc
  | store hf => exact hc.isStatic hf
  | ret => exact trivial

/-- The code of a compiled method comes from its body. -/
theorem Explains.writes {m : MethodModel} (h : s.Explains m)
    (haccepted : ∀ given ∈ s.accepted, given.2 ∈ s.bodies) {p : Plan → Prop}
    (hgrows : Grows p s.draft.constants c) :
    ∃ code, m.body = some code ∧ ∀ i ∈ code.instructions, s.Writes c i := by
  obtain ⟨body, hgiven, -, code, scope, hbody, hcode, hlater⟩ := h
  refine ⟨code, hbody, fun i hi => ?_⟩
  rw [← Array.mem_toList_iff, hcode] at hi
  have hemits := ((Plan.emits_of_mem_emit hi).mono hlater).mono hgrows
  exact .emitted (.self (haccepted _ hgiven)) hemits

/-- The code of the initializers comes from the values of the constants, apart from the stores. -/
theorem writes_of_mem_initializers {graph : ClassGraph}
    (hgrows : Grows (Plan.ComesFrom s.bodies) (ConstantCache.new declared settings.cachedNamePart) c)
    (h : i ∈ c.registrations.toList.flatMap (initializerCode ⟨graph, c⟩)) : s.Writes c i := by
  obtain ⟨r, hr, hmem⟩ := List.mem_flatMap.1 h
  have hr := Array.mem_toList_iff.1 hr
  rcases List.mem_append.1 hmem with hmem | hmem
  · -- computing a constant registers nothing, so its code uses the constants of the cache
    have hemits := Plan.emits_of_mem_emit hmem
    rw [scope_emit_registration rfl hgrows hr graph] at hemits
    exact .emitted (knows_of_grows rfl hgrows hr).1 hemits
  · cases List.mem_singleton.1 hmem
    exact .store (mem_fields_of_mem hr)

/-- The code of the type initializer comes from the values of the constants and from its body. -/
theorem Invariant.writes_compileInitializer (h : s.Invariant declared settings) {method : Method}
    {body : Plan} {made : ClassDraft} {graph₁ graph : ClassGraph}
    (hbody : s.Compiles method body graph₁)
    (hcompile : s.draft.compileInitializer graph₁ method body = (.ok made, graph)) :
    ∃ code : MethodBody,
      made = (s.draft.withConstants ⟨graph, made.constants⟩).withMethod ⟨method, some code⟩ ∧
      Grows (Plan.ComesFrom s.bodies) s.draft.constants made.constants ∧
      ∀ i ∈ code.instructions, s.Writes made.constants i := by
  obtain ⟨code, bodyEffect, effect, hmade, hgrows, -, hscope, -, hcompiled⟩ :=
    h.compileInitializer (hbody.comesFrom_outerCached h.accepted) hcompile
  refine ⟨code, hmade, hgrows, fun i hi => ?_⟩
  rw [← Array.mem_toList_iff, hcompiled.toList_instructions] at hi
  rcases List.mem_append.1 hi with hi | hi
  · exact writes_of_mem_initializers (h.grows.trans hgrows) hi
  · rcases hbody.mem_bodies h.accepted with hmem | rfl
    · have hemits := Plan.emits_of_mem_emit hi
      rw [hscope] at hemits
      exact .emitted (.self hmem) hemits
    · cases List.mem_singleton.1 hi
      exact .ret

/-- **All instructions of a class** come from bodies that were handed in, or belong to the type
initializer. -/
theorem Invariant.writes_made (h : s.Invariant declared settings) {made : ClassDraft}
    {graph : ClassGraph} (hmade : s.draft.withInitializer s.graph = (.ok made, graph)) :
    made.constants.Numbered ∧
      ∀ m ∈ made.finalModel.methods, ∃ code, m.body = some code ∧
        ∀ i ∈ code.instructions, s.Writes made.constants i := by
  rcases h.made_cases hmade with ⟨rfl, -, -⟩ | ⟨method, body, graph₁, hbody, -, hcompile, -⟩
  · refine ⟨h.grows.numbered (numbered_new _ _), fun m hm => ?_⟩
    exact (h.methods m hm).writes h.accepted (.refl (p := fun _ => True) _)
  · obtain ⟨code, heq, hgrows, hcode⟩ := h.writes_compileInitializer hbody hcompile
    refine ⟨(h.grows.trans hgrows).numbered (numbered_new _ _), fun m hm => ?_⟩
    rw [heq] at hm
    rcases Array.mem_push.1 hm with hm | rfl
    · exact (h.methods m hm).writes h.accepted hgrows
    · exact ⟨code, rfl, hcode⟩

/-! ### Finished classes -/

/-- **Every index of a finished class leads to a constant of the right kind.** A session of any calls
is finished, with bodies whose invocations are put together as the library offers them, and the class is
written. Then the bytes are read as a class file. The indices of the class, its superclass and its
interfaces lead to classes, those of names and descriptors and those of the names of attributes lead to
texts, and those inside constants to what each constant is made of. Each entry of a method begins with
an attribute named `Code`, and no other attribute has anything in it; each instruction of the code refers
to a constant that the instruction takes, for the instruction of the compiled body at its place. -/
theorem finish_references {graph₀ graph₁ graph : ClassGraph} {draft : ClassDraft}
    (hnew : ClassDraft.new settings graph₀ = .ok (draft, graph₁)) {calls : List Call}
    (hrun : (start draft graph₁).run calls = s) (hoffered : ∀ body ∈ s.bodies, body.IsOffered)
    {generated : GeneratedClass} (hfinish : s.draft.finish s.graph = (.ok generated, graph)) :
    ∃ (made : ClassDraft) (file : ClassFile),
      s.draft.withInitializer s.graph = (.ok made, graph) ∧
      ClassFile.decode? generated.bytes = some file ∧
      (∀ reference ∈ file.references, LeadsTo file.constants reference) ∧
      file.HasContentsOnlyInCode ∧
      file.methods.length = made.finalModel.methods.size ∧
      ∀ (n : Nat) info, file.methods[n]? = some info →
        ∃ (m : MethodModel) (body : MethodBody) (a : Attribute) (rest : List Attribute)
          (contents : CodeAttribute) (code : List ResolvedInstruction),
          made.finalModel.methods[n]? = some m ∧ m.body = some body ∧ info.attributes = a :: rest ∧
          readText? file.constants a.name = some CodeAttribute.name ∧
          CodeAttribute.read? a.info = some contents ∧
          Instruction.decodeAll? contents.code = some code ∧
          code.length = body.instructions.size ∧
          ∀ (k : Nat) r, code[k]? = some r → ∃ i, body.instructions[k]? = some i ∧
            s.Writes made.constants i ∧ i.RefersRightly file.constants r := by
  have hinv : s.Invariant draft.declared settings := hrun ▸ (invariant_start hnew).run calls
  obtain ⟨made, file, hmade, hfile, hread⟩ := hinv.file_of_finish hfinish
  obtain ⟨hnumbered, hwrites⟩ := hinv.writes_made hmade
  refine ⟨made, file, hmade, hread, ClassModel.leadsTo_of_mem_references hfile,
    ClassModel.hasContentsOnlyInCode_of_toClassFile hfile,
    ClassModel.length_methods_of_toClassFile hfile, fun n info hinfo => ?_⟩
  obtain ⟨m, hm, hstored⟩ := ClassModel.isStoredIn_of_toClassFile hfile hinfo
  obtain ⟨body, hbody, hcomes⟩ := hwrites m (Array.mem_of_getElem? hm)
  obtain ⟨a, rest, -, hattributes, hcode, -⟩ := hstored.body body hbody
  have hfits : ∀ i ∈ body.instructions, i.LiteralFits ∧ i.MemberFits := fun i hi =>
    ⟨(hcomes i hi).literalFits, (hcomes i hi).memberFits hoffered hnumbered⟩
  obtain ⟨contents, code, hcontents, hdecode, hlength, hrefers⟩ := hcode.refersRightly hfits
  refine ⟨m, body, a, rest, contents, code, hm, hbody, hattributes, hcode.name_eq, hcontents, hdecode,
    hlength, fun k r hr => ?_⟩
  obtain ⟨i, hi, hright⟩ := hrefers k r hr
  exact ⟨i, hi, hcomes i (Array.mem_of_getElem? hi), hright⟩

/-! ### A small class -/

/-- Keep a text as a constant, cast it and discard it, and discard a long number. -/
def referringBody : Plan :=
  .sequence [.cached (.op (.text "a")) (.object classA), .op (.cast (.object classA)),
    .op (.pop false), .op (.long 7), .op (.pop true), .op (.ret none)]

/-- The type initializer is given the body. -/
def referringSession : Session :=
  (start draftA graphA).run [.elsewhere .empty, .implement initializerA referringBody]

theorem finish_referringSession : ∃ generated graph,
    referringSession.draft.finish referringSession.graph = (.ok generated, graph) :=
  exists_finish_of_toBool (by cbv)

theorem bodies_referringSession : referringSession.bodies = [referringBody] := by cbv

theorem size_methods_referringSession {made : ClassDraft} {graph : ClassGraph}
    (h : referringSession.draft.withInitializer referringSession.graph = (.ok made, graph)) :
    made.finalModel.methods.size = 1 :=
  eq_of_withInitializer (fun made => made.finalModel.methods.size) (by cbv) h

theorem isOffered_referringBody : referringBody.IsOffered := by
  intro o ho
  have hcases : o = .text "a" ∨ o = .cast (.object classA) ∨ o = .pop false ∨ o = .long 7 ∨
      o = .pop true ∨ o = .ret none := by
    simpa [referringBody, Plan.subplans, Plan.subplansEach] using ho
  rcases hcases with rfl | rfl | rfl | rfl | rfl | rfl <;> exact trivial

/-- Every index of a small class leads to a constant of the right kind. -/
theorem finish_references_referringSession :
    ∃ (generated : GeneratedClass) (graph : ClassGraph) (made : ClassDraft) (file : ClassFile),
      referringSession.draft.finish referringSession.graph = (.ok generated, graph) ∧
      referringSession.draft.withInitializer referringSession.graph = (.ok made, graph) ∧
      ClassFile.decode? generated.bytes = some file ∧ file.methods.length = 1 ∧
      (∀ reference ∈ file.references, LeadsTo file.constants reference) ∧
      ∀ info ∈ file.methods[0]?, ∃ (body : MethodBody) (code : List ResolvedInstruction),
        code.length = body.instructions.size ∧ ∀ (k : Nat) r, code[k]? = some r →
          ∃ i, body.instructions[k]? = some i ∧ i.RefersRightly file.constants r := by
  obtain ⟨generated, graph, hfinish⟩ := finish_referringSession
  have hnew : ClassDraft.new settingsA .empty = .ok (draftA, graphA) := rfl
  have hoffered : ∀ body ∈ referringSession.bodies, body.IsOffered := by
    intro body hbody
    rw [bodies_referringSession, List.mem_singleton] at hbody
    exact hbody ▸ isOffered_referringBody
  obtain ⟨made, file, hmade, hread, hreferences, -, hlength, hcode⟩ :=
    finish_references hnew rfl hoffered hfinish
  refine ⟨generated, graph, made, file, hfinish, hmade, hread,
    hlength.trans (size_methods_referringSession hmade), hreferences, fun info hinfo => ?_⟩
  obtain ⟨-, body, -, -, -, code, -, -, -, -, -, -, hsame, hrefers⟩ := hcode 0 info hinfo
  refine ⟨body, code, hsame, fun k r hr => ?_⟩
  obtain ⟨i, hi, -, hright⟩ := hrefers k r hr
  exact ⟨i, hi, hright⟩

end JvmCodegen.ClassDraft.Session
