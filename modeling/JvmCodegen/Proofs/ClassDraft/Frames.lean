/-
**The frames of compiled methods.**

The sizes of a frame are never computed from the instructions: the depth of the operand stack is
reported by the plans, for the type initializer by several of them, and the slots of local variables
are counted on the way.  All the same, every compiled method has a frame with room for what its
instructions do.

Main definitions:

* `Stack.Plan.IsProper` — all invocations of a plan are of kinds that their methods allow;
* `MethodBody.IsFramedFor` — a method body has a frame of the right size;
* `MethodModel.IsStoredIn` — the entry of a method in a class file holds its body.

Main results:

* `BodyDraft.le_maxLocals_foldl`, `BodyDraft.load_le_maxLocals_foldl` — the slots that are counted;
* `MethodBody.IsCompiledFrom.isFramedFor` — a compiled body has a frame of the right size;
* `ClassModel.isStoredIn_of_toClassFile` — all entries of methods hold their bodies;
* `ClassDraft.Session.framed_step`, `ClassDraft.Session.framed_run` — so have all compiled methods,
  call by call and over a whole session;
* `ClassDraft.Session.finish_frames` — **every method of a finished class has a frame of the right
  size**, in its class file.
-/

import Mathlib
import JvmCodegen.Proofs.ClassDraft.TypeInitializer
import JvmCodegen.Proofs.ClassModel.Decodable
import JvmCodegen.Proofs.ClassModel.MethodCode
import JvmCodegen.Proofs.Stack.Accounting

set_option relaxedAutoImplicit false
set_option autoImplicit false

namespace JvmCodegen

open Stack ConstantPool

/-! ### Local variables -/

namespace BodyDraft

theorem le_localsWith (n : Nat) (i : SymbolicInstruction) : n ≤ localsWith n i := by
  unfold localsWith
  split
  · exact Nat.le_refl n
  · exact Nat.le_max_left _ _

/-- The slots that are counted never become fewer. -/
theorem le_maxLocals_foldl (b : BodyDraft) (code : List SymbolicInstruction) :
    b.maxLocals ≤ (code.foldl CodeCollector.append b).maxLocals := by
  induction code generalizing b with
  | nil => exact Nat.le_refl _
  | cons i code ih => exact Nat.le_trans (le_localsWith b.maxLocals i) (ih (b.append i))

/-- Every load has its slots counted. -/
theorem load_le_maxLocals_foldl {b : BodyDraft} {code : List SymbolicInstruction}
    {i : SymbolicInstruction} (hi : i ∈ code) {slot : UInt16} {slots : Nat}
    (hlocal : i.local? = some (slot, slots)) :
    slot.toNat + slots ≤ (code.foldl CodeCollector.append b).maxLocals := by
  induction code generalizing b with
  | nil => exact absurd hi List.not_mem_nil
  | cons first code ih =>
      rcases List.mem_cons.1 hi with rfl | hi
      · have hcounted : slot.toNat + slots ≤ localsWith b.maxLocals i := by
          rw [localsWith, hlocal]
          exact Nat.le_max_right _ _
        exact Nat.le_trans hcounted (le_maxLocals_foldl (b.append i) code)
      · exact ih hi

end BodyDraft

/-! ### Frames -/

/-- The body of a method leaves the stack as it finds it, and its frame has room for the operand
stack at every point, for the arguments, and for every local variable that is read. Its sizes are
those that were reported and counted, and none of them is cut off. -/
structure MethodBody.IsFramedFor (body : MethodBody) (method : Method) : Prop where
  balanced : netHeight body.instructions.toList = 0
  stack : ∀ n, netHeight (body.instructions.toList.take n) ≤ body.maxStack.toNat
  arguments : method.argumentSlots ≤ body.maxLocals.toNat
  loads : ∀ i ∈ body.instructions, ∀ slot slots, i.local? = some (slot, slots) →
    slot.toNat + slots ≤ body.maxLocals.toNat
  sizes : ∃ (code : BodyDraft) (effect : Effect), body.IsCompiledFrom code effect ∧
    code = body.instructions.toList.foldl CodeCollector.append (BodyDraft.new method) ∧
    effect.AccountsFor 1 body.instructions.toList

/-- **A compiled body has a frame of the right size**, if what was reported is right. -/
theorem MethodBody.IsCompiledFrom.isFramedFor {body : MethodBody} {method : Method}
    {code : List SymbolicInstruction} {effect : Effect}
    (h : body.IsCompiledFrom (code.foldl CodeCollector.append (BodyDraft.new method)) effect)
    (heffect : effect.AccountsFor 1 code) : body.IsFramedFor method := by
  have hcode := h.toList_instructions
  refine ⟨?_, fun n => ?_, ?_, fun i hi slot slots hlocal => ?_, _, effect, h, by rw [hcode],
    by rwa [hcode]⟩
  · rw [hcode, ← heffect.impact_eq, h.balanced]
  · -- what was reported may be more than the peak, but it is never less
    have htake := netHeight_take_le_peakHeight code n
    have hpeak := heffect.le_peak
    have hstack := h.maxStack_eq
    rw [hcode]
    omega
  · rw [h.maxLocals_eq]
    exact BodyDraft.le_maxLocals_foldl (BodyDraft.new method) code
  · rw [← Array.mem_toList_iff, hcode] at hi
    rw [h.maxLocals_eq]
    exact BodyDraft.load_le_maxLocals_foldl hi hlocal

/-- A method has a body with a frame of the right size. -/
def MethodModel.IsFramed (m : MethodModel) : Prop :=
  ∃ body, m.body = some body ∧ body.IsFramedFor m.method

/-- The entry of a method begins with an attribute that holds its body: the instructions, the sizes of
the frame, and no more bytecode than a method may have. -/
structure MethodModel.IsStoredIn (m : MethodModel) (constants : OffsetList Constant)
    (info : MemberInfo .method) : Prop where
  flags : info.flags = m.method.flags
  name : readText? constants info.name = some m.method.name.text
  descriptor : readText? constants info.descriptor = some m.method.descriptor.render
  body : ∀ body, m.body = some body → ∃ a rest contents, info.attributes = a :: rest ∧
    body.IsWrittenIn constants a ∧ CodeAttribute.read? a.info = some contents ∧
    contents.maxStack = body.maxStack ∧ contents.maxLocals = body.maxLocals ∧
    contents.code.length ≤ 65535

/-- A class file has one entry for each method. -/
theorem ClassModel.length_methods_of_toClassFile {m : ClassModel} {graph : ClassGraph}
    {version : Version} {file : ClassFile} (h : m.toClassFile graph version = .ok file) :
    file.methods.length = m.methods.size := by
  obtain ⟨pool, -, hbuilt⟩ := toClassFile_eq_ok h
  rw [← hbuilt.methods.length_eq, Array.length_toList]

/-- Every entry of a class file is that of a method, and holds its body. -/
theorem ClassModel.isStoredIn_of_toClassFile {m : ClassModel} {graph : ClassGraph}
    {version : Version} {file : ClassFile} (h : m.toClassFile graph version = .ok file) {n : Nat}
    {info : MemberInfo .method} (hinfo : file.methods[n]? = some info) :
    ∃ method, m.methods[n]? = some method ∧ method.IsStoredIn file.constants info := by
  obtain ⟨pool, hgrows, hbuilt⟩ := toClassFile_eq_ok h
  have hfaithful := hgrows.faithful faithful_empty
  obtain ⟨method, hmethod, hentry⟩ := exists_getElem?_of_forall₂_right hbuilt.methods hinfo
  rw [Array.getElem?_toList] at hmethod
  refine ⟨method, hmethod, hentry.flags, ?_, ?_, fun body hbody => ?_⟩
  · rw [hbuilt.constants]
    exact hfaithful.isReadAt hentry.name
  · rw [hbuilt.constants]
    exact hfaithful.isReadAt hentry.descriptor
  · -- the attribute that was written is the one that is read as the instructions
    obtain ⟨a, rest, hattributes, -, hencoded⟩ := hentry.body body hbody
    obtain ⟨contents, hwritten, hnone, hlength, hstack, hlocals⟩ := hencoded.exists_contents
    have hread := CodeAttribute.read?_encode hnone hlength hwritten
    have hcode : body.IsWrittenIn file.constants a := by
      obtain ⟨info', hinfo', hall⟩ := isWrittenIn_of_toClassFile h hmethod
      cases hinfo.symm.trans hinfo'
      obtain ⟨a', rest', hattributes', hcode⟩ := hall body hbody
      cases hattributes.symm.trans hattributes'
      exact hcode
    exact ⟨a, rest, contents, hattributes, hcode, hread, hstack, hlocals, hlength⟩

/-! ### Plans -/

namespace Stack

/-- All invocations of the plan are of kinds that their methods allow, also those inside cached
constants. -/
def Plan.IsProper (plan : Plan) : Prop := ∀ o : Operation, .op o ∈ plan.subplans → o.IsProper

theorem Plan.IsProper.isRight {plan : Plan} (h : plan.IsProper) : plan.IsRight 1 :=
  accountsFor_emit (Int.le_of_lt Int.zero_lt_one) fun o ho =>
    o.accountsFor_one (h o (op_mem_subplans ho))

theorem Plan.ComesFrom.isProper {plans : List Plan} {value : Plan} (h : Plan.ComesFrom plans value)
    (hplans : ∀ plan ∈ plans, plan.IsProper) : value.IsProper := by
  obtain ⟨plan, hplan, hinside⟩ := h
  exact fun o ho => hplans plan hplan o (hinside _ ho)

/-- Storing a constant is right if computing it is. -/
theorem ConstantCache.isRight_initializer {r : Registration} (h : r.value.IsProper) :
    (initializer r).IsRight 1 := by
  refine Plan.accountsFor_emit (Int.le_of_lt Int.zero_lt_one) fun o ho => ?_
  rw [initializer, Plan.operations, Plan.mem_operationsEach] at ho
  obtain ⟨part, hpart, ho⟩ := ho
  rcases List.mem_cons.1 hpart with rfl | hpart
  · exact o.accountsFor_one (h o (Plan.op_mem_subplans ho))
  · cases List.mem_singleton.1 hpart
    cases List.mem_singleton.1 ho
    exact Operation.accountsFor_one trivial

end Stack

/-! ### Sessions -/

namespace ClassDraft.Session

variable {s : Session} {declared : Class} {settings : Settings}

/-- No body that was handed in is forgotten. -/
theorem bodies_subset_step (s : Session) (call : Call) : s.bodies ⊆ (s.step call).bodies := by
  intro body hbody
  cases call with
  | declare name descriptor flags => exact hbody
  | elsewhere graph => exact hbody
  | implement method plan =>
      rw [step]
      split
      · exact List.mem_cons_of_mem plan hbody
      · exact List.mem_cons_of_mem plan hbody

theorem bodies_subset_run (s : Session) (calls : List Call) : s.bodies ⊆ (s.run calls).bodies := by
  induction calls generalizing s with
  | nil => exact fun _ h => h
  | cons call calls ih => exact fun _ h => ih (s.step call) (s.bodies_subset_step call h)

/-- **Every call leaves only methods with frames of the right size.** -/
theorem framed_step (h : ∀ m ∈ s.draft.model.methods, m.IsFramed) {call : Call}
    (hproper : ∀ body ∈ (s.step call).bodies, body.IsProper) :
    ∀ m ∈ (s.step call).draft.model.methods, m.IsFramed := by
  cases call with
  | declare name descriptor flags => exact h
  | elsewhere graph => exact h
  | implement method body =>
      rcases implement_cases s.draft s.graph method body with
        ⟨reason, heq⟩ | ⟨hinit, heq⟩ |
        ⟨r, hr, ⟨reason, heq⟩ | ⟨hinit, effect, compiled, hok, hcompiled, heq⟩⟩
      · rw [step, heq]
        exact h
      · rw [step, heq]
        exact h
      · rw [step, heq]
        exact h
      · -- one method more; the effect that was reported for it is the one of its own body
        rw [step, heq] at hproper ⊢
        have hbody : body.IsProper := hproper body List.mem_cons_self
        have heffect := hbody.isRight ⟨s.graph, s.draft.constants⟩ effect (by rw [hr, hok])
        rw [hr] at heffect
        intro m hm
        rcases Array.mem_push.1 hm with hm | rfl
        · exact h m hm
        · exact ⟨compiled, rfl, hcompiled.isFramedFor heffect⟩

/-- **All compiled methods have frames of the right size**, over a whole session. -/
theorem framed_run (h : ∀ m ∈ s.draft.model.methods, m.IsFramed) {calls : List Call}
    (hproper : ∀ body ∈ (s.run calls).bodies, body.IsProper) :
    ∀ m ∈ (s.run calls).draft.model.methods, m.IsFramed := by
  induction calls generalizing s with
  | nil => exact h
  | cons call calls ih =>
      have hstep := framed_step h fun body hbody =>
        hproper body ((s.step call).bodies_subset_run calls hbody)
      exact ih hstep hproper

/-- The type initializer is compiled from the effects of the initializers and of its body. -/
theorem Invariant.framed_compileInitializer (h : s.Invariant declared settings)
    (hproper : ∀ body ∈ s.bodies, body.IsProper) {method : Method} {body : Plan}
    {made : ClassDraft} {graph₁ graph : ClassGraph} (hbody : s.Compiles method body graph₁)
    (hcompile : s.draft.compileInitializer graph₁ method body = (.ok made, graph)) :
    ∃ code : MethodBody, code.IsFramedFor method ∧ made =
      (s.draft.withConstants ⟨graph, made.constants⟩).withMethod ⟨method, some code⟩ := by
  obtain ⟨code, bodyEffect, effect, hmade, hgrows, hok, -, heach, hcompiled⟩ :=
    h.compileInitializer (hbody.comesFrom_outerCached h.accepted) hcompile
  have hvalues : ∀ p ∈ made.constants.registrations.toList.map ConstantCache.initializer,
      p.IsRight 1 := by
    intro p hp
    obtain ⟨r, hr, rfl⟩ := List.mem_map.1 hp
    have hvalue := ConstantCache.knows_of_grows rfl (h.grows.trans hgrows) (Array.mem_toList_iff.1 hr)
    exact ConstantCache.isRight_initializer (hvalue.1.isProper hproper)
  -- the body is one that was handed in, or it only returns
  have hreturn : (Plan.op (.ret none)).IsProper := by
    intro o ho
    cases List.mem_singleton.1 ho
    exact trivial
  have hown : body.IsProper := by
    rcases hbody.mem_bodies h.accepted with hmem | rfl
    · exact hproper body hmem
    · exact hreturn
  -- the effects are put together in the order of the code
  have hjudge : Effect.Composes (Effect.AccountsFor 1) := Effect.composes_accountsFor (by decide)
  have hinitializers := Plan.isJudged_emitEach hjudge hvalues (hjudge.of_accountsFor .zero)
    (congrArg Emitted.outcome heach)
  rw [heach, List.nil_append] at hinitializers
  have hall := hinitializers.andThen (hown.isRight _ bodyEffect hok)
  exact ⟨code, hcompiled.isFramedFor hall, hmade⟩

/-- Every method of a class that is made has a frame of the right size. -/
theorem Invariant.framed_made (h : s.Invariant declared settings)
    (hproper : ∀ body ∈ s.bodies, body.IsProper)
    (hframed : ∀ m ∈ s.draft.model.methods, m.IsFramed) {made : ClassDraft} {graph : ClassGraph}
    (hmade : s.draft.withInitializer s.graph = (.ok made, graph)) :
    ∀ m ∈ made.finalModel.methods, m.IsFramed := by
  rcases h.made_cases hmade with ⟨rfl, -, -⟩ | ⟨method, body, graph₁, hbody, -, hcompile, -⟩
  · exact hframed
  · obtain ⟨code, hcode, heq⟩ := h.framed_compileInitializer hproper hbody hcompile
    intro m hm
    rw [heq] at hm
    rcases Array.mem_push.1 hm with hm | rfl
    · exact hframed m hm
    · exact ⟨code, rfl, hcode⟩

/-- A finished class is read back as its class file. -/
theorem Invariant.file_of_finish (h : s.Invariant declared settings) {generated : GeneratedClass}
    {graph : ClassGraph} (hfinish : s.draft.finish s.graph = (.ok generated, graph)) :
    ∃ (made : ClassDraft) (file : ClassFile),
      s.draft.withInitializer s.graph = (.ok made, graph) ∧
      made.finalModel.toClassFile graph settings.version = .ok file ∧
      ClassFile.decode? generated.bytes = some file := by
  obtain ⟨made, hmade, hbytes⟩ := h.encode_of_finish hfinish
  obtain ⟨file, hfile, hwritten⟩ := ClassModel.encode_eq_ok hbytes
  have hread := ClassFile.decode?_encode (ClassModel.isSound_of_toClassFile hfile) hwritten
  exact ⟨made, file, hmade, hfile, hread⟩

/-- A new class has no methods. -/
theorem methods_new {graph graph' : ClassGraph} {draft : ClassDraft}
    (h : ClassDraft.new settings graph = .ok (draft, graph')) : draft.model.methods = #[] := by
  unfold ClassDraft.new at h
  split at h
  · cases h
  · cases h
    rfl

/-- So whatever is asked of methods holds at the beginning of a session. -/
theorem forall_methods_start {p : MethodModel → Prop} {graph graph' : ClassGraph} {draft : ClassDraft}
    (h : ClassDraft.new settings graph = .ok (draft, graph')) :
    ∀ m ∈ (start draft graph').draft.model.methods, p m := by
  intro m hm
  rw [start, methods_new h] at hm
  exact absurd hm (Array.not_mem_empty m)

/-- **Every method of a finished class has a frame of the right size.** A session of any calls is
finished, with bodies whose invocations are of kinds that their methods allow, and the class is
written. Then the bytes are read as a class file, and each entry of a method in it begins with an
attribute named `Code`, which holds a body and the sizes of its frame: the body leaves the stack as it
finds it, and its frame has room for the operand stack at every point, for the arguments and for every
local variable that is read. There are at most 65535 bytes of bytecode. -/
theorem finish_frames {graph₀ graph₁ graph : ClassGraph} {draft : ClassDraft}
    (hnew : ClassDraft.new settings graph₀ = .ok (draft, graph₁)) {calls : List Call}
    (hrun : (start draft graph₁).run calls = s) (hproper : ∀ body ∈ s.bodies, body.IsProper)
    {generated : GeneratedClass} (hfinish : s.draft.finish s.graph = (.ok generated, graph)) :
    ∃ (made : ClassDraft) (file : ClassFile),
      s.draft.withInitializer s.graph = (.ok made, graph) ∧
      made.finalModel.toClassFile graph settings.version = .ok file ∧
      ClassFile.decode? generated.bytes = some file ∧
      file.methods.length = made.finalModel.methods.size ∧
      ∀ (n : Nat) info, file.methods[n]? = some info →
        ∃ (m : MethodModel) (body : MethodBody) (a : Attribute) (rest : List Attribute)
          (contents : CodeAttribute),
          made.finalModel.methods[n]? = some m ∧ m.body = some body ∧
          body.IsFramedFor m.method ∧ info.flags = m.method.flags ∧
          readText? file.constants info.name = some m.method.name.text ∧
          readText? file.constants info.descriptor = some m.method.descriptor.render ∧
          info.attributes = a :: rest ∧ body.IsWrittenIn file.constants a ∧
          CodeAttribute.read? a.info = some contents ∧ contents.maxStack = body.maxStack ∧
          contents.maxLocals = body.maxLocals ∧ contents.code.length ≤ 65535 := by
  have hinv : s.Invariant draft.declared settings := hrun ▸ (invariant_start hnew).run calls
  obtain ⟨made, file, hmade, hfile, hread⟩ := hinv.file_of_finish hfinish
  have hframed : ∀ m ∈ s.draft.model.methods, m.IsFramed := by
    subst hrun
    exact framed_run (forall_methods_start hnew) hproper
  have hall := hinv.framed_made hproper hframed hmade
  have hlength := ClassModel.length_methods_of_toClassFile hfile
  refine ⟨made, file, hmade, hfile, hread, hlength, fun n info hinfo => ?_⟩
  obtain ⟨m, hm, hstored⟩ := ClassModel.isStoredIn_of_toClassFile hfile hinfo
  obtain ⟨body, hbody, hframe⟩ := hall m (Array.mem_of_getElem? hm)
  obtain ⟨a, rest, contents, hattributes, hcode, hcontents, hstack, hlocals, hlength⟩ :=
    hstored.body body hbody
  exact ⟨m, body, a, rest, contents, hm, hbody, hframe, hstored.flags, hstored.name,
    hstored.descriptor, hattributes, hcode, hcontents, hstack, hlocals, hlength⟩

/-! ### A small class -/

theorem isProper_bodyA : bodyA.IsProper := by
  intro o ho
  have hcases : o = .null ∨ o = .pop false ∨ o = .ret none := by
    simpa [bodyA, Plan.subplans, Plan.subplansEach] using ho
  rcases hcases with rfl | rfl | rfl <;> exact trivial

theorem bodies_sessionA : sessionA.bodies = [bodyA] := by cbv

theorem size_methods_sessionA {made : ClassDraft} {graph : ClassGraph}
    (h : sessionA.draft.withInitializer sessionA.graph = (.ok made, graph)) :
    made.finalModel.methods.size = 1 :=
  eq_of_withInitializer (fun made => made.finalModel.methods.size) (by cbv) h

/-- The type initializer of a small class has a frame of the right size. -/
theorem finish_frames_sessionA :
    ∃ (generated : GeneratedClass) (graph : ClassGraph) (made : ClassDraft) (file : ClassFile)
      (info : MemberInfo .method) (m : MethodModel) (body : MethodBody),
      sessionA.draft.finish sessionA.graph = (.ok generated, graph) ∧
      sessionA.draft.withInitializer sessionA.graph = (.ok made, graph) ∧
      ClassFile.decode? generated.bytes = some file ∧ file.methods[0]? = some info ∧
      made.finalModel.methods[0]? = some m ∧ m.body = some body ∧ body.IsFramedFor m.method := by
  obtain ⟨generated, graph, hfinish⟩ := finish_sessionA
  have hnew : ClassDraft.new settingsA .empty = .ok (draftA, graphA) := rfl
  have hproper : ∀ body ∈ sessionA.bodies, body.IsProper := by
    intro body hbody
    rw [bodies_sessionA, List.mem_singleton] at hbody
    exact hbody ▸ isProper_bodyA
  obtain ⟨made, file, hmade, -, hread, hlength, hall⟩ := finish_frames hnew rfl hproper hfinish
  have hpos : 0 < file.methods.length := by
    rw [hlength, size_methods_sessionA hmade]
    exact Nat.one_pos
  obtain ⟨m, body, -, -, -, hm, hbody, hframe, -⟩ := hall 0 _ (List.getElem?_eq_getElem hpos)
  exact ⟨generated, graph, made, file, _, m, body, hfinish, hmade, hread,
    List.getElem?_eq_getElem hpos, hm, hbody, hframe⟩

end ClassDraft.Session

end JvmCodegen
