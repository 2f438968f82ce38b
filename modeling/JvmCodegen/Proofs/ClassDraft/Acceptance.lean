/-
**What becomes of accepted bodies.**

An ordinary method is compiled when its body is accepted, and no call takes it back or compiles it
again.  So a finished class has one entry for it, with the code of that body.  A type initializer only
waits when its body is accepted.  There is one place to wait, and a method counts as a type initializer
by its name alone: one with other parameters takes that place without a word.  What is written is the
type initializer that was accepted last; of the others nothing is left.

Main definitions:

* `ClassModel.HasOnly` — a class has exactly one entry for a method, with given code;
* `ClassDraft.Session.Accepts` — a body is accepted for a method.

Main results:

* `ClassDraft.Session.methods_run`, `ClassDraft.Session.nodup_run` — compiled methods stay, and no
  method is compiled twice;
* `ClassDraft.Session.Invariant.made_from` — where the methods of a finished class come from;
* `ClassDraft.Session.finish_keeps_bodies` — **every accepted body is in the finished class**, those of
  replaced type initializers apart;
* `ClassDraft.Session.replaced_initializer_is_lost` — these are lost.
-/

import Mathlib
import JvmCodegen.Proofs.ClassDraft.Frames

set_option relaxedAutoImplicit false
set_option autoImplicit false

namespace JvmCodegen

open Stack

/-! ### One entry for a method -/

/-- The class has exactly one entry for a method, and its code consists of the instructions. -/
def ClassModel.HasOnly (m : ClassModel) (method : Method) (code : List SymbolicInstruction) : Prop :=
  ∃ body : MethodBody, (m.methods.toList.filter fun entry => entry.method == method) =
    [⟨method, some body⟩] ∧ body.instructions.toList = code

/-- The methods that a list of entries is about. -/
def MethodModel.methods (entries : Array MethodModel) : List Method :=
  entries.toList.map MethodModel.method

theorem MethodModel.nodup_push {entries : Array MethodModel} {m : MethodModel}
    (h : (methods entries).Nodup) (hnew : m.method ∉ methods entries) :
    (methods (entries.push m)).Nodup := by
  rw [methods, Array.toList_push, List.map_append, List.nodup_append_comm]
  exact List.nodup_cons.2 ⟨hnew, h⟩

/-- If no two entries are about one method, an entry is the only one for its method. -/
theorem ClassModel.hasOnly_of_mem {m : ClassModel} (h : (MethodModel.methods m.methods).Nodup)
    {method : Method} {body : MethodBody} (hmem : ⟨method, some body⟩ ∈ m.methods) :
    m.HasOnly method body.instructions.toList := by
  refine ⟨body, ?_, rfl⟩
  rw [MethodModel.methods] at h
  obtain ⟨before, after, hsplit⟩ := List.append_of_mem (Array.mem_toList_iff.2 hmem)
  rw [hsplit, List.map_append, List.map_cons, List.nodup_middle, List.nodup_cons] at h
  -- the method of the entry is neither before nor after it
  have hother : ∀ entry ∈ before ++ after, ¬(entry.method == method) = true := by
    intro entry hentry heq
    have hmethod : entry.method ∈ (before ++ after).map MethodModel.method :=
      List.mem_map_of_mem hentry
    rw [beq_iff_eq.1 heq, List.map_append] at hmethod
    exact h.1 hmethod
  have hbefore := List.filter_eq_nil_iff.2 fun entry hentry =>
    hother entry (List.mem_append_left after hentry)
  have hafter := List.filter_eq_nil_iff.2 fun entry hentry =>
    hother entry (List.mem_append_right before hentry)
  have hself : (MethodModel.mk method (some body)).method == method := beq_self_eq_true method
  rw [hsplit, List.filter_append, hbefore, List.nil_append, List.filter_cons, if_pos hself, hafter]

namespace ClassDraft

/-- A method that is not implemented has no entry. -/
theorem not_mem_methods_of_isImplemented {draft : ClassDraft} {method : Method}
    (h : draft.isImplemented method = false) :
    method ∉ MethodModel.methods draft.model.methods := by
  intro hmem
  rw [isImplemented, Bool.or_eq_false_iff] at h
  obtain ⟨entry, hentry, rfl⟩ := List.mem_map.1 hmem
  have hany : draft.model.methods.any (·.method == entry.method) = true :=
    Array.any_eq_true'.2 ⟨entry, Array.mem_toList_iff.1 hentry, beq_self_eq_true _⟩
  rw [hany] at h
  exact absurd h.1 (by simp)

namespace Session

variable {s : Session} {declared : Class} {settings : Settings}

/-! ### Along a session -/

/-- The body is accepted for the method. -/
def Accepts (s : Session) (method : Method) (body : Plan) : Prop :=
  (s.draft.implement s.graph method body).1 = .ok ()

/-- **An ordinary method is compiled when its body is accepted.** -/
theorem Accepts.compiles {method : Method} {body : Plan} (h : s.Accepts method body)
    (hordinary : method.isTypeInitializer = false) :
    ∃ compiled : MethodBody,
      (s.step (.implement method body)).draft.model.methods =
        s.draft.model.methods.push ⟨method, some compiled⟩ ∧
      compiled.instructions.toList = (body.emit ⟨s.graph, s.draft.constants⟩).code := by
  rw [Accepts] at h
  rcases hcall : s.draft.implement s.graph method body with ⟨outcome, draft, graph⟩
  rw [hcall] at h
  cases h
  rcases implement_eq_ok rfl hcall with ⟨-, ⟨hinit, -⟩ | ⟨-, effect, compiled, -, hcode, rfl, -⟩⟩
  · rw [hordinary] at hinit
    cases hinit
  · refine ⟨compiled, ?_, hcode.toList_instructions⟩
    rw [step, hcall]
    rfl

/-- A call compiles one ordinary method that was not compiled before, or none. -/
theorem methods_step (s : Session) (call : Call) :
    (s.step call).draft.model.methods = s.draft.model.methods ∨
    ∃ m : MethodModel, (s.step call).draft.model.methods = s.draft.model.methods.push m ∧
      m.method ∉ MethodModel.methods s.draft.model.methods := by
  cases call with
  | declare name descriptor flags => exact .inl rfl
  | elsewhere graph => exact .inl rfl
  | implement method body =>
      rcases hcall : s.draft.implement s.graph method body with ⟨reason | ⟨⟩, draft, graph⟩
      · -- a refused body can leave its constants behind, but no method
        have heq : draft.model = s.draft.model := by
          rcases implement_eq_error rfl hcall with ⟨-, -, -, rfl, -⟩ | ⟨-, rfl, -⟩ <;> rfl
        rw [step, hcall]
        exact .inl (congrArg ClassModel.methods heq)
      · rcases implement_eq_ok rfl hcall with ⟨hfit, ⟨-, rfl, -⟩ | ⟨-, effect, compiled, -, -, rfl, -⟩⟩
        · rw [step, hcall]
          exact .inl rfl
        · rw [step, hcall]
          exact .inr ⟨_, rfl, not_mem_methods_of_isImplemented (fault?_eq_none_iff.1 hfit).2.1⟩

/-- **What is compiled stays**, over a whole session. -/
theorem methods_run (s : Session) (calls : List Call) {m : MethodModel}
    (h : m ∈ s.draft.model.methods) : m ∈ (s.run calls).draft.model.methods := by
  induction calls generalizing s with
  | nil => exact h
  | cons call calls ih =>
      apply ih
      rcases s.methods_step call with heq | ⟨added, heq, -⟩
      · rw [heq]
        exact h
      · rw [heq]
        exact Array.mem_push_of_mem added h

/-- **No method is compiled twice**, over a whole session. -/
theorem nodup_run (h : (MethodModel.methods s.draft.model.methods).Nodup) (calls : List Call) :
    (MethodModel.methods (s.run calls).draft.model.methods).Nodup := by
  induction calls generalizing s with
  | nil => exact h
  | cons call calls ih =>
      apply ih
      rcases s.methods_step call with heq | ⟨added, heq, hnew⟩
      · rw [heq]
        exact h
      · rw [heq]
        exact MethodModel.nodup_push h hnew

/-- The methods that are compiled in a session are pairwise different. -/
theorem nodup_run_start {settings : Settings} {graph₀ graph₁ : ClassGraph} {draft : ClassDraft}
    (hnew : ClassDraft.new settings graph₀ = .ok (draft, graph₁)) (calls : List Call) :
    (MethodModel.methods ((start draft graph₁).run calls).draft.model.methods).Nodup := by
  refine nodup_run ?_ calls
  rw [start, methods_new hnew]
  exact List.nodup_nil

theorem run_append (s : Session) (before after : List Call) :
    s.run (before ++ after) = (s.run before).run after := List.foldl_append

/-! ### Finishing the class -/

/-- **Where the methods of a finished class come from.** They are those that were compiled in the
session, and then a type initializer: the one that was accepted last, or one that the class gets for
its constants. -/
theorem Invariant.made_from (h : s.Invariant declared settings) {made : ClassDraft}
    {graph : ClassGraph} (hmade : s.draft.withInitializer s.graph = (.ok made, graph)) :
    (s.supplied = none ∧ s.draft.constants.size = 0 ∧ made = s.draft) ∨
    ∃ method code initializers own, s.WritesInitializer made graph method code initializers own ∧
      ((∃ body, s.supplied = some (method, body)) ∨
        s.supplied = none ∧ s.draft.constants.size ≠ 0 ∧
        method = (s.draft.declare s.graph UnqualifiedName.typeInitializer ⟨[], none⟩
          MethodFlags.staticFlag).1) := by
  rcases h.made_cases hmade with ⟨heq, hsize, hnone⟩ |
    ⟨method, body, graph₁, hbody, hinit, hcompile, horigin⟩
  · exact .inl ⟨hnone, hsize, heq⟩
  · obtain ⟨code, initializers, own, hwrites, -⟩ := h.writesInitializer hinit hbody hcompile
    exact .inr ⟨method, code, initializers, own, hwrites, horigin⟩

/-- The methods of a finished class are pairwise different. Those that were compiled in the session are
among them, and each of them goes back to an accepted body or is the type initializer that the class
gets for its constants. -/
theorem Invariant.methods_made (h : s.Invariant declared settings)
    (hnodup : (MethodModel.methods s.draft.model.methods).Nodup) {made : ClassDraft}
    {graph : ClassGraph} (hmade : s.draft.withInitializer s.graph = (.ok made, graph)) :
    (MethodModel.methods made.finalModel.methods).Nodup ∧
      (∀ m ∈ s.draft.model.methods, m ∈ made.finalModel.methods) ∧
      ∀ m ∈ made.finalModel.methods,
        (m.method.isTypeInitializer = false ∧ ∃ body, (m.method, body) ∈ s.accepted) ∨
        (∃ body, s.supplied = some (m.method, body)) ∨
        s.supplied = none ∧ s.draft.constants.size ≠ 0 ∧
        m.method = (s.draft.declare s.graph UnqualifiedName.typeInitializer ⟨[], none⟩
          MethodFlags.staticFlag).1 := by
  have hearlier : ∀ m ∈ s.draft.model.methods,
      m.method.isTypeInitializer = false ∧ ∃ body, (m.method, body) ∈ s.accepted := by
    intro m hm
    obtain ⟨body, hgiven, hordinary, -⟩ := h.methods m hm
    exact ⟨hordinary, body, hgiven⟩
  rcases h.made_from hmade with
    ⟨-, -, rfl⟩ | ⟨method, code, initializers, own, hwrites, horigin⟩
  · exact ⟨hnodup, fun m hm => hm, fun m hm => .inl (hearlier m hm)⟩
  · rw [hwrites.methods_eq]
    refine ⟨?_, fun m hm => Array.mem_push_of_mem _ hm, fun m hm => ?_⟩
    · -- the type initializer is new, because everything before it is an ordinary method
      have hnew : method ∉ MethodModel.methods s.draft.model.methods := by
        intro hmem
        obtain ⟨m, hm, rfl⟩ := List.mem_map.1 hmem
        have hordinary := (hearlier m (Array.mem_toList_iff.1 hm)).1
        rw [hwrites.is_typeInitializer] at hordinary
        cases hordinary
      exact MethodModel.nodup_push hnodup hnew
    · rcases Array.mem_push.1 hm with hm | rfl
      · exact .inl (hearlier m hm)
      · exact .inr horigin

/-- **What becomes of every accepted body.** A session of any calls is finished, and the class is
written. Then the bytes are read as a class file with one entry for each method of the class, which
holds its body, and among the methods

* is exactly one entry for every ordinary method whose body was accepted, with the instructions that
  the body emitted at that time;
* is exactly one entry for the type initializer that was accepted last, with the initializers of all
  cached constants and then the instructions that its body emits;
* is nothing else but the type initializer that the class gets if it has constants and was given no
  type initializer. -/
theorem finish_keeps_bodies {graph₀ graph₁ graph : ClassGraph} {draft : ClassDraft}
    (hnew : ClassDraft.new settings graph₀ = .ok (draft, graph₁)) {calls : List Call}
    (hrun : (start draft graph₁).run calls = s) {generated : GeneratedClass}
    (hfinish : s.draft.finish s.graph = (.ok generated, graph)) :
    ∃ (made : ClassDraft) (file : ClassFile),
      s.draft.withInitializer s.graph = (.ok made, graph) ∧
      made.finalModel.toClassFile graph settings.version = .ok file ∧
      ClassFile.decode? generated.bytes = some file ∧
      file.methods.length = made.finalModel.methods.size ∧
      (∀ (n : Nat) info, file.methods[n]? = some info → ∃ m, made.finalModel.methods[n]? = some m ∧
        m.IsStoredIn file.constants info) ∧
      (∀ before method body after, calls = before ++ .implement method body :: after →
        ∀ before' : Session, (start draft graph₁).run before = before' →
        before'.Accepts method body → method.isTypeInitializer = false →
        made.finalModel.HasOnly method
          (body.apply ⟨#[], ⟨before'.graph, before'.draft.constants⟩⟩).2.code.toList) ∧
      (∀ method body, s.supplied = some (method, body) → ∃ code initializers own,
        s.WritesInitializer made graph method code initializers own ∧
        made.finalModel.HasOnly method (initializers ++ own)) ∧
      ∀ m ∈ made.finalModel.methods,
        (m.method.isTypeInitializer = false ∧ ∃ body, (m.method, body) ∈ s.accepted) ∨
        (∃ body, s.supplied = some (m.method, body)) ∨
        s.supplied = none ∧ s.draft.constants.size ≠ 0 ∧
        m.method = (s.draft.declare s.graph UnqualifiedName.typeInitializer ⟨[], none⟩
          MethodFlags.staticFlag).1 := by
  have hinv : s.Invariant draft.declared settings := hrun ▸ (invariant_start hnew).run calls
  have hnodup : (MethodModel.methods s.draft.model.methods).Nodup :=
    hrun ▸ nodup_run_start hnew calls
  obtain ⟨made, file, hmade, hfile, hread⟩ := hinv.file_of_finish hfinish
  obtain ⟨hdistinct, hkept, horigin⟩ := hinv.methods_made hnodup hmade
  refine ⟨made, file, hmade, hfile, hread, ClassModel.length_methods_of_toClassFile hfile,
    fun n info hinfo => ClassModel.isStoredIn_of_toClassFile hfile hinfo, ?_, ?_, horigin⟩
  · rintro before method body after hcalls before' hbefore haccepts hordinary
    obtain ⟨compiled, hmethods, hcode⟩ := haccepts.compiles hordinary
    have hlater : s = (before'.step (.implement method body)).run after := by
      rw [← hrun, hcalls, run_append, hbefore]
      rfl
    have hmem : ⟨method, some compiled⟩ ∈ s.draft.model.methods := by
      rw [hlater]
      apply methods_run
      rw [hmethods]
      exact Array.mem_push_self
    rw [Plan.apply_eq_emit, Emitted.onto, toList_foldl_append, List.nil_append, ← hcode]
    exact ClassModel.hasOnly_of_mem hdistinct (hkept _ hmem)
  · intro method body hsupplied
    rcases hinv.made_from hmade with ⟨hnone, -⟩ |
      ⟨method', code, initializers, own, hwrites, ⟨body', hlast⟩ | ⟨hnone, -⟩⟩
    · rw [hsupplied] at hnone
      cases hnone
    · rw [hsupplied] at hlast
      cases hlast
      have hmem : ⟨method, some code⟩ ∈ made.finalModel.methods := by
        rw [hwrites.methods_eq]
        exact Array.mem_push_self
      refine ⟨code, initializers, own, hwrites, ?_⟩
      rw [← hwrites.code_eq]
      exact ClassModel.hasOnly_of_mem hdistinct hmem
    · rw [hsupplied] at hnone
      cases hnone

/-! ### Two type initializers -/

/-- Another type initializer of the class, which takes a number. -/
def numberedInitializerA : Method :=
  ⟨1, classA, UnqualifiedName.typeInitializer, ⟨[.primitive .int], none⟩, MethodFlags.staticFlag⟩

/-- Both type initializers are declared. -/
def declarationsA : List Call :=
  [.declare UnqualifiedName.typeInitializer ⟨[], none⟩ MethodFlags.staticFlag,
    .declare UnqualifiedName.typeInitializer ⟨[.primitive .int], none⟩ MethodFlags.staticFlag]

/-- One after the other they are given bodies. -/
def implementationsA : List Call :=
  [.implement initializerA bodyA, .implement numberedInitializerA (.op (.ret none))]

/-- Both type initializers are declared and given bodies. -/
def replacedA : Session := (start draftA graphA).run (declarationsA ++ implementationsA)

theorem finish_replacedA :
    ∃ generated graph, replacedA.draft.finish replacedA.graph = (.ok generated, graph) :=
  exists_finish_of_toBool (by cbv)

theorem supplied_replacedA :
    replacedA.supplied = some (numberedInitializerA, .op (.ret none)) := by cbv

/-- The type initializer that was accepted last is in the class. -/
theorem finish_keeps_bodies_replacedA :
    ∃ (generated : GeneratedClass) (made : ClassDraft) (graph : ClassGraph) (file : ClassFile)
      (code : List SymbolicInstruction),
      replacedA.draft.finish replacedA.graph = (.ok generated, graph) ∧
      replacedA.draft.withInitializer replacedA.graph = (.ok made, graph) ∧
      ClassFile.decode? generated.bytes = some file ∧
      made.finalModel.HasOnly numberedInitializerA code := by
  obtain ⟨generated, graph, hfinish⟩ := finish_replacedA
  have hnew : ClassDraft.new settingsA .empty = .ok (draftA, graphA) := rfl
  obtain ⟨made, file, hmade, -, hread, -, -, -, hlast, -⟩ := finish_keeps_bodies hnew rfl hfinish
  obtain ⟨code, initializers, own, -, honly⟩ := hlast _ _ supplied_replacedA
  exact ⟨generated, made, graph, file, _, hfinish, hmade, hread, honly⟩

/-- **A type initializer that is replaced is lost.** It was accepted, as was the one that takes its
place, and the class was finished; but the class has no entry for it. -/
theorem replaced_initializer_is_lost :
    ClassDraft.new settingsA .empty = .ok (draftA, graphA) ∧
    ((start draftA graphA).run declarationsA).Accepts initializerA bodyA ∧
    (((start draftA graphA).run declarationsA).step (.implement initializerA bodyA)).Accepts
      numberedInitializerA (.op (.ret none)) ∧
    ∃ (generated : GeneratedClass) (made : ClassDraft) (graph : ClassGraph),
      replacedA.draft.finish replacedA.graph = (.ok generated, graph) ∧
      replacedA.draft.withInitializer replacedA.graph = (.ok made, graph) ∧
      ∀ code, ¬made.finalModel.HasOnly initializerA code := by
  obtain ⟨generated, graph, hfinish⟩ := finish_replacedA
  obtain ⟨made, hmade, -⟩ := finish_eq_ok hfinish
  have hmethods : MethodModel.methods made.finalModel.methods = [numberedInitializerA] :=
    eq_of_withInitializer (fun made => MethodModel.methods made.finalModel.methods) (by cbv) hmade
  refine ⟨rfl, by cbv, by cbv, generated, made, graph, hfinish, hmade, fun code honly => ?_⟩
  obtain ⟨body, hentries, -⟩ := honly
  have hmem : initializerA ∈ MethodModel.methods made.finalModel.methods :=
    List.mem_map.2 ⟨_, List.mem_of_mem_filter (hentries ▸ List.mem_singleton_self _), rfl⟩
  rw [hmethods, List.mem_singleton] at hmem
  exact absurd hmem (by decide)

end Session

end ClassDraft

end JvmCodegen
