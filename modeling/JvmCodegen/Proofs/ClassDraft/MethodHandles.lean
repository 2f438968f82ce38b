/-
**Method handles and old versions.**

Class files below version 51 have no constants for method handles.  Whether a method loads one is looked
at when it is compiled, and a method that only reads the field of a cached handle passes: the handle is
loaded by the type initializer.  But the type initializer is compiled as well, when the class is
finished, and no other code of the class gets past the check.  So no handle is asked of the constant
pool, and nothing else in a class file leads to one.

Main definitions:

* `MethodModel.Passes` — a method was compiled with the settings of a class.

Main results:

* `Version.knowsMethodHandles_iff` — handles can be loaded from version 51 on;
* `ConstantPool.Grows.kind_ne_methodHandle` — handles are at the highest level of references;
* `ClassDraft.Session.passes_step`, `ClassDraft.Session.passes_run` — all methods have been checked,
  call by call and over a whole session;
* `ClassDraft.Session.finish_without_methodHandles` — **no class file below version 51 has a constant for
  a method handle**.
-/

import Mathlib
import JvmCodegen.Proofs.ClassDraft.References

set_option relaxedAutoImplicit false
set_option autoImplicit false

namespace JvmCodegen

open Stack ConstantPool

/-! ### Versions -/

/-- Method handles can be loaded from version 51 on. -/
theorem Version.knowsMethodHandles_iff (v : Version) :
    v.knowsMethodHandles = true ↔ 51 ≤ v.major := by
  have hminor : (compare v.minor 0).isGE = true := Std.isGE_compare.2 (UInt16.zero_le)
  have hmajor : (compare v.major 51).isGE = true ↔ 51 ≤ v.major := Std.isGE_compare
  rw [knowsMethodHandles, order, java7, ← hmajor]
  dsimp only
  cases compare v.major 51 with
  | lt => exact Iff.rfl
  | eq => exact ⟨fun _ => rfl, fun _ => hminor⟩
  | gt => exact Iff.rfl

/-! ### Constants for method handles -/

namespace ConstantPool

variable {pool : ConstantPool} {o : Operand} {key : PoolKey} {c : Constant}

theorem Builds.kind_eq (h : pool.Builds o key c) : c.kind = o.kind := by
  cases h <;> rfl

/-- The references of a handle go deeper than those of all other constants. -/
theorem Operand.kind_ne_methodHandle (h : o.level < 3) : o.kind ≠ .methodHandle := by
  cases o <;> simp [level, kind] at h ⊢

/-- **A pool that grows below the level of handles** gets no constant for one. -/
theorem Grows.kind_ne_methodHandle {first : ConstantPool} (h : Grows 3 first pool)
    (hfirst : ∀ entry ∈ first.constants.toList, entry.2.kind ≠ .methodHandle) :
    ∀ entry ∈ pool.constants.toList, entry.2.kind ≠ .methodHandle := by
  induction h with
  | refl => exact hfirst
  | add _ hlevel hbuilds _ _ ih =>
      intro entry hentry
      rw [constants_withConstant, OffsetList.toList_push] at hentry
      rcases List.mem_append.1 hentry with hentry | hentry
      · exact ih entry hentry
      · cases List.mem_singleton.1 hentry
        rw [hbuilds.kind_eq]
        exact Operand.kind_ne_methodHandle hlevel

end ConstantPool

theorem level_literalOperand_lt {l : Literal} (h : ∀ target, l ≠ .methodHandle target) :
    (literalOperand l).level < 3 := by
  cases l with
  | methodHandle target => exact absurd rfl (h target)
  | _ => simp [literalOperand, Operand.level]

/-- The literals of a body do not go as deep as a handle, if none is loaded where handles are looked
for: a handle does not take two slots. -/
theorem MethodBody.loadsBelow_three {b : MethodBody}
    (hloads : ∀ i ∈ b.instructions, ClassDraft.loadsMethodHandle i = false)
    (hfits : ∀ i ∈ b.instructions, i.LiteralFits) : b.LoadsBelow 3 := by
  intro i hi l hl
  refine level_literalOperand_lt fun target heq => ?_
  subst heq
  have hload := hloads i hi
  have hfit := hfits i hi
  cases i with
  | ldc l =>
      cases hl
      cases hload
  | ldc2 l =>
      cases hl
      cases hfit
  | _ => cases hl

/-! ### Methods that were checked -/

/-- The method was compiled with the settings of a class. -/
def MethodModel.Passes (m : MethodModel) (settings : Settings) : Prop :=
  ∃ code effect, ClassDraft.compiled settings code effect = .ok m

/-- **A method that was checked loads no handle** where the version does not know them. -/
theorem MethodModel.Passes.loadsMethodHandle_eq_false {m : MethodModel} {settings : Settings}
    (h : m.Passes settings) (hversion : settings.version.knowsMethodHandles = false) :
    ∀ b ∈ m.body, ∀ i ∈ b.instructions, ClassDraft.loadsMethodHandle i = false := by
  obtain ⟨code, effect, hcompiled⟩ := h
  obtain ⟨body, hbody, rfl⟩ := ClassDraft.compiled_eq_ok hcompiled
  intro b hb i hi
  cases hb
  rw [hbody.instructions_eq] at hi
  unfold ClassDraft.compiled at hcompiled
  split at hcompiled
  case isTrue => cases hcompiled
  case isFalse =>
      split at hcompiled
      case isTrue => cases hcompiled
      case isFalse hnone =>
          rw [hversion, Bool.not_false, Bool.and_true, Array.any_eq_true'] at hnone
          exact Bool.eq_false_iff.2 fun hload => hnone ⟨i, hi, hload⟩

namespace ClassDraft

/-! ### Drafts -/

section Drafts

variable (draft : ClassDraft) {draft' made : ClassDraft} {graph' : ClassGraph}

/-- A draft gets no methods but those that pass. -/
theorem passes_of_addCompiled {code : BodyDraft} {effect : Effect} {outcome : Except Error Unit}
    (h : ∀ m ∈ draft.model.methods, m.Passes draft.settings)
    (hadd : draft.addCompiled code effect = (outcome, draft')) :
    ∀ m ∈ draft'.model.methods, m.Passes draft.settings := by
  rw [addCompiled] at hadd
  cases hcompiled : compiled draft.settings code effect with
  | error reason =>
      rw [hcompiled] at hadd
      cases hadd
      exact h
  | ok method =>
      rw [hcompiled] at hadd
      cases hadd
      intro m hm
      rcases Array.mem_push.1 hm with hm | rfl
      · exact h m hm
      · exact ⟨code, effect, hcompiled⟩

/-- Whatever becomes of a body, its draft has only methods that pass. -/
theorem passes_of_implement (graph : ClassGraph) (method : Method) (body : Plan)
    (h : ∀ m ∈ draft.model.methods, m.Passes draft.settings) :
    ∀ m ∈ (draft.implement graph method body).2.1.model.methods, m.Passes draft.settings := by
  cases hfault : draft.fault? method body with
  | some fault =>
      simp only [implement, hfault]
      exact h
  | none =>
      cases hinit : method.isTypeInitializer with
      | true =>
          simp only [implement, hfault, hinit, if_true]
          exact h
      | false =>
          rw [implement_of_fit hfault hinit graph rfl]
          split
          · exact h
          · exact passes_of_addCompiled (draft.withConstants _) h rfl

/-- The type initializer passes as well. -/
theorem passes_of_compileInitializer {graph : ClassGraph} {method : Method} {body : Plan}
    (h : ∀ m ∈ draft.model.methods, m.Passes draft.settings)
    (hcompile : draft.compileInitializer graph method body = (.ok made, graph')) :
    ∀ m ∈ made.model.methods, m.Passes draft.settings := by
  unfold compileInitializer at hcompile
  split at hcompile
  · cases hcompile
  · split at hcompile
    · cases hcompile
    · rename_i e hloop
      dsimp only at hcompile
      split at hcompile
      · cases hcompile
      · rename_i hadded
        cases hcompile
        exact passes_of_addCompiled (draft.withConstants e.scope) h hadded

end Drafts

/-! ### Sessions -/

namespace Session

variable {s : Session} {declared : Class} {settings : Settings}

/-- **Every call leaves only methods that pass.** -/
theorem passes_step (hsettings : s.draft.settings = settings)
    (h : ∀ m ∈ s.draft.model.methods, m.Passes settings) (call : Call) :
    ∀ m ∈ (s.step call).draft.model.methods, m.Passes settings := by
  subst hsettings
  cases call with
  | declare name descriptor flags => exact h
  | elsewhere graph => exact h
  | implement method body =>
      have hall := passes_of_implement s.draft s.graph method body h
      rw [step]
      split
      · rename_i hcall
        rwa [hcall] at hall
      · rename_i hcall
        rwa [hcall] at hall

/-- **All compiled methods pass**, over a whole session. -/
theorem passes_run (hinv : s.Invariant declared settings)
    (h : ∀ m ∈ s.draft.model.methods, m.Passes settings) (calls : List Call) :
    ∀ m ∈ (s.run calls).draft.model.methods, m.Passes settings := by
  induction calls generalizing s with
  | nil => exact h
  | cons call calls ih => exact ih (hinv.step call) (passes_step hinv.settings_eq h call)

/-- Every method of a class that is made passes. -/
theorem Invariant.passes_made (h : s.Invariant declared settings)
    (hpasses : ∀ m ∈ s.draft.model.methods, m.Passes settings) {made : ClassDraft}
    {graph : ClassGraph} (hmade : s.draft.withInitializer s.graph = (.ok made, graph)) :
    ∀ m ∈ made.finalModel.methods, m.Passes settings := by
  rcases h.made_cases hmade with ⟨rfl, -, -⟩ | ⟨method, body, graph₁, -, -, hcompile, -⟩
  · exact hpasses
  · rw [← h.settings_eq] at hpasses ⊢
    exact passes_of_compileInitializer s.draft hpasses hcompile

/-- **No class file below version 51 has a constant for a method handle.** A session of any calls is
finished, for a class whose version is below 51, and the class is written. Then the bytes are read as a
class file of that version, and none of its constants is for a method handle, wherever a body that was
handed in loads one: in the code of a method, in an array, or inside cached constants, which are only
computed in the type initializer. -/
theorem finish_without_methodHandles {graph₀ graph₁ graph : ClassGraph} {draft : ClassDraft}
    (hnew : ClassDraft.new settings graph₀ = .ok (draft, graph₁)) {calls : List Call}
    (hrun : (start draft graph₁).run calls = s) (hversion : settings.version.major < 51)
    {generated : GeneratedClass} (hfinish : s.draft.finish s.graph = (.ok generated, graph)) :
    ∃ file, ClassFile.decode? generated.bytes = some file ∧ file.version = settings.version ∧
      ∀ entry ∈ file.constants.toList, entry.2.kind ≠ .methodHandle := by
  have hinv : s.Invariant draft.declared settings := hrun ▸ (invariant_start hnew).run calls
  have hunknown : settings.version.knowsMethodHandles = false :=
    Bool.eq_false_iff.2 fun hknown =>
      UInt16.not_le.2 hversion (settings.version.knowsMethodHandles_iff.1 hknown)
  obtain ⟨made, file, hmade, hfile, hread⟩ := hinv.file_of_finish hfinish
  obtain ⟨-, hwrites⟩ := hinv.writes_made hmade
  have hpasses : ∀ m ∈ s.draft.model.methods, m.Passes settings := by
    rw [← hrun]
    exact passes_run (invariant_start hnew) (forall_methods_start hnew) calls
  -- no method loads a handle with one instruction or with the other
  have hloads : ∀ m ∈ made.finalModel.methods, ∀ b ∈ m.body, b.LoadsBelow 3 := by
    intro m hm b hb
    obtain ⟨code, hcode, hcomes⟩ := hwrites m hm
    cases hcode.symm.trans hb
    exact MethodBody.loadsBelow_three
      ((hinv.passes_made hpasses hmade m hm).loadsMethodHandle_eq_false hunknown b hb)
      fun i hi => (hcomes i hi).literalFits
  obtain ⟨pool, hgrows, hbuilt⟩ := ClassModel.toClassFile_below (by decide) hloads hfile
  refine ⟨file, hread, hbuilt.version, ?_⟩
  rw [hbuilt.constants]
  exact hgrows.kind_ne_methodHandle fun entry h => absurd h List.not_mem_nil

/-! ### A small class -/

/-- The settings of a class of release 6. -/
def earlySettings : Settings := { settingsA with version := Version.java6 }

/-- The empty draft of the class. -/
def earlyDraft : ClassDraft := { draftA with settings := earlySettings }

/-- A method of the class that takes nothing and returns nothing. -/
def handleMethod : Method := ⟨0, classA, ⟨"m"⟩, ⟨[], none⟩, MethodFlags.staticFlag⟩

/-- Load a handle and discard it. -/
def handleBody : Plan :=
  .sequence [.op (.methodHandle handleMethod), .op (.pop false), .op (.ret none)]

/-- The handle is refused in a method, and the type initializer is given a body without one. -/
def earlySession : Session :=
  (start earlyDraft graphA).run
    [.implement handleMethod handleBody, .elsewhere .empty, .implement initializerA bodyA]

theorem finish_earlySession :
    ∃ generated graph, earlySession.draft.finish earlySession.graph = (.ok generated, graph) :=
  exists_finish_of_toBool (by cbv)

/-- The handle is refused, and the class is finished without one. -/
theorem finish_without_methodHandles_earlySession :
    (earlyDraft.implement graphA handleMethod handleBody).1 =
        .error (.body handleMethod (.methodHandle Version.java6)) ∧
      ∃ (generated : GeneratedClass) (graph : ClassGraph) (file : ClassFile),
        earlySession.draft.finish earlySession.graph = (.ok generated, graph) ∧
        ClassFile.decode? generated.bytes = some file ∧ file.version = Version.java6 ∧
        ∀ entry ∈ file.constants.toList, entry.2.kind ≠ .methodHandle := by
  obtain ⟨generated, graph, hfinish⟩ := finish_earlySession
  have hnew : ClassDraft.new earlySettings .empty = .ok (earlyDraft, graphA) := rfl
  obtain ⟨file, hread, hversion, hnone⟩ :=
    finish_without_methodHandles hnew rfl (by decide) hfinish
  exact ⟨by cbv, generated, graph, file, hfinish, hread, hversion, hnone⟩

end Session

end ClassDraft

end JvmCodegen
