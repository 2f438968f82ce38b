/-
**Balanced bodies.**

A body is accepted if the effect that is reported for it leaves the height of the stack as it was.
This is all that is checked.  The effect is a sum over the instructions, so it tells a body that pops
too much from one that does not only if nothing makes up for it later: a body may take a value that it
never pushed, and put one back.  If such a body does not run out of the stack, or runs on a stack that
is high enough, it ends where it started.

Main definitions:

* `ClassDraft.Session.borrowingA` — a body that pops first and pushes afterwards;
* `ClassDraft.Session.miscallingA` — a body with a call that does not take what is reported for it.

Main results:

* `Stack.Plan.net_le_impact` — the reported change of the height is never below that of the code;
* `ClassDraft.implement_eq_unbalanced_iff` — a body is refused as unbalanced exactly if the reported
  change of the height is not zero;
* `ClassDraft.accepted_body_keeps_height` — **an accepted body ends with an empty stack, unless it runs
  out of the stack on the way**;
* `ClassDraft.Session.accepted_body_can_be_unbalanced` — bodies that run out of it, or do not empty it.
-/

import JvmCodegen.Proofs.ClassDraft.Frames
import JvmCodegen.Proofs.ClassDraft.Refusal
import JvmCodegen.Proofs.Stack.Operands
import JvmCodegen.Proofs.Stack.Underflow

set_option relaxedAutoImplicit false
set_option autoImplicit false

namespace JvmCodegen

open Stack

/-! ### Reported changes of the height -/

namespace Stack

/-- A direct invocation of a static method takes one slot more than is reported. All other operations
change the height as reported. -/
theorem Operation.net_le_impact {o : Operation} (h : o.IsOffered) :
    netHeight [o.instruction] ≤ o.effect.impact := by
  by_cases hproper : o.IsProper
  · exact Int.le_of_eq (o.accountsFor_one hproper).impact_eq.symm
  · cases o with
    | invoke kind m =>
        rcases h with hkind | rfl
        · exact absurd (.inl hkind) hproper
        · simp only [IsProper, true_and, not_or, Bool.not_eq_false] at hproper
          simp only [instruction, netHeight_cons, netHeight_nil, Instruction.slotEffect,
            SlotEffect.net, InvokeKind.hasReceiver, effect, invokeEffect, Method.argumentSlots,
            MethodDescriptor.parameterSlots, hproper.2]
          simp
    | _ => exact absurd trivial hproper

/-- Code that changes the height by no more than is reported is put together to such code. -/
theorem Effect.composes_net_le :
    Composes fun effect code => netHeight code ≤ effect.impact where
  of_accountsFor h := Int.le_of_eq h.impact_eq.symm
  andThen ha hb := by
    rw [impact_andThen, netHeight_append]
    exact Int.add_le_add ha hb

/-- **The reported change of the height is never below that of the code.** -/
theorem Plan.net_le_impact {plan : Plan} (h : plan.IsOffered) :
    plan.IsJudged fun effect code => netHeight code ≤ effect.impact :=
  isJudged_emit Effect.composes_net_le fun o ho => Operation.net_le_impact (h o (op_mem_subplans ho))

end Stack

namespace ClassDraft

/-! ### What the check looks at -/

/-- Gathered code is refused as unbalanced if the reported change of the height is not zero, and for no
other reason. -/
theorem compiled_eq_unbalanced_iff {settings : Settings} {code : BodyDraft} {effect : Effect}
    {method : Method} {impact : Int} :
    compiled settings code effect = .error (.unbalanced method impact) ↔
      effect.impact ≠ 0 ∧ code.method = method ∧ effect.impact = impact := by
  unfold compiled
  by_cases hbalanced : effect.impact = 0
  · rw [if_neg (not_not.2 hbalanced)]
    constructor
    · intro h
      split at h
      · cases h
      · split at h <;> cases h
    · intro h
      exact absurd hbalanced h.1
  · rw [if_pos hbalanced]
    simp [hbalanced]

theorem addCompiled_eq_error_iff {draft : ClassDraft} {code : BodyDraft} {effect : Effect}
    {reason : Error} :
    (draft.addCompiled code effect).1 = .error reason ↔
      compiled draft.settings code effect = .error reason := by
  rw [addCompiled]
  cases compiled draft.settings code effect <;> simp

/-- **A body is refused as unbalanced** exactly if it is looked into, can be applied, and is reported to
change the height of the stack. -/
theorem implement_eq_unbalanced_iff {draft : ClassDraft} {graph : ClassGraph} {method : Method}
    {body : Plan} (hordinary : method.isTypeInitializer = false) {impact : Int} :
    (draft.implement graph method body).1 = .error (.unbalanced method impact) ↔
      draft.fault? method body = none ∧ impact ≠ 0 ∧
        ∃ peak, (body.emit ⟨graph, draft.constants⟩).outcome = .ok ⟨impact, peak⟩ := by
  cases hfault : draft.fault? method body with
  | some fault =>
      rw [implement, hfault]
      simp
  | none =>
      rw [implement_of_fit hfault hordinary graph rfl]
      cases hok : (body.emit ⟨graph, draft.constants⟩).outcome with
      | error reason =>
          rw [Plan.impossiblePlan_of_emit hok]
          simp
      | ok effect =>
          dsimp only
          rw [addCompiled_eq_error_iff, compiled_eq_unbalanced_iff, BodyDraft.method_foldl]
          constructor
          · rintro ⟨hne, -, rfl⟩
            exact ⟨rfl, hne, effect.peak, rfl⟩
          · rintro ⟨-, hne, peak, heffect⟩
            cases heffect
            exact ⟨hne, rfl, rfl⟩

/-! ### Accepted bodies -/

/-- **An accepted body ends with an empty stack, unless it runs out of the stack on the way.** A body is
handed in for an ordinary method.

* It is refused as unbalanced exactly if there is no other fault in it and the change of the height that
  is reported when it is applied is not zero; where its invocations are of kinds that their methods
  allow, this is the change of the height by its code.
* If it is accepted, it is compiled to the instructions that applying it emits. Run from an empty stack,
  they end with an empty stack, or one of them pops more slots than the stack holds at that point, if
  the invocations are put together as the library offers them.
* If it is accepted and its invocations are of kinds that their methods allow, its instructions run
  through from every height that is high enough, and end at the same height. -/
theorem accepted_body_keeps_height {draft : ClassDraft} {graph : ClassGraph} {method : Method}
    {body : Plan} (hordinary : method.isTypeInitializer = false)
    {applied : Except Error Effect × Emission (Array SymbolicInstruction)}
    (happlied : body.apply ⟨#[], ⟨graph, draft.constants⟩⟩ = applied)
    {code : List SymbolicInstruction} (hcode : applied.2.code.toList = code) :
    (∀ impact, (draft.implement graph method body).1 = .error (.unbalanced method impact) ↔
      draft.fault? method body = none ∧ impact ≠ 0 ∧ ∃ peak, applied.1 = .ok ⟨impact, peak⟩) ∧
    (body.IsProper → ∀ effect, applied.1 = .ok effect → effect.impact = netHeight code) ∧
    ((draft.implement graph method body).1 = .ok () →
      (∃ compiled : MethodBody, compiled.instructions.toList = code ∧
        (draft.implement graph method body).2.1.model.methods =
          draft.model.methods.push ⟨method, some compiled⟩) ∧
      (body.IsOffered →
        runHeight 0 code = some 0 ∨ ∃ before i, BreaksOffAt 0 code before i) ∧
      (body.IsProper → ∀ height, neededHeight code ≤ height → runHeight height code = some height)) := by
  rw [Plan.apply_eq_emit, Emitted.onto] at happlied
  subst happlied
  rw [toList_foldl_append, List.nil_append] at hcode
  subst hcode
  have hproper : body.IsProper → ∀ effect, (body.emit ⟨graph, draft.constants⟩).outcome = .ok effect →
      effect.impact = netHeight (body.emit ⟨graph, draft.constants⟩).code :=
    fun hproper effect hok => (hproper.isRight _ effect hok).impact_eq
  refine ⟨fun impact => implement_eq_unbalanced_iff hordinary, hproper, fun haccepted => ?_⟩
  rcases hcall : draft.implement graph method body with ⟨outcome, draft', graph'⟩
  rw [hcall] at haccepted
  cases haccepted
  rcases implement_eq_ok rfl hcall with
    ⟨-, ⟨hinit, -⟩ | ⟨-, effect, compiled, hok, hcompiled, rfl, -⟩⟩
  · rw [hordinary] at hinit
    cases hinit
  · refine ⟨⟨compiled, hcompiled.toList_instructions, rfl⟩, fun hoffered => ?_,
      fun hbody height hneeded => ?_⟩
    · have hle : netHeight (body.emit ⟨graph, draft.constants⟩).code ≤ effect.impact :=
        Plan.net_le_impact hoffered ⟨graph, draft.constants⟩ effect hok
      rw [hcompiled.balanced] at hle
      cases hrun : runHeight 0 (body.emit ⟨graph, draft.constants⟩).code with
      | none => exact .inr (exists_breaksOffAt hrun)
      | some last =>
          -- the height at the end cannot be negative, and it is not above zero
          have hlast := eq_netHeight_of_runHeight hrun
          have hzero : last = 0 := by omega
          exact .inl (by rw [hzero])
    · have himpact := hproper hbody effect hok
      rw [hcompiled.balanced] at himpact
      rw [runHeight_of_neededHeight_le hneeded, ← himpact]
      simp

/-! ### A body that borrows -/

namespace Session

/-- The class graph in which the method is declared. -/
def graphWithMethodA : ClassGraph :=
  (draftA.declare graphA ⟨"m"⟩ ⟨[], none⟩ MethodFlags.staticFlag).2

/-- Push a text and discard it. -/
def discardingA : Plan := .sequence [.op (.text "a"), .op (.pop false), .op (.ret none)]

/-- The text is discarded on a stack of any height, also on an empty one. -/
theorem accepted_body_keeps_height_discardingA :
    methodA.isTypeInitializer = false ∧
      (draftA.implement graphWithMethodA methodA discardingA).1 = .ok () ∧
      ∃ code, (discardingA.apply (⟨#[], ⟨graphWithMethodA, draftA.constants⟩⟩ :
          Emission (Array SymbolicInstruction))).2.code.toList = code ∧
        ∀ height, neededHeight code ≤ height → runHeight height code = some height := by
  have hproper : discardingA.IsProper := by
    intro o ho
    have hinside : o = .text "a" ∨ o = .pop false ∨ o = .ret none := by
      simpa [discardingA, Plan.subplans, Plan.subplansEach] using ho
    rcases hinside with rfl | rfl | rfl <;> exact trivial
  have haccepted : (draftA.implement graphWithMethodA methodA discardingA).1 = .ok () := by cbv
  have hordinary : methodA.isTypeInitializer = false := rfl
  obtain ⟨-, -, hkeeps⟩ := accepted_body_keeps_height hordinary rfl rfl
  exact ⟨hordinary, haccepted, _, rfl, (hkeeps haccepted).2.2 hproper⟩

/-- Take a number off the stack, put one back, and return. -/
def borrowingA : Plan := .sequence [.op (.pop false), .op (.int 1), .op (.ret none)]

/-- An instance method of the class. -/
def instanceMethodA : Method := ⟨1, classA, ⟨"k"⟩, ⟨[], none⟩, MethodFlags.publicFlag⟩

/-- Push a receiver, call the instance method as if it were static, and return. The library does not
offer this call, but it can be put together. -/
def miscallingA : Plan :=
  .sequence [.op .null, .op (.invoke .static instanceMethodA), .op (.ret none)]

/-- **An accepted body can run out of the stack**, or leave something on it. The method takes nothing and
is declared in the class. The first body is accepted although its first instruction pops a slot off an
empty stack: the number that is pushed afterwards makes up for it. The second one is accepted although
it leaves the receiver on the stack: the call is reported to take it. -/
theorem accepted_body_can_be_unbalanced :
    ClassDraft.new settingsA .empty = .ok (draftA, graphA) ∧
      draftA.declare graphA ⟨"m"⟩ ⟨[], none⟩ MethodFlags.staticFlag = (methodA, graphWithMethodA) ∧
      methodA.isTypeInitializer = false ∧
      ((draftA.implement graphWithMethodA methodA borrowingA).1 = .ok () ∧
        (borrowingA.apply (⟨#[], ⟨graphWithMethodA, draftA.constants⟩⟩ :
            Emission (Array SymbolicInstruction))).2.code.toList =
          [.bare .pop, .bare .iconst1, .bare .voidReturn] ∧
        runHeight 0 [.bare .pop, .bare .iconst1, .bare .voidReturn] = none ∧
        BreaksOffAt 0 [.bare .pop, .bare .iconst1, .bare .voidReturn] [] (.bare .pop)) ∧
      (draftA.implement graphWithMethodA methodA miscallingA).1 = .ok () ∧
        (miscallingA.apply (⟨#[], ⟨graphWithMethodA, draftA.constants⟩⟩ :
            Emission (Array SymbolicInstruction))).2.code.toList =
          [.bare .aconstNull, .invoke .static instanceMethodA, .bare .voidReturn] ∧
        runHeight 0 [.bare .aconstNull, .invoke .static instanceMethodA, .bare .voidReturn] =
          some 1 := by
  refine ⟨rfl, rfl, rfl, ⟨by cbv, by cbv, rfl, ?_, 0, rfl, ?_⟩, by cbv, by cbv, rfl⟩
  · exact ⟨_, rfl⟩
  · decide

end Session

end ClassDraft

end JvmCodegen
