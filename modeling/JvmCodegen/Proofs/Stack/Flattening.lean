/-
**Nested sequences are flat.**

A sequence of plans can hold further sequences, to any depth, and plans for no code.  It does not matter
how the parts are grouped: every plan is the sequence of its leaves, from left to right.  The
instructions and the registrations are those of the leaves anyhow.  For the effects this takes two laws:
they compose associatively, and adding the effect of no code changes nothing.  The second one fails for
arbitrary pairs of numbers.  It holds for effects whose peak is neither below the height at the start
nor below the height at the end, and no other effects are ever reported.

Counted in 32 bits, the effects compose in the same way as long as no sum overflows.  Whether one does
depends on the grouping: a group may end where it started, and still pass through heights that are out
of range when they are measured from the start of the whole.

Main definitions:

* `Stack.Effect.IsBounded` — the peak is at least the height at both ends;
* `Stack.Plan.leaves`, `Stack.Plan.flat` — the leaves of a plan, and the sequence of them;
* `Stack.Emitted.addedTo` — the effect counted after one that is known.

Main results:

* `Stack.Effect.IsBounded.andThen_zero`, `Stack.Effect.IsBounded.zero_andThen` — no code has no effect;
* `Stack.Plan.isBounded_of_emit` — every reported effect is bounded;
* `Stack.Plan.emitEach_leaves` — a plan among others can be replaced by its leaves;
* `Stack.Plan.apply_flat` — **a plan and the sequence of its leaves do the same**;
* `Stack.Plan.flat_overflows_groupedCalls` — a plan that can be counted in 32 bits, while the sequence
  of its leaves overflows.
-/

import JvmCodegen.Proofs.Stack.Accounting
import JvmCodegen.Proofs.Stack.Counting

set_option relaxedAutoImplicit false
set_option autoImplicit false

namespace JvmCodegen.Stack

/-! ### Bounded effects -/

/-- The greatest height on the way is neither below the height at the start nor below the height at the
end. -/
structure Effect.IsBounded (e : Effect) : Prop where
  peak_nonneg : 0 ≤ e.peak
  impact_le_peak : e.impact ≤ e.peak

namespace Effect

namespace IsBounded

variable {a b : Effect}

theorem zero : Effect.zero.IsBounded := ⟨Int.le_refl 0, Int.le_refl 0⟩

theorem andThen (ha : a.IsBounded) (hb : b.IsBounded) : (a.andThen b).IsBounded := by
  obtain ⟨hpeak, -⟩ := ha
  obtain ⟨-, himpact⟩ := hb
  constructor
  · rw [peak_andThen]
    omega
  · rw [peak_andThen, impact_andThen]
    omega

theorem pushing (n : Nat) : (Effect.pushing n).IsBounded := ⟨Int.natCast_nonneg n, Int.le_refl _⟩

theorem popping (n : Nat) : (Effect.popping n).IsBounded :=
  ⟨Int.le_refl 0, Int.neg_nonpos_of_nonneg (Int.natCast_nonneg n)⟩

/-- No code after some code. -/
theorem andThen_zero (h : a.IsBounded) : a.andThen Effect.zero = a := by
  obtain ⟨impact, peak⟩ := a
  have hle : impact ≤ peak := h.impact_le_peak
  simp only [Effect.andThen, Effect.zero, Effect.mk.injEq]
  omega

/-- No code before some code. -/
theorem zero_andThen (h : a.IsBounded) : Effect.zero.andThen a = a :=
  Effect.zero_andThen a h.peak_nonneg

/-- An effect that is right about some code is bounded, because the heights of the code are. -/
theorem of_accountsFor {code : List SymbolicInstruction} (h : a.AccountsFor 0 code) : a.IsBounded := by
  have hpeak := h.le_peak
  have hnonneg := peakHeight_nonneg code
  have hnet := netHeight_le_peakHeight code
  have himpact := h.impact_eq
  exact ⟨by omega, by omega⟩

end IsBounded

theorem composes_isBounded : Composes fun effect _ => effect.IsBounded where
  of_accountsFor h := .of_accountsFor h
  andThen ha hb := ha.andThen hb

end Effect

/-- Every operation has a bounded effect, also an invocation of a kind that the method does not allow. -/
theorem Operation.isBounded_effect (o : Operation) : o.effect.IsBounded := by
  cases o with
  | int | float | text | null | typeObject | primitiveObject | methodHandle => exact .pushing 1
  | long | double => exact .pushing 2
  | load kind slot => exact .pushing kind.slots
  | dup wide => exact .pushing _
  | ret kind => exact .popping _
  | pop wide => exact .popping _
  | cast target => exact .zero
  | box type => exact .andThen (.pushing 1) (.popping type.slots)
  | unbox type => exact .andThen (.pushing type.slots) (.popping 1)
  | widen conversion => cases conversion <;> exact ⟨by decide, by decide⟩
  | invoke kind m => exact ⟨Int.le_max_right _ _, Int.le_max_left _ _⟩
  | field access f =>
      have hpeak := peak_fieldEffect access f
      rw [effect]
      exact ⟨by omega, by omega⟩

/-- **Every effect that is reported for a plan is bounded.** -/
theorem Plan.isBounded_of_emit {plan : Plan} {s : Scope} {effect : Effect}
    (h : (plan.emit s).outcome = .ok effect) : effect.IsBounded :=
  isJudged_emit Effect.composes_isBounded (fun o _ => o.isBounded_effect) s effect h

/-! ### Counting effects after a known one -/

namespace Emitted

/-- The same with the effect counted after one that is known. -/
def addedTo (r : Emitted) (soFar : Effect) : Emitted :=
  { r with outcome := r.outcome.map soFar.andThen }

/-- A failure stays as it is. -/
theorem addedTo_of_error {r : Emitted} {reason : Error} (h : r.outcome = .error reason) (soFar : Effect) :
    r.addedTo soFar = r := by
  obtain ⟨outcome, code, scope⟩ := r
  cases h
  rfl

theorem addedTo_andThen (r : Emitted) (next : Effect → Scope → Emitted) (soFar : Effect) :
    (r.andThen next).addedTo soFar = r.andThen fun effect s => (next effect s).addedTo soFar := by
  cases hr : r.outcome with
  | error reason => rw [andThen_of_error hr, andThen_of_error hr, addedTo_of_error hr]
  | ok effect =>
      rw [andThen_of_ok hr, andThen_of_ok hr]
      rfl

/-- Going on with an effect that is counted after a known one. -/
theorem andThen_addedTo (r : Emitted) (next : Effect → Scope → Emitted) (soFar : Effect) :
    (r.addedTo soFar).andThen next = r.andThen fun effect s => next (soFar.andThen effect) s := by
  cases hr : r.outcome with
  | error reason => rw [addedTo_of_error hr, andThen_of_error hr, andThen_of_error hr]
  | ok effect =>
      have hr' : (r.addedTo soFar).outcome = .ok (soFar.andThen effect) := by rw [addedTo, hr]; rfl
      rw [andThen_of_ok hr, andThen_of_ok hr']
      rfl

theorem andThen_assoc (r : Emitted) (next last : Effect → Scope → Emitted) :
    (r.andThen next).andThen last = r.andThen fun effect s => (next effect s).andThen last := by
  cases hr : r.outcome with
  | error reason => simp only [andThen_of_error hr]
  | ok effect =>
      simp only [andThen_of_ok hr]
      cases hnext : (next effect r.scope).outcome with
      | error reason =>
          have hafter : ((next effect r.scope).after r.code).outcome = .error reason := hnext
          rw [andThen_of_error hnext, andThen_of_error hafter]
      | ok effect' =>
          have hafter : ((next effect r.scope).after r.code).outcome = .ok effect' := hnext
          rw [andThen_of_ok hnext, andThen_of_ok hafter]
          simp only [after, List.append_assoc]

/-- What comes next matters only for the effect that there is. -/
theorem andThen_congr {r : Emitted} {next next' : Effect → Scope → Emitted}
    (h : ∀ effect, r.outcome = .ok effect → next effect r.scope = next' effect r.scope) :
    r.andThen next = r.andThen next' := by
  cases hr : r.outcome with
  | error reason => rw [andThen_of_error hr, andThen_of_error hr]
  | ok effect => rw [andThen_of_ok hr, andThen_of_ok hr, h effect hr]

end Emitted

/-! ### Leaves -/

namespace Plan

mutual

/-- The leaves of a plan, from left to right: what is left when sequences are taken apart and plans for
no code are dropped. What is inside cached constants and arrays is not looked at. -/
def leaves : Plan → List Plan
  | sequence parts => leavesEach parts
  | nothing => []
  | impossible => [impossible]
  | op operation => [op operation]
  | methodObject method => [methodObject method]
  | cached value type => [cached value type]
  | array component elements => [array component elements]

/-- The leaves of each plan of a list. -/
def leavesEach : List Plan → List Plan
  | [] => []
  | plan :: rest => plan.leaves ++ leavesEach rest

end

/-- The plan is neither a sequence nor a plan for no code. -/
def isLeaf : Plan → Bool
  | sequence _ | nothing => false
  | _ => true

/-- **The sequence of the leaves** of a plan. -/
def flat (plan : Plan) : Plan := sequence plan.leaves

theorem mem_leavesEach {leaf : Plan} {plans : List Plan} :
    leaf ∈ leavesEach plans ↔ ∃ p ∈ plans, leaf ∈ p.leaves := by
  induction plans with
  | nil => simp [leavesEach]
  | cons plan plans ih => simp [leavesEach, ih]

theorem isLeaf_of_mem_leaves {plan leaf : Plan} (h : leaf ∈ plan.leaves) : leaf.isLeaf = true := by
  induction plan with
  | nothing => exact absurd h List.not_mem_nil
  | sequence parts ih =>
      obtain ⟨p, hp, hleaf⟩ := mem_leavesEach.1 h
      exact ih p hp hleaf
  | impossible | op _ | methodObject _ | cached _ _ _ | array _ _ _ =>
      cases List.mem_singleton.1 h
      rfl

/-- Leaves are their own leaves. -/
theorem leavesEach_of_isLeaf {plans : List Plan} (h : ∀ p ∈ plans, p.isLeaf = true) :
    leavesEach plans = plans := by
  induction plans with
  | nil => rfl
  | cons plan rest ih =>
      have hleaf : plan.leaves = [plan] := by
        cases plan with
        | sequence | nothing => exact absurd (h _ List.mem_cons_self) Bool.false_ne_true
        | impossible | op | methodObject | cached | array => rfl
      rw [leavesEach, hleaf, ih fun p hp => h p (List.mem_cons_of_mem plan hp)]
      rfl

/-- A plan is possible if its leaves are. -/
theorem isPossible_flat (plan : Plan) : plan.flat.isPossible = plan.isPossible := by
  rw [Bool.eq_iff_iff, flat, isPossible, allPossible_iff]
  induction plan with
  | nothing => simp [leaves, isPossible]
  | sequence parts ih =>
      rw [isPossible, allPossible_iff, leaves]
      constructor
      · intro h p hp
        exact (ih p hp).1 fun leaf hleaf => h leaf (mem_leavesEach.2 ⟨p, hp, hleaf⟩)
      · intro h leaf hleaf
        obtain ⟨p, hp, hleaf⟩ := mem_leavesEach.1 hleaf
        exact (ih p hp).2 (h p hp) leaf hleaf
  | impossible | op _ | methodObject _ | cached _ _ _ | array _ _ _ => simp [leaves]

/-! ### Applying the leaves -/

theorem emitEach_append (a b : List Plan) (soFar : Effect) (s : Scope) :
    emitEach (a ++ b) soFar s = (emitEach a soFar s).andThen fun effect s => emitEach b effect s := by
  induction a generalizing soFar s with
  | nil => rfl
  | cons plan a ih =>
      rw [List.cons_append, emitEach, emitEach, Emitted.andThen_assoc]
      simp only [ih]

/-- A sequence does not depend on the effect before it, other than that its own is counted after it. -/
theorem emitEach_andThen (plans : List Plan) (soFar effect : Effect) (s : Scope) :
    emitEach plans (soFar.andThen effect) s = (emitEach plans effect s).addedTo soFar := by
  induction plans generalizing effect s with
  | nil => rfl
  | cons plan rest ih =>
      rw [emitEach, emitEach, Emitted.addedTo_andThen]
      simp only [Effect.andThen_assoc, ih]

theorem emitEach_singleton (plan : Plan) (soFar : Effect) (s : Scope) :
    emitEach [plan] soFar s = (plan.emit s).addedTo soFar := by
  rw [emitEach]
  rcases plan.emit s with ⟨reason | effect, code, s'⟩
  · rfl
  · simp [emitEach, Emitted.andThen, Emitted.after, Emitted.addedTo, Except.map]

/-- After a bounded effect, the plans of a list can be replaced by their leaves if each of them can. -/
theorem emitEach_leavesEach {plans : List Plan}
    (h : ∀ p ∈ plans, ∀ soFar : Effect, soFar.IsBounded → ∀ s : Scope,
      emitEach p.leaves soFar s = (p.emit s).addedTo soFar)
    {soFar : Effect} (hsoFar : soFar.IsBounded) (s : Scope) :
    emitEach (leavesEach plans) soFar s = emitEach plans soFar s := by
  induction plans generalizing soFar s with
  | nil => rfl
  | cons plan rest ih =>
      rw [leavesEach, emitEach_append, h plan List.mem_cons_self soFar hsoFar, Emitted.andThen_addedTo,
        emitEach]
      refine Emitted.andThen_congr fun effect heffect => ?_
      exact ih (fun p hp => h p (List.mem_cons_of_mem plan hp))
        (hsoFar.andThen (isBounded_of_emit heffect)) _

/-- **A plan among others can be replaced by its leaves.** -/
theorem emitEach_leaves (plan : Plan) {soFar : Effect} (hsoFar : soFar.IsBounded) (s : Scope) :
    emitEach plan.leaves soFar s = (plan.emit s).addedTo soFar := by
  induction plan generalizing soFar s with
  | impossible | op _ | methodObject _ | cached _ _ _ | array _ _ _ =>
      exact emitEach_singleton _ soFar s
  | nothing =>
      have hnothing : (Emitted.mk (.ok Effect.zero) [] s).addedTo soFar =
          ⟨.ok (soFar.andThen Effect.zero), [], s⟩ := rfl
      rw [leaves, emitEach, emit, hnothing, hsoFar.andThen_zero]
  | sequence parts ih =>
      have hparts := emitEach_leavesEach (fun p hp soFar hsoFar s => ih p hp hsoFar s) hsoFar s
      rw [leaves, hparts, emit, ← emitEach_andThen, hsoFar.andThen_zero]

/-- Counting a reported effect after no code changes nothing. -/
theorem emit_addedTo_zero (plan : Plan) (s : Scope) : (plan.emit s).addedTo Effect.zero = plan.emit s := by
  cases h : (plan.emit s).outcome with
  | error reason => exact Emitted.addedTo_of_error h _
  | ok effect => rw [Emitted.addedTo, h, Except.map, (isBounded_of_emit h).zero_andThen, ← h]

/-- A plan and the sequence of its leaves, applied to any collector. -/
theorem apply_flat_eq {σ : Type} [CodeCollector σ] (plan : Plan) (e : Emission σ) :
    plan.flat.apply e = plan.apply e := by
  rw [apply_eq_emit, apply_eq_emit, flat, emit, emitEach_leaves plan .zero, emit_addedTo_zero]

/-- **A plan and the sequence of its leaves do the same.** No leaf is a sequence or a plan for no code.
Both plans are possible together, and in every scope and for every collector, applying them appends the
same instructions, registers the same constants, and gives the same effect or the same reason to fail.
Counted in 32 bits, the effect is the same too, unless one of the two counts overflows. -/
theorem apply_flat (plan : Plan) :
    plan.leaves.all isLeaf = true ∧
    plan.flat.isPossible = plan.isPossible ∧
    (∀ {σ : Type} [CodeCollector σ] (e : Emission σ),
      plan.flat.apply e = plan.apply e ∧ Tells plan.size (plan.apply e).1) ∧
    (plan.size ≠ .error .overflow → plan.flat.size ≠ .error .overflow →
      plan.flat.size = plan.size) := by
  refine ⟨List.all_eq_true.2 fun leaf => isLeaf_of_mem_leaves, plan.isPossible_flat,
    fun e => ⟨plan.apply_flat_eq e, plan.tells_size e⟩, fun hplan hflat => ?_⟩
  -- both counts are right about one outcome
  let start : Emission (Array SymbolicInstruction) :=
    ⟨#[], ⟨.empty, .new Java.object ConstantCache.defaultNamePart⟩⟩
  have htold := plan.flat.tells_size start
  rw [apply_flat_eq] at htold
  exact htold.unique (plan.tells_size start) hflat hplan

/-- A number of two slots that is pushed in one group and discarded in another. -/
def discardedLong : Plan :=
  .sequence [.sequence [.op (.long 7), .nothing], .sequence [.sequence [.op (.pop true)]]]

/-- Neither count overflows, and both end with the same size. -/
theorem apply_flat_discardedLong :
    discardedLong.flat = .sequence [.op (.long 7), .op (.pop true)] ∧
      discardedLong.size = .ok ⟨0, 2⟩ ∧ discardedLong.flat.size = .ok ⟨0, 2⟩ := by
  have hsize : discardedLong.size = .ok ⟨0, 2⟩ := rfl
  have hflat : discardedLong.flat.size = .ok ⟨0, 2⟩ := rfl
  obtain ⟨-, -, -, hsame⟩ := apply_flat discardedLong
  refine ⟨rfl, hsize, (hsame ?_ ?_).trans hsize⟩
  · rw [hsize]
    nofun
  · rw [hflat]
    nofun

/-- Many calls, and then two values popped and two pushed, as a group of their own. -/
def groupedCalls : Plan :=
  .sequence [manyCalls, .sequence [.op (.pop false), .op (.pop false), .op (.int 0), .op (.int 0)]]

theorem leaves_groupedCalls :
    groupedCalls.leaves = List.replicate 262144 (.op (.invoke .static (takingLongs 4096))) ++
      [.op (.pop false), .op (.pop false), .op (.int 0), .op (.int 0)] := by
  rw [groupedCalls, leaves, leavesEach, manyCalls, leaves, leavesEach_of_isLeaf fun p hp => ?_]
  · rfl
  · rw [List.eq_of_mem_replicate hp]
    rfl

/-- **Grouping matters where sums overflow.** The two groups reach the lowest number of 32 bits and
stay there; without groups, the first value popped leaves the range. -/
theorem flat_overflows_groupedCalls :
    groupedCalls.isPossible = true ∧ groupedCalls.size = .ok ⟨Int32.minValue, 0⟩ ∧
      groupedCalls.flat.size = .error .overflow := by
  refine ⟨?_, ?_, ?_⟩
  · rw [groupedCalls, isPossible, allPossible, isPossible_manyCalls]
    rfl
  · rw [groupedCalls, size, sizeEach, Stop.bind_of_ok size_manyCalls]
    rfl
  · rw [flat, leaves_groupedCalls, size, sizeEach_append, Stop.bind_of_ok sizeEach_manyCalls]
    rfl

/-- Two groups, one of them with nothing in it but an array that is left alone. -/
example (element : Plan) :
    (sequence [.sequence [.op .null, .nothing],
      .sequence [.sequence [.array (.object Java.object) [.sequence [element]]]]]).flat =
    sequence [.op .null, .array (.object Java.object) [.sequence [element]]] := rfl

end Plan

end JvmCodegen.Stack
