/-
**Possible plans are those that can be applied.**

Whether a plan is possible is read off the tree, before anything is emitted.  Applying it goes
through the tree a second time, on its own terms: an array counts its elements, and a cached constant
is judged, looked up, and registered after the constants nested inside it, each of which is judged
again.  Both ways agree.  A plan that can be applied somewhere can be applied everywhere, and where it
cannot, there is only one reason.

Main definition: `Stack.Plan.IsApplicable` — the plan can be applied in some scope.

Main results:

* `Stack.Plan.isPossible_of_isApplicable` — nothing impossible is ever applied;
* `Stack.Plan.impossiblePlan_of_emit` — the one reason why applying a plan fails;
* `Stack.Plan.apply_succeeds_iff_isPossible` — **applying a plan succeeds exactly if it is possible**,
  whatever the scope and the collector, and so does asking for it as a constant.
-/

import JvmCodegen.Proofs.Stack.Caching

set_option relaxedAutoImplicit false
set_option autoImplicit false

namespace JvmCodegen.Stack

/-! ### Asking for constants -/

namespace Scope

/-- Asking for a constant gives a field exactly if its value is possible. -/
theorem cache_eq_ok_iff {s : Scope} {value : Plan} {type : ValueType} :
    (∃ field s', s.cache value type = (.ok field, s')) ↔ value.isPossible = true := by
  constructor
  · rintro ⟨field, s', h⟩
    exact isPossible_of_cache h
  · intro h
    obtain ⟨field, hok, -⟩ := s.cache_of_isPossible h type
    exact ⟨field, _, Prod.ext hok rfl⟩

/-- The constants nested inside a possible value are all registered, in one scope after the other. -/
theorem cacheEach_outerCached {value : Plan} (h : value.isPossible = true) (s : Scope) :
    ∃ s', s.cacheEach value.outerCached = (.ok (), s') := by
  have heach : s.CacheEachSpec value.outerCached :=
    cacheEachSpec (fun n _ s => s.cacheSpec n.value n.type) s
  obtain ⟨hok, -⟩ := heach.known fun n hn => Plan.isPossible_of_mem_outerCached h hn
  exact ⟨_, Prod.ext hok rfl⟩

end Scope

namespace Plan

/-! ### What can be applied is possible -/

/-- The plan can be applied in some scope. -/
def IsApplicable (plan : Plan) : Prop :=
  ∃ (s : Scope) (effect : Effect), (plan.emit s).outcome = .ok effect

/-- If all plans of a list can be applied one after the other, each of them can be applied. -/
theorem isApplicable_of_emitEach {plans : List Plan} {soFar effect : Effect} {s : Scope}
    (h : (emitEach plans soFar s).outcome = .ok effect) : ∀ p ∈ plans, p.IsApplicable := by
  induction plans generalizing soFar s with
  | nil => exact fun p hp => absurd hp List.not_mem_nil
  | cons plan rest ih =>
      rw [emitEach] at h
      obtain ⟨first, hfirst, hrest⟩ := Emitted.outcome_andThen_eq_ok h
      intro p hp
      rcases List.mem_cons.1 hp with rfl | hp
      · exact ⟨s, first, hfirst⟩
      · exact ih hrest p hp

/-- If an array can be filled with the values of a list of plans, each of them can be applied. -/
theorem isApplicable_of_emitFill {component : ValueType} {plans : List Plan} {index : Nat}
    {soFar effect : Effect} {s : Scope}
    (h : (emitFill component plans index soFar s).outcome = .ok effect) :
    ∀ p ∈ plans, p.IsApplicable := by
  induction plans generalizing index soFar s with
  | nil => exact fun p hp => absurd hp List.not_mem_nil
  | cons plan rest ih =>
      rw [emitFill, Emitted.outcome_after] at h
      obtain ⟨first, hfirst, hrest⟩ := Emitted.outcome_andThen_eq_ok h
      intro p hp
      rcases List.mem_cons.1 hp with rfl | hp
      · exact ⟨s, first, hfirst⟩
      · exact ih hrest p hp

/-- **Nothing impossible is ever applied.** -/
theorem isPossible_of_isApplicable {plan : Plan} (h : plan.IsApplicable) :
    plan.isPossible = true := by
  obtain ⟨s, effect, h⟩ := h
  induction plan generalizing s effect with
  | impossible => cases h
  | nothing | op _ | methodObject _ => rfl
  | sequence parts ih =>
      rw [isPossible, allPossible_iff]
      intro p hp
      obtain ⟨s', effect', hok⟩ := isApplicable_of_emitEach h p hp
      exact ih p hp s' effect' hok
  | cached value type _ =>
      -- the value is not applied here, but it is judged when its field is asked for
      rw [emit, emitCached] at h
      rw [isPossible]
      rcases hcache : s.cache value type with ⟨reason | field, s'⟩
      · rw [hcache] at h
        cases h
      · exact Scope.isPossible_of_cache hcache
  | array component elements ih =>
      rw [emit] at h
      split at h
      case isFalse => cases h
      case isTrue hlength =>
          rw [isPossible, Bool.and_eq_true, allPossible_iff]
          refine ⟨decide_eq_true hlength, fun p hp => ?_⟩
          obtain ⟨s', effect', hok⟩ := isApplicable_of_emitFill h p hp
          exact ih p hp s' effect' hok

/-! ### The reason to fail -/

/-- Applying a plan fails only because something in it is impossible. -/
theorem impossiblePlan_of_emit {plan : Plan} {s : Scope} {reason : Error}
    (h : (plan.emit s).outcome = .error reason) : reason = .impossiblePlan := by
  refine emit_rule (R := fun _ r => r.outcome = .error reason → reason = .impossiblePlan)
    ?done ?stop ?after ?andThen ?object ?op ?cached s h
  case done => exact fun _ _ => nofun
  case stop => exact fun _ h => (Except.error.inj h).symm
  case after => exact fun _ _ _ _ hr => hr
  case andThen =>
    intro s r next hr hnext h
    rcases r.andThen_cases next with heq | ⟨effect, hok, heq⟩
    · rw [heq] at h
      exact hr h
    · rw [heq, Emitted.outcome_after] at h
      exact hnext effect hok h
  case object =>
    intro method s h
    unfold emitMethodObject at h
    split at h
    · cases h
    · exact (Except.error.inj h).symm
  case op => exact fun _ _ _ => nofun
  case cached =>
    intro n _ s h
    rw [emitCached] at h
    rcases hcache : s.cache n.value n.type with ⟨reason' | field, s₁⟩
    · rw [hcache] at h
      cases h
      exact (Scope.of_cache_eq_error hcache).2.1
    · rw [hcache] at h
      cases h

/-! ### Every scope and every collector -/

/-- **Applying a plan succeeds exactly if it is possible**, whatever the scope and the collector, and
wherever it fails, this is because something in it is impossible. Asking for the plan as a constant of
any type succeeds under the same condition and fails for the same reason, in which case nothing is
registered; and if the plan is possible, all constants nested inside it can be registered. The
reflective objects in the plan have to be of methods whose parameters an array has room for. -/
theorem apply_succeeds_iff_isPossible {σ : Type} [CodeCollector σ] {plan : Plan}
    (hfit : plan.ObjectsFit) (e : Emission σ) (s : Scope) (type : ValueType) :
    ((∃ effect e', plan.apply e = (.ok effect, e')) ↔ plan.isPossible = true) ∧
      (∀ reason e', plan.apply e = (.error reason, e') → reason = .impossiblePlan) ∧
      ((∃ field s', s.cache plan type = (.ok field, s')) ↔ plan.isPossible = true) ∧
      (∀ reason s', s.cache plan type = (.error reason, s') →
        reason = .impossiblePlan ∧ s' = s) ∧
      (plan.isPossible = true → ∃ s', s.cacheEach plan.outerCached = (.ok (), s')) := by
  refine ⟨⟨?_, fun hpossible => ?_⟩, fun reason e' h => ?_, Scope.cache_eq_ok_iff,
    fun reason s' h => (Scope.of_cache_eq_error h).2, fun h => Scope.cacheEach_outerCached h s⟩
  · rintro ⟨effect, e', h⟩
    exact isPossible_of_isApplicable ⟨e.scope, effect, (of_apply_eq h).1⟩
  · obtain ⟨effect, hok⟩ := emit_succeeds hpossible hfit e.scope
    rw [apply_eq_emit, Emitted.onto, hok]
    exact ⟨effect, _, rfl⟩
  · exact impossiblePlan_of_emit (of_apply_eq h).1

/-- An array of a constant and of a number. The constant is an array of one element, which is the
constant reflective object of a method. -/
def nestedObjects : Plan :=
  .array (.object Java.object)
    [.cached (.array (.object Java.object)
        [.cached (.methodObject Java.getDeclaredMethod) (methodObjectType Java.getDeclaredMethod)])
        (.reference (.array (.object Java.object))),
      .op (.int 7)]

theorem objectsFit_nestedObjects : nestedObjects.ObjectsFit := by
  intro m hm
  have hm : m = Java.getDeclaredMethod := by
    simpa [nestedObjects, subplans, subplansEach] using hm
  rw [hm]
  decide

/-- The array is applied to the draft of a body, and it can be a constant itself. -/
theorem apply_succeeds_nestedObjects :
    nestedObjects.ObjectsFit ∧
      (∃ effect e', nestedObjects.apply ⟨BodyDraft.new Java.getDeclaredMethod,
        ⟨.empty, .new Java.object ConstantCache.defaultNamePart⟩⟩ = (.ok effect, e')) ∧
      ∃ s', Scope.cacheEach ⟨.empty, .new Java.object ConstantCache.defaultNamePart⟩
        nestedObjects.outerCached = (.ok (), s') := by
  have hpossible : nestedObjects.isPossible = true := by decide
  obtain ⟨happly, -, -, -, hnested⟩ := apply_succeeds_iff_isPossible objectsFit_nestedObjects
    ⟨BodyDraft.new Java.getDeclaredMethod, ⟨.empty, .new Java.object ConstantCache.defaultNamePart⟩⟩
    ⟨.empty, .new Java.object ConstantCache.defaultNamePart⟩ (.primitive .int)
  exact ⟨objectsFit_nestedObjects, happly.2 hpossible, hnested hpossible⟩

end Plan

end JvmCodegen.Stack
