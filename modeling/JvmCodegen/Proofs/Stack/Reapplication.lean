/-
**Applying a plan a second time.**

Applying a plan changes the scope: it registers the constants that are not known yet, and the code
reads the fields that they got.  Once this has happened, the plan means the same for good.  However
the scope goes on to grow, applying the plan again emits the same instructions, with the same fields
in them, reports the same effect, and has nothing left to register.  This holds for plans that fail as
well: they stop at the same place.

Main definitions:

* `Stack.Scope.GrowsTo` — what is registered in a scope stays registered in another one;
* `Stack.Scope.Reaches` — a scope comes out of another one by applying plans, by asking for constants
  and by changes to the class graph;
* `Stack.Stable` — what emits the same in every later scope, and leaves that scope alone.

Main results:

* `Stack.Scope.Reaches.growsTo` — nothing that can happen to a scope takes a constant back;
* `Stack.Stable.andThen`, `Stack.Stable.cached` — code that is put together, and constants;
* `Stack.Plan.stable_emit` — the plans, by induction;
* `Stack.Plan.apply_again` — **applying a plan again, in any later scope, does the same and changes
  nothing**.
-/

import Mathlib
import JvmCodegen.Proofs.Stack.Applicability

set_option relaxedAutoImplicit false
set_option autoImplicit false

namespace JvmCodegen.Stack

/-! ### Later scopes -/

namespace Scope

/-- Whatever constant is registered in the first scope is registered in the second, under the same
field. -/
def GrowsTo (s t : Scope) : Prop := ConstantCache.Grows (fun _ => True) s.constants t.constants

theorem GrowsTo.refl (s : Scope) : s.GrowsTo s := ConstantCache.Grows.refl s.constants

theorem GrowsTo.trans {s t u : Scope} (h : s.GrowsTo t) (h' : t.GrowsTo u) : s.GrowsTo u :=
  ConstantCache.Grows.trans h h'

theorem growsTo_cache (s : Scope) (value : Plan) (type : ValueType) :
    s.GrowsTo (s.cache value type).2 :=
  grows_cache (fun _ _ _ _ => trivial) s trivial type

theorem growsTo_emit (s : Scope) (plan : Plan) : s.GrowsTo (plan.emit s).scope :=
  Plan.grows_emit (fun _ _ _ _ => trivial) (fun _ _ => trivial) s

/-- **What can happen to a scope while a class is generated**: plans are applied, to any collectors
and with any outcome, constants are asked for, and the class graph changes on the side. -/
inductive Reaches (s : Scope) : Scope → Prop
  | refl : Reaches s s
  | apply {t : Scope} {σ : Type} [CodeCollector σ] (earlier : Reaches s t) (plan : Plan) (code : σ) :
      Reaches s (plan.apply ⟨code, t⟩).2.scope
  | cache {t : Scope} (earlier : Reaches s t) (value : Plan) (type : ValueType) :
      Reaches s (t.cache value type).2
  | elsewhere {t : Scope} (earlier : Reaches s t) (graph : ClassGraph) :
      Reaches s { t with graph := graph }

/-- Nothing that can happen to a scope takes a constant back. -/
theorem Reaches.growsTo {s t : Scope} (h : s.Reaches t) : s.GrowsTo t := by
  induction h with
  | refl => exact .refl s
  | @apply t σ _ _ plan code ih =>
      rw [Plan.apply_eq_emit]
      exact ih.trans (t.growsTo_emit plan)
  | @cache t _ value type ih => exact ih.trans (t.growsTo_cache value type)
  | elsewhere _ graph ih => exact ih

end Scope

/-! ### What emits the same again -/

/-- What is emitted leaves its constants behind. In every scope in which these are still registered,
the same is emitted, and the scope stays as it is. -/
structure Stable (f : Scope → Emitted) : Prop where
  grows : ∀ s : Scope, s.GrowsTo (f s).scope
  again : ∀ s t : Scope, (f s).scope.GrowsTo t → f t = ⟨(f s).outcome, (f s).code, t⟩

namespace Stable

variable {f : Scope → Emitted}

/-- What does not look at the scope. -/
theorem const (outcome : Except Error Effect) (code : List SymbolicInstruction) :
    Stable fun s => ⟨outcome, code, s⟩ where
  grows s := .refl s
  again _ _ _ := rfl

theorem after (h : Stable f) (first : List SymbolicInstruction) :
    Stable fun s => (f s).after first where
  grows := h.grows
  again s t hlater := by rw [h.again s t hlater]; rfl

/-- Code that is put together. The constants of the first part are still registered when the second
part is through. -/
theorem andThen {next : Effect → Scope → Emitted} (h : Stable f)
    (hnext : ∀ effect, Stable (next effect)) : Stable fun s => (f s).andThen next := by
  constructor
  · intro s
    rcases (f s).andThen_cases next with heq | ⟨effect, -, heq⟩
    · rw [heq]
      exact h.grows s
    · rw [heq]
      exact (h.grows s).trans ((hnext effect).grows (f s).scope)
  · intro s t hlater
    cases hf : (f s).outcome with
    | error reason =>
        simp only [Emitted.andThen_of_error hf] at hlater ⊢
        rw [h.again s t hlater, hf]
        rfl
    | ok effect =>
        simp only [Emitted.andThen_of_ok hf, Emitted.scope_after] at hlater ⊢
        -- the later scope has grown from both scopes in between
        have hfirst := h.again s t (((hnext effect).grows (f s).scope).trans hlater)
        have hsecond := (hnext effect).again (f s).scope t hlater
        rw [hfirst, hf]
        change (next effect t).after (f s).code = _
        rw [hsecond]
        rfl

theorem methodObject (method : Method) : Stable (Plan.emitMethodObject method) := by
  unfold Plan.emitMethodObject
  split
  · exact const _ _
  · exact const _ _

/-- A constant is looked up under the field that it got, or is refused once more. -/
theorem cached (value : Plan) (type : ValueType) : Stable (Plan.emitCached value type) := by
  constructor
  · intro s
    rw [Plan.scope_emitCached]
    exact s.growsTo_cache value type
  · intro s t hlater
    rw [Plan.scope_emitCached] at hlater
    rw [Plan.emitCached, Plan.emitCached]
    rcases hcache : s.cache value type with ⟨reason | field, s'⟩
    · obtain ⟨hpossible, rfl, -⟩ := Scope.of_cache_eq_error hcache
      rw [t.cache_of_not_isPossible hpossible]
    · rw [hcache] at hlater
      have hfind := hlater.find?_eq (Scope.find?_of_cache hcache)
      rw [Scope.cache_of_find? (Scope.isPossible_of_cache hcache) hfind]

end Stable

namespace Plan

theorem stable_emitEach {plans : List Plan} (h : ∀ p ∈ plans, Stable p.emit) (soFar : Effect) :
    Stable (emitEach plans soFar) := by
  induction plans generalizing soFar with
  | nil => exact .const _ _
  | cons plan rest ih =>
      have hrest := ih fun p hp => h p (List.mem_cons_of_mem plan hp)
      exact (h plan List.mem_cons_self).andThen fun effect => hrest (soFar.andThen effect)

theorem stable_emitFill {component : ValueType} {plans : List Plan}
    (h : ∀ p ∈ plans, Stable p.emit) (index : Nat) (soFar : Effect) :
    Stable (emitFill component plans index soFar) := by
  induction plans generalizing index soFar with
  | nil => exact .const _ _
  | cons plan rest ih =>
      have hrest := ih fun p hp => h p (List.mem_cons_of_mem plan hp)
      have hnext := fun effect => (hrest (index + 1) (elementEffect component soFar effect)).after
        [.bare (storeOp component)]
      exact ((h plan List.mem_cons_self).andThen hnext).after (elementStart index)

/-- **What a plan emits, it emits again** in every later scope. -/
theorem stable_emit (plan : Plan) : Stable plan.emit := by
  induction plan with
  | impossible | nothing | op _ => exact .const _ _
  | sequence parts ih => exact stable_emitEach ih Effect.zero
  | methodObject method => exact .methodObject method
  | cached value type _ => exact .cached value type
  | array component elements ih =>
      by_cases hlength : elements.length ≤ maxArrayLength
      · have hfill : Stable (emitFill component elements 0 ⟨1, 1⟩) := stable_emitFill ih 0 ⟨1, 1⟩
        have harray := hfill.after (arrayStart component elements.length)
        simpa only [emit, if_pos hlength] using harray
      · simpa only [emit, if_neg hlength] using Stable.const (.error .impossiblePlan) []

/-! ### Applying again -/

/-- **Applying a plan again, in any later scope, does the same and changes nothing.** A plan has been
applied, and some time later, after other plans were applied and other constants were asked for, it is
applied once more. Both times, and for all collectors, the same instructions are appended and the same
effect is reported, or the same reason to fail; and the second time the scope stays as it is. If the
plan is possible, it does not fail. -/
theorem apply_again {σ : Type} [CodeCollector σ] {plan : Plan} {e e₁ : Emission σ}
    {outcome : Except Error Effect} (h : plan.apply e = (outcome, e₁)) {later : Scope}
    (hlater : e₁.scope.Reaches later) :
    ∃ code : List SymbolicInstruction,
      e₁.code = code.foldl CodeCollector.append e.code ∧
      (∀ {τ : Type} [CodeCollector τ] (start : τ), plan.apply ⟨start, e.scope⟩ =
        (outcome, ⟨code.foldl CodeCollector.append start, e₁.scope⟩)) ∧
      (∀ {τ : Type} [CodeCollector τ] (start : τ), plan.apply ⟨start, later⟩ =
        (outcome, ⟨code.foldl CodeCollector.append start, later⟩)) ∧
      (plan.isPossible = true → plan.ObjectsFit → ∃ effect, outcome = .ok effect) := by
  rw [apply_eq_emit, Emitted.onto, Prod.mk.injEq] at h
  obtain ⟨rfl, rfl⟩ := h
  refine ⟨(plan.emit e.scope).code, rfl, fun start => ?_, fun start => ?_, fun hpossible hfit =>
    emit_succeeds hpossible hfit e.scope⟩
  · rw [apply_eq_emit, Emitted.onto]
  · rw [apply_eq_emit, plan.stable_emit.again e.scope later hlater.growsTo, Emitted.onto]

/-- An array whose elements are a constant that is not a number, and the array of it, cached too. -/
def cachedNaNs : Plan :=
  let number : Plan := .cached (.op (.float 0x7FC00000)) (.primitive .float)
  .array (.object Java.object)
    [number, .cached (.array (.primitive .float) [number])
      (.reference (.array (.primitive .float)))]

/-- Another constant that is not a number, which gets the field of the first one, and a text. -/
def otherConstants : Plan :=
  .sequence [.cached (.op (.float 0x7FC00001)) (.primitive .float), .op (.pop false),
    .cached (.op (.text "a")) (.object Java.string), .op (.pop false)]

/-- A scope in which nothing is registered. -/
def emptyScope : Scope := ⟨.empty, .new Java.object ConstantCache.defaultNamePart⟩

/-- The scope in which first the array was applied, and then the other constants. -/
def laterScope : Scope :=
  (otherConstants.apply ⟨(#[] : Array SymbolicInstruction),
    (cachedNaNs.apply ⟨(#[] : Array SymbolicInstruction), emptyScope⟩).2.scope⟩).2.scope

/-- The array is applied again when another constant is registered. -/
theorem apply_again_cachedNaNs :
    laterScope.constants.size = 3 ∧ ∃ (effect : Effect) (code : List SymbolicInstruction),
      (cachedNaNs.apply ⟨(#[] : Array SymbolicInstruction), emptyScope⟩).1 = .ok effect ∧
      (cachedNaNs.apply ⟨(#[] : Array SymbolicInstruction), emptyScope⟩).2.code =
        code.foldl CodeCollector.append #[] ∧
      cachedNaNs.apply ⟨(#[] : Array SymbolicInstruction), laterScope⟩ =
        (.ok effect, ⟨code.foldl CodeCollector.append #[], laterScope⟩) := by
  have hpossible : cachedNaNs.isPossible = true := by decide
  have hfit : cachedNaNs.ObjectsFit := by
    intro m hm
    simp [cachedNaNs, subplans, subplansEach] at hm
  have hreaches : (cachedNaNs.apply ⟨(#[] : Array SymbolicInstruction), emptyScope⟩).2.scope.Reaches
      laterScope := Scope.Reaches.refl.apply otherConstants #[]
  obtain ⟨code, hcode, -, hagain, hok⟩ := apply_again
    (e := ⟨(#[] : Array SymbolicInstruction), emptyScope⟩) rfl hreaches
  obtain ⟨effect, hok⟩ := hok hpossible hfit
  exact ⟨by cbv, effect, code, hok, hcode, (hagain #[]).trans (by rw [hok])⟩

end Plan

end JvmCodegen.Stack
