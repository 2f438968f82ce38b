/-
**What applying a plan emits.**

A plan is applied to a collector, but it never looks at what the collector holds.  So what it emits
is a list of instructions that depends on the scope alone, and the collector only decides where that
list goes.  This module gives the list as a function of the plan and of the scope, and proves that
applying is the same thing for every collector.

A collector that can refuse an instruction is one that remembers the refusal: as long as nothing is
refused, it is told the same instructions as any other.

Main definitions:

* `Stack.Emitted` — an outcome, the instructions emitted on the way, and the scope afterwards;
* `Stack.Plan.emit` — what applying a plan in a scope comes to;
* `Stack.Plan.operations`, `Stack.Plan.subplans` — the operations that a plan carries out, and the
  plans inside it.

Main results:

* `Stack.Plan.induction` — induction over plans, with a hypothesis for each plan of a list;
* `Stack.Plan.apply_eq_emit` — **applying a plan appends what it emits**, whatever the collector is.
-/

import JvmCodegen.Stack.Emission

set_option relaxedAutoImplicit false
set_option autoImplicit false

namespace JvmCodegen.Stack

/-! ### Outcomes with their instructions -/

/-- What comes of applying a plan. The instructions emitted before a failure are kept. -/
structure Emitted where
  outcome : Except Error Effect
  code : List SymbolicInstruction
  scope : Scope

namespace Emitted

/-- The same after some instructions. -/
def after (first : List SymbolicInstruction) (r : Emitted) : Emitted :=
  { r with code := first ++ r.code }

/-- Go on with the effect and the scope only if nothing has failed. -/
def andThen (r : Emitted) (next : Effect → Scope → Emitted) : Emitted :=
  match r.outcome with
  | .error _ => r
  | .ok effect => (next effect r.scope).after r.code

/-- The outcome together with the code of a collector that has been told the instructions. -/
def onto {σ : Type} [CodeCollector σ] (r : Emitted) (code : σ) :
    Except Error Effect × Emission σ :=
  (r.outcome, ⟨r.code.foldl CodeCollector.append code, r.scope⟩)

@[simp] theorem outcome_after (first : List SymbolicInstruction) (r : Emitted) :
    (r.after first).outcome = r.outcome := rfl

@[simp] theorem code_after (first : List SymbolicInstruction) (r : Emitted) :
    (r.after first).code = first ++ r.code := rfl

@[simp] theorem scope_after (first : List SymbolicInstruction) (r : Emitted) :
    (r.after first).scope = r.scope := rfl

theorem andThen_of_error {r : Emitted} {reason : Error} (h : r.outcome = .error reason)
    (next : Effect → Scope → Emitted) : r.andThen next = r := by
  simp only [andThen, h]

theorem andThen_of_ok {r : Emitted} {effect : Effect} (h : r.outcome = .ok effect)
    (next : Effect → Scope → Emitted) :
    r.andThen next = (next effect r.scope).after r.code := by
  simp only [andThen, h]

/-- Either something has failed, or what comes next is emitted too. -/
theorem andThen_cases (r : Emitted) (next : Effect → Scope → Emitted) :
    r.andThen next = r ∨
      ∃ effect, r.outcome = .ok effect ∧ r.andThen next = (next effect r.scope).after r.code := by
  cases h : r.outcome with
  | error reason => exact .inl (andThen_of_error h next)
  | ok effect => exact .inr ⟨effect, rfl, andThen_of_ok h next⟩

/-- Going on succeeds only if both parts do. -/
theorem outcome_andThen_eq_ok {r : Emitted} {next : Effect → Scope → Emitted} {effect : Effect}
    (h : (r.andThen next).outcome = .ok effect) :
    ∃ first, r.outcome = .ok first ∧ (next first r.scope).outcome = .ok effect := by
  cases hr : r.outcome with
  | error reason => rw [andThen_of_error hr, hr] at h; cases h
  | ok first =>
      rw [andThen_of_ok hr, outcome_after] at h
      exact ⟨first, rfl, h⟩

end Emitted

namespace Plan

/-! ### Induction over plans -/

/-- To prove something of every plan, it may be assumed of each plan of a list. -/
@[elab_as_elim, induction_eliminator]
theorem induction {motive : Plan → Prop} (impossible : motive .impossible)
    (nothing : motive .nothing)
    (sequence : ∀ parts, (∀ p ∈ parts, motive p) → motive (.sequence parts))
    (op : ∀ operation, motive (.op operation))
    (methodObject : ∀ method, motive (.methodObject method))
    (cached : ∀ value type, motive value → motive (.cached value type))
    (array : ∀ component elements, (∀ p ∈ elements, motive p) →
      motive (.array component elements))
    (plan : Plan) : motive plan :=
  @Plan.rec motive (fun plans => ∀ p ∈ plans, motive p) impossible nothing sequence op
    methodObject cached array (fun _ h => absurd h List.not_mem_nil)
    (fun _ _ head tail p hp => by
      rcases List.mem_cons.1 hp with rfl | hp
      · exact head
      · exact tail p hp)
    plan

/-! ### Inside a plan -/

mutual

/-- The operations that applying the plan carries out, from left to right. Those inside cached
constants are left to the type initializer. -/
def operations : Plan → List Operation
  | sequence parts => operationsEach parts
  | op operation => [operation]
  | array _ elements => operationsEach elements
  | impossible | nothing | methodObject _ | cached _ _ => []

/-- The operations of each plan of a list. -/
def operationsEach : List Plan → List Operation
  | [] => []
  | plan :: rest => plan.operations ++ operationsEach rest

end

mutual

/-- The plan itself and all plans inside it, those inside cached constants included. -/
def subplans : Plan → List Plan
  | sequence parts => sequence parts :: subplansEach parts
  | cached value type => cached value type :: value.subplans
  | array component elements => array component elements :: subplansEach elements
  | impossible => [impossible]
  | nothing => [nothing]
  | op operation => [op operation]
  | methodObject method => [methodObject method]

/-- The plans of a list and all plans inside them. -/
def subplansEach : List Plan → List Plan
  | [] => []
  | plan :: rest => plan.subplans ++ subplansEach rest

end

theorem mem_operationsEach {o : Operation} {plans : List Plan} :
    o ∈ operationsEach plans ↔ ∃ p ∈ plans, o ∈ p.operations := by
  induction plans with
  | nil => simp [operationsEach]
  | cons plan plans ih => simp [operationsEach, ih]

theorem mem_subplansEach {q : Plan} {plans : List Plan} :
    q ∈ subplansEach plans ↔ ∃ p ∈ plans, q ∈ p.subplans := by
  induction plans with
  | nil => simp [subplansEach]
  | cons plan plans ih => simp [subplansEach, ih]

theorem self_mem_subplans (plan : Plan) : plan ∈ plan.subplans := by
  cases plan <;> exact List.mem_cons_self

theorem mem_subplans_sequence {q p : Plan} {parts : List Plan} (hp : p ∈ parts)
    (hq : q ∈ p.subplans) : q ∈ subplans (.sequence parts) :=
  List.mem_cons_of_mem _ (mem_subplansEach.2 ⟨p, hp, hq⟩)

theorem mem_subplans_array {q p : Plan} {component : ValueType} {elements : List Plan}
    (hp : p ∈ elements) (hq : q ∈ p.subplans) : q ∈ subplans (.array component elements) :=
  List.mem_cons_of_mem _ (mem_subplansEach.2 ⟨p, hp, hq⟩)

theorem mem_subplans_cached {q value : Plan} (hq : q ∈ value.subplans) (type : ValueType) :
    q ∈ subplans (.cached value type) :=
  List.mem_cons_of_mem _ hq

/-- What applying a plan carries out is inside it. -/
theorem op_mem_subplans {plan : Plan} {o : Operation} (ho : o ∈ plan.operations) :
    .op o ∈ plan.subplans := by
  induction plan with
  | impossible | nothing | methodObject _ | cached _ _ _ => simp [operations] at ho
  | op operation =>
      rw [operations, List.mem_singleton] at ho
      rw [ho]
      exact self_mem_subplans (.op operation)
  | sequence parts ih =>
      obtain ⟨p, hp, ho⟩ := mem_operationsEach.1 ho
      exact mem_subplans_sequence hp (ih p hp ho)
  | array component elements ih =>
      obtain ⟨p, hp, ho⟩ := mem_operationsEach.1 ho
      exact mem_subplans_array hp (ih p hp ho)

/-! ### What is emitted -/

/-- The instructions up to the look-up of the reflective object of a method, and their effect. -/
def lookupCode (method : Method) : List SymbolicInstruction × Effect :=
  let target := lookupTarget method
  let parameters := method.descriptor.parameters
  let (fill, arrayEffect) := fillTypes (.object Java.classClass) parameters 0 ⟨1, 1⟩ []
  (target.map Operation.instruction
      ++ (arrayStart (.object Java.classClass) parameters.length ++ fill),
    ((target.map Operation.effect).foldl Effect.andThen Effect.zero).andThen arrayEffect)

/-- What pushing the reflective object of a method emits. -/
def emitMethodObject (method : Method) (s : Scope) : Emitted :=
  if method.descriptor.parameters.length ≤ maxArrayLength then
    ⟨.ok ⟨1, (lookupCode method).2.peak⟩,
      (lookupCode method).1 ++ [.invoke .virtual (lookupMethod method)], s⟩
  else ⟨.error .impossiblePlan, (lookupTarget method).map Operation.instruction, s⟩

/-- What reading a cached constant emits. -/
def emitCached (value : Plan) (type : ValueType) (s : Scope) : Emitted :=
  match s.cache value type with
  | (.error reason, s) => ⟨.error reason, [], s⟩
  | (.ok field, s) => ⟨.ok (Effect.pushing type.slots), [.access .getStatic field], s⟩

@[simp] theorem scope_emitMethodObject (method : Method) (s : Scope) :
    (emitMethodObject method s).scope = s := by
  unfold emitMethodObject
  split <;> rfl

@[simp] theorem scope_emitCached (value : Plan) (type : ValueType) (s : Scope) :
    (emitCached value type s).scope = (s.cache value type).2 := by
  rw [emitCached]
  rcases s.cache value type with ⟨reason | field, s⟩ <;> rfl

mutual

/-- **What applying a plan in a scope emits.** -/
def emit : Plan → Scope → Emitted
  | impossible, s => ⟨.error .impossiblePlan, [], s⟩
  | nothing, s => ⟨.ok Effect.zero, [], s⟩
  | sequence parts, s => emitEach parts Effect.zero s
  | op operation, s => ⟨.ok operation.effect, [operation.instruction], s⟩
  | methodObject method, s => emitMethodObject method s
  | cached value type, s => emitCached value type s
  | array component elements, s =>
      if elements.length ≤ maxArrayLength then
        (emitFill component elements 0 ⟨1, 1⟩ s).after (arrayStart component elements.length)
      else ⟨.error .impossiblePlan, [], s⟩

/-- What applying the plans of a list in order emits, after code whose effect is known. -/
def emitEach : List Plan → Effect → Scope → Emitted
  | [], soFar, s => ⟨.ok soFar, [], s⟩
  | plan :: rest, soFar, s =>
      (plan.emit s).andThen fun effect s => emitEach rest (soFar.andThen effect) s

/-- What storing the values of a list into an array emits, from an index on. -/
def emitFill (component : ValueType) : List Plan → Nat → Effect → Scope → Emitted
  | [], _, soFar, s => ⟨.ok soFar, [], s⟩
  | plan :: rest, index, soFar, s =>
      ((plan.emit s).andThen fun effect s =>
        (emitFill component rest (index + 1) (elementEffect component soFar effect) s).after
          [.bare (storeOp component)]).after (elementStart index)

end

/-! ### Class objects as an array -/

/-- What is already emitted comes first. -/
theorem fillTypes_eq (component : ValueType) (types : List ValueType) (index : Nat)
    (soFar : Effect) (emitted : List SymbolicInstruction) :
    fillTypes component types index soFar emitted =
      (emitted.reverse ++ (fillTypes component types index soFar []).1,
        (fillTypes component types index soFar []).2) := by
  induction types generalizing index soFar emitted with
  | nil => simp [fillTypes]
  | cons type types ih =>
      rw [fillTypes, ih, fillTypes, ih _ _ (_ ++ [])]
      simp

/-- An array of class objects is an array like any other. -/
theorem emitFill_classOf (component : ValueType) (types : List ValueType) (index : Nat)
    (soFar : Effect) (s : Scope) :
    emitFill component (types.map fun t => .op (.classOf (some t))) index soFar s =
      ⟨.ok (fillTypes component types index soFar []).2,
        (fillTypes component types index soFar []).1, s⟩ := by
  induction types generalizing index soFar with
  | nil => rfl
  | cons type types ih =>
      rw [List.map_cons, emitFill, emit, Emitted.andThen_of_ok rfl, ih, fillTypes,
        fillTypes_eq component types _ _ (_ ++ [])]
      simp [Emitted.after]

end Plan

/-! ### Applying appends what is emitted -/

section Apply

variable {σ : Type} [CodeCollector σ]

theorem Emission.appendAll_eq (e : Emission σ) (code : List SymbolicInstruction) :
    e.appendAll code = ⟨code.foldl CodeCollector.append e.code, e.scope⟩ := by
  induction code generalizing e with
  | nil => rfl
  | cons i code ih => rw [appendAll_cons, ih]; rfl

theorem Emitted.onto_after (r : Emitted) (first : List SymbolicInstruction) (code : σ) :
    (r.after first).onto code = r.onto (first.foldl CodeCollector.append code) := by
  simp only [onto, after, List.foldl_append]

/-- Going on after a failure or a success, as seen by a collector. -/
theorem Emitted.onto_andThen (r : Emitted) (next : Effect → Scope → Emitted) (code : σ) :
    (r.andThen next).onto code =
      match r.onto code with
      | (.error reason, e) => (.error reason, e)
      | (.ok effect, e) => (next effect e.scope).onto e.code := by
  cases h : r.outcome with
  | error reason => simp only [andThen_of_error h, onto, h]
  | ok effect =>
      rw [andThen_of_ok h, onto_after]
      simp only [onto, h]

namespace Plan

theorem applyMethodObject_eq (method : Method) (e : Emission σ) :
    applyMethodObject method e = (emitMethodObject method e.scope).onto e.code := by
  by_cases h : method.descriptor.parameters.length ≤ maxArrayLength
  · simp only [applyMethodObject, emitMethodObject, if_pos h, Emission.appendAll_eq,
      Emission.append, Emitted.onto, lookupCode, List.foldl_append, List.foldl_cons,
      List.foldl_nil]
  · simp only [applyMethodObject, emitMethodObject, if_neg h, Emission.appendAll_eq, Emitted.onto]

theorem applyEach_eq_emitEach {plans : List Plan}
    (h : ∀ p ∈ plans, ∀ e : Emission σ, p.apply e = (p.emit e.scope).onto e.code)
    (soFar : Effect) (e : Emission σ) :
    applyEach plans soFar e = (emitEach plans soFar e.scope).onto e.code := by
  induction plans generalizing soFar e with
  | nil => rfl
  | cons plan rest ih =>
      have hrest := ih fun p hp => h p (List.mem_cons_of_mem plan hp)
      rw [applyEach, emitEach, Emitted.onto_andThen, h plan List.mem_cons_self]
      rcases (plan.emit e.scope).onto e.code with ⟨reason | effect, e⟩
      · rfl
      · exact hrest _ _

theorem fill_eq_emitFill {component : ValueType} {plans : List Plan}
    (h : ∀ p ∈ plans, ∀ e : Emission σ, p.apply e = (p.emit e.scope).onto e.code)
    (index : Nat) (soFar : Effect) (e : Emission σ) :
    fill component plans index soFar e =
      (emitFill component plans index soFar e.scope).onto e.code := by
  induction plans generalizing index soFar e with
  | nil => rfl
  | cons plan rest ih =>
      have hrest := ih fun p hp => h p (List.mem_cons_of_mem plan hp)
      rw [fill, emitFill, Emitted.onto_after, Emitted.onto_andThen, Emission.appendAll_eq,
        h plan List.mem_cons_self]
      rcases (plan.emit e.scope).onto (List.foldl CodeCollector.append e.code (elementStart index))
        with ⟨reason | effect, e⟩
      · rfl
      · simp only [hrest, Emitted.onto_after]
        rfl

/-- **Applying a plan appends what it emits**, and the outcome and the scope are those of what is
emitted. -/
theorem apply_eq_emit (plan : Plan) (e : Emission σ) :
    plan.apply e = (plan.emit e.scope).onto e.code := by
  induction plan generalizing e with
  | impossible | nothing | op _ => rfl
  | sequence parts ih => rw [apply, emit, applyEach_eq_emitEach ih]
  | methodObject method => rw [apply, emit, applyMethodObject_eq]
  | cached value type _ =>
      rw [apply, emit, emitCached]
      rcases e.scope.cache value type with ⟨reason | field, s⟩ <;> rfl
  | array component elements ih =>
      rw [apply, emit]
      split
      · rw [fill_eq_emitFill ih, Emitted.onto_after, Emission.appendAll_eq]
      · rfl

/-- What applying a plan gives, and the scope that it ends in, are those of what is emitted. -/
theorem of_apply_eq {plan : Plan} {e e' : Emission σ} {outcome : Except Error Effect}
    (h : plan.apply e = (outcome, e')) :
    (plan.emit e.scope).outcome = outcome ∧ (plan.emit e.scope).scope = e'.scope := by
  rw [apply_eq_emit, Emitted.onto, Prod.mk.injEq] at h
  obtain ⟨houtcome, rfl⟩ := h
  exact ⟨houtcome, rfl⟩

end Plan

end Apply

end JvmCodegen.Stack
