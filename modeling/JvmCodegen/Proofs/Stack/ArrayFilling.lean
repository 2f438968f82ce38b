/-
**Filling arrays.**

An array is created first, and then each element is computed on top of a second reference to it and stored.
So the elements run while the array is on the stack and already in the memory.  They cannot get at it, though,
because nothing refers to it but the part of the stack that they do not touch; and so it holds the values
that they pushed, in order.  The array of class objects that a reflective look-up is given is one of these.

Main definitions:

* `Stack.Plan.PushesOne`, `Stack.PushesEach` — a plan that pushes one value on whatever stack, and the plans
  of a list doing so one after the other;
* `Stack.arrayCode`, `Stack.arrayPeak` — the code that fills an array, and how high the stack gets;
* `Stack.lookupArguments` — what a reflective look-up is given.

Main results:

* `Stack.role_intInstruction` — the instruction for a number pushes it;
* `Stack.PushesEach.emitFill_eq`, `Stack.PushesEach.run_fillCode` — what is emitted for the elements, and
  what it does, by induction on the elements;
* `Stack.foldl_elementEffect` — the reported effect in closed form;
* `Stack.Plan.array_is_filled` — **an array is filled with the values of its elements**, and a reflective
  look-up is given the class objects of the parameters.
-/

import JvmCodegen.Proofs.Stack.Flattening
import JvmCodegen.Proofs.Stack.ValueMachine

set_option relaxedAutoImplicit false
set_option autoImplicit false

namespace JvmCodegen.Stack

open ValueMachine

/-! ### Numbers -/

/-- **The instruction for a number pushes it**, whichever form it has. -/
theorem role_intInstruction (v : Int32) : (intInstruction v).role = .push (.int v) := by
  have hpush : ∀ n : Int32, n.toInt = v.toInt → Role.push (.int n) = .push (.int v) :=
    fun n h => by rw [Int32.toInt_inj.1 h]
  unfold intInstruction
  split
  case h_8 =>
      split
      case isTrue hbyte =>
          refine hpush _ ?_
          rw [Int8.toInt_toInt32, Int8.toInt_ofInt_of_le hbyte.1 (by omega)]
      case isFalse =>
          split
          case isTrue hshort =>
              refine hpush _ ?_
              rw [Int16.toInt_toInt32, Int16.toInt_ofInt_of_le hshort.1 (by omega)]
          case isFalse => rfl
  all_goals exact hpush _ (Eq.symm ‹_›)

/-- A length or an index of an array is a number that fits. -/
theorem toInt_ofNat {n : Nat} (h : n ≤ Plan.maxArrayLength) : (Int32.ofNat n).toInt = n := by
  have : n < 2147483648 := Nat.lt_succ_of_le h
  rw [Int32.toInt_ofNat_of_lt]
  exact this

/-! ### Single steps -/

theorem storesInto_storeOp (t : ValueType) : (storeOp t).storesInto t = true := by
  rcases t with p | r
  · cases p <;> rfl
  · rfl

theorem role_storeOp (t : ValueType) : (storeOp t).role = .store (storeOp t) := by
  rcases t with p | r
  · cases p <;> rfl
  · rfl

theorem role_createArray (t : ValueType) : (createArray t).role = .create t := by cases t <;> rfl

variable {World : Type} {E : Environment World} {m : Memory World} {component : ValueType}

/-- Creating an array pushes a reference to it. -/
theorem run_arrayStart {length : Nat} (h : length ≤ Plan.maxArrayLength) (component : ValueType)
    (stack : List Value) (m : Memory World) :
    run E (arrayStart component length) ⟨stack, m⟩ =
      some ⟨.array m.arrays.length component :: stack, m.allocate component length⟩ := by
  have hlength := toInt_ofNat h
  have hcreate : step E (createArray component) ⟨.int (Int32.ofNat length) :: stack, m⟩ =
      some ⟨.array m.arrays.length component :: stack, m.allocate component length⟩ := by
    rw [step, role_createArray]
    simp [create, hlength]
  rw [arrayStart, run, step_of_push (role_intInstruction _), Option.bind_some, run_singleton]
  exact hcreate

/-- What comes before an element pushes a second reference to the array, and the index. -/
theorem run_elementStart (index address : Nat) (component : ValueType) (stack : List Value)
    (m : Memory World) :
    run E (elementStart index) ⟨.array address component :: stack, m⟩ =
      some ⟨.int (Int32.ofNat index) :: .array address component :: .array address component :: stack,
        m⟩ := by
  have hrole : Instruction.role (.bare .dup) = .copy 1 2 := rfl
  have hdup : step E (.bare .dup) ⟨.array address component :: stack, m⟩ =
      some ⟨.array address component :: .array address component :: stack, m⟩ :=
    step_of_copy hrole [.array address component] rfl stack m
  rw [elementStart, run, hdup, Option.bind_some, run_singleton, step_of_push (role_intInstruction _)]

/-- Storing a value of the type of the components consumes the second reference. -/
theorem step_storeOp {address index : Nat} {cells : List Value}
    (harray : m.arrays[address]? = some ⟨component, cells⟩) (hindex : index < cells.length)
    (hmax : index ≤ Plan.maxArrayLength) {v : Value} (hv : v.isOf E.graph component = true)
    (stack : List Value) :
    step E (.bare (storeOp component))
        ⟨v :: .int (Int32.ofNat index) :: .array address component :: stack, m⟩ =
      some ⟨stack, m.store address index v⟩ := by
  have hvalue := toInt_ofNat hmax
  rw [step, Instruction.role, role_storeOp]
  simp [ValueMachine.store, harray, storesInto_storeOp, hvalue, hindex, Value.stored_of_isOf hv]

/-! ### Elements -/

/-- What comes of an element: the reported effect, the code, and the value that it pushes. -/
structure Pushed where
  effect : Effect
  code : List SymbolicInstruction
  value : Value

/-- **The plan pushes exactly one value of a type** on top of whatever stack its code starts from, when it
is applied in a scope and run in a memory. Both may be other ones afterwards. -/
structure Plan.PushesOne (E : Environment World) (type : ValueType) (plan : Plan) (s : Scope)
    (m : Memory World) (pushed : Pushed) (s' : Scope) (m' : Memory World) : Prop where
  emits : plan.emit s = ⟨.ok pushed.effect, pushed.code, s'⟩
  runs : ∀ stack, run E pushed.code ⟨stack, m⟩ = some ⟨pushed.value :: stack, m'⟩
  isOf : pushed.value.isOf E.graph type = true

/-- **Each plan of a list pushes one value**, in the scope and in the memory that it is reached in. Before
the next one, the value is stored into an array. -/
inductive PushesEach (E : Environment World) (component : ValueType) (address : Nat) :
    Nat → List Plan → Scope → Memory World → List Pushed → Scope → Memory World → Prop
  | nil {index : Nat} {s : Scope} {m : Memory World} : PushesEach E component address index [] s m [] s m
  | cons {index : Nat} {plan : Plan} {plans : List Plan} {s s₁ s' : Scope} {m m₁ m' : Memory World}
      {pushed : Pushed} {rest : List Pushed} :
      plan.PushesOne E component s m pushed s₁ m₁ →
      PushesEach E component address (index + 1) plans s₁ (m₁.store address index pushed.value) rest
        s' m' →
      PushesEach E component address index (plan :: plans) s m (pushed :: rest) s' m'

/-- The code that stores the values of some pieces of code into an array, from an index on. -/
def fillCode (component : ValueType) (index : Nat) (codes : List (List SymbolicInstruction)) :
    List SymbolicInstruction :=
  (codes.zipIdx index).flatMap fun (code, index) =>
    elementStart index ++ (code ++ [.bare (storeOp component)])

/-- **The code that creates an array and fills it** with the values of some pieces of code. -/
def arrayCode (component : ValueType) (codes : List (List SymbolicInstruction)) :
    List SymbolicInstruction :=
  arrayStart component codes.length ++ fillCode component 0 codes

theorem fillCode_cons (component : ValueType) (index : Nat) (code : List SymbolicInstruction)
    (codes : List (List SymbolicInstruction)) :
    fillCode component index (code :: codes) =
      elementStart index ++ (code ++ [.bare (storeOp component)]) ++
        fillCode component (index + 1) codes := by
  simp [fillCode, List.zipIdx_cons]

namespace PushesEach

variable {address index : Nat} {plans : List Plan} {s s' : Scope} {m' : Memory World}
  {pushed : List Pushed}

theorem length_eq (h : PushesEach E component address index plans s m pushed s' m') :
    pushed.length = plans.length := by
  induction h with
  | nil => rfl
  | cons _ _ ih => rw [List.length_cons, List.length_cons, ih]

/-- **What is emitted for the elements.** -/
theorem emitFill_eq (h : PushesEach E component address index plans s m pushed s' m') (soFar : Effect) :
    Plan.emitFill component plans index soFar s =
      ⟨.ok ((pushed.map Pushed.effect).foldl (elementEffect component) soFar),
        fillCode component index (pushed.map Pushed.code), s'⟩ := by
  induction h generalizing soFar with
  | nil => rfl
  | cons hone _ ih =>
      rw [Plan.emitFill, hone.emits, Emitted.andThen_of_ok rfl, ih]
      simp [Emitted.after, fillCode_cons]

/-- **What the code for the elements does.** It leaves the reference to the array on top of the stack. The
array, which nothing else refers to, holds the values that were there before the index, and then those of
the elements. -/
theorem run_fillCode (h : PushesEach E component address index plans s m pushed s' m')
    {before after : List Value} (hbefore : before.length = index) (hafter : after.length = plans.length)
    (hmax : index + plans.length ≤ Plan.maxArrayLength)
    (harray : m.arrays[address]? = some ⟨component, before ++ after⟩)
    (hhides : m.Hides E.refersTo address) :
    (∀ stack, run E (fillCode component index (pushed.map Pushed.code))
      ⟨.array address component :: stack, m⟩ = some ⟨.array address component :: stack, m'⟩) ∧
    m'.arrays[address]? = some ⟨component, before ++ pushed.map Pushed.value⟩ ∧
    m'.Hides E.refersTo address := by
  induction h generalizing before after with
  | nil =>
      rw [List.length_eq_zero_iff.1 hafter] at harray
      exact ⟨fun _ => rfl, harray, hhides⟩
  | @cons index plan plans s s₁ s' m m₁ m' p rest hone _ ih =>
      obtain ⟨w, after, rfl⟩ := List.exists_cons_of_length_eq_add_one hafter
      -- alone on the stack, the element shows that it does not get at the array
      have hprivate : IsPrivate E address ⟨[], m⟩ :=
        ⟨(List.getElem?_eq_some_iff.1 harray).1, hhides, fun _ hv => absurd hv List.not_mem_nil⟩
      obtain ⟨hsame, -, hhides₁, hvalues⟩ := run_private (hone.runs []) hprivate
      have hvalue : ¬ p.value.RefersTo address := hvalues p.value List.mem_cons_self
      have harray₁ : m₁.arrays[address]? = some ⟨component, before ++ w :: after⟩ := hsame.trans harray
      have hstored : (m₁.store address index p.value).arrays[address]? =
          some ⟨component, (before ++ [p.value]) ++ after⟩ := by
        rw [Memory.getElem?_store harray₁, ← hbefore]
        simp
      rw [List.length_cons] at hmax
      obtain ⟨hrun, hcells, hhides'⟩ := ih (by simp [hbefore]) (by simpa using hafter) (by omega) hstored
        (hhides₁.store hvalue address index)
      refine ⟨fun stack => ?_, by simpa using hcells, hhides'⟩
      have hroom : index < (before ++ w :: after).length := by simp [hbefore]
      have hstore := step_storeOp harray₁ hroom (by omega) hone.isOf (.array address component :: stack)
      rw [List.map_cons, fillCode_cons, run_append, run_append, run_elementStart, Option.bind_some,
        run_append, hone.runs, Option.bind_some, run_singleton, hstore, Option.bind_some]
      exact hrun stack

end PushesEach

/-! ### The reported effect -/

/-- An operation whose instruction belongs together with its operand changes the height as stated. -/
theorem Operation.impact_of_isApt {o : Operation} (h : o.instruction.isApt = true) :
    o.effect.impact = netHeight [o.instruction] := by
  cases o with
  | invoke kind m =>
      have hreceiver : kind.hasReceiver = !m.isStatic := beq_iff_eq.1 h
      simp [effect, invokeEffect, instruction, Instruction.slotEffect, SlotEffect.net, hreceiver,
        Method.argumentSlots]
  | _ => exact (Operation.accountsFor_one (by exact trivial)).impact_eq

/-- **The reported change of the height is that of the code** if the instructions belong together with
their operands, however the plan was put together. -/
theorem Plan.impact_of_isApt {plan : Plan} {s : Scope} {effect : Effect}
    (hok : (plan.emit s).outcome = .ok effect) (hapt : ∀ i ∈ (plan.emit s).code, i.isApt = true) :
    effect.impact = netHeight (plan.emit s).code := by
  have hcomposes : Effect.Composes fun effect code =>
      (∀ i ∈ code, i.isApt = true) → effect.impact = netHeight code := by
    refine ⟨fun h _ => h.impact_eq, fun {a b first second} ha hb h => ?_⟩
    rw [Effect.impact_andThen, netHeight_append, ha fun i hi => h i (List.mem_append_left _ hi),
      hb fun i hi => h i (List.mem_append_right _ hi)]
  exact isJudged_emit hcomposes
    (fun o _ h => Operation.impact_of_isApt (h _ List.mem_cons_self)) s effect hok hapt

/-- **A plan that pushes one value reports its slots**, and no lower peak. -/
theorem Plan.PushesOne.slots_le {type : ValueType} {plan : Plan} {s s' : Scope} {m' : Memory World}
    {pushed : Pushed} (h : plan.PushesOne E type s m pushed s' m') :
    pushed.effect.impact = type.slots ∧ (type.slots : Int) ≤ pushed.effect.peak := by
  have hok : (plan.emit s).outcome = .ok pushed.effect := by rw [h.emits]
  obtain ⟨hslots, hapt⟩ := slots_run (h.runs [])
  have himpact : pushed.effect.impact = netHeight pushed.code := by
    rw [impact_of_isApt hok (by rw [h.emits]; exact hapt), h.emits]
  have hpeak := (isBounded_of_emit hok).impact_le_peak
  simp only [valueSlots_cons, valueSlots_nil, Value.slots_of_isOf h.isOf] at hslots
  omega

theorem PushesEach.slots_le {address index : Nat} {plans : List Plan} {s s' : Scope} {m' : Memory World}
    {pushed : List Pushed} (h : PushesEach E component address index plans s m pushed s' m') :
    ∀ e ∈ pushed.map Pushed.effect,
      e.impact = component.slots ∧ (component.slots : Int) ≤ e.peak := by
  induction h with
  | nil => exact fun _ he => absurd he List.not_mem_nil
  | cons hone _ ih =>
      intro e he
      rcases List.mem_cons.1 he with rfl | he
      · exact hone.slots_le
      · exact ih e he

/-- How high the stack gets while an array is filled: the reference to it, a second one and an index lie
below each element. -/
def arrayPeak (effects : List Effect) : Int :=
  match (effects.map Effect.peak).max? with
  | none => 1
  | some largest => 3 + largest

/-- With one more element stored, the height is what it was. -/
theorem elementEffect_eq {component : ValueType} {element : Effect}
    (himpact : element.impact = component.slots) (hpeak : (component.slots : Int) ≤ element.peak)
    {peak : Int} : elementEffect component ⟨1, peak⟩ element = ⟨1, max peak (3 + element.peak)⟩ := by
  simp only [elementEffect, Effect.andThen, Effect.popping, himpact, Effect.mk.injEq]
  push_cast
  omega

/-- **The reported effect of filling an array.** -/
theorem foldl_elementEffect {component : ValueType} {effects : List Effect}
    (h : ∀ e ∈ effects, e.impact = component.slots ∧ (component.slots : Int) ≤ e.peak) :
    effects.foldl (elementEffect component) ⟨1, 1⟩ = ⟨1, arrayPeak effects⟩ := by
  have hfold : ∀ (effects : List Effect) (largest : Int),
      (∀ e ∈ effects, e.impact = component.slots ∧ (component.slots : Int) ≤ e.peak) →
      effects.foldl (elementEffect component) ⟨1, 3 + largest⟩ =
        ⟨1, 3 + (effects.map Effect.peak).foldl max largest⟩ := by
    intro effects
    induction effects with
    | nil => exact fun _ _ => rfl
    | cons e effects ih =>
        intro largest h
        obtain ⟨himpact, hpeak⟩ := h e List.mem_cons_self
        have hmax : max (3 + largest) (3 + e.peak) = 3 + max largest e.peak := by omega
        rw [List.foldl_cons, elementEffect_eq himpact hpeak, hmax,
          ih _ fun e he => h e (List.mem_cons_of_mem _ he)]
        rfl
  cases effects with
  | nil => rfl
  | cons e effects =>
      obtain ⟨himpact, hpeak⟩ := h e List.mem_cons_self
      have hmax : max 1 (3 + e.peak) = 3 + e.peak := by omega
      rw [List.foldl_cons, elementEffect_eq himpact hpeak, hmax,
        hfold effects _ fun e he => h e (List.mem_cons_of_mem _ he), arrayPeak, List.map_cons,
        List.max?_cons']

/-! ### Arrays -/

namespace PushesEach

variable {plans : List Plan} {s s' : Scope} {m' : Memory World} {pushed : List Pushed}

/-- **What is emitted for an array.** -/
theorem emit_array
    (h : PushesEach E component m.arrays.length 0 plans s (m.allocate component plans.length) pushed s' m')
    (hmax : plans.length ≤ Plan.maxArrayLength) :
    (Plan.array component plans).emit s =
      ⟨.ok ⟨1, arrayPeak (pushed.map Pushed.effect)⟩, arrayCode component (pushed.map Pushed.code), s'⟩ := by
  have heffects := foldl_elementEffect h.slots_le
  rw [Plan.emit, if_pos hmax, h.emitFill_eq, heffects]
  simp [Emitted.after, arrayCode, h.length_eq]

/-- **What the code for an array does.** It pushes a reference to a new array, which holds the values of the
elements in order, and which nothing else refers to. -/
theorem run_arrayCode
    (h : PushesEach E component m.arrays.length 0 plans s (m.allocate component plans.length) pushed s' m')
    (hmax : plans.length ≤ Plan.maxArrayLength) (hhides : m.Hides E.refersTo m.arrays.length) :
    (∀ stack, run E (arrayCode component (pushed.map Pushed.code)) ⟨stack, m⟩ =
      some ⟨.array m.arrays.length component :: stack, m'⟩) ∧
    m'.arrays[m.arrays.length]? = some ⟨component, pushed.map Pushed.value⟩ ∧
    m'.Hides E.refersTo m.arrays.length := by
  have hmax' : 0 + plans.length ≤ Plan.maxArrayLength := by omega
  have hnew : (m.allocate component plans.length).arrays[m.arrays.length]? =
      some ⟨component, [] ++ List.replicate plans.length (Value.initial component)⟩ :=
    m.getElem?_allocate component plans.length
  obtain ⟨hrun, hcells, hhides'⟩ := h.run_fillCode rfl List.length_replicate hmax' hnew
    (hhides.allocate component plans.length)
  refine ⟨fun stack => ?_, hcells, hhides'⟩
  have hlength : (pushed.map Pushed.code).length = plans.length := by rw [List.length_map, h.length_eq]
  rw [arrayCode, hlength, run_append, run_arrayStart hmax, Option.bind_some, hrun]

end PushesEach

/-! ### Class objects -/

/-- The fields that hold the class objects of the primitive types are read as such. -/
def Environment.ReadsClassObjects (E : Environment World) : Prop :=
  ∀ (p : Primitive) (m : Memory World), E.act (.access .getStatic (Java.classObject p)) [] m =
    some ([.classObject (some (.primitive p))], m)

/-- What comes of the class object of a type, as an element of an array. -/
def pushedClassObject (t : ValueType) : Pushed :=
  ⟨⟨1, 1⟩, [(Operation.classOf (some t)).instruction], .classObject (some t)⟩

/-- **The class object of a type is pushed**, and the memory stays as it is. -/
theorem pushesOne_classOf (hE : E.ReadsClassObjects) (t : ValueType) (s : Scope) (m : Memory World) :
    (Plan.op (.classOf (some t))).PushesOne E (.object Java.classClass) s m (pushedClassObject t) s m := by
  refine ⟨?_, fun stack => ?_, StackType.fits_ofType E.graph (.object Java.classClass)⟩
  · cases t <;> rfl
  · rw [pushedClassObject, run_singleton]
    rcases t with p | r
    · have hrole : Instruction.role (.access .getStatic (Java.classObject p)) = .outside := by
        cases p <;> rfl
      have hstep := step_of_outside (E := E) hrole [] rfl stack m
      rw [hE p m] at hstep
      exact hstep
    · rfl

/-- Class objects are pushed one after the other. -/
theorem pushesEach_classOf (hE : E.ReadsClassObjects) (address index : Nat) (types : List ValueType)
    (s : Scope) (m : Memory World) :
    ∃ m', PushesEach E (.object Java.classClass) address index
      (types.map fun t => .op (.classOf (some t))) s m (types.map pushedClassObject) s m' := by
  induction types generalizing index m with
  | nil => exact ⟨m, .nil⟩
  | cons t types ih =>
      obtain ⟨m', hrest⟩ := ih (index + 1) (m.store address index (.classObject (some t)))
      exact ⟨m', .cons (pushesOne_classOf hE t s m) hrest⟩

/-- What a reflective look-up is given, the last argument first: an array, the name of a method that is no
constructor, and the class that declares it. -/
def lookupArguments (method : Method) (types : Value) : List Value :=
  types :: ((if method.isConstructor then [] else [.text method.name.text]) ++
    [.classObject (some (.object method.owner))])

/-- How many values a reflective look-up is given beside the array. -/
def targetSlots (method : Method) : Nat := if method.isConstructor then 1 else 2

/-- What is emitted for the class objects of some types, and its effect. -/
theorem fillTypes_eq_fillCode (types : List ValueType) (index : Nat) (soFar : Effect) :
    fillTypes (.object Java.classClass) types index soFar [] =
      (fillCode (.object Java.classClass) index ((types.map pushedClassObject).map Pushed.code),
        ((types.map pushedClassObject).map Pushed.effect).foldl
          (elementEffect (.object Java.classClass)) soFar) := by
  induction types generalizing index soFar with
  | nil => rfl
  | cons t types ih =>
      have heffect : (Operation.classOf (some t)).effect = (pushedClassObject t).effect := by
        cases t <;> rfl
      rw [fillTypes, Plan.fillTypes_eq, ih, heffect]
      simp [fillCode_cons, pushedClassObject]

/-- How high the stack gets while an array is filled with class objects. -/
theorem arrayPeak_classObjects (types : List ValueType) :
    arrayPeak ((types.map pushedClassObject).map Pushed.effect) = if types = [] then 1 else 4 := by
  cases types with
  | nil => rfl
  | cons t types =>
      have hpeaks : (((t :: types).map pushedClassObject).map Pushed.effect).map Effect.peak =
          List.replicate (types.length + 1) 1 := by
        rw [List.map_map, List.map_map, List.eq_replicate_iff]
        exact ⟨by simp, fun p hp => by
          obtain ⟨u, -, rfl⟩ := List.mem_map.1 hp
          rfl⟩
      rw [arrayPeak, hpeaks, List.max?_replicate_of_pos (Nat.succ_pos _)]
      rfl

/-- **The code up to a reflective look-up** pushes what the look-up is about, and then fills an array with
the class objects of the parameters. -/
theorem lookupCode_eq (method : Method) :
    Plan.lookupCode method =
      ((lookupTarget method).map Operation.instruction ++
        arrayCode (.object Java.classClass)
          ((method.descriptor.parameters.map pushedClassObject).map Pushed.code),
        (Effect.pushing (targetSlots method)).andThen
          ⟨1, if method.descriptor.parameters = [] then 1 else 4⟩) := by
  have heffects : ∀ e ∈ (method.descriptor.parameters.map pushedClassObject).map Pushed.effect,
      e.impact = (FieldType.object Java.classClass : ValueType).slots ∧
        ((FieldType.object Java.classClass : ValueType).slots : Int) ≤ e.peak := by
    intro e he
    rw [List.map_map] at he
    obtain ⟨t, -, rfl⟩ := List.mem_map.1 he
    exact ⟨rfl, Int.le_refl 1⟩
  have htarget : ((lookupTarget method).map Operation.effect).foldl Effect.andThen Effect.zero =
      Effect.pushing (targetSlots method) := by
    unfold lookupTarget targetSlots
    split <;> rfl
  have hfill := fillTypes_eq_fillCode method.descriptor.parameters 0 ⟨1, 1⟩
  rw [foldl_elementEffect heffects, arrayPeak_classObjects] at hfill
  simp only [Plan.lookupCode, hfill, htarget, arrayCode, List.length_map]

/-- What a look-up is about is pushed in front of the array. -/
theorem run_lookupTarget (method : Method) (stack : List Value) (m : Memory World) (types : Value) :
    ∃ below, run E ((lookupTarget method).map Operation.instruction) ⟨stack, m⟩ = some ⟨below, m⟩ ∧
      types :: below = lookupArguments method types ++ stack := by
  unfold lookupTarget lookupArguments
  cases method.isConstructor with
  | true => exact ⟨_, rfl, rfl⟩
  | false => exact ⟨_, rfl, rfl⟩

/-- **The code of a reflective object is one look-up**, on the class that declares the method, with its
name unless it is a constructor, and with an array of the class objects of the parameters. -/
theorem run_methodObject (hE : E.ReadsClassObjects) {method : Method}
    (hmax : method.descriptor.parameters.length ≤ Plan.maxArrayLength)
    (hhides : m.Hides E.refersTo m.arrays.length) :
    ∃ m' : Memory World,
      m'.arrays[m.arrays.length]? = some ⟨.object Java.classClass,
        method.descriptor.parameters.map fun t => .classObject (some t)⟩ ∧
      ∀ stack, run E ((Plan.lookupCode method).1 ++ [.invoke .virtual (lookupMethod method)]) ⟨stack, m⟩ =
        (E.act (.invoke .virtual (lookupMethod method))
          (lookupArguments method (.array m.arrays.length (.object Java.classClass))) m').map
            fun (results, m'') => ⟨results ++ stack, m''⟩ := by
  let s : Scope := ⟨.empty, .new Java.object ConstantCache.defaultNamePart⟩
  obtain ⟨m', hpushes⟩ := pushesEach_classOf hE m.arrays.length 0 method.descriptor.parameters s
    (m.allocate (.object Java.classClass) method.descriptor.parameters.length)
  rw [← List.length_map (fun t => Plan.op (.classOf (some t)))] at hpushes hmax
  obtain ⟨hrun, hcells, -⟩ := hpushes.run_arrayCode hmax hhides
  refine ⟨m', ?_, fun stack => ?_⟩
  · rw [hcells, List.map_map]
    rfl
  · have hrole : Instruction.role (.invoke .virtual (lookupMethod method)) = .outside := by
      unfold lookupMethod
      split <;> rfl
    have hroom : valueSlots (lookupArguments method (.array m.arrays.length (.object Java.classClass))) =
        (Instruction.slotEffect (.invoke .virtual (lookupMethod method))).popped := by
      unfold lookupArguments lookupMethod
      split <;> rfl
    obtain ⟨below, htarget, hargs⟩ := run_lookupTarget (E := E) method stack m
      (.array m.arrays.length (.object Java.classClass))
    rw [lookupCode_eq, run_append, run_append, htarget, Option.bind_some, hrun, Option.bind_some, hargs,
      run_singleton, step_of_outside hrole _ hroom]

namespace Plan

/-- What is emitted for a reflective object whose parameters an array has room for. -/
theorem emit_methodObject {method : Method}
    (hmax : method.descriptor.parameters.length ≤ maxArrayLength) (s : Scope) :
    (methodObject method).emit s =
      ⟨.ok ⟨1, (if method.isConstructor then 1 else 2) +
          if method.descriptor.parameters = [] then 1 else 4⟩,
        (lookupCode method).1 ++ [.invoke .virtual (lookupMethod method)], s⟩ := by
  -- the array is filled on top of what the look-up is about, and nothing is higher afterwards
  have hpeak : (lookupCode method).2.peak = (if method.isConstructor then 1 else 2) +
      if method.descriptor.parameters = [] then 1 else 4 := by
    rw [lookupCode_eq, Effect.peak_andThen, targetSlots]
    split <;> split <;> rfl
  rw [emit, emitMethodObject, if_pos hmax, hpeak]

/-- **An array is filled with the values of its elements.**

Take elements that each push exactly one value of the component type on top of whatever stack, in the scope
and in the memory that they are reached in. Then applying the array succeeds for every collector. Its code
creates the array, and stores each element at its index with the instruction for the component type. On
every stack it adds one reference to a new array, which holds the values of the elements in order, and which
nothing else refers to. The stack gets three slots higher than the highest element does, and only one slot
high if there is none.

So the reflective object of a method that is no type initializer is looked up on the class that declares it,
by its name unless it is a constructor, with exactly the class objects of its parameters in order. It cannot
be applied if these are more than an array has room for. -/
theorem array_is_filled {World : Type} (E : Environment World) :
    (∀ (component : ValueType) (elements : List Plan) (s s' : Scope) (m m' : Memory World)
        (pushed : List Pushed),
      elements.length ≤ maxArrayLength → m.Hides E.refersTo m.arrays.length →
      PushesEach E component m.arrays.length 0 elements s (m.allocate component elements.length) pushed
        s' m' →
      (∀ {σ : Type} [CodeCollector σ] (start : σ), (array component elements).apply ⟨start, s⟩ =
        (.ok ⟨1, arrayPeak (pushed.map Pushed.effect)⟩,
          ⟨(arrayCode component (pushed.map Pushed.code)).foldl CodeCollector.append start, s'⟩)) ∧
      (∀ stack, run E (arrayCode component (pushed.map Pushed.code)) ⟨stack, m⟩ =
        some ⟨.array m.arrays.length component :: stack, m'⟩) ∧
      m'.arrays[m.arrays.length]? = some ⟨component, pushed.map Pushed.value⟩ ∧
      m'.Hides E.refersTo m.arrays.length) ∧
    (E.ReadsClassObjects → ∀ method : Method, method.isTypeInitializer = false →
      ofMethod method = .ok (.methodObject method) ∧
      (∀ {σ : Type} [CodeCollector σ] (e : Emission σ),
        (∃ effect e', (methodObject method).apply e = (.ok effect, e')) ↔
          method.descriptor.parameters.length ≤ maxArrayLength) ∧
      (method.descriptor.parameters.length ≤ maxArrayLength →
        ∃ code : List SymbolicInstruction,
          (∀ {σ : Type} [CodeCollector σ] (e : Emission σ), (methodObject method).apply e =
            (.ok ⟨1, (if method.isConstructor then 1 else 2) +
                if method.descriptor.parameters = [] then 1 else 4⟩,
              ⟨code.foldl CodeCollector.append e.code, e.scope⟩)) ∧
          ∀ m : Memory World, m.Hides E.refersTo m.arrays.length →
            ∃ m' : Memory World,
              m'.arrays[m.arrays.length]? = some ⟨.object Java.classClass,
                method.descriptor.parameters.map fun t => .classObject (some t)⟩ ∧
              ∀ stack, run E code ⟨stack, m⟩ =
                (E.act (.invoke .virtual
                    (if method.isConstructor then Java.getDeclaredConstructor else Java.getDeclaredMethod))
                  (lookupArguments method (.array m.arrays.length (.object Java.classClass))) m').map
                    fun (results, m'') => ⟨results ++ stack, m''⟩)) := by
  refine ⟨fun component elements s s' m m' pushed hmax hhides h => ?_, fun hE method hmethod => ?_⟩
  · refine ⟨fun start => ?_, h.run_arrayCode hmax hhides⟩
    rw [apply_eq_emit, h.emit_array hmax]
    rfl
  · refine ⟨by rw [ofMethod, hmethod]; rfl, fun e => ⟨?_, fun hmax => ?_⟩, fun hmax =>
      ⟨_, fun e => ?_, fun m hhides => run_methodObject hE hmax hhides⟩⟩
    · rintro ⟨effect, e', h⟩
      obtain ⟨houtcome, -⟩ := of_apply_eq h
      refine Decidable.by_contra fun hmax => ?_
      rw [emit, emitMethodObject, if_neg hmax] at houtcome
      cases houtcome
    · rw [apply_eq_emit, emit_methodObject hmax]
      exact ⟨_, _, rfl⟩
    · rw [apply_eq_emit, emit_methodObject hmax]
      rfl

/-- The class objects of the primitive types are read, one method looks up reflective objects, and nothing
else is known outside. -/
def reflection : Environment Unit where
  graph := .withJavaLibrary
  refersTo _ _ := False
  act i _ m :=
    match i with
    | .access .getStatic f =>
        (Primitive.all.find? fun p => Java.classObject p == f).map fun p =>
          ([.classObject (some (.primitive p))], m)
    | .invoke _ f =>
        if f = Java.getDeclaredMethod then some ([.object 0 Java.reflectMethod], m) else none
    | _ => none
  slots_act := by
    intro i _ m results m' h
    split at h
    · obtain ⟨p, hp, heq⟩ := Option.map_eq_some_iff.1 h
      cases heq
      have hfield := List.find?_some hp
      rw [← beq_iff_eq.1 hfield]
      rfl
    · obtain ⟨rfl, heq⟩ := Option.ite_some_none_eq_some.1 h
      cases heq
      rfl
    · cases h
  act_hidden := by
    intro i _ m results m' address h _ hhides _
    split at h
    · obtain ⟨p, -, heq⟩ := Option.map_eq_some_iff.1 h
      cases heq
      exact ⟨rfl, hhides, fun v hv => by rw [List.mem_singleton.1 hv]; exact id⟩
    · obtain ⟨-, heq⟩ := Option.ite_some_none_eq_some.1 h
      cases heq
      exact ⟨rfl, hhides, fun v hv => by rw [List.mem_singleton.1 hv]; exact id⟩
    · cases h

theorem readsClassObjects_reflection : reflection.ReadsClassObjects := by
  intro p m
  cases p <;> rfl

/-- An array of two numbers of two slots, and a look-up by two class objects. -/
theorem array_is_filled_longs :
    (∃ (s : Scope) (m' : Memory Unit),
      (array (.primitive .long) [.op (.long 1), .op (.long 7)]).apply ⟨(#[] : Array SymbolicInstruction), s⟩ =
        (.ok ⟨1, 5⟩, ⟨#[.bare .iconst2, .newArray .long, .bare .dup, .bare .iconst0, .bare .lconst1,
          .bare .lastore, .bare .dup, .bare .iconst1, .ldc2 (.long 7), .bare .lastore], s⟩) ∧
      run reflection (arrayCode (.primitive .long) [[.bare .lconst1], [.ldc2 (.long 7)]])
        ⟨[.null], ⟨(), []⟩⟩ = some ⟨[.array 0 (.primitive .long), .null], m'⟩ ∧
      m'.arrays[0]? = some ⟨.primitive .long, [.long 1, .long 7]⟩) ∧
    ∃ (code : List SymbolicInstruction) (m' : Memory Unit),
      (∀ s, (methodObject Java.getDeclaredMethod).apply ⟨(#[] : Array SymbolicInstruction), s⟩ =
        (.ok ⟨1, 6⟩, ⟨code.foldl CodeCollector.append #[], s⟩)) ∧
      m'.arrays[0]? = some ⟨.object Java.classClass,
        [.classObject (some (.object Java.string)), .classObject (some Java.classArray)]⟩ ∧
      run reflection code ⟨[], ⟨(), []⟩⟩ = some ⟨[.object 0 Java.reflectMethod], m'⟩ := by
  obtain ⟨hfilled, hlookup⟩ := array_is_filled reflection
  have hhides : (⟨(), []⟩ : Memory Unit).Hides reflection.refersTo 0 :=
    ⟨id, fun _ ha => absurd ha List.not_mem_nil⟩
  constructor
  · let s : Scope := ⟨.empty, .new Java.object ConstantCache.defaultNamePart⟩
    obtain ⟨happly, hrun, hcells, -⟩ := hfilled (.primitive .long) [.op (.long 1), .op (.long 7)] s s
      ⟨(), []⟩ _ [⟨⟨2, 2⟩, [.bare .lconst1], .long 1⟩, ⟨⟨2, 2⟩, [.ldc2 (.long 7)], .long 7⟩] (by decide) hhides
      (.cons ⟨rfl, fun _ => rfl, rfl⟩ (.cons ⟨rfl, fun _ => rfl, rfl⟩ .nil))
    exact ⟨s, _, happly #[], hrun [.null], hcells⟩
  · obtain ⟨-, -, hcode⟩ := hlookup readsClassObjects_reflection Java.getDeclaredMethod (by decide)
    obtain ⟨code, happly, hcalls⟩ := hcode (by decide)
    obtain ⟨m', hcells, hrun⟩ := hcalls ⟨(), []⟩ hhides
    exact ⟨code, m', fun s => happly ⟨#[], s⟩, hcells, hrun []⟩

end Plan

end JvmCodegen.Stack
