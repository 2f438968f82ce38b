/-
**Passing the arguments of a bridge method on.**

A bridge method has the same number of parameters as its target, but their types can differ.  Its arguments
are loaded one by one, at offsets that grow with the types that it has itself, and are cast where the target
has another type.  A reference is cast to any reference type, and a cast to a primitive type is impossible.
A cast of a primitive value is not ruled out, although it is no less impossible: where the target wants a
reference for a primitive argument, the value would have to be boxed.  Everywhere else the arguments are
passed on as the target expects them.

Main definitions:

* `Stack.TypedMachine.HoldsFrom`, `Stack.TypedMachine.HoldsArguments` — local variables that hold values of
  some types, or the arguments of a method;
* `Stack.entryFrame` — the local variables in which a method finds its arguments;
* `Stack.needsBoxing`, `Stack.passesDirectly` — pairs of types that a cast cannot bridge, and methods
  without such pairs among their `Stack.parameterPairs`;
* `Stack.bridgeCode` — the code that loads and casts the arguments.

Main results:

* `Stack.holdsArguments_entryFrame` — every method has a frame that holds its arguments;
* `Stack.allPossible_loadCast_cons`, `Stack.emitEach_loadCast`, `Stack.run_bridgeCode` — what can be passed
  on, what is emitted for it, and what that does, by induction on the parameters;
* `Stack.bridged_arguments` — **the arguments are passed on exactly if none of them has to be boxed**.
-/

import JvmCodegen.Proofs.Stack.Caching
import JvmCodegen.Proofs.Stack.TypedMachine
import JvmCodegen.Stack.Arguments

set_option relaxedAutoImplicit false
set_option autoImplicit false

namespace JvmCodegen.Stack

open TypedMachine Plan

/-! ### Frames -/

/-- The local variables hold values of the types, one after the other from a slot on. There is no variable
beyond slot 65535. -/
def TypedMachine.HoldsFrom (frame : Frame) : List ValueType → Nat → Prop
  | [], _ => True
  | t :: types, slot =>
      (slot ≤ 65535 → frame (UInt16.ofNat slot) = some (.ofType t)) ∧
        HoldsFrom frame types (slot + t.slots)

/-- **The frame is one of the method**: its local variables hold the arguments. -/
def TypedMachine.HoldsArguments (frame : Frame) (m : Method) : Prop :=
  HoldsFrom frame m.descriptor.parameters (firstSlot m)

/-- The frame that holds values of the types from a slot on, and nothing else. -/
def argumentFrame : List ValueType → Nat → Frame
  | [], _, _ => none
  | t :: types, slot, n =>
      if n.toNat = slot then some (.ofType t) else argumentFrame types (slot + t.slots) n

theorem toNat_slot {slot : Nat} (h : slot ≤ 65535) : (UInt16.ofNat slot).toNat = slot :=
  UInt16.toNat_ofNat_of_lt (Nat.lt_succ_of_le h)

/-- Frames that agree from a slot on hold the same. -/
theorem TypedMachine.HoldsFrom.of_agree {frame frame' : Frame} {types : List ValueType} {slot : Nat}
    (h : HoldsFrom frame types slot) (hagree : ∀ n : UInt16, slot ≤ n.toNat → frame' n = frame n) :
    HoldsFrom frame' types slot := by
  induction types generalizing slot with
  | nil => exact trivial
  | cons t types ih =>
      obtain ⟨hfirst, hrest⟩ := h
      refine ⟨fun hslot => ?_, ih hrest fun n hn => hagree n (by omega)⟩
      rw [hagree _ (Nat.le_of_eq (toNat_slot hslot).symm)]
      exact hfirst hslot

/-- **Every list of types is held by a frame.** -/
theorem holdsFrom_argumentFrame (types : List ValueType) (slot : Nat) :
    HoldsFrom (argumentFrame types slot) types slot := by
  induction types generalizing slot with
  | nil => exact trivial
  | cons t types ih =>
      refine ⟨fun hslot => ?_, (ih (slot + t.slots)).of_agree fun n hn => ?_⟩
      · rw [argumentFrame, if_pos (toNat_slot hslot)]
      · have hroom := (StackType.ofType t).slots_pos
        rw [StackType.slots_ofType] at hroom
        rw [argumentFrame, if_neg (by omega)]

/-- The frame in which a method is entered, as far as its arguments go. -/
def entryFrame (m : Method) : Frame := argumentFrame m.descriptor.parameters (firstSlot m)

/-- **Every method has a frame.** -/
theorem holdsArguments_entryFrame (m : Method) : HoldsArguments (entryFrame m) m :=
  holdsFrom_argumentFrame m.descriptor.parameters (firstSlot m)

/-! ### One argument -/

/-- A reference is wanted for a primitive value. -/
def needsBoxing : ValueType → ValueType → Bool
  | .primitive _, .reference _ => true
  | _, _ => false

/-- The code that casts an argument to the type that is wanted. -/
def castCode (held : ValueType) : ValueType → List SymbolicInstruction
  | .primitive _ => []
  | .reference r => if held = .reference r then [] else [.checkCast r]

/-- What is emitted for a cast, where there has to be one. -/
theorem emitEach_castTo {held wanted : ValueType} (h : held = wanted ∨ ∃ r, wanted = .reference r)
    (rest : List Plan) (n : Nat) (s : Scope) :
    emitEach ((if held = wanted then [] else [castTo wanted]) ++ rest) (Effect.pushing n) s =
      (emitEach rest (Effect.pushing n) s).after (castCode held wanted) := by
  by_cases hsame : held = wanted
  · rw [if_pos hsame, hsame]
    cases wanted with
    | primitive p => rfl
    | reference r =>
        rw [castCode, if_pos rfl]
        rfl
  · obtain ⟨r, rfl⟩ := h.resolve_left hsame
    have heffect : (Effect.pushing n).andThen Effect.zero = Effect.pushing n := by
      simp [Effect.andThen, Effect.pushing, Effect.zero]
    rw [if_neg hsame, castCode, if_neg hsame, castTo, List.singleton_append, emitEach, emit,
      Emitted.andThen_of_ok rfl, Operation.effect, heffect]
    rfl

variable {g : ClassGraph} {frame : Frame}

/-- **A cast does what is wanted** unless the value would have to be boxed; then it is not well typed. -/
theorem run_castCode {held wanted : ValueType} (h : held = wanted ∨ ∃ r, wanted = .reference r)
    (stack : List StackType) :
    run g frame (castCode held wanted) (.ofType held :: stack) =
      if needsBoxing held wanted then none else some (.ofType wanted :: stack) := by
  cases wanted with
  | primitive p =>
      obtain rfl : held = .primitive p := h.resolve_right (by simp)
      rfl
  | reference r =>
      rw [castCode]
      cases held with
      | primitive p => cases p <;> rfl
      | reference held =>
          split
          case isTrue hsame => rw [hsame]; rfl
          case isFalse => rfl

/-- A type that a cast leads to takes the same room. -/
theorem slots_eq_of_needsBoxing {held wanted : ValueType} (h : held = wanted ∨ ∃ r, wanted = .reference r)
    (hbox : needsBoxing held wanted = false) : held.slots = wanted.slots := by
  rcases h with rfl | ⟨r, rfl⟩
  · rfl
  · cases held with
    | primitive p => cases hbox
    | reference held => rfl

/-! ### All arguments -/

/-- The code that loads local variables, from a slot on, each cast to the second type of its pair. -/
def bridgeCode : List (ValueType × ValueType) → Nat → List SymbolicInstruction
  | [], _ => []
  | (held, wanted) :: rest, slot =>
      .load (ValueKind.ofType held) (UInt16.ofNat slot) ::
        (castCode held wanted ++ bridgeCode rest (slot + held.slots))

theorem loadCast_eq (done : List Plan) (pairs : List (ValueType × ValueType)) (slot : Nat) :
    loadCast done pairs slot = done.reverse ++ loadCast [] pairs slot := by
  induction pairs generalizing done slot with
  | nil => simp [loadCast]
  | cons pair pairs ih =>
      obtain ⟨held, wanted⟩ := pair
      rw [loadCast, ih, loadCast, ih (if held = wanted then _ else _)]
      split <;> simp

theorem loadCast_cons (held wanted : ValueType) (rest : List (ValueType × ValueType)) (slot : Nat) :
    loadCast [] ((held, wanted) :: rest) slot =
      loadSlot held slot :: ((if held = wanted then [] else [castTo wanted]) ++
        loadCast [] rest (slot + held.slots)) := by
  rw [loadCast, loadCast_eq]
  split <;> rfl

/-- **What can be passed on**: a variable that exists, whose type is the one that is wanted unless that is a
reference type. -/
theorem allPossible_loadCast_cons {held wanted : ValueType} {rest : List (ValueType × ValueType)}
    {slot : Nat} :
    allPossible (loadCast [] ((held, wanted) :: rest) slot) = true ↔
      slot ≤ 65535 ∧ (held = wanted ∨ ∃ r, wanted = .reference r) ∧
        allPossible (loadCast [] rest (slot + held.slots)) = true := by
  have hload : (loadSlot held slot).isPossible = true ↔ slot ≤ 65535 := by
    rw [loadSlot]
    split <;> simp_all [isPossible]
  have hcast : allPossible (if held = wanted then [] else [castTo wanted]) = true ↔
      (held = wanted ∨ ∃ r, wanted = .reference r) := by
    split
    · simp_all [allPossible]
    · cases wanted <;> simp_all [castTo, allPossible, isPossible]
  rw [loadCast_cons, allPossible, Bool.and_eq_true, hload, ← hcast]
  simp only [allPossible_iff, List.mem_append]
  exact and_congr_right fun _ => ⟨fun h => ⟨fun p hp => h p (.inl hp), fun p hp => h p (.inr hp)⟩,
    fun h p hp => hp.elim (h.1 p) (h.2 p)⟩

/-- The room of the values that are held. -/
def heldSlots (pairs : List (ValueType × ValueType)) : Nat :=
  ((pairs.map Prod.fst).map FieldType.slots).foldr (· + ·) 0

theorem heldSlots_cons (held wanted : ValueType) (rest : List (ValueType × ValueType)) :
    heldSlots ((held, wanted) :: rest) = held.slots + heldSlots rest := rfl

/-- **What is emitted for the arguments.** -/
theorem emitEach_loadCast {pairs : List (ValueType × ValueType)} {slot : Nat}
    (h : allPossible (loadCast [] pairs slot) = true) (n : Nat) (s : Scope) :
    emitEach (loadCast [] pairs slot) (Effect.pushing n) s =
      ⟨.ok (Effect.pushing (n + heldSlots pairs)), bridgeCode pairs slot, s⟩ := by
  induction pairs generalizing slot n with
  | nil => rfl
  | cons pair rest ih =>
      obtain ⟨held, wanted⟩ := pair
      obtain ⟨hslot, hwanted, hrest⟩ := allPossible_loadCast_cons.1 h
      have heffect : (Effect.pushing n).andThen (Effect.pushing (ValueKind.ofType held).slots) =
          Effect.pushing (n + held.slots) := by
        rw [ValueKind.slots_ofType]
        simp only [Effect.andThen, Effect.pushing, Effect.mk.injEq]
        push_cast
        omega
      rw [loadCast_cons, loadSlot, if_pos hslot, emitEach, emit, Emitted.andThen_of_ok rfl, Operation.effect,
        heffect, emitEach_castTo hwanted, ih hrest, heldSlots_cons, Nat.add_assoc]
      rfl

/-- **What the code for the arguments does.** In a frame that holds the first types, it pushes values of the
second types in order, if no value has to be boxed; otherwise it is not well typed. -/
theorem run_bridgeCode {pairs : List (ValueType × ValueType)} {slot : Nat}
    (h : allPossible (loadCast [] pairs slot) = true) (hframe : HoldsFrom frame (pairs.map Prod.fst) slot)
    (stack : List StackType) :
    run g frame (bridgeCode pairs slot) stack =
      if pairs.any fun pair => needsBoxing pair.1 pair.2 then none
      else some (((pairs.map Prod.snd).map StackType.ofType).reverse ++ stack) := by
  induction pairs generalizing slot stack with
  | nil => rfl
  | cons pair rest ih =>
      obtain ⟨held, wanted⟩ := pair
      obtain ⟨hslot, hwanted, hrest⟩ := allPossible_loadCast_cons.1 h
      obtain ⟨hvariable, hframe⟩ := hframe
      have hload : step g frame (.load (ValueKind.ofType held) (UInt16.ofNat slot)) stack =
          some (.ofType held :: stack) := by
        have hpushes : pushes frame (.load (ValueKind.ofType held) (UInt16.ofNat slot)) =
            some [.ofType held] := by simp [pushes, hvariable hslot]
        exact step_of_take rfl hpushes rfl
      rw [bridgeCode, run, hload, Option.bind_some, run_append, run_castCode hwanted]
      cases hbox : needsBoxing held wanted with
      | true => simp [hbox]
      | false =>
          simp only [Bool.false_eq_true, if_false, Option.bind_some, ih hrest hframe, List.any_cons, hbox,
            Bool.false_or, List.map_cons, List.reverse_cons, List.append_assoc, List.singleton_append]

/-- If nothing has to be boxed, the values that are wanted take the room of those that are held. -/
theorem heldSlots_eq {pairs : List (ValueType × ValueType)} {slot : Nat}
    (h : allPossible (loadCast [] pairs slot) = true)
    (hbox : (pairs.any fun pair => needsBoxing pair.1 pair.2) = false) :
    heldSlots pairs = ((pairs.map Prod.snd).map FieldType.slots).foldr (· + ·) 0 := by
  induction pairs generalizing slot with
  | nil => rfl
  | cons pair rest ih =>
      obtain ⟨held, wanted⟩ := pair
      obtain ⟨-, hwanted, hrest⟩ := allPossible_loadCast_cons.1 h
      rw [List.any_cons, Bool.or_eq_false_iff] at hbox
      rw [heldSlots_cons, ih hrest hbox.2, slots_eq_of_needsBoxing hwanted hbox.1]
      rfl

/-! ### Bridge methods -/

/-- The parameters of both methods, side by side. -/
def parameterPairs (bridge target : Method) : List (ValueType × ValueType) :=
  bridge.descriptor.parameters.zip target.descriptor.parameters

/-- No parameter of the bridge method has a primitive type where the target wants a reference. -/
def passesDirectly (bridge target : Method) : Bool :=
  !(parameterPairs bridge target).any fun pair => needsBoxing pair.1 pair.2

theorem loadBridged_eq_error_iff {bridge target : Method} {reason : Error} :
    loadBridged bridge target = .error reason ↔
      bridge.descriptor.parameters.length ≠ target.descriptor.parameters.length ∧
        reason = .bridgeArity bridge target := by
  unfold loadBridged
  split <;> simp_all [eq_comm]

theorem loadBridged_eq_ok_iff {bridge target : Method} {plan : Plan} :
    loadBridged bridge target = .ok plan ↔
      bridge.descriptor.parameters.length = target.descriptor.parameters.length ∧
        plan = .sequence (loadCast [] (parameterPairs bridge target) (firstSlot bridge)) := by
  unfold loadBridged
  split <;> simp_all [eq_comm, parameterPairs]

/-- **The arguments of a bridge method are passed on exactly if none of them has to be boxed.**

Asking for the plan fails exactly if the numbers of parameters differ. A possible plan can be applied
everywhere, and it reports the room of the arguments of the bridge method. Run in any frame that holds these
arguments, on any stack, its code pushes values of the types of the target's parameters in order, which take
just the room that is reported, if the target wants a reference only for references; if it wants one for a
primitive value, the code is not well typed in any frame of the bridge method. -/
theorem bridged_arguments (g : ClassGraph) (bridge target : Method) :
    ((∃ reason, loadBridged bridge target = .error reason) ↔
      bridge.descriptor.parameters.length ≠ target.descriptor.parameters.length) ∧
    (∀ reason, loadBridged bridge target = .error reason → reason = .bridgeArity bridge target) ∧
    ∀ plan, loadBridged bridge target = .ok plan → plan.isPossible = true →
      ∃ code : List SymbolicInstruction,
        (∀ {σ : Type} [CodeCollector σ] (e : Emission σ), plan.apply e =
          (.ok (Effect.pushing (bridge.descriptor.parameterSlots false)),
            ⟨code.foldl CodeCollector.append e.code, e.scope⟩)) ∧
        (passesDirectly bridge target = true →
          bridge.descriptor.parameterSlots false = target.descriptor.parameterSlots false) ∧
        ∀ frame, HoldsArguments frame bridge → ∀ stack, run g frame code stack =
          if passesDirectly bridge target then
            some ((target.descriptor.parameters.map StackType.ofType).reverse ++ stack)
          else none := by
  refine ⟨?_, fun reason h => (loadBridged_eq_error_iff.1 h).2, fun plan hplan hpossible => ?_⟩
  · constructor
    · rintro ⟨reason, h⟩
      exact (loadBridged_eq_error_iff.1 h).1
    · intro hlength
      exact ⟨_, loadBridged_eq_error_iff.2 ⟨hlength, rfl⟩⟩
  · obtain ⟨hlength, rfl⟩ := loadBridged_eq_ok_iff.1 hplan
    -- both descriptors are as long, so the pairs of their types leave out nothing
    have hheld : (parameterPairs bridge target).map Prod.fst = bridge.descriptor.parameters :=
      List.map_fst_zip (Nat.le_of_eq hlength)
    have hwanted : (parameterPairs bridge target).map Prod.snd = target.descriptor.parameters :=
      List.map_snd_zip (Nat.le_of_eq hlength.symm)
    have hslots : heldSlots (parameterPairs bridge target) = bridge.descriptor.parameterSlots false := by
      rw [heldSlots, hheld, MethodDescriptor.parameterSlots]
      exact (Nat.zero_add _).symm
    rw [isPossible] at hpossible
    refine ⟨bridgeCode (parameterPairs bridge target) (firstSlot bridge), ?_, ?_, ?_⟩
    · intro σ _ e
      have hemit := emitEach_loadCast hpossible 0 e.scope
      rw [Nat.zero_add, hslots] at hemit
      rw [apply_eq_emit, emit]
      exact congrArg (Emitted.onto · e.code) hemit
    · intro hdirect
      rw [passesDirectly, Bool.not_eq_true'] at hdirect
      rw [← hslots, heldSlots_eq hpossible hdirect, hwanted, MethodDescriptor.parameterSlots]
      exact (Nat.zero_add _).symm
    · intro frame hframe stack
      rw [HoldsArguments, ← hheld] at hframe
      rw [run_bridgeCode hpossible hframe, hwanted, passesDirectly]
      cases List.any _ _ <;> rfl

/-- An instance method with parameters of some types. -/
def methodTaking (types : List ValueType) : Method :=
  ⟨0, Java.object, ⟨"m"⟩, ⟨types, none⟩, MethodFlags.publicFlag⟩

theorem firstSlot_methodTaking (types : List ValueType) : firstSlot (methodTaking types) = 1 := by
  have hstatic : MethodFlags.publicFlag.has MethodFlags.staticFlag = false := by decide
  rw [firstSlot, Method.isStatic, methodTaking, hstatic]
  rfl

/-- An object is cast to a text, and a number is passed on. -/
theorem bridged_arguments_text :
    let bridge := methodTaking [.object Java.object, .primitive .int]
    let target := methodTaking [.object Java.string, .primitive .int]
    ∃ (plan : Plan) (code : List SymbolicInstruction),
      loadBridged bridge target = .ok plan ∧ plan.isPossible = true ∧
      HoldsArguments (entryFrame bridge) bridge ∧
      (∀ s, plan.apply ⟨(#[] : Array SymbolicInstruction), s⟩ =
        (.ok ⟨2, 2⟩, ⟨code.foldl CodeCollector.append #[], s⟩)) ∧
      run .withJavaLibrary (entryFrame bridge) code [.long] =
        some [.int, .ref (.object Java.string), .long] := by
  intro bridge target
  have hplan : loadBridged bridge target =
      .ok (.sequence [.op (.load .reference 1), .op (.cast (.object Java.string)), .op (.load .int 2)]) := by
    rw [loadBridged, firstSlot_methodTaking]
    rfl
  have hframe := holdsArguments_entryFrame bridge
  obtain ⟨-, -, hpossible⟩ := bridged_arguments .withJavaLibrary bridge target
  obtain ⟨code, happly, -, hruns⟩ := hpossible _ hplan rfl
  exact ⟨_, code, hplan, rfl, hframe, fun s => happly ⟨#[], s⟩, hruns _ hframe [.long]⟩

/-- **A possible plan that passes nothing on.** The argument is a number of two slots, and the target wants
an object. The plan reports two slots where the target takes one, and in a frame of the bridge method its
code is not well typed, because it casts the number. -/
theorem possible_bridge_casts_number :
    let bridge := methodTaking [.primitive .long]
    let target := methodTaking [.object Java.object]
    ∃ (plan : Plan) (code : List SymbolicInstruction),
      loadBridged bridge target = .ok plan ∧ plan.isPossible = true ∧
      (∀ s, plan.apply ⟨(#[] : Array SymbolicInstruction), s⟩ = (.ok ⟨2, 2⟩, ⟨code.toArray, s⟩)) ∧
      target.descriptor.parameterSlots false = 1 ∧ HoldsArguments (entryFrame bridge) bridge ∧
      ∀ g, run g (entryFrame bridge) code [] = none := by
  intro bridge target
  have hplan : loadBridged bridge target =
      .ok (.sequence [.op (.load .long 1), .op (.cast (.object Java.object))]) := by
    rw [loadBridged, firstSlot_methodTaking]
    rfl
  refine ⟨_, [.load .long 1, .checkCast (.object Java.object)], hplan, rfl, fun s => rfl, rfl,
    holdsArguments_entryFrame bridge, fun g => ?_⟩
  rw [entryFrame, firstSlot_methodTaking]
  rfl

end JvmCodegen.Stack
