/-
**Arguments and the slots that they lie in.**

Three computations lay the arguments of a method out: the plans that load them add the room of one type
after the other, the descriptor knows the room of all of them, and the body of the method counts the slots
that its instructions read.  They agree for every method.  The arguments lie one after the other, without
gaps, from the slot after the receiver to the end of the room that the descriptor gives them, and the loads
read just these slots.

Main definitions:

* `Stack.slotAt`, `Stack.argumentSlot` — the slot at which a value starts, among the values of some types or
  among the arguments of a method;
* `Stack.TakesSlot` — a slot is one of those of an argument;
* `Stack.loadCode`, `Stack.argumentCode`, `Stack.receiverCode` — the loads of some values, of the arguments
  and of the receiver;
* `Stack.LoadsArguments` — a plan that emits some of these loads in every body, and what it reports.

Main results:

* `Stack.loadFrom_eq_loadCast`, `Stack.bridgeCode_diagonal` — arguments are loaded like those of a bridge to
  a method with the same parameters;
* `BodyDraft.maxLocals_foldl_of_le` — loads within the slots that are counted add none;
* `Stack.arguments_fill_their_slots` — **loads, descriptor and body agree on the slots of the arguments**.
-/

import Mathlib
import JvmCodegen.Proofs.Stack.Bridging

set_option relaxedAutoImplicit false
set_option autoImplicit false

namespace JvmCodegen

/-! ### Local variables of a body -/

/-- Loads that end within the slots that are counted already add none. -/
theorem BodyDraft.maxLocals_foldl_of_le {b : BodyDraft} {code : List SymbolicInstruction}
    (h : ∀ i ∈ code, ∀ slot slots, i.local? = some (slot, slots) → slot.toNat + slots ≤ b.maxLocals) :
    (code.foldl CodeCollector.append b).maxLocals = b.maxLocals := by
  induction code generalizing b with
  | nil => rfl
  | cons first code ih =>
      have hfirst : (b.append first).maxLocals = b.maxLocals := by
        change localsWith b.maxLocals first = b.maxLocals
        unfold localsWith
        split
        case h_1 => rfl
        case h_2 slot slots hlocal =>
          exact Nat.max_eq_left (h first List.mem_cons_self slot slots hlocal)
      have hrest := ih (b := b.append first) fun i hi slot slots hlocal => by
        rw [hfirst]
        exact h i (List.mem_cons_of_mem first hi) slot slots hlocal
      exact hrest.trans hfirst

namespace Stack

open Plan

/-! ### Layout -/

/-- The slot at which the value of a type starts, if values of the types lie one after the other from a slot
on. -/
def slotAt (types : List ValueType) (first i : Nat) : Nat :=
  first + ((types.take i).map FieldType.slots).sum

theorem slotAt_zero (types : List ValueType) (first : Nat) : slotAt types first 0 = first := by
  simp [slotAt]

theorem slotAt_cons_succ (t : ValueType) (types : List ValueType) (first i : Nat) :
    slotAt (t :: types) first (i + 1) = slotAt types (first + t.slots) i := by
  simp [slotAt, Nat.add_assoc]

/-- The next value starts where a value ends. -/
theorem slotAt_succ {types : List ValueType} {i : Nat} {t : ValueType} (h : types[i]? = some t)
    (first : Nat) : slotAt types first (i + 1) = slotAt types first i + t.slots := by
  simp [slotAt, List.take_add_one, h, Nat.add_assoc]

/-- Later values start later. -/
theorem slotAt_mono (types : List ValueType) (first : Nat) {i j : Nat} (h : i ≤ j) :
    slotAt types first i ≤ slotAt types first j := by
  induction h with
  | refl => exact Nat.le_refl _
  | @step j _ ih =>
      refine Nat.le_trans ih ?_
      cases ht : types[j]? with
      | none =>
          have hlength : types.length ≤ j := List.getElem?_eq_none_iff.1 ht
          simp [slotAt, List.take_of_length_le hlength, List.take_of_length_le (Nat.le_succ_of_le hlength)]
      | some t =>
          rw [slotAt_succ ht]
          exact Nat.le_add_right _ _

/-- The slot at which an argument starts: behind the receiver, if there is one, and the arguments before. -/
def argumentSlot (m : Method) (i : Nat) : Nat := slotAt m.descriptor.parameters (firstSlot m) i

/-- The slot is one of those of the `i`th argument. -/
def TakesSlot (m : Method) (i n : Nat) : Prop :=
  ∃ t, m.descriptor.parameters[i]? = some t ∧ argumentSlot m i ≤ n ∧ n < argumentSlot m i + t.slots

/-- The arguments end where the descriptor says. -/
theorem argumentSlot_length (m : Method) :
    argumentSlot m m.descriptor.parameters.length = m.argumentSlots := by
  rw [argumentSlot, slotAt, List.take_length, Method.argumentSlots, MethodDescriptor.parameterSlots,
    firstSlot]
  cases m.isStatic <;> rfl

/-- Every slot of the room for some values belongs to one of them. -/
theorem exists_slotAt_of_lt {types : List ValueType} {first n : Nat} (hfirst : first ≤ n)
    (hend : n < slotAt types first types.length) :
    ∃ i t, types[i]? = some t ∧ slotAt types first i ≤ n ∧ n < slotAt types first i + t.slots := by
  induction types generalizing first with
  | nil =>
      rw [List.length_nil, slotAt_zero] at hend
      omega
  | cons t types ih =>
      by_cases hn : n < first + t.slots
      · exact ⟨0, t, rfl, by rwa [slotAt_zero], by rwa [slotAt_zero]⟩
      · rw [List.length_cons, slotAt_cons_succ] at hend
        obtain ⟨i, u, hu, hle, hlt⟩ := ih (by omega) hend
        refine ⟨i + 1, u, hu, ?_, ?_⟩
        · rwa [slotAt_cons_succ]
        · rwa [slotAt_cons_succ]

/-- **The arguments fill their room.** -/
theorem exists_takesSlot_iff (m : Method) (n : Nat) :
    (∃ i, TakesSlot m i n) ↔ firstSlot m ≤ n ∧ n < m.argumentSlots := by
  rw [← argumentSlot_length]
  constructor
  · rintro ⟨i, t, ht, hle, hlt⟩
    have hi : i < m.descriptor.parameters.length := (List.getElem?_eq_some_iff.1 ht).1
    have hstart := slotAt_mono m.descriptor.parameters (firstSlot m) (Nat.zero_le i)
    have hend := slotAt_mono m.descriptor.parameters (firstSlot m) (Nat.succ_le_of_lt hi)
    rw [slotAt_zero] at hstart
    rw [slotAt_succ ht] at hend
    exact ⟨Nat.le_trans hstart hle, Nat.lt_of_lt_of_le hlt hend⟩
  · rintro ⟨hfirst, hend⟩
    exact exists_slotAt_of_lt hfirst hend

/-- An argument ends before a later one starts. -/
theorem TakesSlot.lt_argumentSlot {m : Method} {i j n : Nat} (h : TakesSlot m i n) (hij : i < j) :
    n < argumentSlot m j := by
  obtain ⟨t, ht, -, hlt⟩ := h
  have hmono := slotAt_mono m.descriptor.parameters (firstSlot m) (Nat.succ_le_of_lt hij)
  rw [slotAt_succ ht] at hmono
  exact Nat.lt_of_lt_of_le hlt hmono

/-- **No slot belongs to two arguments.** -/
theorem TakesSlot.unique {m : Method} {i j n : Nat} (hi : TakesSlot m i n) (hj : TakesSlot m j n) :
    i = j := by
  have starts : ∀ {k}, TakesSlot m k n → argumentSlot m k ≤ n := fun ⟨_, _, hle, _⟩ => hle
  rcases Nat.lt_trichotomy i j with hij | hij | hij
  · exact absurd (hi.lt_argumentSlot hij) (Nat.not_lt_of_le (starts hj))
  · exact hij
  · exact absurd (hj.lt_argumentSlot hij) (Nat.not_lt_of_le (starts hi))

/-! ### Loads -/

/-- The loads of values of some types that lie one after the other from a slot on. -/
def loadCode (types : List ValueType) (first : Nat) : List SymbolicInstruction :=
  types.mapIdx fun i t => .load (ValueKind.ofType t) (UInt16.ofNat (slotAt types first i))

theorem loadCode_cons (t : ValueType) (types : List ValueType) (first : Nat) :
    loadCode (t :: types) first =
      .load (ValueKind.ofType t) (UInt16.ofNat first) :: loadCode types (first + t.slots) := by
  simp only [loadCode, List.mapIdx_cons, slotAt_zero, slotAt_cons_succ]

/-- The loads of the arguments. -/
def argumentCode (m : Method) : List SymbolicInstruction :=
  loadCode m.descriptor.parameters (firstSlot m)

/-- The load of the receiver, if there is one. -/
def receiverCode (m : Method) : List SymbolicInstruction :=
  if m.isStatic then [] else [.load .reference 0]

/-- Each type with itself. -/
def diagonal (types : List ValueType) : List (ValueType × ValueType) := types.map fun t => (t, t)

/-- Arguments are loaded as if for a bridge to a method with the same parameters. -/
theorem loadFrom_eq_loadCast (done : List Plan) (types : List ValueType) (slot : Nat) :
    loadFrom done types slot = loadCast done (diagonal types) slot := by
  induction types generalizing done slot with
  | nil => rfl
  | cons t types ih =>
      rw [diagonal, List.map_cons, loadFrom, loadCast, if_pos rfl]
      exact ih (loadSlot t slot :: done) (slot + t.slots)

/-- Nothing is cast on such a bridge. -/
theorem bridgeCode_diagonal (types : List ValueType) (slot : Nat) :
    bridgeCode (diagonal types) slot = loadCode types slot := by
  induction types generalizing slot with
  | nil => rfl
  | cons t types ih =>
      have hcast : castCode t t = [] := by
        cases t with
        | primitive p => rfl
        | reference r => exact if_pos rfl
      rw [diagonal, List.map_cons, bridgeCode, hcast, List.nil_append, loadCode_cons]
      exact congrArg _ (ih (slot + t.slots))

theorem heldSlots_diagonal (types : List ValueType) :
    heldSlots (diagonal types) = (types.map FieldType.slots).foldr (· + ·) 0 := by
  have hfst : (diagonal types).map Prod.fst = types := by simp [diagonal, Function.comp_def]
  rw [heldSlots, hfst]

/-- **What can be loaded**: values that start at a slot that exists. -/
theorem allPossible_loadFrom_iff {types : List ValueType} {first : Nat} :
    allPossible (loadFrom [] types first) = true ↔ ∀ i < types.length, slotAt types first i ≤ 65535 := by
  rw [loadFrom_eq_loadCast]
  induction types generalizing first with
  | nil => simp [diagonal, loadCast, allPossible]
  | cons t types ih =>
      rw [diagonal, List.map_cons, allPossible_loadCast_cons]
      constructor
      · rintro ⟨hfirst, -, hrest⟩ i hi
        cases i with
        | zero => rwa [slotAt_zero]
        | succ i =>
            rw [slotAt_cons_succ]
            exact ih.1 hrest i (Nat.lt_of_succ_lt_succ hi)
      · intro h
        refine ⟨?_, .inl rfl, ih.2 fun i hi => ?_⟩
        · have hzero := h 0 (Nat.zero_lt_succ _)
          rwa [slotAt_zero] at hzero
        · rw [← slotAt_cons_succ t]
          exact h (i + 1) (Nat.succ_lt_succ hi)

/-! ### Plans -/

theorem isPossible_loadArguments_iff (m : Method) : (loadArguments m).isPossible = true ↔
    ∀ i < m.descriptor.parameters.length, argumentSlot m i ≤ 65535 := by
  rw [loadArguments, isPossible, allPossible_loadFrom_iff]
  rfl

/-- The receiver can always be loaded. -/
theorem isPossible_loadReceiverAndArguments (m : Method) :
    (loadReceiverAndArguments m).isPossible = (loadArguments m).isPossible := by
  unfold loadReceiverAndArguments
  split
  · rfl
  · simp [isPossible, allPossible]

theorem emit_loadArguments {m : Method} (h : (loadArguments m).isPossible = true) (s : Scope) :
    (loadArguments m).emit s =
      ⟨.ok (Effect.pushing (m.descriptor.parameterSlots false)), argumentCode m, s⟩ := by
  rw [loadArguments, isPossible, loadFrom_eq_loadCast] at h
  rw [loadArguments, emit, loadFrom_eq_loadCast]
  have hemit := emitEach_loadCast h 0 s
  rw [bridgeCode_diagonal, heldSlots_diagonal] at hemit
  exact hemit

theorem emit_loadReceiverAndArguments {m : Method} (h : (loadArguments m).isPossible = true)
    (s : Scope) :
    (loadReceiverAndArguments m).emit s =
      ⟨.ok (Effect.pushing (m.descriptor.parameterSlots false + firstSlot m)),
        receiverCode m ++ argumentCode m, s⟩ := by
  by_cases hstatic : m.isStatic = true
  · rw [loadReceiverAndArguments, if_pos hstatic, receiverCode, if_pos hstatic, firstSlot, if_pos hstatic]
    exact emit_loadArguments h s
  · have heffect : ∀ n : Nat, ((Effect.zero.andThen (Effect.pushing 1)).andThen (Effect.pushing n)) =
        Effect.pushing (n + 1) := by
      intro n
      simp only [Effect.andThen, Effect.pushing, Effect.zero, Effect.mk.injEq]
      omega
    rw [loadReceiverAndArguments, if_neg hstatic, receiverCode, if_neg hstatic, firstSlot, if_neg hstatic,
      emit, emitEach, emit, Emitted.andThen_of_ok rfl, emitEach, emit_loadArguments h,
      Emitted.andThen_of_ok rfl, emitEach, ← heffect]
    simp [Emitted.after, Operation.effect, ValueKind.slots, Operation.instruction]

/-- The plan can be applied everywhere. It emits the code, leaves the constants as they are, and reports the
slots that it fills; the body of the method needs no local variables for it but those of the arguments. -/
structure LoadsArguments (m : Method) (plan : Plan) (code : List SymbolicInstruction) (slots : Nat) :
    Prop where
  applied : ∀ {σ : Type} [CodeCollector σ] (e : Emission σ), plan.apply e =
    (.ok (Effect.pushing slots), ⟨code.foldl CodeCollector.append e.code, e.scope⟩)
  maxLocals : ∀ s, (plan.apply ⟨BodyDraft.new m, s⟩).2.code.maxLocals = m.argumentSlots

theorem loadsArguments_of_emit {m : Method} {plan : Plan} {code : List SymbolicInstruction} {slots : Nat}
    (hemit : ∀ s, plan.emit s = ⟨.ok (Effect.pushing slots), code, s⟩)
    (hcode : ∀ i ∈ code, ∀ slot slots, i.local? = some (slot, slots) →
      slot.toNat + slots ≤ m.argumentSlots) : LoadsArguments m plan code slots := by
  have happlied : ∀ {σ : Type} [CodeCollector σ] (e : Emission σ), plan.apply e =
      (.ok (Effect.pushing slots), ⟨code.foldl CodeCollector.append e.code, e.scope⟩) := by
    intro σ _ e
    rw [apply_eq_emit, hemit]
    rfl
  refine ⟨happlied, fun s => ?_⟩
  rw [happlied]
  exact BodyDraft.maxLocals_foldl_of_le hcode

/-- The loads of the arguments, one for each, of its kind and at its slot. -/
theorem getElem?_argumentCode {m : Method} (h : (loadArguments m).isPossible = true) {i : Nat}
    {t : ValueType} (ht : m.descriptor.parameters[i]? = some t) :
    ∃ slot : UInt16, slot.toNat = argumentSlot m i ∧
      (argumentCode m)[i]? = some (.load (ValueKind.ofType t) slot) := by
  have hi : i < m.descriptor.parameters.length := (List.getElem?_eq_some_iff.1 ht).1
  refine ⟨_, toNat_slot ((isPossible_loadArguments_iff m).1 h i hi), ?_⟩
  rw [argumentCode, loadCode, List.getElem?_mapIdx, ht]
  rfl

/-- Every load of an argument reads slots that the descriptor has room for. -/
theorem local_le_of_mem_argumentCode {m : Method} (h : (loadArguments m).isPossible = true)
    {i : SymbolicInstruction} (hi : i ∈ argumentCode m) {slot : UInt16} {slots : Nat}
    (hlocal : i.local? = some (slot, slots)) : slot.toNat + slots ≤ m.argumentSlots := by
  obtain ⟨k, hk⟩ := List.getElem?_of_mem hi
  have hlength : k < m.descriptor.parameters.length := by
    have hk' := (List.getElem?_eq_some_iff.1 hk).1
    simpa [argumentCode, loadCode] using hk'
  obtain ⟨start, hstart, hload⟩ := getElem?_argumentCode h (List.getElem?_eq_getElem hlength)
  obtain rfl := Option.some.inj (hk.symm.trans hload)
  obtain ⟨rfl, rfl⟩ := Prod.mk.inj (Option.some.inj hlocal)
  have hend := slotAt_mono m.descriptor.parameters (firstSlot m) (Nat.succ_le_of_lt hlength)
  rw [slotAt_succ (List.getElem?_eq_getElem hlength)] at hend
  rw [hstart, ValueKind.slots_ofType, ← argumentSlot_length]
  exact hend

/-- **Loads, descriptor and body agree on the slots of the arguments.**

The slots of the arguments are those from the first one after the receiver to the end of the room that the
descriptor gives, and each belongs to one argument only. The arguments can be loaded exactly if each of them
starts at a slot that has a number of 16 bits, and so can the receiver and the arguments. Then there is one
load for each argument, in order, of its kind and from its slot, behind that of the receiver from slot 0 if
it is asked for. The plans report the room of what they push, and a body of the method that has them needs
the slots of the arguments and no more. -/
theorem arguments_fill_their_slots (m : Method) :
    (∀ n, (∃ i, TakesSlot m i n) ↔ firstSlot m ≤ n ∧ n < m.argumentSlots) ∧
    (∀ n i j, TakesSlot m i n → TakesSlot m j n → i = j) ∧
    ((loadArguments m).isPossible = true ↔
      ∀ i < m.descriptor.parameters.length, argumentSlot m i ≤ 65535) ∧
    (loadReceiverAndArguments m).isPossible = (loadArguments m).isPossible ∧
    ((loadArguments m).isPossible = true →
      (argumentCode m).length = m.descriptor.parameters.length ∧
      (∀ i t, m.descriptor.parameters[i]? = some t → ∃ slot : UInt16, slot.toNat = argumentSlot m i ∧
        (argumentCode m)[i]? = some (.load (ValueKind.ofType t) slot)) ∧
      LoadsArguments m (loadArguments m) (argumentCode m) (m.descriptor.parameterSlots false) ∧
      LoadsArguments m (loadReceiverAndArguments m) (receiverCode m ++ argumentCode m)
        (m.descriptor.parameterSlots false + firstSlot m)) := by
  refine ⟨exists_takesSlot_iff m, fun n i j hi hj => hi.unique hj, isPossible_loadArguments_iff m,
    isPossible_loadReceiverAndArguments m, fun h => ⟨?_, ?_, ?_, ?_⟩⟩
  · rw [argumentCode, loadCode, List.length_mapIdx]
  · intro i t ht
    exact getElem?_argumentCode h ht
  · exact loadsArguments_of_emit (emit_loadArguments h) fun i hi slot slots hlocal =>
      local_le_of_mem_argumentCode h hi hlocal
  · refine loadsArguments_of_emit (emit_loadReceiverAndArguments h) fun i hi slot slots hlocal => ?_
    rcases List.mem_append.1 hi with hi | hi
    case inl =>
      -- only an instance method has a receiver, and its slot is counted
      rw [receiverCode] at hi
      split at hi
      case isTrue => exact absurd hi List.not_mem_nil
      case isFalse hstatic =>
        obtain rfl := List.mem_singleton.1 hi
        obtain ⟨rfl, rfl⟩ := Prod.mk.inj (Option.some.inj hlocal)
        rw [Method.argumentSlots, MethodDescriptor.parameterSlots, Bool.eq_false_iff.2 hstatic]
        exact Nat.le_add_right 1 _
    case inr => exact local_le_of_mem_argumentCode h hi hlocal

/-- An instance method with numbers of different sizes: the second one lies in slot 3, and no other does. -/
theorem arguments_fill_their_slots_numbers :
    let m := methodTaking [.primitive .long, .primitive .int, .primitive .double]
    (loadArguments m).isPossible = true ∧ TakesSlot m 1 3 ∧ (∀ i, TakesSlot m i 3 → i = 1) ∧
    LoadsArguments m (loadReceiverAndArguments m)
      [.load .reference 0, .load .long 1, .load .int 3, .load .double 4] 6 := by
  intro m
  obtain ⟨-, hunique, hpossible, -, hloads⟩ := arguments_fill_their_slots m
  have hslot : ∀ i, argumentSlot m i = slotAt m.descriptor.parameters 1 i := by
    intro i
    rw [argumentSlot, firstSlot_methodTaking]
  have hslots : ∀ i < 3, argumentSlot m i ≤ 65535 := by
    simp only [hslot]
    decide
  have hint : TakesSlot m 1 3 := by
    refine ⟨.primitive .int, rfl, ?_⟩
    rw [hslot]
    decide
  obtain ⟨-, -, -, hreceiver⟩ := hloads (hpossible.2 hslots)
  have hcode : receiverCode m ++ argumentCode m =
      [.load .reference 0, .load .long 1, .load .int 3, .load .double 4] := by
    cbv
  rw [hcode, firstSlot_methodTaking] at hreceiver
  exact ⟨hpossible.2 hslots, hint, fun i hi => hunique 3 i 1 hi hint, hreceiver⟩

end Stack

end JvmCodegen
