/-
**What a count in 32 bits tells.**

The size of a plan is counted sum by sum, and the count stops at the first sum that leaves the range of
32 bits.  As long as none does, the count is exact: it ends with the effect that applying the plan
reports, or it stops where applying the plan fails.  So whatever is known about effects holds for sizes
too, up to the point where a count overflows.

Main definitions:

* `Stack.Tells` — a count is right about an outcome, or it has overflowed;
* `Stack.Size.popping` — the size of popping some slots.

Main results:

* `Stack.Size.andThen_cases` — a sum of sizes is exact, or it overflows;
* `Stack.Plan.tells_size` — **the count of a plan is right** about applying it, in every scope and for
  every collector;
* `Stack.Plan.sizeEach_replicate` — the count of an operation that pops, time after time.
-/

import JvmCodegen.Proofs.Stack.Applicability
import JvmCodegen.Stack.Size

set_option relaxedAutoImplicit false
set_option autoImplicit false

namespace JvmCodegen.Stack

/-! ### Going on with a count -/

section Bind

variable {α β : Type} {count : Except Stop α}

theorem Stop.bind_of_ok {a : α} (h : count = .ok a) (next : α → Except Stop β) :
    (count >>= next) = next a := by
  rw [h]
  rfl

theorem Stop.bind_of_error {stop : Stop} (h : count = .error stop) (next : α → Except Stop β) :
    (count >>= next) = .error stop := by
  rw [h]
  rfl

end Bind

/-! ### Sums in 32 bits -/

namespace Size

/-- A number that does not overflow is kept. -/
theorem ofInt_cases (n : Int) :
    ofInt n = .error .overflow ∨ ∃ i, ofInt n = .ok i ∧ i.toInt = n := by
  by_cases h : -2147483648 ≤ n ∧ n ≤ 2147483647
  · exact .inr ⟨Int32.ofInt n, if_pos h, Int32.toInt_ofInt_of_le h.1 (by omega)⟩
  · exact .inl (if_neg h)

/-- An effect that does not overflow is kept. -/
theorem ofEffect_cases (e : Effect) :
    ofEffect e = .error .overflow ∨ ∃ s, ofEffect e = .ok s ∧ s.toEffect = e := by
  rw [ofEffect]
  rcases ofInt_cases e.impact with h | ⟨impact, h, himpact⟩ <;> rw [h]
  · exact .inl rfl
  · rcases ofInt_cases e.peak with h | ⟨peak, h, hpeak⟩ <;> rw [h]
    · exact .inl rfl
    · exact .inr ⟨⟨impact, peak⟩, rfl, by rw [toEffect, himpact, hpeak]⟩

/-- **A sum of sizes is exact, or it overflows.** -/
theorem andThen_cases (a b : Size) :
    a.andThen b = .error .overflow ∨
      ∃ c, a.andThen b = .ok c ∧ c.toEffect = a.toEffect.andThen b.toEffect := by
  rw [andThen]
  rcases ofInt_cases (a.impact.toInt + b.impact.toInt) with h | ⟨impact, h, himpact⟩ <;> rw [h]
  · exact .inl rfl
  · rcases ofInt_cases (a.impact.toInt + b.peak.toInt) with h | ⟨peak, h, hpeak⟩ <;> rw [h]
    · exact .inl rfl
    · refine .inr ⟨_, rfl, ?_⟩
      simp only [toEffect, Effect.andThen, Effect.mk.injEq, himpact, true_and, ← hpeak,
        Int32.le_iff_toInt_le]
      split <;> omega

theorem toEffect_injective {a b : Size} (h : a.toEffect = b.toEffect) : a = b := by
  rcases a with ⟨impact, peak⟩
  rcases b with ⟨impact', peak'⟩
  simp only [toEffect, Effect.mk.injEq, Int32.toInt_inj] at h
  rw [h.1, h.2]

theorem ofInt_toInt (i : Int32) : ofInt i.toInt = .ok i := by
  have hlow := i.le_toInt
  have hhigh := i.toInt_lt
  rw [ofInt, if_pos (by omega), Int32.ofInt_toInt]

theorem ofEffect_toEffect (s : Size) : ofEffect s.toEffect = .ok s := by
  rw [ofEffect, toEffect, Stop.bind_of_ok (ofInt_toInt _), Stop.bind_of_ok (ofInt_toInt _)]
  rfl

/-- A sum of sizes is exact where the sum of the effects is a size and the second peak is in range,
measured from the start. -/
theorem andThen_eq_ok {a b c : Size} (h : c.toEffect = a.toEffect.andThen b.toEffect) {peak : Int32}
    (hpeak : peak.toInt = a.toEffect.impact + b.toEffect.peak) : a.andThen b = .ok c := by
  rcases andThen_cases a b with hstop | ⟨d, hd, heffect⟩
  · -- neither of the two sums overflows
    have himpact : c.impact.toInt = a.impact.toInt + b.impact.toInt := congrArg Effect.impact h
    have hpeak : peak.toInt = a.impact.toInt + b.peak.toInt := hpeak
    rw [andThen, ← himpact, ← hpeak, Stop.bind_of_ok (ofInt_toInt _),
      Stop.bind_of_ok (ofInt_toInt _)] at hstop
    cases hstop
  · rw [hd, toEffect_injective (heffect.trans h.symm)]

end Size

/-! ### Counts that are right -/

/-- The count is right about the outcome: it has ended with the effect, or it has stopped for the same
reason. A count that has overflowed tells nothing. -/
def Tells : Except Stop Size → Except Error Effect → Prop
  | .ok s, outcome => outcome = .ok s.toEffect
  | .error .impossible, outcome => outcome = .error .impossiblePlan
  | .error .overflow, _ => True

/-- Of an outcome that is an effect, the count is that effect. -/
theorem Tells.of_ok {count : Except Stop Size} {effect : Effect} (h : Tells count (.ok effect)) :
    count = .error .overflow ∨ ∃ s, count = .ok s ∧ s.toEffect = effect := by
  rcases count with (_ | _) | s
  · cases h
  · exact .inl rfl
  · exact .inr ⟨s, rfl, (Except.ok.inj h).symm⟩

/-- Of a failure, the count stops. -/
theorem Tells.of_error {count : Except Stop Size} {reason : Error} (h : Tells count (.error reason)) :
    count = .error .overflow ∨ count = .error .impossible := by
  rcases count with (_ | _) | s
  · exact .inr rfl
  · exact .inl rfl
  · cases h

/-- Two counts that are right about one outcome are the same, unless one of them has overflowed. -/
theorem Tells.unique {a b : Except Stop Size} {outcome : Except Error Effect} (ha : Tells a outcome)
    (hb : Tells b outcome) (ha' : a ≠ .error .overflow) (hb' : b ≠ .error .overflow) : a = b := by
  cases outcome with
  | ok effect =>
      obtain ⟨s, rfl, hs⟩ := ha.of_ok.resolve_left ha'
      obtain ⟨t, rfl, ht⟩ := hb.of_ok.resolve_left hb'
      rw [Size.toEffect_injective (hs.trans ht.symm)]
  | error reason => rw [ha.of_error.resolve_left ha', hb.of_error.resolve_left hb']

/-- The count of an element stops, or it is that of the effect with the element stored. -/
theorem elementSize_cases (component : ValueType) (soFar : Size) (element : Except Stop Size) :
    elementSize component soFar element = .error .overflow ∨
      (∃ stop, element = .error stop ∧ elementSize component soFar element = .error stop) ∨
      ∃ s total, element = .ok s ∧ elementSize component soFar element = .ok total ∧
        total.toEffect = elementEffect component soFar.toEffect s.toEffect := by
  rw [elementSize]
  -- the two sums before the element
  rcases soFar.andThen_cases ⟨1, 1⟩ with h | ⟨a, h, ha⟩
  · exact .inl (Stop.bind_of_error h _)
  rw [Stop.bind_of_ok h]
  rcases a.andThen_cases ⟨1, 1⟩ with h | ⟨b, h, hb⟩
  · exact .inl (Stop.bind_of_error h _)
  rw [Stop.bind_of_ok h]
  cases element with
  | error stop => exact .inr (.inl ⟨stop, rfl, rfl⟩)
  | ok s =>
      rw [Stop.bind_of_ok rfl]
      -- and the two behind it
      rcases b.andThen_cases s with h | ⟨c, h, hc⟩
      · exact .inl (Stop.bind_of_error h _)
      rw [Stop.bind_of_ok h]
      rcases Size.ofEffect_cases (Effect.popping (2 + component.slots)) with h | ⟨d, h, hd⟩
      · exact .inl (Stop.bind_of_error h _)
      rw [Stop.bind_of_ok h]
      rcases c.andThen_cases d with h | ⟨total, h, htotal⟩
      · exact .inl h
      · refine .inr (.inr ⟨s, total, rfl, h, ?_⟩)
        rw [htotal, hc, hb, ha, hd]
        rfl

namespace Plan

/-- A plan whose count is right, wherever it is applied. -/
def IsTold (plan : Plan) : Prop := ∀ s : Scope, Tells plan.size (plan.emit s).outcome

theorem tells_sizeEach {plans : List Plan} (h : ∀ p ∈ plans, p.IsTold) (soFar : Size) (s : Scope) :
    Tells (sizeEach plans soFar) (emitEach plans soFar.toEffect s).outcome := by
  induction plans generalizing soFar s with
  | nil => exact rfl
  | cons plan rest ih =>
      have hplan := h plan List.mem_cons_self s
      rw [sizeEach, emitEach]
      cases hsize : plan.size with
      | error stop =>
          rw [hsize] at hplan
          rw [Stop.bind_of_error rfl]
          cases stop with
          | overflow => trivial
          | impossible => rwa [Emitted.andThen_of_error hplan]
      | ok size =>
          rw [hsize] at hplan
          rw [Stop.bind_of_ok rfl, Emitted.andThen_of_ok hplan, Emitted.outcome_after]
          rcases soFar.andThen_cases size with h' | ⟨total, h', htotal⟩
          · rw [Stop.bind_of_error h']
            trivial
          · rw [Stop.bind_of_ok h', ← htotal]
            exact ih (fun p hp => h p (List.mem_cons_of_mem plan hp)) total _

theorem tells_sizeFill {component : ValueType} {plans : List Plan} (h : ∀ p ∈ plans, p.IsTold)
    (index : Nat) (soFar : Size) (s : Scope) :
    Tells (sizeFill component plans soFar)
      (emitFill component plans index soFar.toEffect s).outcome := by
  induction plans generalizing index soFar s with
  | nil => exact rfl
  | cons plan rest ih =>
      have hplan := h plan List.mem_cons_self s
      rw [sizeFill, emitFill, Emitted.outcome_after]
      rcases elementSize_cases component soFar plan.size with
        h' | ⟨stop, hsize, h'⟩ | ⟨size, total, hsize, h', htotal⟩
      · rw [Stop.bind_of_error h']
        trivial
      · rw [hsize] at hplan
        rw [Stop.bind_of_error h']
        cases stop with
        | overflow => trivial
        | impossible => rwa [Emitted.andThen_of_error hplan]
      · rw [hsize] at hplan
        rw [Stop.bind_of_ok h', Emitted.andThen_of_ok hplan, Emitted.outcome_after, Emitted.outcome_after,
          ← htotal]
        exact ih (fun p hp => h p (List.mem_cons_of_mem plan hp)) (index + 1) total _

/-! ### Operations and class objects -/

theorem isTold_op (o : Operation) : (op o).IsTold := by
  intro s
  rw [size, emit, Operation.size]
  rcases Size.ofEffect_cases o.effect with h | ⟨size, h, hsize⟩ <;> rw [h]
  · trivial
  · rw [← hsize]
    exact rfl

/-- Operations are counted like any other plans. -/
theorem operationsSize_eq (operations : List Operation) (soFar : Size) :
    operationsSize operations soFar = sizeEach (operations.map op) soFar := by
  induction operations generalizing soFar with
  | nil => rfl
  | cons o operations ih =>
      rw [operationsSize, List.map_cons, sizeEach, size]
      simp only [ih]

theorem emitEach_map_op (operations : List Operation) (soFar : Effect) (s : Scope) :
    emitEach (operations.map op) soFar s =
      ⟨.ok ((operations.map Operation.effect).foldl Effect.andThen soFar),
        operations.map Operation.instruction, s⟩ := by
  induction operations generalizing soFar with
  | nil => rfl
  | cons o operations ih =>
      rw [List.map_cons, emitEach, emit, Emitted.andThen_of_ok rfl, ih]
      rfl

/-- Class objects are counted like any other elements of an array. -/
theorem typesSize_eq (component : ValueType) (types : List ValueType) (soFar : Size) :
    typesSize component types soFar =
      sizeFill component (types.map fun t => .op (.classOf (some t))) soFar := by
  induction types generalizing soFar with
  | nil => rfl
  | cons type types ih =>
      rw [typesSize, List.map_cons, sizeFill, size]
      simp only [ih]

theorem operationsSize_cases (operations : List Operation) (soFar : Size) :
    operationsSize operations soFar = .error .overflow ∨
      ∃ total, operationsSize operations soFar = .ok total ∧
        total.toEffect = (operations.map Operation.effect).foldl Effect.andThen soFar.toEffect := by
  rw [operationsSize_eq]
  have h : Tells (sizeEach (operations.map op) soFar) _ := tells_sizeEach (by simp [isTold_op]) soFar
    ⟨.empty, .new Java.object ConstantCache.defaultNamePart⟩
  rw [emitEach_map_op] at h
  exact h.of_ok

theorem typesSize_cases (component : ValueType) (types : List ValueType) (soFar : Size) :
    typesSize component types soFar = .error .overflow ∨
      ∃ total, typesSize component types soFar = .ok total ∧
        total.toEffect = (fillTypes component types 0 soFar.toEffect []).2 := by
  have h : Tells (sizeFill component (types.map fun t => .op (.classOf (some t))) soFar) _ :=
    tells_sizeFill (by simp [isTold_op]) 0 soFar
      ⟨.empty, .new Java.object ConstantCache.defaultNamePart⟩
  rw [emitFill_classOf, ← typesSize_eq] at h
  exact h.of_ok

theorem isTold_methodObject (method : Method) : (methodObject method).IsTold := by
  intro s
  rw [size, emit, methodObjectSize, emitMethodObject]
  split
  case isFalse => exact rfl
  case isTrue =>
      rcases operationsSize_cases (lookupTarget method) Size.zero with h | ⟨target, h, htarget⟩
      · rw [Stop.bind_of_error h]
        trivial
      rw [Stop.bind_of_ok h]
      rcases typesSize_cases (.object Java.classClass) method.descriptor.parameters ⟨1, 1⟩ with
        h | ⟨array, h, harray⟩
      · rw [Stop.bind_of_error h]
        trivial
      rw [Stop.bind_of_ok h]
      rcases target.andThen_cases array with h | ⟨whole, h, hwhole⟩
      · rw [Stop.bind_of_error h]
        trivial
      · rw [Stop.bind_of_ok h, lookupCode]
        rw [htarget, harray] at hwhole
        exact congrArg (fun e : Effect => Except.ok (Effect.mk 1 e.peak)) hwhole.symm

/-! ### Plans -/

theorem isTold_cached (value : Plan) (type : ValueType) : (cached value type).IsTold := by
  intro s
  rw [size, emit, emitCached]
  rcases hcache : s.cache value type with ⟨reason | field, s'⟩
  · obtain ⟨hpossible, rfl, -⟩ := Scope.of_cache_eq_error hcache
    rw [hpossible]
    exact rfl
  · rw [Scope.isPossible_of_cache hcache, if_pos rfl]
    rcases Size.ofEffect_cases (Effect.pushing type.slots) with h | ⟨size, h, hsize⟩ <;> rw [h]
    · trivial
    · rw [← hsize]
      exact rfl

/-- **The count of a plan is right.** Unless a number leaves the range of 32 bits, the count ends with
the effect that applying the plan reports, or it stops because applying the plan fails. -/
theorem tells_size (plan : Plan) {σ : Type} [CodeCollector σ] (e : Emission σ) :
    Tells plan.size (plan.apply e).1 := by
  rw [apply_eq_emit]
  suffices h : plan.IsTold from h e.scope
  induction plan with
  | impossible | nothing => exact fun _ => rfl
  | op o => exact isTold_op o
  | methodObject method => exact isTold_methodObject method
  | cached value type _ => exact isTold_cached value type
  | sequence parts ih =>
      intro s
      rw [size, emit]
      exact tells_sizeEach ih Size.zero s
  | array component elements ih =>
      intro s
      rw [size, emit]
      split
      · exact tells_sizeFill ih 0 ⟨1, 1⟩ s
      · exact rfl

end Plan

/-! ### Popping, time after time -/

namespace Size

/-- The size of popping some slots. -/
def popping (n : Nat) : Size := ⟨Int32.ofInt (-n), 0⟩

theorem toEffect_popping {n : Nat} (h : n ≤ 2147483648) : (popping n).toEffect = Effect.popping n := by
  have himpact : (Int32.ofInt (-n)).toInt = -n := Int32.toInt_ofInt_of_le (by omega) (by omega)
  rw [toEffect, popping, himpact]
  rfl

theorem ofEffect_popping {n : Nat} (h : n ≤ 2147483648) :
    ofEffect (Effect.popping n) = .ok (popping n) :=
  toEffect_popping h ▸ ofEffect_toEffect (popping n)

theorem popping_andThen {m n : Nat} (h : m + n ≤ 2147483648) :
    (popping m).andThen (popping n) = .ok (popping (m + n)) := by
  have hm : (popping m).toEffect = Effect.popping m := toEffect_popping (by omega)
  have hn : (popping n).toEffect = Effect.popping n := toEffect_popping (by omega)
  have himpact : (popping m).impact.toInt = (Effect.popping m).impact := congrArg Effect.impact hm
  have hpeak : (popping m).impact.toInt = (popping m).toEffect.impact + (popping n).toEffect.peak := by
    rw [hm, hn, himpact]
    exact (Int.add_zero _).symm
  refine andThen_eq_ok ?_ hpeak
  rw [hm, hn, toEffect_popping h]
  simp only [Effect.popping, Effect.andThen, Effect.mk.injEq]
  omega

end Size

/-- A static method that takes some numbers of two slots each, and returns nothing. -/
def takingLongs (n : Nat) : Method :=
  ⟨0, Java.object, ⟨"n"⟩, ⟨List.replicate n (.primitive .long), none⟩, MethodFlags.staticFlag⟩

theorem length_parameters_takingLongs (n : Nat) : (takingLongs n).descriptor.parameters.length = n :=
  List.length_replicate

theorem argumentSlots_takingLongs (n : Nat) : (takingLongs n).argumentSlots = n * 2 := by
  have hstatic : MethodFlags.staticFlag.has MethodFlags.staticFlag = true := by decide
  rw [Method.argumentSlots, MethodDescriptor.parameterSlots, takingLongs, Method.isStatic, hstatic,
    List.map_replicate]
  exact (Nat.zero_add _).trans List.sum_replicate_nat

theorem size_takingLongs {n : Nat} (h : n * 2 ≤ 2147483648) :
    (Operation.invoke .static (takingLongs n)).size = .ok (Size.popping (n * 2)) := by
  have heffect : (Operation.invoke .static (takingLongs n)).effect = Effect.popping (n * 2) := by
    rw [Operation.effect, Operation.invokeEffect, argumentSlots_takingLongs, Effect.popping,
      Effect.mk.injEq]
    have hresult : (SlotCount.ofResult (takingLongs n).descriptor.returns).slots = 0 := rfl
    omega
  rw [Operation.size, heffect, Size.ofEffect_popping h]

namespace Plan

theorem sizeEach_append (a b : List Plan) (soFar : Size) :
    sizeEach (a ++ b) soFar = sizeEach a soFar >>= sizeEach b := by
  induction a generalizing soFar with
  | nil => rfl
  | cons plan a ih =>
      rw [List.cons_append, sizeEach, sizeEach]
      cases plan.size with
      | error stop => rfl
      | ok size =>
          rw [Stop.bind_of_ok rfl, Stop.bind_of_ok rfl]
          cases soFar.andThen size with
          | error stop => rfl
          | ok total => exact ih total

/-- **An operation that pops, time after time**, as long as the sum is in range. -/
theorem sizeEach_replicate {o : Operation} {slots : Nat} (ho : o.size = .ok (Size.popping slots))
    (times soFar : Nat) (h : soFar + times * slots ≤ 2147483648) :
    sizeEach (List.replicate times (op o)) (Size.popping soFar) =
      .ok (Size.popping (soFar + times * slots)) := by
  induction times generalizing soFar with
  | zero => rw [Nat.zero_mul, Nat.add_zero]; rfl
  | succ times ih =>
      have hsum : soFar + (times + 1) * slots = soFar + slots + times * slots := by
        rw [Nat.succ_mul]
        omega
      rw [hsum] at h ⊢
      rw [List.replicate_succ, sizeEach, size, Stop.bind_of_ok ho,
        Stop.bind_of_ok (Size.popping_andThen (Nat.le_trans (Nat.le_add_right _ _) h)), ih _ h]

/-- Calls that take all the slots that 32 bits can count downwards. -/
def manyCalls : Plan := .sequence (List.replicate 262144 (.op (.invoke .static (takingLongs 4096))))

theorem isPossible_manyCalls : manyCalls.isPossible = true := by
  rw [manyCalls, isPossible, allPossible_iff]
  intro p hp
  rw [List.eq_of_mem_replicate hp]
  rfl

theorem sizeEach_manyCalls :
    sizeEach (List.replicate 262144 (.op (.invoke .static (takingLongs 4096)))) Size.zero =
      .ok ⟨Int32.minValue, 0⟩ :=
  sizeEach_replicate (size_takingLongs (by omega)) 262144 0 (by omega)

theorem outerCached_manyCalls : manyCalls.outerCached = [] := by
  rw [manyCalls, outerCached_sequence, List.flatMap_eq_nil_iff]
  intro p hp
  rw [List.eq_of_mem_replicate hp, outerCached_op]

theorem size_manyCalls : manyCalls.size = .ok ⟨Int32.minValue, 0⟩ := by
  rw [manyCalls, size, sizeEach_manyCalls]

end Plan

end JvmCodegen.Stack
