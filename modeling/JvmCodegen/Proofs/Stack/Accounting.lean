/-
**Reported effects against emitted code.**

An operation states its effect on the stack beforehand, apart from the instruction that it emits,
and plans add these effects up.  Here both are compared: the reported change of the height is that
of the emitted code, and the reported peak is never too low and at most one slot too high.  It can
only be too high where a value is boxed or unboxed, which is counted as if the new value were pushed
before the old one is popped.

Main definitions:

* `Stack.Operation.IsProper` — an invocation is of a kind that its method allows;
* `Stack.Operation.isBoxing` — the operations whose peak is counted too high;
* `Stack.Effect.AccountsFor` — an effect is right about some code, up to a slack of its peak;
* `Stack.Effect.Composes` — the ways of judging effects that are kept when code is put together.

Main results:

* `Stack.Effect.AccountsFor.andThen` — the slack does not grow when code is put together;
* `Stack.Operation.accountsFor`, `Stack.Operation.accountsFor_one` — the operations;
* `Stack.Plan.isJudged_emit`, `Stack.Plan.accountsFor_emit` — the plans, by induction;
* `Stack.Plan.effect_accounts_for_code` — **what applying a plan reports is right about the code
  that it emits**, for every collector.
-/

import JvmCodegen.Proofs.Stack.Caching
import JvmCodegen.Proofs.Stack.Height
import JvmCodegen.Proofs.Stack.NumberInstructions

set_option relaxedAutoImplicit false
set_option autoImplicit false

namespace JvmCodegen.Stack

/-! ### Effects that are right about code -/

/-- The effect is right about the code: the height changes as stated, and the stated peak is
reached, or else it is too high by at most `slack`. -/
structure Effect.AccountsFor (slack : Int) (effect : Effect) (code : List SymbolicInstruction) :
    Prop where
  impact_eq : effect.impact = netHeight code
  le_peak : peakHeight code ≤ effect.peak
  peak_le : effect.peak ≤ peakHeight code + slack

namespace Effect.AccountsFor

variable {slack : Int} {a b : Effect} {first second : List SymbolicInstruction}

theorem zero : Effect.zero.AccountsFor 0 [] := ⟨rfl, Int.le_refl 0, Int.le_refl 0⟩

theorem mono {small : Int} (h : a.AccountsFor small first) (hle : small ≤ slack) :
    a.AccountsFor slack first := by
  obtain ⟨himpact, hlow, hhigh⟩ := h
  exact ⟨himpact, hlow, by omega⟩

/-- The slack does not add up: what comes later is measured from a height that is exact. -/
theorem andThen (ha : a.AccountsFor slack first) (hb : b.AccountsFor slack second) :
    (a.andThen b).AccountsFor slack (first ++ second) := by
  obtain ⟨ha, halow, hahigh⟩ := ha
  obtain ⟨hb, hblow, hbhigh⟩ := hb
  refine ⟨?_, ?_, ?_⟩
  · rw [impact_andThen, netHeight_append, ha, hb]
  · rw [peak_andThen, peakHeight_append, ha]
    omega
  · rw [peak_andThen, peakHeight_append, ha]
    omega

/-- One instruction, whose peak is where it ends or where it starts. -/
theorem single {i : SymbolicInstruction} (himpact : a.impact = i.slotEffect.net)
    (hpeak : a.peak = max a.impact 0) : a.AccountsFor 0 [i] := by
  refine ⟨?_, ?_, ?_⟩
  · simp [himpact]
  · simp only [peakHeight_cons, peakHeight_nil, hpeak, himpact]
    omega
  · simp only [peakHeight_cons, peakHeight_nil, hpeak, himpact]
    omega

end Effect.AccountsFor

/-- A way of judging effects against code that passes those that are right, and that goes on passing
them when code is put together. -/
structure Effect.Composes (J : Effect → List SymbolicInstruction → Prop) : Prop where
  of_accountsFor : ∀ {effect code}, effect.AccountsFor 0 code → J effect code
  andThen : ∀ {a b first second}, J a first → J b second → J (a.andThen b) (first ++ second)

theorem Effect.composes_accountsFor {slack : Int} (hslack : 0 ≤ slack) :
    Composes (AccountsFor slack) where
  of_accountsFor h := h.mono hslack
  andThen ha hb := ha.andThen hb

/-! ### Operations -/

namespace Operation

/-- An invocation is of the kind that the method calls for, or it is a direct one of an instance
method. -/
def IsProper : Operation → Prop
  | invoke kind m => kind = m.invokeKind ∨ kind = .special ∧ m.isStatic = false
  | _ => True

/-- The operation boxes or unboxes a value. -/
def isBoxing : Operation → Bool
  | box _ | unbox _ => true
  | _ => false

end Operation

/-- The method calls for a receiver exactly if it is not static. -/
theorem hasReceiver_invokeKind (m : Method) : m.invokeKind.hasReceiver = !m.isStatic := by
  unfold Method.invokeKind
  cases m.isStatic with
  | true => rfl
  | false =>
      simp only [Bool.false_eq_true, if_false]
      repeat' split
      all_goals rfl

theorem PushesNumber.slotEffect {type : Primitive} {i : SymbolicInstruction} (h : PushesNumber type i) :
    i.slotEffect = ⟨0, type.slots⟩ := by
  cases h with
  | @short type op h => cases op <;> cases h <;> rfl
  | _ => rfl

theorem net_fieldOp (access : Access) (f : Field) :
    ((fieldOp access f.isStatic).slotEffect f.type.slots).net =
      (Operation.fieldEffect access f).impact := by
  cases access <;> cases h : f.isStatic <;>
    simp [fieldOp, FieldOp.slotEffect, SlotEffect.net, Operation.fieldEffect, h, Int.add_comm]

theorem peak_fieldEffect (access : Access) (f : Field) :
    (Operation.fieldEffect access f).peak = max (Operation.fieldEffect access f).impact 0 := by
  have : 1 ≤ f.type.slots := by
    cases f.type with
    | primitive p => cases p <;> decide
    | reference r => exact Nat.le_refl 1
  cases access <;> simp only [Operation.fieldEffect] <;> split <;> omega

/-- The arguments that an invocation consumes are those of its method. -/
theorem net_invoke {kind : InvokeKind} {m : Method} (h : (Operation.invoke kind m).IsProper) :
    (Instruction.slotEffect (.invoke kind m)).net = (Operation.invokeEffect m).impact := by
  have hreceiver : kind.hasReceiver = !m.isStatic := by
    rcases h with rfl | ⟨rfl, hstatic⟩
    · exact hasReceiver_invokeKind m
    · rw [hstatic]
      rfl
  simp only [Instruction.slotEffect, SlotEffect.net, Operation.invokeEffect, hreceiver,
    Method.argumentSlots]

/-- An operation other than boxing and unboxing is right about its instruction. -/
theorem Operation.accountsFor {o : Operation} (h : o.IsProper) (hbox : o.isBoxing = false) :
    o.effect.AccountsFor 0 [o.instruction] := by
  cases o with
  | int value =>
      refine .single ?_ rfl
      rw [instruction, (pushesNumber_intInstruction value).slotEffect]
      rfl
  | long value =>
      refine .single ?_ rfl
      rw [instruction, (pushesNumber_longInstruction value).slotEffect]
      rfl
  | float bits =>
      refine .single ?_ rfl
      rw [instruction, (pushesNumber_floatInstruction bits).slotEffect]
      rfl
  | double bits =>
      refine .single ?_ rfl
      rw [instruction, (pushesNumber_doubleInstruction bits).slotEffect]
      rfl
  | text | null | typeObject | methodHandle => exact .single rfl rfl
  | primitiveObject type => rcases type with _ | p <;> exact .single rfl rfl
  | field access f => exact .single (net_fieldOp access f).symm (peak_fieldEffect access f)
  | load kind slot => cases kind <;> exact .single rfl rfl
  | invoke kind m => exact .single (net_invoke h).symm rfl
  | ret kind =>
      cases kind with
      | none => exact .single rfl rfl
      | some kind => cases kind <;> exact .single rfl rfl
  | widen conversion => cases conversion <;> exact .single rfl rfl
  | cast target => exact .single rfl rfl
  | box | unbox => exact absurd hbox (by simp [isBoxing])
  | pop wide => cases wide <;> exact .single rfl rfl
  | dup wide => cases wide <;> exact .single rfl rfl

/-- Every operation is right about its instruction up to one slot. -/
theorem Operation.accountsFor_one {o : Operation} (h : o.IsProper) :
    o.effect.AccountsFor 1 [o.instruction] := by
  cases hbox : o.isBoxing with
  | false => exact (o.accountsFor h hbox).mono (by omega)
  | true =>
      cases o with
      | box type => cases type <;> exact ⟨by decide, by decide, by decide⟩
      | unbox type => cases type <;> exact ⟨by decide, by decide, by decide⟩
      | _ => cases hbox

/-! ### Arrays -/

/-- Storing one more element. -/
theorem Effect.Composes.element {J : Effect → List SymbolicInstruction → Prop} (hJ : Composes J)
    {soFar element : Effect} {prior code : List SymbolicInstruction} (hsoFar : J soFar prior)
    (helement : J element code) (component : ValueType) (index : Nat) :
    J (elementEffect component soFar element)
      (prior ++ (elementStart index ++ (code ++ [.bare (storeOp component)]))) := by
  have hdup : Effect.AccountsFor 0 ⟨1, 1⟩ [.bare .dup] := .single rfl rfl
  have hindex : Effect.AccountsFor 0 ⟨1, 1⟩ [intInstruction (Int32.ofNat index)] := by
    refine .single ?_ rfl
    rw [(pushesNumber_intInstruction _).slotEffect]
    rfl
  have hstore : (Effect.popping (2 + component.slots)).AccountsFor 0 [.bare (storeOp component)] := by
    cases component with
    | primitive p => cases p <;> exact .single rfl rfl
    | reference r => exact .single rfl rfl
  have hstart := hJ.andThen (hJ.andThen hsoFar (hJ.of_accountsFor hdup)) (hJ.of_accountsFor hindex)
  have h := hJ.andThen (hJ.andThen hstart helement) (hJ.of_accountsFor hstore)
  simpa only [elementEffect, List.append_assoc, elementStart, List.cons_append,
    List.nil_append] using h

theorem accountsFor_arrayStart (component : ValueType) (length : Nat) :
    Effect.AccountsFor 0 ⟨1, 1⟩ (arrayStart component length) := by
  have hlength : (intInstruction (Int32.ofNat length)).slotEffect.net = 1 := by
    rw [(pushesNumber_intInstruction _).slotEffect]
    rfl
  have hcreate : (createArray component).slotEffect.net = 0 := by cases component <;> rfl
  refine ⟨?_, ?_, ?_⟩ <;>
    simp only [arrayStart, netHeight_cons, netHeight_nil, peakHeight_cons, peakHeight_nil,
      hlength, hcreate] <;>
    omega

/-! ### Plans -/

namespace Plan

variable {slack : Int} {J : Effect → List SymbolicInstruction → Prop}

/-- The effect that is reported for a plan is judged right for its code, in every scope. -/
def IsJudged (J : Effect → List SymbolicInstruction → Prop) (plan : Plan) : Prop :=
  ∀ (s : Scope) (effect : Effect), (plan.emit s).outcome = .ok effect → J effect (plan.emit s).code

/-- What it means for a plan to be right about its code, up to a slack. -/
def IsRight (slack : Int) (plan : Plan) : Prop :=
  ∀ (s : Scope) (effect : Effect), (plan.emit s).outcome = .ok effect →
    effect.AccountsFor slack (plan.emit s).code

theorem isJudged_emitEach (hJ : Effect.Composes J) {plans : List Plan}
    (h : ∀ p ∈ plans, p.IsJudged J) {soFar : Effect} {prior : List SymbolicInstruction}
    (hsoFar : J soFar prior) {s : Scope} {effect : Effect}
    (hok : (emitEach plans soFar s).outcome = .ok effect) :
    J effect (prior ++ (emitEach plans soFar s).code) := by
  induction plans generalizing soFar prior s with
  | nil =>
      cases hok
      simpa [emitEach] using hsoFar
  | cons plan rest ih =>
      rw [emitEach] at hok ⊢
      obtain ⟨first, hfirst, hrest⟩ := Emitted.outcome_andThen_eq_ok hok
      have hsoFar := hJ.andThen hsoFar (h plan List.mem_cons_self s first hfirst)
      rw [Emitted.andThen_of_ok hfirst, Emitted.code_after, ← List.append_assoc]
      exact ih (fun p hp => h p (List.mem_cons_of_mem plan hp)) hsoFar hrest

theorem isJudged_emitFill (hJ : Effect.Composes J) {component : ValueType} {plans : List Plan}
    (h : ∀ p ∈ plans, p.IsJudged J) {index : Nat} {soFar : Effect}
    {prior : List SymbolicInstruction} (hsoFar : J soFar prior) {s : Scope}
    {effect : Effect} (hok : (emitFill component plans index soFar s).outcome = .ok effect) :
    J effect (prior ++ (emitFill component plans index soFar s).code) := by
  induction plans generalizing index soFar prior s with
  | nil =>
      cases hok
      simpa [emitFill] using hsoFar
  | cons plan rest ih =>
      rw [emitFill, Emitted.outcome_after] at hok
      obtain ⟨first, hfirst, hrest⟩ := Emitted.outcome_andThen_eq_ok hok
      have helement := hJ.element hsoFar (h plan List.mem_cons_self s first hfirst)
        component index
      have hrest := ih (fun p hp => h p (List.mem_cons_of_mem plan hp)) helement hrest
      rw [emitFill, Emitted.code_after, Emitted.andThen_of_ok hfirst, Emitted.code_after,
        Emitted.code_after]
      simpa only [List.append_assoc] using hrest

/-- A class object is one slot, for a primitive type as for any other. -/
theorem accountsFor_classOf (type : Option ValueType) :
    (Operation.classOf type).effect.AccountsFor 0 [(Operation.classOf type).instruction] := by
  refine Operation.accountsFor ?_ ?_
  · rcases type with _ | p | r <;> exact trivial
  · rcases type with _ | p | r <;> rfl

/-- Everything that is emitted before the look-up of a reflective object. -/
theorem accountsFor_lookupCode (method : Method) :
    (lookupCode method).2.AccountsFor 0 (lookupCode method).1 := by
  let types := method.descriptor.parameters.map fun t => Plan.op (.classOf (some t))
  let component : ValueType := .object Java.classClass
  have htypes : ∀ p ∈ types, p.IsRight 0 := by
    intro p hp s effect hok
    obtain ⟨t, -, rfl⟩ := List.mem_map.1 hp
    cases hok
    exact accountsFor_classOf (some t)
  have hfill := isJudged_emitFill (Effect.composes_accountsFor (Int.le_refl 0)) htypes
    (accountsFor_arrayStart component method.descriptor.parameters.length)
    (congrArg Emitted.outcome (emitFill_classOf component _ 0 ⟨1, 1⟩ ⟨.empty, .new Java.object ⟨""⟩⟩))
  rw [emitFill_classOf] at hfill
  have htarget : (((lookupTarget method).map Operation.effect).foldl Effect.andThen
      Effect.zero).AccountsFor 0 ((lookupTarget method).map Operation.instruction) := by
    unfold lookupTarget
    split <;> exact ⟨rfl, Int.le_refl _, Int.le_refl _⟩
  exact htarget.andThen hfill

/-- Storing class objects leaves the stack as it was. -/
theorem impact_fillTypes (types : List ValueType) (index : Nat) (soFar : Effect)
    (emitted : List SymbolicInstruction) :
    (fillTypes (.object Java.classClass) types index soFar emitted).2.impact = soFar.impact := by
  induction types generalizing index soFar emitted with
  | nil => rfl
  | cons type types ih =>
      have hslots : (FieldType.object Java.classClass : ValueType).slots = 1 := rfl
      have himpact : (Operation.classOf (some type)).effect.impact = 1 := by
        rcases type with p | r <;> rfl
      rw [fillTypes, ih]
      simp only [elementEffect, Effect.impact_andThen, Effect.popping, himpact, hslots]
      omega

/-- The look-up consumes all that was pushed for it, and leaves one object. -/
theorem net_lookupMethod (method : Method) : 1 ≤ (lookupCode method).2.impact ∧
    (Instruction.slotEffect (.invoke .virtual (lookupMethod method))).net =
      1 - (lookupCode method).2.impact := by
  simp only [lookupCode, Effect.impact_andThen, impact_fillTypes, lookupTarget, lookupMethod]
  cases method.isConstructor with
  | true => exact ⟨(by decide : (1 : Int) ≤ 2), rfl⟩
  | false => exact ⟨(by decide : (1 : Int) ≤ 3), rfl⟩

theorem isRight_methodObject (method : Method) : (Plan.methodObject method).IsRight 0 := by
  intro s effect hok
  rw [emit, emitMethodObject] at hok ⊢
  split at hok
  case isFalse => cases hok
  case isTrue hlength =>
      rw [if_pos hlength]
      cases hok
      obtain ⟨himpact, hlow, hhigh⟩ := accountsFor_lookupCode method
      obtain ⟨hpositive, hnet⟩ := net_lookupMethod method
      have hpeak := netHeight_le_peakHeight (lookupCode method).1
      -- the height after the look-up is 1, and it was no lower before
      refine ⟨?_, ?_, ?_⟩
      · simp only [netHeight_append, netHeight_cons, netHeight_nil, hnet, himpact]
        omega
      · simp only [peakHeight_append, peakHeight_cons, peakHeight_nil, hnet]
        omega
      · simp only [peakHeight_append, peakHeight_cons, peakHeight_nil, hnet]
        omega

/-- Reading a constant pushes one value of the type that was asked for. -/
theorem isRight_cached (value : Plan) (type : ValueType) : (Plan.cached value type).IsRight 0 := by
  intro s effect hok
  cases hcache : s.cache value type with
  | mk outcome s' =>
      rw [emit, emitCached, hcache] at hok ⊢
      cases outcome with
      | error reason => cases hok
      | ok field =>
          cases hok
          -- the field has the type that was asked for, and so its slots
          have htype := ConstantCache.type_of_find? (Scope.find?_of_cache hcache)
          refine .single ?_ ?_
          · rw [Instruction.slotEffect, FieldOp.slotEffect, SlotEffect.net, htype]
            simp [Effect.pushing]
          · exact (Int.max_eq_left (Int.natCast_nonneg _)).symm

/-- **Plans are judged like their operations.** -/
theorem isJudged_emit (hJ : Effect.Composes J) {plan : Plan}
    (h : ∀ o ∈ plan.operations, J o.effect [o.instruction]) : plan.IsJudged J := by
  induction plan with
  | impossible => intro s effect hok; cases hok
  | nothing =>
      intro s effect hok
      cases hok
      exact hJ.of_accountsFor .zero
  | sequence parts ih =>
      intro s effect hok
      have hparts : ∀ p ∈ parts, p.IsJudged J := fun p hp =>
        ih p hp fun o ho => h o (mem_operationsEach.2 ⟨p, hp, ho⟩)
      exact isJudged_emitEach hJ hparts (hJ.of_accountsFor .zero) hok
  | op operation =>
      intro s effect hok
      cases hok
      exact h operation List.mem_cons_self
  | methodObject method =>
      intro s effect hok
      exact hJ.of_accountsFor (isRight_methodObject method s effect hok)
  | cached value type _ =>
      intro s effect hok
      exact hJ.of_accountsFor (isRight_cached value type s effect hok)
  | array component elements ih =>
      intro s effect hok
      have helements : ∀ p ∈ elements, p.IsJudged J := fun p hp =>
        ih p hp fun o ho => h o (mem_operationsEach.2 ⟨p, hp, ho⟩)
      have hstart := hJ.of_accountsFor (accountsFor_arrayStart component elements.length)
      rw [emit] at hok ⊢
      split at hok
      case isTrue hlength =>
          rw [if_pos hlength, Emitted.code_after]
          exact isJudged_emitFill hJ helements hstart hok
      case isFalse => cases hok

/-- **A plan is right about what it emits** if its operations are. -/
theorem accountsFor_emit (hslack : 0 ≤ slack) {plan : Plan}
    (h : ∀ o ∈ plan.operations, o.effect.AccountsFor slack [o.instruction]) :
    plan.IsRight slack :=
  isJudged_emit (Effect.composes_accountsFor hslack) h

/-! ### Every collector -/

/-- **What applying a plan reports is right about the code that it emits.** Whatever the scope and
whatever collector the code goes to, the same instructions are appended, the reported change of the
height is theirs, and the reported peak is theirs too, or one more where a value is boxed. -/
theorem effect_accounts_for_code {σ : Type} [CodeCollector σ] {plan : Plan}
    (hplan : ∀ o ∈ plan.operations, o.IsProper) {e e' : Emission σ} {effect : Effect}
    (h : plan.apply e = (.ok effect, e')) :
    ∃ code : List SymbolicInstruction,
      e'.code = code.foldl CodeCollector.append e.code ∧
      (∀ {τ : Type} [CodeCollector τ] (start : τ), plan.apply ⟨start, e.scope⟩ =
        (.ok effect, ⟨code.foldl CodeCollector.append start, e'.scope⟩)) ∧
      effect.impact = netHeight code ∧
      peakHeight code ≤ effect.peak ∧ effect.peak ≤ peakHeight code + 1 ∧
      ((∀ o ∈ plan.operations, o.isBoxing = false) → effect.peak = peakHeight code) := by
  rw [apply_eq_emit, Emitted.onto, Prod.mk.injEq] at h
  obtain ⟨hok, rfl⟩ := h
  -- the same induction, once with a slack for boxing and once without
  have hone := accountsFor_emit (Int.le_of_lt Int.zero_lt_one)
    (fun o ho => o.accountsFor_one (hplan o ho)) e.scope effect hok
  refine ⟨(plan.emit e.scope).code, rfl, fun start => ?_, hone.impact_eq, hone.le_peak,
    hone.peak_le, fun hbox => ?_⟩
  · rw [apply_eq_emit, Emitted.onto, hok]
  · have hzero := accountsFor_emit (Int.le_refl 0)
      (fun o ho => o.accountsFor (hplan o ho) (hbox o ho)) e.scope effect hok
    have hle := hzero.le_peak
    have hge := hzero.peak_le
    omega

/-- A value of two slots that is boxed. -/
def boxedDouble : Plan := .sequence [.op (.double 0x4000000000000000), .op (.box .double)]

/-- The code of a boxed value gets two slots high, and three are reported. -/
theorem effect_accounts_for_boxedDouble :
    ∃ (e' : Emission (Array SymbolicInstruction)) (code : List SymbolicInstruction),
      boxedDouble.apply ⟨#[], ⟨.empty, .new Java.object ConstantCache.defaultNamePart⟩⟩ =
        (.ok ⟨1, 3⟩, e') ∧
      e'.code = code.foldl CodeCollector.append #[] ∧ 1 = netHeight code ∧
      peakHeight code ≤ 3 ∧ 3 ≤ peakHeight code + 1 := by
  have hproper : ∀ o ∈ boxedDouble.operations, o.IsProper := by
    intro o ho
    rcases List.mem_cons.1 ho with rfl | ho
    · exact trivial
    · cases List.mem_singleton.1 ho
      exact trivial
  obtain ⟨code, hcode, -, himpact, hlow, hhigh, -⟩ := effect_accounts_for_code hproper
    (e := ⟨(#[] : Array SymbolicInstruction),
      ⟨.empty, .new Java.object ConstantCache.defaultNamePart⟩⟩) rfl
  exact ⟨_, code, rfl, hcode, himpact, hlow, hhigh⟩

end Plan

end JvmCodegen.Stack
