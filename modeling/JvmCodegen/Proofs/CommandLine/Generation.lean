/-
**Every value of the command line can be compiled.**

For each value the program adds a method that pushes it and returns it, or that returns the field of a
cached constant.  What is read is a constant of its type, and so these bodies can be applied, leave the
stack as they find it, and register only constants whose initializers do so as well.  Neither a method nor
the type initializer is ever refused because of what is on the stack.

Main definitions:

* `Error.BlamesBody` — a failure that says that a body is impossible or unbalanced;
* `Stack.Plan.IsNeutral`, `Stack.Plan.ReturnsConstant` — plans that leave the stack as it was, and bodies
  that return a constant of a type in every context;
* `Stack.ConstantCache.IsTyped` — all cached constants are constants of the types of their fields;
* `Stack.Plan.IsHarmless` — a body that leaves the stack as it was, and registers constants only;
* `ClassDraft.Call.IsForValue` — the calls that the program makes for its values.

Main results:

* `CommandLine.returnsConstant_constantBody` — **the body for a value** returns a constant of its type;
* `ClassDraft.implement_constantBody` — a method of the class can be given the body;
* `ClassDraft.initializeFrom_of_isTyped` — the loop over the initializers of constants changes
  nothing, by induction on the number of steps that are left;
* `ClassDraft.Session.HandlesValues.run`, `ClassDraft.Session.HandlesValues.finish` — whole sessions;
* `CommandLine.accepted_values_compile` — **every value that is accepted can be compiled**, cached or not.
-/

import JvmCodegen.Proofs.ClassDraft.Balance
import JvmCodegen.Proofs.ClassDraft.TypeInitializer
import JvmCodegen.Proofs.CommandLine.Values

set_option relaxedAutoImplicit false
set_option autoImplicit false

namespace JvmCodegen

open Stack Stack.ConstantCache CommandLine

/-- The failure blames a body: it is impossible, or it does not leave the stack as it found it. -/
def Error.BlamesBody : Error → Prop
  | .impossiblePlan | .unbalanced _ _ | .body _ .invalid => True
  | _ => False

theorem CommandLine.IsTextFault.not_blamesBody {reason : Error} (h : IsTextFault reason) :
    ¬reason.BlamesBody := by
  cases reason <;> first | exact id | cases h

/-! ### Bodies in every context -/

namespace Stack

/-- The plan can be applied everywhere. It leaves the stack as it was, and registers nothing. -/
def Plan.IsNeutral (plan : Plan) : Prop :=
  ∀ s : Scope, ∃ effect code, effect.impact = 0 ∧ plan.emit s = ⟨.ok effect, code, s⟩

theorem Registration.IsConstant.isNeutral {r : Registration} (h : r.IsConstant) :
    (initializer r).IsNeutral := by
  intro s
  obtain ⟨code, hemit⟩ := h.emit_initializer s
  exact ⟨_, code, rfl, hemit⟩

/-- **The body returns a constant of a type.** It is possible, and in every context it is applied to one
instruction that pushes a value of the type and one that returns it. The initializers of the constants that
this registers can be applied everywhere, and leave the stack as it was. -/
structure Plan.ReturnsConstant (body : Plan) (type : ValueType) : Prop where
  possible : body.isPossible = true
  applies : ∀ {owner : Class} {namePart : UnqualifiedName} {plans : List Plan} {c : ConstantCache},
    Reached owner namePart plans c →
    ∀ {σ : Type} [CodeCollector σ] (start : σ) (graph : ClassGraph),
    ∃ (push ret : SymbolicInstruction) (s : Scope),
      body.apply ⟨start, ⟨graph, c⟩⟩ =
        (.ok ⟨0, type.slots⟩, ⟨CodeCollector.append (CodeCollector.append start push) ret, s⟩) ∧
      ret = .bare (returnOp (some (ValueKind.ofType type))) ∧
      (∀ g frame stack, TypedMachine.run g frame [push] stack = some (StackType.ofType type :: stack)) ∧
      (∀ g frame stack, TypedMachine.run g frame [push, ret] stack = some stack) ∧
      ∀ n initializer, c.size ≤ n → s.constants.initializer? n = some initializer →
        initializer.IsNeutral

/-- A value that was pushed is returned by the instruction for its kind. -/
theorem TypedMachine.step_return (g : ClassGraph) (frame : TypedMachine.Frame) (type : ValueType)
    (stack : List StackType) :
    TypedMachine.step g frame (.bare (returnOp (some (ValueKind.ofType type))))
      (StackType.ofType type :: stack) = some stack := by
  rcases type with p | r
  · cases p <;> rfl
  · rfl

end Stack

/-- The initializer of a new constant is one of a constant of the type of its field. -/
theorem ConstantMethod.Pushes.isNeutral_initializer {m : ConstantMethod} {s s' : Scope}
    {push : SymbolicInstruction} (h : m.Pushes s push s') (hm : m.IsTyped) {n : Nat} {initializer : Plan}
    (hn : s.constants.size ≤ n) (hnext : s'.constants.initializer? n = some initializer) :
    initializer.IsNeutral := by
  obtain ⟨r, hr, rfl⟩ := Option.map_eq_some_iff.1 hnext
  have hnone : s.constants.registrations[n]? = none := Array.getElem?_eq_none hn
  cases h with
  | computed | known =>
      rw [hnone] at hr
      cases hr
  | registered hfind =>
      have hpush : (s.constants.push s.graph.fieldCount m.value m.type).registrations[n]? = some r := hr
      rw [ConstantCache.push, Array.getElem?_push] at hpush
      split at hpush
      · cases hpush
        exact Registration.IsConstant.isNeutral ⟨hm, isStatic_nextField s.constants _ m.type⟩
      · rw [hnone] at hpush
        cases hpush

/-- **The body for a value returns a constant of its type.** -/
theorem CommandLine.returnsConstant_constantBody {m : ConstantMethod} (hm : m.IsTyped) (cache : Bool) :
    (constantBody m cache).ReturnsConstant m.type := by
  constructor
  case possible =>
    obtain ⟨o, hvalue, -⟩ := hm
    rw [constantBody, hvalue]
    cases cache <;> rfl
  case applies =>
    intro owner namePart plans c hreached σ _ start graph
    obtain ⟨push, s, hpush, hemit⟩ := emit_constantBody hm cache ⟨graph, c⟩
    have hnumbered : c.Numbered := hreached.grows.numbered (numbered_new owner namePart)
    have hstep := hpush.step hm hnumbered
    refine ⟨push, _, s, ?_, rfl, fun g frame stack => ?_, fun g frame stack => ?_, ?_⟩
    · rw [Plan.apply_eq_emit, hemit]
      rfl
    · rw [TypedMachine.run_singleton, hstep g frame stack]
    · rw [TypedMachine.run, hstep g frame stack, Option.bind_some, TypedMachine.run_singleton,
        TypedMachine.step_return]
    · exact fun n initializer hn hnext => hpush.isNeutral_initializer hm hn hnext

/-! ### Drafts -/

namespace Stack.ConstantCache

/-- All cached constants are constants of the types of their fields. -/
def IsTyped (c : ConstantCache) : Prop := ∀ r ∈ c.registrations, r.IsConstant

end Stack.ConstantCache

/-- **The body makes no trouble.** It is possible, it leaves the stack as it was wherever it is applied, and
all that it registers are constants. -/
structure Stack.Plan.IsHarmless (body : Plan) : Prop where
  possible : body.isPossible = true
  emits : ∀ s : Scope, ∃ effect code s', effect.impact = 0 ∧ body.emit s = ⟨.ok effect, code, s'⟩ ∧
    (s.constants.IsTyped → s'.constants.IsTyped)

/-- A plain return makes no trouble. -/
theorem Stack.Plan.isHarmless_return : (Plan.op (.ret none)).IsHarmless :=
  ⟨rfl, fun s => ⟨_, _, s, rfl, rfl, id⟩⟩

/-- The body for a constant makes no trouble. -/
theorem CommandLine.isHarmless_constantBody {m : ConstantMethod} (hm : m.IsTyped) (cache : Bool) :
    (constantBody m cache).IsHarmless := by
  refine ⟨(returnsConstant_constantBody hm cache).possible, fun s => ?_⟩
  obtain ⟨push, s', hpush, hemit⟩ := emit_constantBody hm cache s
  exact ⟨_, _, s', rfl, hemit, fun hs r hr => (hpush.isConstant hm hr).elim (hs r) id⟩

/-- The body returns a value that the command line accepts, in some class graph. -/
def Stack.Plan.IsForValue (body : Plan) : Prop :=
  ∃ graph graph' text m cache, readValue graph text = (.ok m, graph') ∧ body = constantBody m cache

theorem Stack.Plan.IsForValue.isHarmless {body : Plan} (h : body.IsForValue) : body.IsHarmless := by
  obtain ⟨graph, graph', text, m, cache, hread, rfl⟩ := h
  exact isHarmless_constantBody (isTyped_of_readValue hread) cache

/-- No value takes more than two slots. -/
theorem FieldType.slots_le_two (type : ValueType) : type.slots ≤ 2 := by
  rcases type with p | r
  · cases p <;> decide
  · exact Nat.le_succ 1

namespace ClassDraft

/-- Code that leaves the stack as it was is not blamed. -/
theorem not_blamesBody_of_compiled {settings : Settings} {code : BodyDraft} {effect : Effect}
    {reason : Error} (heffect : effect.impact = 0)
    (h : compiled settings code effect = .error reason) : ¬reason.BlamesBody := by
  unfold compiled at h
  rw [if_neg (not_not_intro heffect)] at h
  split at h
  · cases h
    exact id
  · split at h
    · cases h
      exact id
    · cases h

/-- **A body that makes no trouble is not blamed** when a method is given it, whatever else is wrong. -/
theorem not_blamesBody_of_implement {draft : ClassDraft} {graph : ClassGraph} {method : Method}
    {body : Plan} (hbody : body.IsHarmless) {reason : Error}
    (h : (draft.implement graph method body).1 = .error reason) : ¬reason.BlamesBody := by
  obtain ⟨effect, code, s, heffect, hemit, -⟩ := hbody.emits ⟨graph, draft.constants⟩
  rcases hcall : draft.implement graph method body with ⟨outcome, draft', graph'⟩
  rw [hcall] at h
  cases h
  rcases implement_eq_error hemit hcall with ⟨fault, hfault, rfl, -⟩ | ⟨-, -, -, hlate⟩
  · unfold fault? at hfault
    rw [hbody.possible] at hfault
    split at hfault
    · cases hfault
      exact id
    split at hfault
    · cases hfault
      exact id
    · cases hfault
  · rcases hlate with hfail | ⟨effect', hok, hcompiled⟩
    · cases hfail
    · cases hok
      exact not_blamesBody_of_compiled heffect hcompiled

/-- Code of two modest instructions that leaves the stack as it was is compiled, if there is room for it on
the stack and for the arguments of its method in the frame. -/
theorem compiled_of_isModest {settings : Settings} {method : Method} {first last : SymbolicInstruction}
    (hfirst : first.IsModest) (hlast : last.IsModest) (hslots : method.argumentSlots ≤ 65535)
    {effect : Effect} (hzero : effect.impact = 0) (hpeak : effect.peak.toNat ≤ 65535)
    {reason : Error} :
    compiled settings (((BodyDraft.new method).append first).append last) effect ≠ .error reason := by
  intro h
  have hlocals : (((BodyDraft.new method).append first).append last).maxLocals =
      method.argumentSlots := by
    simp only [BodyDraft.append, BodyDraft.localsWith, hfirst.noLocal, hlast.noLocal]
    rfl
  have hcode : (((BodyDraft.new method).append first).append last).instructions = #[first, last] := rfl
  have hhandles : (#[first, last] : Array SymbolicInstruction).any loadsMethodHandle = false := by
    simp [hfirst.noHandle, hlast.noHandle]
  unfold compiled BodyDraft.finish at h
  rw [hcode, hhandles, hlocals, if_neg (not_not_intro hzero), if_neg (by simp),
    if_neg (by omega), if_neg (by omega)] at h
  cases h

/-- **The body for a constant is compiled** for every method of the class that has no body yet. -/
theorem implement_constantBody {m : ConstantMethod} (hm : m.IsTyped) (cache : Bool) {draft : ClassDraft}
    {graph : ClassGraph} {method : Method} (howner : method.owner = draft.declared)
    (hnew : draft.isImplemented method = false) (hslots : method.argumentSlots ≤ 65535) :
    (draft.implement graph method (constantBody m cache)).1 = .ok () := by
  obtain ⟨push, s, hpush, hemit⟩ := emit_constantBody hm cache ⟨graph, draft.constants⟩
  rcases hcall : draft.implement graph method (constantBody m cache) with ⟨reason | ⟨⟩, draft', graph'⟩
  · rcases implement_eq_error hemit hcall with ⟨fault, hfault, -, -⟩ | ⟨-, -, -, hlate⟩
    · have hnone : draft.fault? method (constantBody m cache) = none :=
        fault?_eq_none_iff.2 ⟨howner, hnew, (returnsConstant_constantBody hm cache).possible⟩
      rw [hnone] at hfault
      cases hfault
    · rcases hlate with hfail | ⟨effect, hok, hcompiled⟩
      · cases hfail
      · cases hok
        have hpeak : (m.type.slots : Int).toNat ≤ 65535 :=
          Nat.le_trans (FieldType.slots_le_two m.type) (by decide)
        exact absurd hcompiled
          (compiled_of_isModest (hpush.isModest hm) ⟨rfl, rfl⟩ hslots rfl hpeak)
  · rfl

/-- **The loop over the initializers of constants** comes to an end without a change of the stack, and
registers nothing. -/
theorem initializeFrom_of_isTyped {e : Emission BodyDraft}
    (h : e.scope.constants.IsTyped) (fuel n : Nat) (soFar : Effect) :
    ∃ total code, initializeFrom fuel n soFar e = (.ok total, ⟨code, e.scope⟩) ∧
      total.impact = soFar.impact := by
  induction fuel generalizing n soFar e with
  | zero => exact ⟨soFar, e.code, rfl, rfl⟩
  | succ fuel ih =>
      rw [initializeFrom]
      cases hnext : e.scope.constants.initializer? n with
      | none => exact ⟨soFar, e.code, rfl, rfl⟩
      | some initializer =>
          obtain ⟨r, hr, rfl⟩ := Option.map_eq_some_iff.1 hnext
          obtain ⟨effect, code, heffect, hemit⟩ := (h r (Array.mem_of_getElem? hr)).isNeutral e.scope
          simp only [Plan.apply_eq_emit, hemit, Emitted.onto]
          obtain ⟨total, code', hrest, htotal⟩ := ih
            (e := ⟨code.foldl CodeCollector.append e.code, e.scope⟩) h (n + 1) (soFar.andThen effect)
          refine ⟨total, code', hrest, ?_⟩
          rw [htotal, Effect.impact_andThen, heffect, Int.add_zero]

/-- **A type initializer for constants is not blamed.** -/
theorem not_blamesBody_of_compileInitializer {draft : ClassDraft} {graph : ClassGraph} {method : Method}
    {body : Plan} (hbody : body.IsHarmless) (hconstants : draft.constants.IsTyped)
    {reason : Error} (h : (draft.compileInitializer graph method body).1 = .error reason) :
    ¬reason.BlamesBody := by
  obtain ⟨effect, code, s, heffect, hemit, hs⟩ := hbody.emits ⟨graph, draft.constants⟩
  obtain ⟨total, code', hloop, htotal⟩ := initializeFrom_of_isTyped
    (e := ⟨BodyDraft.new method, s⟩) (hs hconstants) s.constants.size 0 Effect.zero
  have hzero : (total.andThen effect).impact = 0 := by
    rw [Effect.impact_andThen, htotal, heffect]
    rfl
  simp only [compileInitializer, Plan.apply_eq_emit, hemit, Emitted.onto, hloop] at h
  split at h
  · rename_i reason' draft' hadd
    cases h
    exact not_blamesBody_of_compiled hzero (addCompiled_eq_error_iff.1 (congrArg Prod.fst hadd))
  · cases h

/-! ### Sessions -/

/-- The program makes the call for a value: a body that is handed in is one for a value. -/
def Call.IsForValue : Call → Prop
  | .implement _ body => body.IsForValue
  | .declare _ _ _ | .elsewhere _ => True

namespace Session

variable {s : Session} {declared : Class} {settings : Settings}

/-- What is true at all times, if all calls are made for values. -/
structure HandlesValues (s : Session) : Prop where
  bodies : ∀ body ∈ s.bodies, body.IsForValue
  constants : s.draft.constants.IsTyped

/-- **Every call for a value** keeps it true. -/
theorem HandlesValues.step (h : s.HandlesValues) {call : Call} (hcall : call.IsForValue) :
    (s.step call).HandlesValues := by
  obtain ⟨hbodies, hconstants⟩ := h
  cases call with
  | declare | elsewhere => exact ⟨hbodies, hconstants⟩
  | implement method body =>
      have hbody : body.IsForValue := hcall
      -- if the body is applied at all, it registers what a value registers
      obtain ⟨effect, code, s', -, hemit, hholds⟩ :=
        hbody.isHarmless.emits ⟨s.graph, s.draft.constants⟩
      have hall : ∀ b ∈ body :: s.bodies, b.IsForValue := List.forall_mem_cons.2 ⟨hbody, hbodies⟩
      rcases implement_cases s.draft s.graph method body with
        ⟨reason, heq⟩ | ⟨-, heq⟩ | ⟨r, hr, ⟨reason, heq⟩ | ⟨-, effect', compiled, -, -, heq⟩⟩
      · rw [Session.step, heq]
        exact ⟨hall, hconstants⟩
      · rw [Session.step, heq]
        exact ⟨hall, hconstants⟩
      · rw [hemit] at hr
        subst hr
        rw [Session.step, heq]
        exact ⟨hall, hholds hconstants⟩
      · rw [hemit] at hr
        subst hr
        rw [Session.step, heq]
        exact ⟨hall, hholds hconstants⟩

/-- **It stays true over a whole session.** -/
theorem HandlesValues.run (h : s.HandlesValues) {calls : List Call}
    (hcalls : ∀ call ∈ calls, call.IsForValue) : (s.run calls).HandlesValues := by
  induction calls generalizing s with
  | nil => exact h
  | cons call calls ih =>
      obtain ⟨hcall, hrest⟩ := List.forall_mem_cons.1 hcalls
      exact ih (h.step hcall) hrest

theorem handlesValues_start {settings : Settings} {graph graph' : ClassGraph} {draft : ClassDraft}
    (hnew : ClassDraft.new settings graph = .ok (draft, graph')) :
    (start draft graph').HandlesValues := by
  have hregistrations : draft.constants.registrations = #[] := by
    unfold ClassDraft.new at hnew
    split at hnew <;> cases hnew
    rfl
  refine ⟨fun body hbody => absurd hbody List.not_mem_nil, fun r hr => ?_⟩
  have hmem : r ∈ draft.constants.registrations := hr
  rw [hregistrations] at hmem
  exact absurd hmem (Array.not_mem_empty r)

/-- The type initializer to write is not blamed, whether its body was handed in or is a plain return. -/
theorem HandlesValues.withInitializer (h : s.HandlesValues) (hinv : s.Invariant declared settings)
    {reason : Error} (hfail : (s.draft.withInitializer s.graph).1 = .error reason) :
    ¬reason.BlamesBody := by
  rw [ClassDraft.withInitializer, initializerToWrite] at hfail
  cases hpending : s.draft.pending with
  | some given =>
      rw [hpending] at hfail
      have hsupplied : s.supplied = some given := hinv.pending_eq ▸ hpending
      have hbody := h.bodies given.2 (hinv.accepted given (List.mem_of_find?_eq_some hsupplied))
      exact not_blamesBody_of_compileInitializer hbody.isHarmless h.constants hfail
  | none =>
      rw [hpending] at hfail
      dsimp only at hfail
      split at hfail
      · cases hfail
      · rename_i hsome
        split at hsome
        · cases hsome
        · cases hsome
          exact not_blamesBody_of_compileInitializer Plan.isHarmless_return h.constants hfail

/-- **Finishing a class of values blames no body.** -/
theorem HandlesValues.finish (h : s.HandlesValues) (hinv : s.Invariant declared settings)
    {reason : Error} (hfinish : (s.draft.finish s.graph).1 = .error reason) :
    ¬reason.BlamesBody := by
  rw [ClassDraft.finish] at hfinish
  split at hfinish
  · rename_i reason' graph' hmade
    cases hfinish
    exact h.withInitializer hinv (congrArg Prod.fst hmade)
  · split at hfinish
    · cases hfinish
      exact id
    · cases hfinish

end Session

end ClassDraft

/-! ### The program -/

namespace CommandLine

open ClassDraft ClassDraft.Session

/-- A request for a class that cannot be is refused for one of its texts. -/
theorem isTextFault_of_settings {r : Request} {reason : Error} (h : settings r = .error reason) :
    IsTextFault reason := by
  unfold settings at h
  cases hnew : Settings.new r.outputClass with
  | error reason' =>
      rw [hnew] at h
      cases h
      unfold Settings.new at hnew
      split at hnew <;> cases hnew
      exact trivial
  | ok first =>
      rw [hnew] at h
      cases hrelease : first.withRelease r.release with
      | error reason' =>
          simp only [hrelease, bind, Except.bind] at h
          cases h
          unfold Settings.withRelease at hrelease
          split at hrelease <;> cases hrelease
          exact trivial
      | ok second =>
          simp only [hrelease, bind, Except.bind] at h
          split at h
          · cases h
          · unfold Settings.withCachedNamePart at h
            split at h <;> cases h
            exact trivial

/-- **One value** is refused without blame for a body, or it comes to calls for a value, and the other
values follow. -/
theorem addConstants_cons_cases (cache : Bool) (text : String) (texts : List String) (s : Session) :
    (∃ reason, addConstants cache s.draft s.graph (text :: texts) = .error reason ∧
      ¬reason.BlamesBody) ∨
    ∃ calls, (∀ call ∈ calls, call.IsForValue) ∧
      addConstants cache s.draft s.graph (text :: texts) =
        addConstants cache (s.run calls).draft (s.run calls).graph texts := by
  rcases hread : readValue s.graph text with ⟨reason | m, graph⟩
  · refine .inl ⟨reason, ?_, (of_readValue_eq_error hread).1.not_blamesBody⟩
    simp only [addConstants, hread]
  · have hbody : (constantBody m cache).IsForValue := ⟨_, _, _, m, cache, hread, rfl⟩
    let declared := s.draft.declare graph m.name ⟨[], some m.type⟩ constantMethodFlags
    rcases hcall : s.draft.implement declared.2 declared.1 (constantBody m cache) with
      ⟨reason | ⟨⟩, draft, graph'⟩
    · refine .inl ⟨reason, by simp only [addConstants, hread, declared, hcall], ?_⟩
      exact not_blamesBody_of_implement hbody.isHarmless (congrArg Prod.fst hcall)
    · refine .inr ⟨[.elsewhere graph, .declare m.name ⟨[], some m.type⟩ constantMethodFlags,
        .implement declared.1 (constantBody m cache)], ?_, ?_⟩
      · simp [Call.IsForValue, hbody]
      · simp [addConstants, hread, declared, hcall, Session.run, Session.step]

/-- **Adding the methods for values** is a session of calls for values, or it ends with a value that is
refused, without blame for a body. -/
theorem addConstants_cases (cache : Bool) (texts : List String) (s : Session) :
    (∃ reason, addConstants cache s.draft s.graph texts = .error reason ∧ ¬reason.BlamesBody) ∨
      ∃ calls, (∀ call ∈ calls, call.IsForValue) ∧
        addConstants cache s.draft s.graph texts = .ok ((s.run calls).draft, (s.run calls).graph) := by
  induction texts generalizing s with
  | nil => exact .inr ⟨[], nofun, rfl⟩
  | cons text texts ih =>
      rcases addConstants_cons_cases cache text texts s with hrefused | ⟨calls, hcalls, hfirst⟩
      · exact .inl hrefused
      · rw [hfirst]
        rcases ih (s.run calls) with hrefused | ⟨more, hmore, hrest⟩
        · exact .inl hrefused
        · refine .inr ⟨calls ++ more, List.forall_mem_append.2 ⟨hcalls, hmore⟩, ?_⟩
          rw [hrest, Session.run, Session.run, Session.run, List.foldl_append]

/-- **The program blames no body**, whatever it is asked for. -/
theorem not_blamesBody_of_generate {r : Request} {reason : Error} (h : generate r = .error reason) :
    ¬reason.BlamesBody := by
  unfold generate at h
  -- the settings, the class, the values one by one and the class file can be refused, in this order
  cases hsettings : settings r with
  | error reason' =>
      simp only [hsettings, bind, Except.bind] at h
      cases h
      exact (isTextFault_of_settings hsettings).not_blamesBody
  | ok chosen =>
      cases hnew : ClassDraft.new chosen ClassGraph.withJavaLibrary with
      | error reason' =>
          simp only [hsettings, hnew, bind, Except.bind] at h
          cases h
          unfold ClassDraft.new at hnew
          split at hnew <;> cases hnew
          exact id
      | ok new =>
          obtain ⟨draft, graph⟩ := new
          have hstart := handlesValues_start hnew
          simp only [hsettings, hnew, bind, Except.bind] at h
          rcases addConstants_cases r.cache r.values (start draft graph) with
            ⟨reason', hrefused, hblames⟩ | ⟨calls, hcalls, hadded⟩
          · rw [start] at hrefused
            rw [hrefused] at h
            cases h
            exact hblames
          · simp only [start] at hadded
            rw [hadded] at h
            exact (hstart.run hcalls).finish ((invariant_start hnew).run calls) h

/-- **Every value that is accepted can be compiled**, cached or not. Its body returns a constant of its type
in every context. Every method of the class that has no body yet can be given it, and when a method is
refused, the body is not blamed. A text that is refused leaves the class graph alone. No class whose bodies
are all for values blames one of them when it is finished, and neither does the program. -/
theorem accepted_values_compile :
    (∀ graph graph' text m, readValue graph text = (.ok m, graph') → ∀ cache,
      (constantBody m cache).ReturnsConstant m.type ∧
      ∀ draft graph method,
        (method.owner = draft.declared → draft.isImplemented method = false →
          method.argumentSlots ≤ 65535 →
          (ClassDraft.implement draft graph method (constantBody m cache)).1 = .ok ()) ∧
        ∀ reason, (ClassDraft.implement draft graph method (constantBody m cache)).1 = .error reason →
          ¬reason.BlamesBody) ∧
    (∀ graph graph' text reason, readValue graph text = (.error reason, graph') → graph' = graph) ∧
    (∀ settings graph₀ graph₁ draft calls s, ClassDraft.new settings graph₀ = .ok (draft, graph₁) →
      (∀ call ∈ calls, Call.IsForValue call) → (start draft graph₁).run calls = s →
      ∀ reason, (s.draft.finish s.graph).1 = .error reason → ¬reason.BlamesBody) ∧
    (∀ r reason, generate r = .error reason → ¬reason.BlamesBody) := by
  refine ⟨fun graph graph' text m hread cache => ?body, fun graph graph' text reason hread => ?refused,
    fun settings graph₀ graph₁ draft calls s hnew hcalls hrun reason hfinish => ?session,
    fun r reason hgenerate => not_blamesBody_of_generate hgenerate⟩
  case body =>
    have hm := isTyped_of_readValue hread
    refine ⟨returnsConstant_constantBody hm cache, fun draft graph method => ⟨?_, ?_⟩⟩
    · intro howner hnew hslots
      exact implement_constantBody hm cache howner hnew hslots
    · intro reason hfail
      exact not_blamesBody_of_implement (isHarmless_constantBody hm cache) hfail
  case refused => exact (of_readValue_eq_error hread).2
  case session =>
    subst hrun
    exact ((handlesValues_start hnew).run hcalls).finish ((invariant_start hnew).run calls) hfinish

/-- A method of the name `a` that returns seven. -/
def sevenA : ConstantMethod := ⟨⟨"a"⟩, .primitive .int, .op (.int 7)⟩

/-- The method as the draft of the class declares it. -/
def seven : Method := ⟨0, classA, sevenA.name, ⟨[], some sevenA.type⟩, constantMethodFlags⟩

/-- A method like it of another class. -/
def foreignSeven : Method := { seven with owner := Java.object }

/-- The method is declared, and given the body for a cached value. -/
def sevenSession : Session :=
  (start draftA graphA).run [.declare sevenA.name ⟨[], some sevenA.type⟩ constantMethodFlags,
    .implement seven (constantBody sevenA true)]

/-- A cached `int` is read and compiled. Its body is refused for a method of another class, a number that
does not fit is refused when it is read, and both without blame for a body. -/
theorem accepted_values_compile_cachedSeven :
    readValue graphA "a:int:7" = (.ok sevenA, graphA) ∧
      (constantBody sevenA true).ReturnsConstant (.primitive .int) ∧
      (ClassDraft.implement draftA graphA seven (constantBody sevenA true)).1 = .ok () ∧
      (ClassDraft.implement draftA graphA foreignSeven (constantBody sevenA true)).1 =
        .error (.body foreignSeven (.foreign classA)) ∧
      ¬(Error.body foreignSeven (.foreign classA)).BlamesBody ∧
      (readValue graphA "a:byte:300").2 = graphA ∧
      (∀ reason, (sevenSession.draft.finish sevenSession.graph).1 = .error reason → ¬reason.BlamesBody) ∧
      ¬(Error.outOfRange 300 .byte).BlamesBody := by
  have hread : readValue graphA "a:int:7" = (.ok sevenA, graphA) := rfl
  have hforeign : (ClassDraft.implement draftA graphA foreignSeven (constantBody sevenA true)).1 =
      .error (.body foreignSeven (.foreign classA)) := rfl
  have hrefused : readValue graphA "a:byte:300" = (.error (.outOfRange 300 .byte), graphA) := rfl
  have hnew : ClassDraft.new settingsA .empty = .ok (draftA, graphA) := rfl
  have hgenerate : generate ⟨"A", ["a:byte:300"], true, none, 8, "."⟩ =
      .error (.outOfRange 300 .byte) := rfl
  obtain ⟨hbody, hgraph, hsession, hprogram⟩ := accepted_values_compile
  obtain ⟨hreturns, himplement⟩ := hbody graphA graphA "a:int:7" sevenA hread true
  have hvalue : (constantBody sevenA true).IsForValue := ⟨_, _, _, sevenA, true, hread, rfl⟩
  have hcalls : ∀ call ∈ [Call.declare sevenA.name ⟨[], some sevenA.type⟩ constantMethodFlags,
      .implement seven (constantBody sevenA true)], call.IsForValue :=
    List.forall_mem_cons.2 ⟨trivial, List.forall_mem_singleton.2 hvalue⟩
  have hnone : draftA.isImplemented seven = false := by cbv
  have hgiven := (himplement draftA graphA seven).1 rfl hnone (Nat.zero_le _)
  refine ⟨hread, hreturns, hgiven, hforeign, (himplement _ _ _).2 _ hforeign, ?_, ?_,
    hprogram _ _ hgenerate⟩
  · exact congrArg Prod.snd hrefused
  · exact hsession settingsA .empty graphA draftA _ sevenSession hnew hcalls rfl

end CommandLine

end JvmCodegen
