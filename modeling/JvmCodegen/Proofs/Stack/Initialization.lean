/-
**Initializing cached constants.**

The type initializer computes each cached constant into its field.  A constant is registered after
those that its value reads, and the fields are filled in the order of registration, so no field is
read before it is filled.  Computing the constants registers no others.

Main definitions:

* `Stack.StoresBeforeLoads`, `Stack.InitializesInOrder` — code that fills static fields in order,
  and reads none before it is filled;
* `Stack.Plan.LeavesAlone` — a plan that reads and writes none of some fields on its own account;
* `Stack.InitializersRun` — applying one initializer after the other until there is no more;
* `Stack.ConstantCache.Reached` — the caches that asking for constants and applying plans lead to.

Main results:

* `Stack.ConstantCache.storesBeforeLoads_of_grows` — the order of registration is a good one, by
  induction on the growth of the cache;
* `Stack.ConstantCache.Reached.grows` — what is registered comes out of the plans handed in;
* `Stack.ConstantCache.Reached.initializes` — **every cache that can be reached is initialized in
  order**, at once or step by step;
* `Stack.ConstantCache.reached_not_initialized` — what goes wrong without the demands on the plans.
-/

import JvmCodegen.Proofs.Stack.CacheFields
import JvmCodegen.Proofs.Stack.Counting
import JvmCodegen.Proofs.Stack.NumberInstructions

set_option relaxedAutoImplicit false
set_option autoImplicit false

namespace JvmCodegen.Stack

/-! ### Code that fills fields in order -/

/-- Load from a static field. -/
abbrev loadStatic (f : Field) : SymbolicInstruction := .access .getStatic f

/-- Store into a static field. -/
abbrev storeStatic (f : Field) : SymbolicInstruction := .access .putStatic f

/-- The field that an instruction stores into, if it is a static one. -/
def storedField? : SymbolicInstruction → Option Field
  | .access .putStatic f => some f
  | _ => none

theorem eq_storeStatic_of_storedField? {i : SymbolicInstruction} {f : Field}
    (h : storedField? i = some f) : i = storeStatic f := by
  unfold storedField? at h
  split at h
  · rw [Option.some.inj h]
  · cases h

/-- Of the fields in `all`, the code stores into those in `done`, once each and in that order, and it
loads from none that it has not stored into before. -/
structure StoresBeforeLoads (all done : List Field) (code : List SymbolicInstruction) : Prop where
  stores : (code.filterMap storedField?).filter (fun f => decide (f ∈ all)) = done
  loads : ∀ (i : Nat) f, f ∈ all → code[i]? = some (loadStatic f) →
    ∃ j < i, code[j]? = some (storeStatic f)

/-- The code fills each field of the list once, in order, and reads none before it is filled. -/
structure InitializesInOrder (fields : List Field) (code : List SymbolicInstruction) : Prop where
  nodup : fields.Nodup
  storesBeforeLoads : StoresBeforeLoads fields fields code

namespace StoresBeforeLoads

variable {all done : List Field} {code value : List SymbolicInstruction} {f : Field}

theorem nil : StoresBeforeLoads all [] [] := ⟨rfl, fun _ _ _ h => by cases h⟩

/-- What counts as done has been stored. -/
theorem exists_store (h : StoresBeforeLoads all done code) (hf : f ∈ done) :
    ∃ j < code.length, code[j]? = some (storeStatic f) := by
  have hmem : f ∈ code.filterMap storedField? := (List.mem_filter.1 (h.stores.symm ▸ hf)).1
  obtain ⟨i, hi, hstored⟩ := List.mem_filterMap.1 hmem
  obtain ⟨j, hj⟩ := List.mem_iff_getElem?.1 (eq_storeStatic_of_storedField? hstored ▸ hi)
  exact ⟨j, (List.getElem?_eq_some_iff.1 hj).1, hj⟩

/-- Code that loads only from what has been stored into may follow. -/
theorem exists_store_before (h : StoresBeforeLoads all done code)
    (hvalue : ∀ f ∈ all, loadStatic f ∈ value → f ∈ done) {i : Nat} (hf : f ∈ all)
    (hi : (code ++ value)[i]? = some (loadStatic f)) :
    ∃ j < i, (code ++ value)[j]? = some (storeStatic f) := by
  rw [List.getElem?_append] at hi
  split at hi
  case isTrue hlt =>
      obtain ⟨j, hj, hstore⟩ := h.loads i f hf hi
      exact ⟨j, hj, by rw [List.getElem?_append_left (Nat.lt_trans hj hlt), hstore]⟩
  case isFalse hge =>
      obtain ⟨j, hj, hstore⟩ := h.exists_store (hvalue f hf (List.mem_of_getElem? hi))
      exact ⟨j, by omega, by rw [List.getElem?_append_left hj, hstore]⟩

/-- More code that stores nothing. -/
theorem append (h : StoresBeforeLoads all done code)
    (hvalue : ∀ op f, .access op f ∈ value → f ∈ all → op = .getStatic ∧ f ∈ done) :
    StoresBeforeLoads all done (code ++ value) := by
  have hnone : (value.filterMap storedField?).filter (fun f => decide (f ∈ all)) = [] := by
    refine List.filter_eq_nil_iff.2 fun f hf hall => ?_
    obtain ⟨i, hi, hstored⟩ := List.mem_filterMap.1 hf
    have hstore := eq_storeStatic_of_storedField? hstored ▸ hi
    exact absurd (hvalue _ f hstore (of_decide_eq_true hall)).1 (by decide)
  refine ⟨?_, fun i f hf hi => h.exists_store_before (fun f hf hload => ?_) hf hi⟩
  · rw [List.filterMap_append, List.filter_append, h.stores, hnone, List.append_nil]
  · exact (hvalue _ f hload hf).2

/-- One more store. -/
theorem store (h : StoresBeforeLoads all done code) (hf : f ∈ all) :
    StoresBeforeLoads all (done ++ [f]) (code ++ [storeStatic f]) := by
  refine ⟨?_, fun i g hg hi => h.exists_store_before (fun g _ hload => ?_) hg hi⟩
  · rw [List.filterMap_append, List.filter_append, h.stores]
    simp [storedField?, hf]
  · cases List.mem_singleton.1 hload

end StoresBeforeLoads

/-! ### Plans that leave fields alone -/

namespace Plan

/-- No operation inside the plan reads or writes one of the fields. -/
def LeavesAlone (fields : List Field) (plan : Plan) : Prop :=
  ∀ access f, .op (.field access f) ∈ plan.subplans → f ∉ fields

end Plan

theorem PushesNumber.ne_access {type : Primitive} {i : SymbolicInstruction} (h : PushesNumber type i)
    {op : FieldOp} {f : Field} : i ≠ .access op f := by
  rintro rfl
  cases h

/-- The field that an operation uses is the one that it is about, or that of a class object. -/
theorem Operation.exists_of_instruction_eq_access {o : Operation} {op : FieldOp} {f : Field}
    (h : o.instruction = .access op f) :
    (∃ access, o = .field access f) ∨ ∃ type, f = classObjectField type := by
  cases o with
  | field access g =>
      cases h
      exact .inl ⟨access, rfl⟩
  | primitiveObject type =>
      cases h
      exact .inr ⟨type, rfl⟩
  | int value => exact absurd h (pushesNumber_intInstruction value).ne_access
  | long value => exact absurd h (pushesNumber_longInstruction value).ne_access
  | float bits => exact absurd h (pushesNumber_floatInstruction bits).ne_access
  | double bits => exact absurd h (pushesNumber_doubleInstruction bits).ne_access
  | _ => cases h

namespace Plan

/-- A plan that leaves the fields of a cache alone uses them only to read its cached constants. -/
theorem loads_of_access_mem_emit {fields : List Field} {plan : Plan} {s : Scope}
    (halone : plan.LeavesAlone fields) (hobjects : ∀ type, classObjectField type ∉ fields)
    {op : FieldOp} {f : Field} (h : .access op f ∈ (plan.emit s).code) (hf : f ∈ fields) :
    op = .getStatic ∧ ∃ n ∈ plan.outerCached,
      (plan.emit s).scope.constants.find? n.value n.type = some f := by
  rcases uses_of_access_mem_emit h with ⟨o, ho, hinstruction⟩ | ⟨hop, ⟨type, rfl⟩ | hconstant⟩
  · rcases Operation.exists_of_instruction_eq_access hinstruction with ⟨access, rfl⟩ | ⟨type, rfl⟩
    · exact absurd hf (halone access f (op_mem_subplans ho))
    · exact absurd hf (hobjects type)
  · exact absurd hf (hobjects type)
  · exact ⟨hop, hconstant⟩

end Plan

namespace ConstantCache

/-! ### The code of initializers -/

/-- The code that computes a constant into its field, where all constants are known. -/
def initializerCode (s : Scope) (r : Registration) : List SymbolicInstruction :=
  (r.value.emit s).code ++ [storeStatic r.field]

/-- **The order of registration is a good one.** Here `c` is the cache at the end, and `d` is the cache
at some time before. -/
theorem storesBeforeLoads_of_grows {p : Plan → Prop} {b c d : ConstantCache} (hb : b.registrations = #[])
    (hgrows : Grows p b d) (hlater : Grows p d c) (hc : c.Numbered)
    (hp : ∀ v, p v → v.LeavesAlone c.fields) (graph : ClassGraph) :
    StoresBeforeLoads c.fields d.fields
      (d.registrations.toList.flatMap (initializerCode ⟨graph, c⟩)) := by
  induction hgrows with
  | refl =>
      have hnone : b.fields = [] := by rw [fields, hb]; rfl
      rw [hnone, hb]
      exact .nil
  | @push d serial value type _ hvalue hpossible hfresh hnested ih =>
      have hlater' : Grows p d c := (Grows.push serial value type (.refl d) hvalue hpossible hfresh
        hnested).trans hlater
      have hbefore := ih hlater'
      have hknown : ∀ n ∈ value.outerCached, n.value.isPossible = true ∧ c.Knows n := fun n hn =>
        ⟨Plan.isPossible_of_mem_outerCached hpossible hn, hlater'.knows (hnested n hn)⟩
      have hloads : ∀ op f, .access op f ∈ (value.emit ⟨graph, c⟩).code → f ∈ c.fields →
          op = .getStatic ∧ f ∈ d.fields := by
        intro op f hmem hf
        obtain ⟨hop, n, hn, hfind⟩ := Plan.loads_of_access_mem_emit (hp value hvalue)
          hc.ne_classObjectField hmem hf
        -- the constant was known before, and has kept its field
        obtain ⟨g, hg⟩ := hnested n hn
        rw [Plan.scope_emit_of_knows hknown, hlater'.find?_eq hg] at hfind
        exact ⟨hop, Option.some.inj hfind ▸ mem_fields_of_find? hg⟩
      have hfield : d.nextField serial type ∈ c.fields :=
        mem_fields_of_find? (hlater.find?_eq (find?_push_self hfresh serial))
      rw [fields_push, push, Array.toList_push, List.flatMap_append, List.flatMap_singleton,
        initializerCode, ← List.append_assoc]
      exact (hbefore.append hloads).store hfield

/-- The constants inside a registered one are registered. -/
theorem knows_of_grows {p : Plan → Prop} {b c : ConstantCache} (hb : b.registrations = #[])
    (hgrows : Grows p b c) {r : Registration} (hr : r ∈ c.registrations) :
    p r.value ∧ r.value.isPossible = true ∧ ∀ n ∈ r.value.outerCached, c.Knows n := by
  induction hgrows with
  | refl =>
      rw [hb] at hr
      exact absurd hr (Array.not_mem_empty r)
  | @push d serial value type _ hvalue hpossible hfresh hnested ih =>
      have hlater : Grows p d (d.push serial value type) :=
        .push serial value type (.refl d) hvalue hpossible hfresh hnested
      rcases Array.mem_push.1 hr with hr | rfl
      · obtain ⟨hvalue', hpossible', hknown⟩ := ih hr
        exact ⟨hvalue', hpossible', fun n hn => hlater.knows (hknown n hn)⟩
      · exact ⟨hvalue, hpossible, fun n hn => hlater.knows (hnested n hn)⟩

/-- Where all constants are known, computing one registers nothing. -/
theorem scope_emit_registration {p : Plan → Prop} {b c : ConstantCache}
    (hb : b.registrations = #[]) (hgrows : Grows p b c) {r : Registration}
    (hr : r ∈ c.registrations) (graph : ClassGraph) :
    (r.value.emit ⟨graph, c⟩).scope = ⟨graph, c⟩ := by
  obtain ⟨-, hpossible, hknown⟩ := knows_of_grows hb hgrows hr
  exact Plan.scope_emit_of_knows fun n hn =>
    ⟨Plan.isPossible_of_mem_outerCached hpossible hn, hknown n hn⟩

/-- What an initializer emits, when its constant can be computed. -/
theorem emit_initializer {s : Scope} {r : Registration} (hstatic : r.field.isStatic = true)
    (hscope : (r.value.emit s).scope = s) {effect : Effect}
    (hok : (r.value.emit s).outcome = .ok effect) :
    (initializer r).emit s =
      ⟨.ok ((Effect.zero.andThen effect).andThen (Operation.field .put r.field).effect),
        initializerCode s r, s⟩ := by
  have hstore : (Operation.field .put r.field).instruction = storeStatic r.field := by
    rw [Operation.instruction, hstatic]
    rfl
  rw [initializer, Plan.emit, Plan.emitEach, Emitted.andThen_of_ok hok, hscope]
  simp only [Plan.emitEach, Plan.emit, Emitted.andThen, Emitted.after, hstore, initializerCode,
    List.append_nil]

/-- An initializer can only be applied if its constant can be computed. -/
theorem value_succeeds_of_initializer {s : Scope} {r : Registration} {effect : Effect}
    (h : ((initializer r).emit s).outcome = .ok effect) :
    ∃ first, (r.value.emit s).outcome = .ok first := by
  rw [initializer, Plan.emit, Plan.emitEach] at h
  obtain ⟨first, hfirst, -⟩ := Emitted.outcome_andThen_eq_ok h
  exact ⟨first, hfirst⟩

/-- Behind the last constant there is no initializer. -/
theorem initializer?_eq_none {c : ConstantCache} {n : Nat}
    (h : c.registrations.toList.drop n = []) : c.initializer? n = none := by
  rw [initializer?, ← Array.getElem?_toList, List.getElem?_eq_none (List.drop_eq_nil_iff.1 h)]
  rfl

/-- The initializer of a number is that of the first constant from there on. -/
theorem initializer?_eq_some {c : ConstantCache} {n : Nat} {r : Registration}
    {rs : List Registration} (h : c.registrations.toList.drop n = r :: rs) :
    r ∈ c.registrations ∧ c.initializer? n = some (initializer r) ∧
      c.registrations.toList.drop (n + 1) = rs := by
  have hget : c.registrations[n]? = some r := by
    rw [← Array.getElem?_toList, ← Nat.add_zero n, ← List.getElem?_drop, h]
    rfl
  refine ⟨Array.mem_of_getElem? hget, ?_, ?_⟩
  · rw [initializer?, hget]
    rfl
  · rw [← List.tail_drop, h, List.tail_cons]

end ConstantCache

/-! ### One initializer after the other -/

/-- Applying the initializers from the `n`-th on one after the other, until there is none: the effect
so far and the emission before, and the number of steps, the effect and the emission at the end. -/
inductive InitializersRun {σ : Type} [CodeCollector σ] :
    Nat → Effect → Emission σ → Nat → Effect → Emission σ → Prop
  | stop {n : Nat} {soFar : Effect} {e : Emission σ}
      (none : e.scope.constants.initializer? n = none) : InitializersRun n soFar e 0 soFar e
  | step {n k : Nat} {soFar effect total : Effect} {e e' e'' : Emission σ} {plan : Plan}
      (next : e.scope.constants.initializer? n = some plan)
      (apply : plan.apply e = (.ok effect, e'))
      (rest : InitializersRun (n + 1) (soFar.andThen effect) e' k total e'') :
      InitializersRun n soFar e (k + 1) total e''

/-- There is only one way for the loop to go. -/
theorem InitializersRun.unique {σ : Type} [CodeCollector σ] {n k k' : Nat}
    {soFar total total' : Effect} {e last last' : Emission σ}
    (h : InitializersRun n soFar e k total last) (h' : InitializersRun n soFar e k' total' last') :
    k = k' ∧ total = total' ∧ last = last' := by
  induction h generalizing k' with
  | stop hnone =>
      cases h' with
      | stop => exact ⟨rfl, rfl, rfl⟩
      | step hnext => rw [hnone] at hnext; cases hnext
  | step hnext happly _ ih =>
      cases h' with
      | stop hnone => rw [hnone] at hnext; cases hnext
      | step hnext' happly' hrest' =>
          rw [hnext] at hnext'
          cases hnext'
          rw [happly] at happly'
          cases happly'
          obtain ⟨rfl, rfl, rfl⟩ := ih hrest'
          exact ⟨rfl, rfl, rfl⟩

namespace ConstantCache

/-- All initializers at once, and one after the other, where each of them can be applied. -/
theorem run_initializers {s : Scope} (h : ∀ r ∈ s.constants.registrations,
      ∃ effect, (initializer r).emit s = ⟨.ok effect, initializerCode s r, s⟩)
    {rs : List Registration} {n : Nat} (hrs : s.constants.registrations.toList.drop n = rs)
    (soFar : Effect) :
    ∃ total, Plan.emitEach (rs.map initializer) soFar s =
        ⟨.ok total, rs.flatMap (initializerCode s), s⟩ ∧
      ∀ {σ : Type} [CodeCollector σ] (start : σ), InitializersRun n soFar ⟨start, s⟩ rs.length total
        ⟨(rs.flatMap (initializerCode s)).foldl CodeCollector.append start, s⟩ := by
  induction rs generalizing n soFar with
  | nil => exact ⟨soFar, rfl, fun start => .stop (initializer?_eq_none hrs)⟩
  | cons r rs ih =>
      obtain ⟨hmem, hnext, hrest⟩ := initializer?_eq_some hrs
      obtain ⟨effect, hemit⟩ := h r hmem
      obtain ⟨total, heach, hrun⟩ := ih hrest (soFar.andThen effect)
      refine ⟨total, ?_, fun start => ?_⟩
      · rw [List.map_cons, Plan.emitEach, hemit, Emitted.andThen_of_ok rfl, heach]
        rfl
      · rw [List.flatMap_cons, List.foldl_append]
        refine .step hnext ?_ (hrun _)
        rw [Plan.apply_eq_emit, hemit]
        rfl

/-! ### The caches that can be reached -/

/-- The caches that asking for constants and applying plans lead to, successfully or not, together with
the plans that were handed in. The class graph may have changed in between. -/
inductive Reached (owner : Class) (namePart : UnqualifiedName) : List Plan → ConstantCache → Prop
  | new : Reached owner namePart [] (new owner namePart)
  | cache {plans : List Plan} {c : ConstantCache} (reached : Reached owner namePart plans c)
      (graph : ClassGraph) (value : Plan) (type : ValueType) :
      Reached owner namePart (value :: plans) (Scope.cache ⟨graph, c⟩ value type).2.constants
  | apply {plans : List Plan} {c : ConstantCache} (reached : Reached owner namePart plans c)
      {σ : Type} [CodeCollector σ] (graph : ClassGraph) (code : σ) (plan : Plan) :
      Reached owner namePart (plan :: plans) (plan.apply ⟨code, ⟨graph, c⟩⟩).2.scope.constants

namespace Reached

variable {owner : Class} {namePart : UnqualifiedName} {plans : List Plan} {c : ConstantCache}

/-- What is registered comes out of the plans that were handed in. -/
theorem grows (h : Reached owner namePart plans c) :
    Grows (Plan.ComesFrom plans) (ConstantCache.new owner namePart) c := by
  induction h with
  | new => exact .refl _
  | @cache plans c _ graph value type ih =>
      have hvalue : Plan.ComesFrom (value :: plans) value := .self List.mem_cons_self
      refine (ih.mono fun v hv => hv.cons value).trans ?_
      exact Scope.grows_cache (.hereditary _) ⟨graph, c⟩ hvalue type
  | @apply plans c _ _ _ graph code plan ih =>
      rw [Plan.apply_eq_emit]
      refine (ih.mono fun v hv => hv.cons plan).trans ?_
      exact Plan.grows_emit (.hereditary _) (fun n hn => .of_mem_outerCached List.mem_cons_self hn)
        ⟨graph, c⟩

/-- **Every cache that can be reached is initialized in order.** If the plans handed in leave its fields
alone, the type initializer can be applied to any collector in any class graph; it registers nothing,
and its code fills every field once, in the order of registration, before anything reads it. One
initializer after the other comes to the same, in as many steps as there are constants. The only
other demand is that the methods whose reflective objects are pushed have parameter lists that an
array has room for. -/
theorem initializes (h : Reached owner namePart plans c)
    (halone : ∀ plan ∈ plans, plan.LeavesAlone c.fields) (hfit : ∀ plan ∈ plans, plan.ObjectsFit)
    (graph : ClassGraph) :
    ∃ (effect : Effect) (code : List SymbolicInstruction),
      (∀ {σ : Type} [CodeCollector σ] (start : σ), c.typeInitializer.apply ⟨start, ⟨graph, c⟩⟩ =
        (.ok effect, ⟨code.foldl CodeCollector.append start, ⟨graph, c⟩⟩)) ∧
      (∀ {σ : Type} [CodeCollector σ] (start : σ),
        InitializersRun 0 Effect.zero ⟨start, ⟨graph, c⟩⟩ c.size effect
          ⟨code.foldl CodeCollector.append start, ⟨graph, c⟩⟩) ∧
      InitializesInOrder c.fields code := by
  let s : Scope := ⟨graph, c⟩
  have hgrows := h.grows
  have hnumbered : c.Numbered := hgrows.numbered (numbered_new owner namePart)
  -- in the full cache every initializer can be applied, and leaves the scope as it is
  have hemit : ∀ r ∈ c.registrations,
      ∃ effect, (initializer r).emit s = ⟨.ok effect, initializerCode s r, s⟩ := by
    intro r hr
    obtain ⟨⟨plan, hplan, hinside⟩, hpossible, -⟩ := knows_of_grows rfl hgrows hr
    have hscope := scope_emit_registration rfl hgrows hr graph
    obtain ⟨effect, hok⟩ := Plan.emit_succeeds hpossible
      (fun m hm => hfit plan hplan m (hinside _ hm)) s
    exact ⟨_, emit_initializer (hnumbered.isStatic (mem_fields_of_mem hr)) hscope hok⟩
  have hall : s.constants.registrations.toList.drop 0 = c.registrations.toList := List.drop_zero
  obtain ⟨total, heach, hrun⟩ := run_initializers hemit hall Effect.zero
  refine ⟨total, c.registrations.toList.flatMap (initializerCode s), ?_, ?_, hnumbered.nodup, ?_⟩
  · intro σ _ start
    rw [Plan.apply_eq_emit, typeInitializer, Plan.emit, heach]
    rfl
  · exact fun start => hrun start
  · refine storesBeforeLoads_of_grows rfl hgrows (.refl c) hnumbered ?_ graph
    rintro v ⟨plan, hplan, hinside⟩ access f hf
    exact halone plan hplan access f (hinside _ hf)

end Reached

/-- A boxed number that is cached, as is the number inside it. -/
def nestedConstant : Plan :=
  .cached (.sequence [.cached (.op (.long 7)) (.primitive .long), .op (.box .long)])
    (.object (Java.wrapper .long))

/-- Two constants are initialized in two steps, the number before the object. -/
theorem initializes_nestedConstant :
    ∃ (c : ConstantCache) (effect : Effect) (code : List SymbolicInstruction),
      c.size = 2 ∧
      InitializersRun 0 Effect.zero ⟨(#[] : Array SymbolicInstruction), ⟨.empty, c⟩⟩ 2 effect
        ⟨code.foldl CodeCollector.append #[], ⟨.empty, c⟩⟩ ∧
      InitializesInOrder c.fields code := by
  let start : Emission (Array SymbolicInstruction) :=
    ⟨#[], ⟨.empty, .new Java.object defaultNamePart⟩⟩
  have hreached : Reached Java.object defaultNamePart [nestedConstant]
      (nestedConstant.apply start).2.scope.constants := .apply .new .empty #[] nestedConstant
  have hsize : (nestedConstant.apply start).2.scope.constants.size = 2 := by decide +kernel
  have halone : ∀ plan ∈ [nestedConstant],
      plan.LeavesAlone (nestedConstant.apply start).2.scope.constants.fields := by
    intro plan hplan access f hf
    rw [List.mem_singleton.1 hplan] at hf
    simp [nestedConstant, Plan.subplans, Plan.subplansEach] at hf
  have hfit : ∀ plan ∈ [nestedConstant], plan.ObjectsFit := by
    intro plan hplan m hm
    rw [List.mem_singleton.1 hplan] at hm
    simp [nestedConstant, Plan.subplans, Plan.subplansEach] at hm
  obtain ⟨effect, code, -, hrun, horder⟩ := hreached.initializes halone hfit .empty
  refine ⟨_, effect, code, hsize, ?_, horder⟩
  have hsteps := hrun (#[] : Array SymbolicInstruction)
  rwa [hsize] at hsteps

/-! ### What the demands are for -/

/-- A new constant with nothing cached inside it becomes the last one registered. -/
theorem exists_registration {s : Scope} {value : Plan} (hpossible : value.isPossible = true)
    (hnested : value.outerCached = []) {type : ValueType}
    (hfresh : s.constants.find? value type = none) :
    ∃ f s', s.cache value type = (.ok f, s') ∧ f.isStatic = true ∧ f.type = type ∧
      s'.constants.registrations = s.constants.registrations.push ⟨value, f⟩ := by
  have hnone : s.cacheEach value.outerCached = (.ok (), s) := by rw [hnested]; rfl
  have hcache := Scope.cache_of_find?_eq_none hpossible hfresh hnone
  have hstatic : fieldFlags.has FieldFlags.staticFlag = true := by decide
  exact ⟨_, _, hcache, hstatic, rfl, rfl⟩

/-- A scope without cached constants. -/
def freshScope : Scope := ⟨.empty, .new Java.object defaultNamePart⟩

/-- The first constant of a scope, where nothing is cached inside it. -/
theorem exists_first {value : Plan} (hpossible : value.isPossible = true)
    (hnested : value.outerCached = []) (type : ValueType) :
    ∃ f s, freshScope.cache value type = (.ok f, s) ∧ f.isStatic = true ∧ f.type = type ∧
      s.constants.registrations = #[⟨value, f⟩] :=
  exists_registration hpossible hnested rfl

/-- The reflective object of a method with more parameters than an array has room for is registered,
but it cannot be computed. -/
theorem exists_uncomputable {m : Method} (h : Plan.maxArrayLength < m.descriptor.parameters.length) :
    ∃ f s, freshScope.cache (.methodObject m) (methodObjectType m) = (.ok f, s) ∧
      ∀ {σ : Type} [CodeCollector σ] (start : σ),
        (s.constants.typeInitializer.apply ⟨start, s⟩).1 = .error .impossiblePlan := by
  obtain ⟨f, s, hcache, -, -, hone⟩ := exists_first rfl (Plan.outerCached_methodObject m)
    (methodObjectType m)
  refine ⟨f, s, hcache, fun start => ?_⟩
  have hvalue : ((Plan.methodObject m).emit s).outcome = .error .impossiblePlan := by
    rw [Plan.emit, Plan.emitMethodObject, if_neg (Nat.not_le.2 h)]
  rw [typeInitializer, hone, List.map_singleton, Plan.apply_eq_emit, initializer, Plan.emit,
    Plan.emitEach, Plan.emit, Plan.emitEach, Emitted.andThen_of_error hvalue,
    Emitted.andThen_of_error hvalue, Emitted.onto, hvalue]

/-- A constant of the lowest size in 32 bits is registered, but storing it overflows. -/
theorem exists_overflowing :
    ∃ f s, freshScope.cache Plan.manyCalls (.primitive .int) = (.ok f, s) ∧
      s.constants.typeInitializer.size = .error .overflow := by
  obtain ⟨f, s, hcache, hstatic, htype, hone⟩ := exists_first Plan.isPossible_manyCalls
    Plan.outerCached_manyCalls (.primitive .int)
  refine ⟨f, s, hcache, ?_⟩
  have hvalue : Size.zero.andThen ⟨Int32.minValue, 0⟩ = .ok ⟨Int32.minValue, 0⟩ := rfl
  have hstore : (Operation.field .put f).size = .ok (Size.popping 1) := by
    rw [Operation.size, Operation.effect, Operation.fieldEffect, hstatic, htype]
    rfl
  rw [typeInitializer, hone, List.map_singleton, initializer, Plan.size, Plan.sizeEach, Plan.size,
    Plan.sizeEach, Stop.bind_of_ok Plan.size_manyCalls, Stop.bind_of_ok hvalue, Plan.sizeEach, Plan.size,
    Stop.bind_of_ok hstore]
  rfl

/-- A constant that writes into another field on the way. -/
def overwriting (f : Field) : Plan :=
  .sequence [.op (.int 1), .op (.field .put f), .op (.int 2)]

/-- A constant that writes into the field of another one is registered and computed, but that field is
filled twice. -/
theorem exists_overwritten :
    ∃ f s g s', freshScope.cache (.op (.int 5)) (.primitive .int) = (.ok f, s) ∧
      s.cache (overwriting f) (.primitive .int) = (.ok g, s') ∧
      ∃ effect code, s'.constants.typeInitializer.apply ⟨#[], s'⟩ = (.ok effect, ⟨code, s'⟩) ∧
        ¬ InitializesInOrder s'.constants.fields code.toList := by
  obtain ⟨f, s, hfirst, hf, -, hone⟩ := exists_first rfl (Plan.outerCached_op (.int 5))
    (.primitive .int)
  have hfresh : s.constants.find? (overwriting f) (.primitive .int) = none := by
    simp [find?, hone, overwriting, Plan.same]
  obtain ⟨g, s', hsecond, hg, -, htwo⟩ := exists_registration rfl (by simp [overwriting]) hfresh
  rw [hone] at htwo
  let code : List SymbolicInstruction := [.bare .iconst5, storeStatic f, .bare .iconst1,
    storeStatic f, .bare .iconst2, storeStatic g]
  have hput : ∀ f : Field, f.isStatic = true →
      (Operation.field .put f).instruction = storeStatic f := fun f hf => by
    rw [Operation.instruction, hf]
    rfl
  obtain ⟨effect, hemit⟩ : ∃ effect, s'.constants.typeInitializer.emit s' =
      ⟨.ok effect, code, s'⟩ := by
    simp only [code, ← hput f hf, ← hput g hg]
    rw [typeInitializer, htwo]
    exact ⟨_, rfl⟩
  refine ⟨f, s, g, s', hfirst, hsecond, effect, code.toArray, ?_, fun h => ?_⟩
  · rw [Plan.apply_eq_emit, hemit]
    rfl
  · have hfields : s'.constants.fields = [f, g] := by rw [fields, htwo]; rfl
    have hstored : code.filterMap storedField? = [f, f, g] := rfl
    have hstores := h.storesBeforeLoads.stores
    rw [hfields, List.toList_toArray, hstored] at hstores
    simp at hstores

/-- **What the demands on the plans are for.** Each of the three caches is reached by asking for
constants, successfully, and is not initialized in order. -/
theorem reached_not_initialized :
    (∃ f s, freshScope.cache (.methodObject (takingLongs 2147483648)) (.object Java.reflectMethod) =
        (.ok f, s) ∧
      ∀ {σ : Type} [CodeCollector σ] (start : σ),
        (s.constants.typeInitializer.apply ⟨start, s⟩).1 = .error .impossiblePlan) ∧
    (∃ f s, freshScope.cache Plan.manyCalls (.primitive .int) = (.ok f, s) ∧
      s.constants.typeInitializer.size = .error .overflow) ∧
    ∃ f s g s', freshScope.cache (.op (.int 5)) (.primitive .int) = (.ok f, s) ∧
      s.cache (overwriting f) (.primitive .int) = (.ok g, s') ∧
      ∃ effect code, s'.constants.typeInitializer.apply ⟨#[], s'⟩ = (.ok effect, ⟨code, s'⟩) ∧
        ¬ InitializesInOrder s'.constants.fields code.toList := by
  have hlength : Plan.maxArrayLength < (takingLongs 2147483648).descriptor.parameters.length :=
    Nat.lt_of_lt_of_eq (by decide) (length_parameters_takingLongs 2147483648).symm
  exact ⟨exists_uncomputable hlength, exists_overflowing, exists_overwritten⟩

end ConstantCache

end JvmCodegen.Stack
