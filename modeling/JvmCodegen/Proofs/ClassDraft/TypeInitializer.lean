/-
**The type initializer of a finished class.**

When a class is finished, its type initializer is written last: the initializers of all cached
constants, and then the body that was supplied, or a plain return.  The supplied body is applied
before, so its own constants are initialized as well.

Main definitions:

* `ClassDraft.Session.MayUse` — the fields that the code of a class may use;
* `ClassDraft.Session.WritesInitializer` — what the written type initializer consists of.

Main results:

* `ClassDraft.initializeFrom_eq_ok` — the loop over the initializers comes to the type initializer of
  the cache;
* `ClassDraft.compileInitializer_eq_ok` — the parts of a compiled type initializer;
* `ClassDraft.Session.finish_initializes` — **what a finished class declares, uses and initializes**.
-/

import Mathlib
import JvmCodegen.Proofs.ClassDraft.Session
import JvmCodegen.Proofs.Stack.Initialization

set_option relaxedAutoImplicit false
set_option autoImplicit false

namespace JvmCodegen.ClassDraft

open Stack Stack.ConstantCache

/-! ### The loop over the initializers -/

/-- The loop over the initializers comes to the type initializer, as long as computing a constant
registers nothing. -/
theorem initializeFrom_eq_ok {e e' : Emission BodyDraft} {rs : List Registration}
    (hsettled : ∀ r ∈ rs, r.field.isStatic = true ∧ (r.value.emit e.scope).scope = e.scope)
    {n fuel : Nat} (hrs : e.scope.constants.registrations.toList.drop n = rs)
    (hfuel : rs.length ≤ fuel) {soFar total : Effect}
    (h : initializeFrom fuel n soFar e = (.ok total, e')) :
    Plan.emitEach (rs.map initializer) soFar e.scope =
        ⟨.ok total, rs.flatMap (initializerCode e.scope), e.scope⟩ ∧
      e' = ⟨(rs.flatMap (initializerCode e.scope)).foldl CodeCollector.append e.code, e.scope⟩ := by
  -- on the registrations that are left; none of them changes the scope in which they are looked up
  induction rs generalizing n fuel soFar e with
  | nil =>
      cases fuel with
      | zero => cases h; exact ⟨rfl, rfl⟩
      | succ fuel =>
          rw [initializeFrom, initializer?_eq_none hrs] at h
          cases h
          exact ⟨rfl, rfl⟩
  | cons r rs ih =>
      obtain ⟨fuel, rfl⟩ : ∃ k, fuel = k + 1 := by
        cases fuel with
        | zero => exact absurd hfuel (by simp)
        | succ k => exact ⟨k, rfl⟩
      obtain ⟨-, hnext, hrest⟩ := initializer?_eq_some hrs
      obtain ⟨hstatic, hscope⟩ := hsettled r List.mem_cons_self
      cases happly : (initializer r).apply e with
      | mk outcome e₁ =>
          cases outcome with
          | error reason =>
              simp only [initializeFrom, hnext, happly] at h
              cases h
          | ok effect =>
              simp only [initializeFrom, hnext, happly] at h
              rw [Plan.apply_eq_emit, Emitted.onto, Prod.mk.injEq] at happly
              obtain ⟨hok, rfl⟩ := happly
              obtain ⟨first, hfirst⟩ := value_succeeds_of_initializer hok
              have hemit := emit_initializer hstatic hscope hfirst
              rw [hemit] at hok h
              cases hok
              obtain ⟨heach, hlast⟩ := ih
                (e := ⟨(initializerCode e.scope r).foldl CodeCollector.append e.code, e.scope⟩)
                (fun r' hr' => hsettled r' (List.mem_cons_of_mem r hr')) hrest
                (Nat.le_of_succ_le_succ hfuel) h
              refine ⟨?_, ?_⟩
              · rw [List.map_cons, Plan.emitEach, hemit, Emitted.andThen_of_ok rfl, heach]
                rfl
              · rw [hlast, List.flatMap_cons, List.foldl_append]

/-! ### A compiled type initializer -/

/-- **The parts of a compiled type initializer.** -/
theorem compileInitializer_eq_ok {draft made : ClassDraft} {graph graph' : ClassGraph}
    {method : Method} {body : Plan}
    (h : draft.compileInitializer graph method body = (.ok made, graph')) :
    ∃ (bodyEffect effect : Effect) (e : Emission BodyDraft) (code : MethodBody),
      (body.emit ⟨graph, draft.constants⟩).outcome = .ok bodyEffect ∧
      initializeFrom (body.emit ⟨graph, draft.constants⟩).scope.constants.size 0 Effect.zero
        ⟨BodyDraft.new method, (body.emit ⟨graph, draft.constants⟩).scope⟩ = (.ok effect, e) ∧
      graph' = e.scope.graph ∧
      code.IsCompiledFrom ((body.emit ⟨graph, draft.constants⟩).code.foldl CodeCollector.append e.code)
        (effect.andThen bodyEffect) ∧
      made = (draft.withConstants e.scope).withMethod ⟨e.code.method, some code⟩ := by
  simp only [compileInitializer, Plan.apply_eq_emit, Emitted.onto] at h
  generalize body.emit ⟨graph, draft.constants⟩ = r at h ⊢
  cases hr : r.outcome with
  | error reason => simp only [hr] at h; cases h
  | ok bodyEffect =>
      simp only [hr] at h
      cases hloop : initializeFrom r.scope.constants.size 0 Effect.zero
          ⟨BodyDraft.new method, r.scope⟩ with
      | mk outcome e =>
          cases outcome with
          | error reason => simp only [hloop] at h; cases h
          | ok effect =>
              simp only [hloop] at h
              split at h
              case h_1 => cases h
              case h_2 made' hadd =>
                  cases h
                  obtain ⟨code, hcode, hmade⟩ := addCompiled_eq_ok hadd
                  rw [toList_foldl_append] at hcode hmade
                  refine ⟨bodyEffect, effect, e, code, rfl, rfl, rfl, hcode, ?_⟩
                  · rw [hmade, ← BodyDraft.method_foldl e.code r.code]
                    rfl

/-- A new method has the name that it was declared with, as has a known one. -/
theorem name_declare (draft : ClassDraft) (graph : ClassGraph) (name : UnqualifiedName)
    (descriptor : MethodDescriptor Class) (flags : MethodFlags) :
    (draft.declare graph name descriptor flags).1.name = name := by
  rw [declare, ClassGraph.addMethod]
  split
  · rename_i known hfind
    obtain ⟨entry, -, hknown⟩ := Option.bind_eq_some_iff.1 hfind
    have hmatch := Array.find?_some hknown
    simp only [Bool.and_eq_true, beq_iff_eq] at hmatch
    exact hmatch.1.1
  · rfl

/-- **Which type initializer is written**: none, the one that waits, or one that only returns. -/
theorem withInitializer_cases {draft made : ClassDraft} {graph graph' : ClassGraph}
    (h : draft.withInitializer graph = (.ok made, graph')) :
    (draft.pending = none ∧ draft.constants.size = 0 ∧ made = draft) ∨
    (∃ method body, draft.pending = some (method, body) ∧
      draft.compileInitializer graph method body = (.ok made, graph')) ∨
    (draft.pending = none ∧ draft.constants.size ≠ 0 ∧
      let own := draft.declare graph UnqualifiedName.typeInitializer ⟨[], none⟩ MethodFlags.staticFlag
      draft.compileInitializer own.2 own.1 (.op (.ret none)) = (.ok made, graph')) := by
  rw [withInitializer, initializerToWrite] at h
  cases hpending : draft.pending with
  | some given =>
      rw [hpending] at h
      exact .inr (.inl ⟨given.1, given.2, rfl, h⟩)
  | none =>
      rw [hpending] at h
      by_cases hsize : draft.constants.size = 0
      · simp only [hsize, if_true] at h
        cases h
        exact .inl ⟨rfl, hsize, rfl⟩
      · simp only [hsize, if_false] at h
        exact .inr (.inr ⟨rfl, hsize, h⟩)

/-- A finished class is written with its type initializer. -/
theorem finish_eq_ok {draft : ClassDraft} {graph graph' : ClassGraph}
    {generated : GeneratedClass} (h : draft.finish graph = (.ok generated, graph')) :
    ∃ made, draft.withInitializer graph = (.ok made, graph') ∧
      made.finalModel.encode graph' made.settings.version = .ok generated.bytes := by
  rw [finish] at h
  split at h
  case h_1 => cases h
  case h_2 made graph₁ hmade =>
      split at h
      case h_1 => cases h
      case h_2 bytes hbytes =>
          cases h
          exact ⟨made, hmade, hbytes⟩

/-- A class that can be finished is finished with some class file. -/
theorem exists_finish_of_toBool {draft : ClassDraft} {graph : ClassGraph}
    (h : (draft.finish graph).1.toBool = true) :
    ∃ generated graph', draft.finish graph = (.ok generated, graph') := by
  rcases hfinish : draft.finish graph with ⟨reason | generated, graph'⟩
  · rw [hfinish] at h
    cases h
  · exact ⟨generated, graph', rfl⟩

/-- What is computed from a class that can be made is true of it. -/
theorem eq_of_withInitializer {α : Type} (f : ClassDraft → α) {draft made : ClassDraft}
    {graph graph' : ClassGraph} {a : α}
    (hcomputed : ((draft.withInitializer graph).1.map f).toOption = some a)
    (hmade : draft.withInitializer graph = (.ok made, graph')) : f made = a := by
  rw [hmade] at hcomputed
  exact Option.some.inj hcomputed

/-- A class declares the fields of its constants. -/
theorem toList_fields_finalModel {made : ClassDraft} (h : made.model.fields = #[]) :
    made.finalModel.fields.toList = made.constants.fields := by
  simp [finalModel, h]

/-! ### The fields that a class uses -/

namespace Session

variable {s : Session} {declared : Class} {settings : Settings}

/-- A field that the code of the class may use: it is among those of the cached constants, or a body
names it, or it holds a class object. -/
def MayUse (s : Session) (fields : List Field) (f : Field) : Prop :=
  f ∈ fields ∨ (∃ body ∈ s.bodies, ∃ access, .op (.field access f) ∈ body.subplans) ∨
    ∃ type, f = classObjectField type

theorem mayUse_of_uses {plan : Plan} (hplan : Plan.ComesFrom s.bodies plan) {c d : ConstantCache}
    {op : FieldOp} {f : Field} (h : plan.Uses c op f) {p : Plan → Prop} (hgrows : Grows p c d) :
    s.MayUse d.fields f := by
  rcases h with ⟨o, ho, hinstruction⟩ | ⟨-, hobject | ⟨n, -, hfind⟩⟩
  · rcases Operation.exists_of_instruction_eq_access hinstruction with ⟨access, rfl⟩ | hobject
    · obtain ⟨body, hbody, hinside⟩ := hplan
      exact .inr (.inl ⟨body, hbody, access, hinside _ (Plan.op_mem_subplans ho)⟩)
    · exact .inr (.inr hobject)
  · exact .inr (.inr hobject)
  · exact .inl (mem_fields_of_find? (hgrows.find?_eq hfind))

/-- A method that is explained uses only such fields. -/
theorem Explains.mayUse {m : MethodModel} (h : s.Explains m)
    (haccepted : ∀ given ∈ s.accepted, given.2 ∈ s.bodies) {c : ConstantCache} {p : Plan → Prop}
    (hgrows : Grows p s.draft.constants c) :
    ∃ code, m.body = some code ∧
      ∀ op f, .access op f ∈ code.instructions → s.MayUse c.fields f := by
  obtain ⟨body, hgiven, -, code, scope, hbody, hcode, hlater⟩ := h
  refine ⟨code, hbody, fun op f hmem => ?_⟩
  rw [← Array.mem_toList_iff, hcode] at hmem
  have huses := (Plan.uses_of_access_mem_emit hmem).mono hlater
  exact mayUse_of_uses (.self (haccepted _ hgiven)) huses hgrows

/-! ### What is written -/

/-- The type initializer of a class that was made in a class graph: its method and its code, which
initializes the cached constants and then does what else is asked for. -/
structure WritesInitializer (s : Session) (made : ClassDraft) (graph : ClassGraph) (method : Method)
    (code : MethodBody) (initializers own : List SymbolicInstruction) : Prop where
  is_typeInitializer : method.isTypeInitializer = true
  methods_eq : made.finalModel.methods = s.draft.model.methods.push ⟨method, some code⟩
  code_eq : code.instructions.toList = initializers ++ own
  /-- The first part is the code of all initializers. -/
  initializers_eq : ∃ effect, ∀ {σ : Type} [CodeCollector σ] (start : σ),
    made.constants.typeInitializer.apply ⟨start, ⟨graph, made.constants⟩⟩ =
      (.ok effect, ⟨initializers.foldl CodeCollector.append start, ⟨graph, made.constants⟩⟩)
  /-- The second part is the code of the supplied body, or a return where there is none. -/
  own_eq : (∃ body effect, s.supplied = some (method, body) ∧
      ∀ {σ : Type} [CodeCollector σ] (start : σ),
        body.apply ⟨start, ⟨s.graph, s.draft.constants⟩⟩ =
          (.ok effect, ⟨own.foldl CodeCollector.append start, ⟨graph, made.constants⟩⟩)) ∨
    s.supplied = none ∧ own = [.bare .voidReturn]
  /-- All fields are filled in order, and nothing is read before. -/
  in_order : (∀ body ∈ s.bodies, body.LeavesAlone made.constants.fields) →
    InitializesInOrder made.constants.fields initializers ∧
      InitializesInOrder made.constants.fields (initializers ++ own)

/-- A compiled type initializer consists of the initializers and the code of its body. -/
theorem Invariant.compileInitializer (h : s.Invariant declared settings) {method : Method} {body : Plan}
    (hbody : ∀ n ∈ body.outerCached, Plan.ComesFrom s.bodies n.value) {made : ClassDraft}
    {graph₁ graph : ClassGraph}
    (hcompile : s.draft.compileInitializer graph₁ method body = (.ok made, graph)) :
    ∃ (code : MethodBody) (bodyEffect effect : Effect),
      made = (s.draft.withConstants ⟨graph, made.constants⟩).withMethod ⟨method, some code⟩ ∧
      Grows (Plan.ComesFrom s.bodies) s.draft.constants made.constants ∧
      (body.emit ⟨graph₁, s.draft.constants⟩).outcome = .ok bodyEffect ∧
      (body.emit ⟨graph₁, s.draft.constants⟩).scope = ⟨graph, made.constants⟩ ∧
      Plan.emitEach (made.constants.registrations.toList.map initializer) Effect.zero
          ⟨graph, made.constants⟩ =
        ⟨.ok effect, made.constants.registrations.toList.flatMap
          (initializerCode ⟨graph, made.constants⟩), ⟨graph, made.constants⟩⟩ ∧
      code.IsCompiledFrom ((made.constants.registrations.toList.flatMap
          (initializerCode ⟨graph, made.constants⟩) ++
        (body.emit ⟨graph₁, s.draft.constants⟩).code).foldl CodeCollector.append
          (BodyDraft.new method)) (effect.andThen bodyEffect) := by
  have hgrows := Plan.grows_emit (.hereditary s.bodies) hbody ⟨graph₁, s.draft.constants⟩
  obtain ⟨bodyEffect, effect, e, code, hok, hloop, hgraph, hcode, hmade⟩ :=
    compileInitializer_eq_ok hcompile
  generalize body.emit ⟨graph₁, s.draft.constants⟩ = r at hgrows hok hloop hcode ⊢
  have hall := h.grows.trans hgrows
  have hnumbered : r.scope.constants.Numbered := hall.numbered (numbered_new _ _)
  -- after the body no initializer registers anything, so the loop sees the cache that it ends with
  have hsettled : ∀ reg ∈ r.scope.constants.registrations.toList,
      reg.field.isStatic = true ∧ (reg.value.emit r.scope).scope = r.scope := by
    intro reg hreg
    have hmem := Array.mem_toList_iff.1 hreg
    exact ⟨hnumbered.isStatic (mem_fields_of_mem hmem),
      scope_emit_registration rfl hall hmem r.scope.graph⟩
  obtain ⟨heach, hlast⟩ := initializeFrom_eq_ok (e := ⟨BodyDraft.new method, r.scope⟩) hsettled
    List.drop_zero (Nat.le_refl _) hloop
  subst hlast hgraph
  rw [← List.foldl_append] at hcode
  rw [BodyDraft.method_foldl] at hmade
  subst hmade
  exact ⟨code, bodyEffect, effect, rfl, hgrows, hok, rfl, heach, hcode⟩

/-- The code of all initializers uses only fields that the class may use. -/
theorem mayUse_of_initializers {c : ConstantCache} {graph : ClassGraph}
    (hgrows : Grows (Plan.ComesFrom s.bodies) (ConstantCache.new declared settings.cachedNamePart) c)
    {op : FieldOp} {f : Field}
    (h : .access op f ∈ c.registrations.toList.flatMap (initializerCode ⟨graph, c⟩)) :
    s.MayUse c.fields f := by
  obtain ⟨r, hr, hmem⟩ := List.mem_flatMap.1 h
  have hr := Array.mem_toList_iff.1 hr
  rcases List.mem_append.1 hmem with hmem | hmem
  · have huses := Plan.uses_of_access_mem_emit hmem
    rw [scope_emit_registration rfl hgrows hr graph] at huses
    exact mayUse_of_uses (knows_of_grows rfl hgrows hr).1 huses (.refl (p := fun _ => True) c)
  · cases List.mem_singleton.1 hmem
    exact .inl (mem_fields_of_mem hr)

/-- The body that is compiled: the supplied one, in the class graph of the session, or a return. -/
def Compiles (s : Session) (method : Method) (body : Plan) (graph : ClassGraph) : Prop :=
  s.supplied = some (method, body) ∧ graph = s.graph ∨ s.supplied = none ∧ body = .op (.ret none)

theorem isTypeInitializer_of_supplied {method : Method} {body : Plan}
    (h : s.supplied = some (method, body)) : method.isTypeInitializer = true :=
  List.find?_some (p := fun given : Method × Plan => given.1.isTypeInitializer) h

theorem Compiles.mem_bodies {method : Method} {body : Plan} {graph : ClassGraph}
    (h : s.Compiles method body graph) (haccepted : ∀ given ∈ s.accepted, given.2 ∈ s.bodies) :
    body ∈ s.bodies ∨ body = .op (.ret none) := by
  rcases h with ⟨hsupplied, -⟩ | ⟨-, hreturn⟩
  · exact .inl (haccepted _ (List.mem_of_find?_eq_some hsupplied))
  · exact .inr hreturn

/-- The constants of the body that is compiled come from bodies that were handed in. -/
theorem Compiles.comesFrom_outerCached {method : Method} {body : Plan} {graph : ClassGraph}
    (h : s.Compiles method body graph) (haccepted : ∀ given ∈ s.accepted, given.2 ∈ s.bodies) :
    ∀ n ∈ body.outerCached, Plan.ComesFrom s.bodies n.value := by
  intro n hn
  rcases h.mem_bodies haccepted with hmem | rfl
  · exact .of_mem_outerCached hmem hn
  · rw [Plan.outerCached_op] at hn
    exact absurd hn List.not_mem_nil

/-- **How a class is made.** There is nothing to be written but what the session has, or one body is
compiled as the type initializer: the one that was supplied, or a return, for a method that the class
gets for its constants. -/
theorem Invariant.made_cases (h : s.Invariant declared settings) {made : ClassDraft}
    {graph : ClassGraph} (hmade : s.draft.withInitializer s.graph = (.ok made, graph)) :
    (made = s.draft ∧ s.draft.constants.size = 0 ∧ s.supplied = none) ∨
    ∃ method body graph₁, s.Compiles method body graph₁ ∧ method.isTypeInitializer = true ∧
      s.draft.compileInitializer graph₁ method body = (.ok made, graph) ∧
      ((∃ body, s.supplied = some (method, body)) ∨
        s.supplied = none ∧ s.draft.constants.size ≠ 0 ∧
        method = (s.draft.declare s.graph UnqualifiedName.typeInitializer ⟨[], none⟩
          MethodFlags.staticFlag).1) := by
  rcases withInitializer_cases hmade with ⟨hnone, hsize, rfl⟩ |
    ⟨method, body, hsome, hcompile⟩ | ⟨hnone, hsize, hcompile⟩
  · exact .inl ⟨rfl, hsize, h.pending_eq ▸ hnone⟩
  · have hsupplied : s.supplied = some (method, body) := h.pending_eq ▸ hsome
    have hinit := isTypeInitializer_of_supplied hsupplied
    exact .inr ⟨method, body, s.graph, .inl ⟨hsupplied, rfl⟩, hinit, hcompile, .inl ⟨body, hsupplied⟩⟩
  · have hsupplied : s.supplied = none := h.pending_eq ▸ hnone
    have hinit := beq_iff_eq.2 (name_declare s.draft s.graph UnqualifiedName.typeInitializer
      ⟨[], none⟩ MethodFlags.staticFlag)
    exact .inr ⟨_, _, _, .inr ⟨hsupplied, rfl⟩, hinit, hcompile, .inr ⟨hsupplied, hsize, rfl⟩⟩

/-- Making a class changes neither its settings nor its name, and it declares no field by itself. -/
theorem Invariant.made_keeps (h : s.Invariant declared settings) {made : ClassDraft}
    {graph : ClassGraph} (hmade : s.draft.withInitializer s.graph = (.ok made, graph)) :
    made.settings = settings ∧ made.declared = declared ∧ made.model.fields = #[] := by
  rcases h.made_cases hmade with ⟨rfl, -, -⟩ | ⟨method, body, graph₁, -, -, hcompile, -⟩
  · exact ⟨h.settings_eq, h.declared_eq, h.fields_eq⟩
  · obtain ⟨-, -, e, code, -, -, -, -, rfl⟩ := compileInitializer_eq_ok hcompile
    exact ⟨h.settings_eq, h.declared_eq, h.fields_eq⟩

/-- A finished class is made, and then written with the version of its settings. -/
theorem Invariant.encode_of_finish (h : s.Invariant declared settings) {generated : GeneratedClass}
    {graph : ClassGraph} (hfinish : s.draft.finish s.graph = (.ok generated, graph)) :
    ∃ made, s.draft.withInitializer s.graph = (.ok made, graph) ∧
      made.finalModel.encode graph settings.version = .ok generated.bytes := by
  obtain ⟨made, hmade, hbytes⟩ := finish_eq_ok hfinish
  rw [(h.made_keeps hmade).1] at hbytes
  exact ⟨made, hmade, hbytes⟩

/-- A plain return uses no field. -/
theorem not_access_mem_emit_return (scope : Scope) (op : FieldOp) (f : Field) :
    .access op f ∉ ((Plan.op (.ret none)).emit scope).code := by
  intro h
  cases List.mem_singleton.1 h

/-- **What the compiled type initializer consists of.** -/
theorem Invariant.writesInitializer (h : s.Invariant declared settings) {method : Method}
    {body : Plan} {made : ClassDraft} {graph₁ graph : ClassGraph}
    (hinit : method.isTypeInitializer = true) (hbody : s.Compiles method body graph₁)
    (hcompile : s.draft.compileInitializer graph₁ method body = (.ok made, graph)) :
    ∃ code initializers own, s.WritesInitializer made graph method code initializers own ∧
      made = (s.draft.withConstants ⟨graph, made.constants⟩).withMethod ⟨method, some code⟩ ∧
      Grows (Plan.ComesFrom s.bodies) s.draft.constants made.constants ∧
      ∀ op f, .access op f ∈ code.instructions → s.MayUse made.constants.fields f := by
  obtain ⟨code, bodyEffect, effect, hmade, hgrows, hok, hscope, heach, hcompiled⟩ :=
    h.compileInitializer (hbody.comesFrom_outerCached h.accepted) hcompile
  have hcode := hcompiled.toList_instructions
  have hall := h.grows.trans hgrows
  have hnumbered : made.constants.Numbered := hall.numbered (numbered_new _ _)
  let scope : Scope := ⟨graph₁, s.draft.constants⟩
  refine ⟨code, _, (body.emit scope).code, ⟨hinit, ?_, hcode, ⟨effect, ?_⟩, ?_, ?_⟩, hmade, hgrows, ?_⟩
  · rw [hmade]
    rfl
  · intro σ _ start
    rw [Plan.apply_eq_emit, typeInitializer, Plan.emit, heach]
    rfl
  · rcases hbody with ⟨hsupplied, rfl⟩ | ⟨hnone, rfl⟩
    · refine .inl ⟨body, bodyEffect, hsupplied, fun start => ?_⟩
      rw [Plan.apply_eq_emit, Emitted.onto, hok, hscope]
    · exact .inr ⟨hnone, rfl⟩
  · intro halone
    have hvalues : ∀ v, Plan.ComesFrom s.bodies v → v.LeavesAlone made.constants.fields := by
      rintro v ⟨plan, hplan, hinside⟩ access f hf
      exact halone plan hplan access f (hinside _ hf)
    -- every value reads what was registered before it, and the body comes after all of them
    have horder := storesBeforeLoads_of_grows rfl hall (.refl _) hnumbered hvalues graph
    refine ⟨⟨hnumbered.nodup, horder⟩, hnumbered.nodup, horder.append fun op f hmem hf => ?_⟩
    rcases hbody.mem_bodies h.accepted with hbody | rfl
    · obtain ⟨hop, n, -, hfind⟩ := Plan.loads_of_access_mem_emit (halone body hbody)
        hnumbered.ne_classObjectField hmem hf
      exact ⟨hop, hf⟩
    · exact absurd hmem (not_access_mem_emit_return scope op f)
  · intro op f hmem
    rw [← Array.mem_toList_iff, hcode] at hmem
    rcases List.mem_append.1 hmem with hmem | hmem
    · exact mayUse_of_initializers hall hmem
    · rcases hbody.mem_bodies h.accepted with hbody | rfl
      · have huses := Plan.uses_of_access_mem_emit hmem
        rw [hscope] at huses
        exact mayUse_of_uses (.self hbody) huses (.refl (p := fun _ => True) made.constants)
      · exact absurd hmem (not_access_mem_emit_return scope op f)

/-- The fields of a cache that has grown in the session. -/
theorem Invariant.fields_of_grows (h : s.Invariant declared settings) {c : ConstantCache}
    (hgrows : Grows (Plan.ComesFrom s.bodies) s.draft.constants c) :
    c.fields.Nodup ∧ ∀ f ∈ c.fields, f.owner = declared := by
  have hall := h.grows.trans hgrows
  have hnumbered : c.Numbered := hall.numbered (numbered_new _ _)
  refine ⟨hnumbered.nodup, fun f hf => ?_⟩
  obtain ⟨n, hn⟩ := hnumbered.exists_numbers hf
  rw [hn.owner, hall.owner_eq, ConstantCache.new]

/-- **What a finished class declares, uses and initializes.** A session of any calls is finished, and
the class is written. Then its fields are those of its cached constants, each of them once and declared
by the class; its code uses no other field, except those that the bodies name and those of class
objects; and if there is a constant or a supplied body, the last method is the one type initializer,
which fills all fields in order and goes on with the supplied body. Otherwise there is none. -/
theorem finish_initializes {graph₀ graph₁ graph : ClassGraph} {draft : ClassDraft}
    (hnew : ClassDraft.new settings graph₀ = .ok (draft, graph₁)) {calls : List Call}
    (hrun : (start draft graph₁).run calls = s) {generated : GeneratedClass}
    (hfinish : s.draft.finish s.graph = (.ok generated, graph)) :
    ∃ made : ClassDraft,
      s.draft.withInitializer s.graph = (.ok made, graph) ∧
      made.finalModel.encode graph settings.version = .ok generated.bytes ∧
      made.finalModel.declared = draft.declared ∧
      made.finalModel.fields.toList = made.constants.fields ∧ made.constants.fields.Nodup ∧
      (∀ f ∈ made.constants.fields, f.owner = draft.declared) ∧
      (∀ m ∈ made.finalModel.methods, ∃ code, m.body = some code ∧
        ∀ op f, .access op f ∈ code.instructions → s.MayUse made.constants.fields f) ∧
      (∀ m ∈ s.draft.model.methods, m.method.isTypeInitializer = false) ∧
      (made.constants.size = 0 → s.supplied = none →
        made.finalModel.methods = s.draft.model.methods) ∧
      (made.constants.size ≠ 0 ∨ s.supplied ≠ none → ∃ method code initializers own,
        s.WritesInitializer made graph method code initializers own) := by
  have hinv : s.Invariant draft.declared settings := hrun ▸ (invariant_start hnew).run calls
  obtain ⟨made, hmade, hbytes⟩ := hinv.encode_of_finish hfinish
  obtain ⟨-, hdeclared, hnofields⟩ := hinv.made_keeps hmade
  have hfields := toList_fields_finalModel hnofields
  have hearlier : ∀ m ∈ s.draft.model.methods, m.method.isTypeInitializer = false := by
    intro m hm
    obtain ⟨-, -, hinit, -⟩ := hinv.methods m hm
    exact hinit
  rcases hinv.made_cases hmade with ⟨rfl, hsize, hnone⟩ |
    ⟨method, body, graph₂, hbody, hinit, hcompile, horigin⟩
  · obtain ⟨hnodup, howner⟩ := hinv.fields_of_grows (.refl _)
    refine ⟨s.draft, hmade, hbytes, hdeclared, hfields, hnodup, howner, fun m hm => ?_, hearlier,
      fun _ _ => rfl, ?_⟩
    · exact (hinv.methods m hm).mayUse hinv.accepted (.refl (p := fun _ => True) _)
    · rintro (hconstants | hsupplied)
      · exact absurd hsize hconstants
      · exact absurd hnone hsupplied
  · obtain ⟨code, initializers, own, hwrites, -, hgrows, huses⟩ :=
      hinv.writesInitializer hinit hbody hcompile
    obtain ⟨hnodup, howner⟩ := hinv.fields_of_grows hgrows
    refine ⟨made, hmade, hbytes, hdeclared, hfields, hnodup, howner, fun m hm => ?_, hearlier, ?_,
      fun _ => ⟨method, code, initializers, own, hwrites⟩⟩
    · rw [hwrites.methods_eq] at hm
      rcases Array.mem_push.1 hm with hm | rfl
      · exact (hinv.methods m hm).mayUse hinv.accepted hgrows
      · exact ⟨code, rfl, huses⟩
    · -- with no supplied body there are constants, and the class keeps them
      intro hsize hnone
      have hle := hgrows.size_le
      rcases horigin with ⟨body, hsupplied⟩ | ⟨-, hconstants, -⟩
      · rw [hnone] at hsupplied
        cases hsupplied
      · exact absurd hsize (by omega)

/-! ### A small class -/

/-- A class that is called `A`. -/
def classA : Class := ⟨0, ⟨"A"⟩, ClassFlags.publicClass⟩

/-- The settings of the class. -/
def settingsA : Settings := ⟨classA.name, Version.java8, ⟨"k"⟩⟩

/-- The type initializer of the class. -/
def initializerA : Method :=
  ⟨0, classA, UnqualifiedName.typeInitializer, ⟨[], none⟩, MethodFlags.staticFlag⟩

/-- Read a constant, and return. -/
def bodyA : Plan :=
  .sequence [.cached (.op .null) (.object classA), .op (.pop false), .op (.ret none)]

/-- The empty draft of the class. -/
def draftA : ClassDraft :=
  ⟨settingsA, ClassModel.new classA, .new classA settingsA.cachedNamePart, none⟩

/-- The class graph with the class and nothing else. -/
def graphA : ClassGraph := ⟨#[⟨classA, some Java.object, #[], #[], #[]⟩], 0, 0⟩

/-- The type initializer is given its body. -/
def sessionA : Session :=
  (start draftA graphA).run [.elsewhere .empty, .implement initializerA bodyA]

theorem finish_sessionA :
    ∃ generated graph, sessionA.draft.finish sessionA.graph = (.ok generated, graph) :=
  exists_finish_of_toBool (by cbv)

/-- The constant of the class is initialized, and then the supplied body goes on. -/
theorem finish_initializes_sessionA :
    ∃ (made : ClassDraft) (graph : ClassGraph) (method : Method) (code : MethodBody)
      (initializers own : List SymbolicInstruction),
      sessionA.draft.withInitializer sessionA.graph = (.ok made, graph) ∧
      made.finalModel.fields.toList = made.constants.fields ∧
      sessionA.WritesInitializer made graph method code initializers own := by
  obtain ⟨generated, graph, hfinish⟩ := finish_sessionA
  have hnew : ClassDraft.new settingsA .empty = .ok (draftA, graphA) := rfl
  have hsupplied : sessionA.supplied ≠ none :=
    Option.isSome_iff_ne_none.1 (by decide +kernel)
  obtain ⟨made, hmade, -, -, hfields, -, -, -, -, -, hwrites⟩ :=
    finish_initializes hnew rfl hfinish
  obtain ⟨method, code, initializers, own, hparts⟩ := hwrites (.inr hsupplied)
  exact ⟨made, graph, method, code, initializers, own, hmade, hfields, hparts⟩

end Session

end JvmCodegen.ClassDraft
