/-
**Working on a draft.**

A class is written in a session: methods are declared and given bodies in any order, some of the
bodies are refused, and the class graph grows on the side.  Whatever the order, the compiled methods
come from accepted bodies, the constants come from bodies that were handed in, and the type
initializer that waits is the last one accepted.

Main definitions:

* `ClassDraft.Call`, `ClassDraft.Session`, `ClassDraft.Session.step`, `ClassDraft.Session.run` — what
  can happen to a draft, and what has happened;
* `ClassDraft.Session.Invariant` — what is true at all times.

Main results:

* `ClassDraft.addCompiled_cases`, `ClassDraft.implement_eq_ok`, `ClassDraft.implement_eq_error`,
  `ClassDraft.implement_cases` — what a body can do to the draft;
* `ClassDraft.Session.Invariant.step`, `ClassDraft.Session.Invariant.run` — **the invariant is kept**,
  call by call and over a whole session.
-/

import JvmCodegen.ClassDraft
import JvmCodegen.Proofs.Stack.CacheFields

set_option relaxedAutoImplicit false
set_option autoImplicit false

namespace JvmCodegen

open Stack

/-! ### Gathering instructions -/

@[simp] theorem toList_foldl_append (gathered : Array SymbolicInstruction)
    (code : List SymbolicInstruction) :
    (code.foldl CodeCollector.append gathered).toList = gathered.toList ++ code := by
  induction code generalizing gathered with
  | nil => rw [List.foldl_nil, List.append_nil]
  | cons i code ih =>
      rw [List.foldl_cons, ih]
      simp [CodeCollector.append]

@[simp] theorem BodyDraft.instructions_foldl (b : BodyDraft) (code : List SymbolicInstruction) :
    (code.foldl CodeCollector.append b).instructions.toList = b.instructions.toList ++ code := by
  induction code generalizing b with
  | nil => rw [List.foldl_nil, List.append_nil]
  | cons i code ih =>
      rw [List.foldl_cons, ih]
      simp [CodeCollector.append, append]

@[simp] theorem BodyDraft.method_foldl (b : BodyDraft) (code : List SymbolicInstruction) :
    (code.foldl CodeCollector.append b).method = b.method := by
  induction code generalizing b with
  | nil => rfl
  | cons i code ih => rw [List.foldl_cons, ih]; rfl

/-- The body has the instructions that were gathered, as many slots of local variables as they need,
and an operand stack of the reported peak; and the instructions leave the stack as they find it. -/
structure MethodBody.IsCompiledFrom (body : MethodBody) (code : BodyDraft) (effect : Effect) :
    Prop where
  instructions_eq : body.instructions = code.instructions
  balanced : effect.impact = 0
  maxStack_eq : body.maxStack.toNat = effect.peak.toNat
  maxLocals_eq : body.maxLocals.toNat = code.maxLocals

/-- A finished body has the sizes of its frame, which fit in their places. -/
theorem BodyDraft.finish_eq_ok {b : BodyDraft} {maxStack : Nat} {body : MethodBody}
    (h : b.finish maxStack = .ok body) :
    body.instructions = b.instructions ∧ body.maxStack.toNat = maxStack ∧
      body.maxLocals.toNat = b.maxLocals := by
  unfold finish at h
  split at h
  case isTrue => cases h
  case isFalse hstack =>
      split at h
      case isTrue => cases h
      case isFalse hlocals =>
          cases h
          refine ⟨rfl, ?_, ?_⟩
          · rw [UInt16.toNat_ofNat']
            exact Nat.mod_eq_of_lt (by omega)
          · rw [UInt16.toNat_ofNat']
            exact Nat.mod_eq_of_lt (by omega)

/-- A body that is compiled from the code of a method has that code. -/
theorem MethodBody.IsCompiledFrom.toList_instructions {body : MethodBody} {method : Method}
    {code : List SymbolicInstruction} {effect : Effect}
    (h : body.IsCompiledFrom (code.foldl CodeCollector.append (BodyDraft.new method)) effect) :
    body.instructions.toList = code := by
  rw [h.instructions_eq, BodyDraft.instructions_foldl]
  rfl

namespace ClassDraft

/-! ### What a body can do -/

/-- The draft with one more compiled method. -/
def withMethod (draft : ClassDraft) (m : MethodModel) : ClassDraft :=
  { draft with model := { draft.model with methods := draft.model.methods.push m } }

/-- A compiled method has a body that was compiled from what was gathered for it. -/
theorem compiled_eq_ok {settings : Settings} {code : BodyDraft} {effect : Effect} {m : MethodModel}
    (h : compiled settings code effect = .ok m) :
    ∃ body : MethodBody, body.IsCompiledFrom code effect ∧ m = ⟨code.method, some body⟩ := by
  unfold compiled at h
  split at h
  case isTrue => cases h
  case isFalse hbalanced =>
      split at h
      · cases h
      · split at h
        case h_1 => cases h
        case h_2 body hfinish =>
            cases h
            obtain ⟨hcode, hstack, hlocals⟩ := BodyDraft.finish_eq_ok hfinish
            exact ⟨body, ⟨hcode, Decidable.not_not.1 hbalanced, hstack, hlocals⟩, rfl⟩

/-- A draft that refuses a method stays as it is, and one that takes it has one more. -/
theorem addCompiled_cases (draft : ClassDraft) (code : BodyDraft) (effect : Effect) :
    (∃ reason, draft.addCompiled code effect = (.error reason, draft)) ∨
    ∃ body : MethodBody, body.IsCompiledFrom code effect ∧
      draft.addCompiled code effect = (.ok (), draft.withMethod ⟨code.method, some body⟩) := by
  rw [addCompiled]
  cases hcompiled : compiled draft.settings code effect with
  | error reason => exact .inl ⟨reason, rfl⟩
  | ok m =>
      obtain ⟨body, hcode, rfl⟩ := compiled_eq_ok hcompiled
      exact .inr ⟨body, hcode, rfl⟩

/-- A method that is added has a body that was compiled from what was gathered for it. -/
theorem addCompiled_eq_ok {draft draft' : ClassDraft} {code : BodyDraft} {effect : Effect}
    (h : draft.addCompiled code effect = (.ok (), draft')) :
    ∃ body : MethodBody, body.IsCompiledFrom code effect ∧
      draft' = draft.withMethod ⟨code.method, some body⟩ := by
  rcases addCompiled_cases draft code effect with ⟨reason, heq⟩ | ⟨body, hcode, heq⟩
  · rw [h] at heq
    cases heq
  · rw [h] at heq
    exact ⟨body, hcode, (Prod.mk.inj heq).2⟩

/-- The draft with the constants of a scope. -/
def withConstants (draft : ClassDraft) (s : Scope) : ClassDraft :=
  { draft with constants := s.constants }

/-- A body is looked into if the method belongs to the class and has no body yet, and the body is
possible. -/
theorem fault?_eq_none_iff {draft : ClassDraft} {method : Method} {body : Plan} :
    draft.fault? method body = none ↔ method.owner = draft.declared ∧
      draft.isImplemented method = false ∧ body.isPossible = true := by
  unfold fault?
  by_cases howner : method.owner = draft.declared
  · cases draft.isImplemented method <;> cases body.isPossible <;> simp [howner]
  · simp [howner]

/-- A body that is not refused at once is applied and compiled. -/
theorem implement_of_fit {draft : ClassDraft} {method : Method} {body : Plan}
    (hfault : draft.fault? method body = none) (hinit : method.isTypeInitializer = false)
    (graph : ClassGraph) {r : Emitted} (hr : body.emit ⟨graph, draft.constants⟩ = r) :
    draft.implement graph method body =
      match r.outcome with
      | .error reason => (.error reason, draft.withConstants r.scope, r.scope.graph)
      | .ok effect =>
          let code := r.code.foldl CodeCollector.append (BodyDraft.new method)
          let added := (draft.withConstants r.scope).addCompiled code effect
          (added.1, added.2, r.scope.graph) := by
  simp only [implement, hfault, hinit, Bool.false_eq_true, if_false, Plan.apply_eq_emit, hr,
    Emitted.onto]
  cases r.outcome <;> rfl

/-- **How a body is accepted.** There was nothing to refuse at once. If it is that of a type initializer,
it waits from now on, and otherwise it has been applied and compiled. -/
theorem implement_eq_ok {draft draft' : ClassDraft} {graph graph' : ClassGraph} {method : Method}
    {body : Plan} {r : Emitted} (hr : body.emit ⟨graph, draft.constants⟩ = r)
    (h : draft.implement graph method body = (.ok (), draft', graph')) :
    draft.fault? method body = none ∧
      (method.isTypeInitializer = true ∧ draft' = { draft with pending := some (method, body) } ∧
          graph' = graph ∨
        method.isTypeInitializer = false ∧ ∃ (effect : Effect) (compiled : MethodBody),
          r.outcome = .ok effect ∧
          compiled.IsCompiledFrom (r.code.foldl CodeCollector.append (BodyDraft.new method)) effect ∧
          draft' = (draft.withConstants r.scope).withMethod ⟨method, some compiled⟩ ∧
          graph' = r.scope.graph) := by
  cases hfault : draft.fault? method body with
  | some fault =>
      simp only [implement, hfault] at h
      cases h
  | none =>
      refine ⟨rfl, ?_⟩
      cases hinit : method.isTypeInitializer with
      | true =>
          simp only [implement, hfault, hinit, if_true] at h
          cases h
          exact .inl ⟨rfl, rfl, rfl⟩
      | false =>
          rw [implement_of_fit hfault hinit graph hr] at h
          cases hok : r.outcome with
          | error reason =>
              simp only [hok] at h
              cases h
          | ok effect =>
              simp only [hok] at h
              rcases addCompiled_cases (draft.withConstants r.scope)
                (r.code.foldl CodeCollector.append (BodyDraft.new method)) effect with
                ⟨reason, hadd⟩ | ⟨compiled, hcode, hadd⟩
              · simp only [hadd] at h
                cases h
              · simp only [hadd, BodyDraft.method_foldl] at h
                cases h
                exact .inr ⟨rfl, effect, compiled, rfl, hcode, rfl, rfl⟩

/-- **How a body is refused.** There is a reason to refuse it at once, and nothing changes; or it has
been applied, and its constants are kept although it could not be applied to the end or compiled. -/
theorem implement_eq_error {draft draft' : ClassDraft} {graph graph' : ClassGraph} {method : Method}
    {body : Plan} {r : Emitted} (hr : body.emit ⟨graph, draft.constants⟩ = r) {reason : Error}
    (h : draft.implement graph method body = (.error reason, draft', graph')) :
    (∃ fault, draft.fault? method body = some fault ∧ reason = .body method fault ∧
        draft' = draft ∧ graph' = graph) ∨
      draft.fault? method body = none ∧ draft' = draft.withConstants r.scope ∧
        graph' = r.scope.graph ∧
        (r.outcome = .error reason ∨ ∃ effect, r.outcome = .ok effect ∧
          compiled draft.settings (r.code.foldl CodeCollector.append (BodyDraft.new method)) effect =
            .error reason) := by
  cases hfault : draft.fault? method body with
  | some fault =>
      simp only [implement, hfault] at h
      cases h
      exact .inl ⟨fault, rfl, rfl, rfl, rfl⟩
  | none =>
      refine .inr ⟨rfl, ?_⟩
      cases hinit : method.isTypeInitializer with
      | true =>
          simp only [implement, hfault, hinit, if_true] at h
          cases h
      | false =>
          rw [implement_of_fit hfault hinit graph hr] at h
          cases hok : r.outcome with
          | error reason' =>
              simp only [hok] at h
              cases h
              exact ⟨rfl, rfl, .inl rfl⟩
          | ok effect =>
              simp only [hok, addCompiled] at h
              split at h
              · rename_i reason' hcompiled
                cases h
                exact ⟨rfl, rfl, .inr ⟨effect, rfl, hcompiled⟩⟩
              · cases h

/-- **What a body can do.** It is refused at once; or it waits, being a type initializer; or it is
applied, and is refused afterwards or compiled. -/
theorem implement_cases (draft : ClassDraft) (graph : ClassGraph) (method : Method) (body : Plan) :
    (∃ reason, draft.implement graph method body = (.error reason, draft, graph)) ∨
    (method.isTypeInitializer = true ∧ draft.implement graph method body =
      (.ok (), { draft with pending := some (method, body) }, graph)) ∨
    ∃ r : Emitted, body.emit ⟨graph, draft.constants⟩ = r ∧
      ((∃ reason, draft.implement graph method body =
          (.error reason, draft.withConstants r.scope, r.scope.graph)) ∨
        (method.isTypeInitializer = false ∧ ∃ (effect : Effect) (compiled : MethodBody),
          r.outcome = .ok effect ∧
          compiled.IsCompiledFrom (r.code.foldl CodeCollector.append (BodyDraft.new method)) effect ∧
          draft.implement graph method body =
            (.ok (), (draft.withConstants r.scope).withMethod ⟨method, some compiled⟩,
              r.scope.graph))) := by
  rcases hcall : draft.implement graph method body with ⟨reason | ⟨⟩, draft', graph'⟩
  · rcases implement_eq_error rfl hcall with ⟨fault, -, -, rfl, rfl⟩ | ⟨-, rfl, rfl, -⟩
    · exact .inl ⟨reason, rfl⟩
    · exact .inr (.inr ⟨_, rfl, .inl ⟨reason, rfl⟩⟩)
  · rcases implement_eq_ok rfl hcall with
      ⟨-, ⟨hinit, rfl, rfl⟩ | ⟨hinit, effect, compiled, hok, hcode, rfl, rfl⟩⟩
    · exact .inr (.inl ⟨hinit, rfl⟩)
    · exact .inr (.inr ⟨_, rfl, .inr ⟨hinit, effect, compiled, hok, hcode, rfl⟩⟩)

/-! ### Sessions -/

/-- What can happen to a draft, and around it. -/
inductive Call
  | declare (name : UnqualifiedName) (descriptor : MethodDescriptor Class) (flags : MethodFlags)
  | implement (method : Method) (body : Plan)
  /-- The class graph is another one from now on. -/
  | elsewhere (graph : ClassGraph)

/-- A draft with what has happened to it. -/
structure Session where
  draft : ClassDraft
  graph : ClassGraph
  /-- All bodies that were handed in, the newest first. -/
  bodies : List Plan
  /-- The bodies that were accepted, with their methods, the newest first. -/
  accepted : List (Method × Plan)

namespace Session

/-- The beginning of a session. -/
def start (draft : ClassDraft) (graph : ClassGraph) : Session := ⟨draft, graph, [], []⟩

/-- What a call does. -/
def step (s : Session) : Call → Session
  | .declare name descriptor flags =>
      { s with graph := (s.draft.declare s.graph name descriptor flags).2 }
  | .implement method body =>
      match s.draft.implement s.graph method body with
      | (.ok (), draft, graph) => ⟨draft, graph, body :: s.bodies, (method, body) :: s.accepted⟩
      | (.error _, draft, graph) => ⟨draft, graph, body :: s.bodies, s.accepted⟩
  | .elsewhere graph => { s with graph := graph }

/-- What the calls of a list do, one after the other. -/
def run (s : Session) (calls : List Call) : Session := calls.foldl step s

/-- The type initializer that was accepted last, with its body. -/
def supplied (s : Session) : Option (Method × Plan) :=
  s.accepted.find? fun given => given.1.isTypeInitializer

/-- The code of a method was emitted for an accepted body. -/
def Explains (s : Session) (m : MethodModel) : Prop :=
  ∃ body, (m.method, body) ∈ s.accepted ∧ m.method.isTypeInitializer = false ∧
    ∃ (code : MethodBody) (scope : Scope), m.body = some code ∧
      code.instructions.toList = (body.emit scope).code ∧
      ConstantCache.Grows (Plan.ComesFrom s.bodies) (body.emit scope).scope.constants
        s.draft.constants

variable {s s' : Session} {m : MethodModel}

/-- What explains a method goes on explaining it. -/
theorem Explains.mono (h : s.Explains m) (haccepted : ∀ given ∈ s.accepted, given ∈ s'.accepted)
    (hbodies : ∀ v, Plan.ComesFrom s.bodies v → Plan.ComesFrom s'.bodies v)
    (hgrows : ConstantCache.Grows (Plan.ComesFrom s'.bodies) s.draft.constants s'.draft.constants) :
    s'.Explains m := by
  obtain ⟨body, hgiven, hinit, code, scope, hbody, hcode, hlater⟩ := h
  exact ⟨body, haccepted _ hgiven, hinit, code, scope, hbody, hcode,
    (hlater.mono hbodies).trans hgrows⟩

/-- What is true at all times, for a class and its settings. -/
structure Invariant (declared : Class) (settings : Settings) (s : Session) : Prop where
  declared_eq : s.draft.declared = declared
  settings_eq : s.draft.settings = settings
  grows : ConstantCache.Grows (Plan.ComesFrom s.bodies)
    (ConstantCache.new declared settings.cachedNamePart) s.draft.constants
  fields_eq : s.draft.model.fields = #[]
  methods : ∀ m ∈ s.draft.model.methods, s.Explains m
  accepted : ∀ given ∈ s.accepted, given.2 ∈ s.bodies
  pending_eq : s.draft.pending = s.supplied

/-- The invariant holds at the beginning. -/
theorem invariant_start {settings : Settings} {graph graph' : ClassGraph} {draft : ClassDraft}
    (h : ClassDraft.new settings graph = .ok (draft, graph')) :
    (start draft graph').Invariant draft.declared settings := by
  unfold ClassDraft.new at h
  split at h
  · cases h
  · cases h
    exact ⟨rfl, rfl, .refl _, rfl, fun m hm => absurd hm (Array.not_mem_empty m),
      fun _ h => absurd h List.not_mem_nil, rfl⟩

/-- Applying a body registers constants that come from it. -/
theorem grows_emit (s : Session) {body : Plan} {bodies : List Plan} (h : body ∈ bodies) :
    ConstantCache.Grows (Plan.ComesFrom bodies) s.draft.constants
      (body.emit ⟨s.graph, s.draft.constants⟩).scope.constants :=
  Plan.grows_emit (.hereditary _) (fun _ hn => .of_mem_outerCached h hn) ⟨s.graph, s.draft.constants⟩

namespace Invariant

variable {declared : Class} {settings : Settings}

/-- Handing in a body keeps the invariant. -/
theorem implement (h : s.Invariant declared settings) (method : Method) (body : Plan) :
    (s.step (.implement method body)).Invariant declared settings := by
  have hbodies : ∀ v, Plan.ComesFrom s.bodies v → Plan.ComesFrom (body :: s.bodies) v :=
    fun v hv => hv.cons body
  have hgrows := h.grows.mono hbodies
  have haccepted : ∀ given ∈ s.accepted, given.2 ∈ body :: s.bodies :=
    fun given hgiven => List.mem_cons_of_mem body (h.accepted given hgiven)
  rcases implement_cases s.draft s.graph method body with
    ⟨reason, heq⟩ | ⟨hinit, heq⟩ |
    ⟨r, hr, ⟨reason, heq⟩ | ⟨hinit, effect, compiled, hok, hcompiled, heq⟩⟩
  · -- refused at once: nothing but the list of bodies changes
    rw [step, heq]
    exact ⟨h.declared_eq, h.settings_eq, hgrows, h.fields_eq,
      fun m hm => (h.methods m hm).mono (fun _ hg => hg) hbodies (.refl _), haccepted, h.pending_eq⟩
  · -- the new type initializer takes the place of one that waits
    rw [step, heq]
    refine ⟨h.declared_eq, h.settings_eq, hgrows, h.fields_eq, fun m hm => ?_, ?_, ?_⟩
    · exact (h.methods m hm).mono (fun _ hg => List.mem_cons_of_mem _ hg) hbodies (.refl _)
    · rintro given (_ | ⟨_, hgiven⟩)
      · exact List.mem_cons_self
      · exact haccepted given hgiven
    · simp only [supplied, List.find?_cons, hinit]
  · -- refused when its constants were registered already
    have hemit := s.grows_emit (List.mem_cons_self (a := body) (l := s.bodies))
    rw [hr] at hemit
    rw [step, heq]
    exact ⟨h.declared_eq, h.settings_eq, hgrows.trans hemit, h.fields_eq,
      fun m hm => (h.methods m hm).mono (fun _ hg => hg) hbodies hemit, haccepted, h.pending_eq⟩
  · have hemit := s.grows_emit (List.mem_cons_self (a := body) (l := s.bodies))
    rw [hr] at hemit
    rw [step, heq]
    refine ⟨h.declared_eq, h.settings_eq, hgrows.trans hemit, h.fields_eq, fun m hm => ?_, ?_, ?_⟩
    · rcases Array.mem_push.1 hm with hm | rfl
      · exact (h.methods m hm).mono (fun _ hg => List.mem_cons_of_mem _ hg) hbodies hemit
      · refine ⟨body, List.mem_cons_self, hinit, compiled, ⟨s.graph, s.draft.constants⟩, rfl, ?_, ?_⟩
        · rw [hcompiled.toList_instructions, hr]
        · rw [hr]
          exact .refl _
    · rintro given (_ | ⟨_, hgiven⟩)
      · exact List.mem_cons_self
      · exact haccepted given hgiven
    · simp only [supplied, List.find?_cons, hinit]
      exact h.pending_eq

/-- **Every call keeps the invariant.** -/
theorem step (h : s.Invariant declared settings) (call : Call) :
    (s.step call).Invariant declared settings := by
  cases call with
  | implement method body => exact h.implement method body
  | declare name descriptor flags =>
      obtain ⟨hdeclared, hsettings, hgrows, hfields, hmethods, haccepted, hpending⟩ := h
      exact ⟨hdeclared, hsettings, hgrows, hfields, hmethods, haccepted, hpending⟩
  | elsewhere graph =>
      obtain ⟨hdeclared, hsettings, hgrows, hfields, hmethods, haccepted, hpending⟩ := h
      exact ⟨hdeclared, hsettings, hgrows, hfields, hmethods, haccepted, hpending⟩

/-- **The invariant is kept over a whole session.** -/
theorem run (h : s.Invariant declared settings) (calls : List Call) :
    (s.run calls).Invariant declared settings := by
  induction calls generalizing s with
  | nil => exact h
  | cons call calls ih => exact ih (h.step call)

end Invariant

end Session

end ClassDraft

end JvmCodegen
