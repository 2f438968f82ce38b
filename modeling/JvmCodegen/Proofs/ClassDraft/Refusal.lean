/-
**What a refused body leaves behind.**

A body can be refused at once, or after it has been applied.  Either way no method is compiled and no
type initializer waits for it.  But applying a body registers its constants as it goes, and nothing takes
them back: a body that turns out to be unbalanced, or too large, leaves the constants it asked for.  A
refused body that registers nothing new leaves no trace, and any other is as if its constants had been
asked for and nothing else had happened.

Main definitions:

* `ClassDraft.Session.Answer`, `ClassDraft.Session.answers` — what the calls of a session answer;
* `ClassDraft.Session.BehavesAs` — two sessions that no calls tell apart;
* `ClassDraft.Session.applying` — the session after a body was applied for its constants only.

Main results:

* `ClassDraft.compiled_eq_error` — the reasons why an applied body is refused;
* `ClassDraft.Session.behavesAs_of_eq` — sessions with one draft and one class graph go on alike;
* `ClassDraft.Session.refused_body_leaves_constants` — **a refused body leaves its constants, and
  nothing else**.
-/

import Mathlib
import JvmCodegen.Proofs.ClassDraft.TypeInitializer
import JvmCodegen.Proofs.Stack.Applicability
import JvmCodegen.Proofs.Stack.RegistrationOrder

set_option relaxedAutoImplicit false
set_option autoImplicit false

namespace JvmCodegen

open Stack

/-! ### Reasons to refuse -/

/-- A reason to refuse a body that was applied: it has no effect of its own, or leaves the stack
otherwise than it found it, or loads a method handle in vain, or does not fit into a class file. -/
def IsLateReason (settings : Settings) (method : Method) (reason : Error) : Prop :=
  reason = .impossiblePlan ∨ (∃ impact, impact ≠ 0 ∧ reason = .unbalanced method impact) ∨
    (settings.version.knowsMethodHandles = false ∧
      reason = .body method (.methodHandle settings.version)) ∨
    ∃ overflow, reason = .classFile overflow

namespace ClassDraft

theorem isLateReason_of_compiled {settings : Settings} {code : BodyDraft} {effect : Effect}
    {reason : Error} (h : compiled settings code effect = .error reason) :
    IsLateReason settings code.method reason := by
  unfold compiled at h
  split at h
  case isTrue hunbalanced =>
      cases h
      exact .inr (.inl ⟨_, hunbalanced, rfl⟩)
  case isFalse =>
      split at h
      case isTrue hhandle =>
          cases h
          simp only [Bool.and_eq_true, Bool.not_eq_true'] at hhandle
          exact .inr (.inr (.inl ⟨hhandle.2, rfl⟩))
      case isFalse =>
          split at h
          · cases h
            exact .inr (.inr (.inr ⟨_, rfl⟩))
          · cases h

namespace Session

variable {s s' t : Session} {settings : Settings}

/-! ### What a session answers -/

/-- What a call answers: a method that was declared, or whether a body is accepted. -/
inductive Answer
  | declared (method : Method)
  | implemented (outcome : Except Error Unit)
  | nothing

/-- The answer to a call. -/
def answer (s : Session) : Call → Answer
  | .declare name descriptor flags => .declared (s.draft.declare s.graph name descriptor flags).1
  | .implement method body => .implemented (s.draft.implement s.graph method body).1
  | .elsewhere _ => .nothing

/-- The answers to the calls of a list, one after the other. -/
def answers (s : Session) : List Call → List Answer
  | [] => []
  | call :: calls => s.answer call :: (s.step call).answers calls

/-- No calls tell the sessions apart: all are answered alike, and whenever the class is finished, the
result is the same. -/
structure BehavesAs (s t : Session) : Prop where
  draft_eq : s.draft = t.draft
  graph_eq : s.graph = t.graph
  answers_eq : ∀ calls, s.answers calls = t.answers calls
  finish_eq : ∀ calls, (s.run calls).draft.finish (s.run calls).graph =
    (t.run calls).draft.finish (t.run calls).graph

/-- One call is answered by the draft and the class graph alone. -/
theorem answer_eq_of_eq (hdraft : s.draft = t.draft) (hgraph : s.graph = t.graph) (call : Call) :
    s.answer call = t.answer call ∧ (s.step call).draft = (t.step call).draft ∧
      (s.step call).graph = (t.step call).graph := by
  cases call with
  | declare name descriptor flags =>
      refine ⟨?_, hdraft, ?_⟩
      · rw [answer, answer, hdraft, hgraph]
      · rw [step, step, hdraft, hgraph]
  | elsewhere graph => exact ⟨rfl, hdraft, rfl⟩
  | implement method body =>
      rw [answer, answer, step, step, hdraft, hgraph]
      rcases t.draft.implement t.graph method body with ⟨reason | ⟨⟩, draft, graph⟩
      · exact ⟨rfl, rfl, rfl⟩
      · exact ⟨rfl, rfl, rfl⟩

/-- **Sessions with one draft and one class graph go on alike**, whatever was handed in before. -/
theorem behavesAs_of_eq (hdraft : s.draft = t.draft) (hgraph : s.graph = t.graph) :
    s.BehavesAs t := by
  have hall : ∀ calls, s.answers calls = t.answers calls ∧
      (s.run calls).draft = (t.run calls).draft ∧ (s.run calls).graph = (t.run calls).graph := by
    intro calls
    induction calls generalizing s t with
    | nil => exact ⟨rfl, hdraft, hgraph⟩
    | cons call calls ih =>
        obtain ⟨hanswer, hdraft', hgraph'⟩ := answer_eq_of_eq hdraft hgraph call
        obtain ⟨hanswers, hlast⟩ := ih hdraft' hgraph'
        refine ⟨?_, hlast⟩
        rw [answers, answers, hanswer, hanswers]
  refine ⟨hdraft, hgraph, fun calls => (hall calls).1, fun calls => ?_⟩
  obtain ⟨-, hdraft', hgraph'⟩ := hall calls
  rw [hdraft', hgraph']

/-! ### Refused bodies -/

/-- The session after a body was applied, and whatever it emitted was thrown away. -/
def applying (s : Session) (body : Plan) : Session :=
  let applied := body.apply (⟨#[], ⟨s.graph, s.draft.constants⟩⟩ : Emission (Array SymbolicInstruction))
  { s with draft := s.draft.withConstants applied.2.scope, graph := applied.2.scope.graph }

theorem draft_applying (s : Session) (body : Plan) : (s.applying body).draft =
    s.draft.withConstants (body.emit ⟨s.graph, s.draft.constants⟩).scope := by
  rw [applying, Plan.apply_eq_emit]
  rfl

theorem graph_applying (s : Session) (body : Plan) :
    (s.applying body).graph = (body.emit ⟨s.graph, s.draft.constants⟩).scope.graph := by
  rw [applying, Plan.apply_eq_emit]
  rfl

/-- The constants that are registered once a body has been applied in a session. Whatever was registered
before stays in its place, and after it comes what is new in the constants that the body asked for. These
are all of its constants, if it could be applied to the end. -/
structure HoldsConstants (s : Session) (body : Plan) (c : ConstantCache) : Prop where
  registrations : s.draft.constants.registrations.toList <+: c.registrations.toList
  keys : ∃ asked, asked <+: body.outerCached ∧
    c.keys = (s.draft.constants.keys ++
      asked.flatMap Plan.CachedValue.postorder).eraseDupsBy Plan.CachedValue.same ∧
    ((∃ effect, (body.apply (⟨#[], ⟨s.graph, s.draft.constants⟩⟩ :
      Emission (Array SymbolicInstruction))).1 = .ok effect) → asked = body.outerCached)

/-- **Applying a body registers its constants.** -/
theorem Invariant.holdsConstants {declared : Class} (h : s.Invariant declared settings) (body : Plan) :
    s.HoldsConstants body (s.applying body).draft.constants := by
  rw [draft_applying]
  have hclosed := h.grows.closed (ConstantCache.closed_new declared settings.cachedNamePart)
  have hdistinct := h.grows.eraseDupsBy_keys (by rfl)
  have hgrows := s.grows_emit (List.mem_singleton_self body)
  obtain ⟨asked, hasked, hcache, hall⟩ := body.asksFor_emit ⟨s.graph, s.draft.constants⟩
  refine ⟨hgrows.registrations_prefix, asked, hasked, ?_, ?_⟩
  · rw [eraseDupsBy_append, hdistinct]
    exact Scope.keys_cacheEach_of_closed hclosed hcache
  · rintro ⟨effect, hok⟩
    exact hall effect ((Plan.of_apply_eq (Prod.ext hok rfl)).1)

/-- A body of which all constants are known changes nothing when it is applied. -/
theorem applying_of_knows {body : Plan} (hpossible : body.isPossible = true)
    (h : ∀ n ∈ body.outerCached, s.draft.constants.Knows n) :
    (s.applying body).draft = s.draft ∧ (s.applying body).graph = s.graph := by
  have hscope : (body.emit ⟨s.graph, s.draft.constants⟩).scope = ⟨s.graph, s.draft.constants⟩ :=
    Plan.scope_emit_of_knows fun n hn => ⟨Plan.isPossible_of_mem_outerCached hpossible hn, h n hn⟩
  rw [draft_applying, graph_applying, hscope]
  exact ⟨rfl, rfl⟩

theorem step_of_refused {method : Method} {body : Plan} {reason : Error} {draft : ClassDraft}
    {graph : ClassGraph} (h : s.draft.implement s.graph method body = (.error reason, draft, graph)) :
    s.step (.implement method body) = ⟨draft, graph, body :: s.bodies, s.accepted⟩ := by
  rw [step, h]

/-- **A refused body leaves its constants, and nothing else.** In a session of any calls a body is
refused. No method is compiled, no type initializer waits that did not wait before, and the settings
stay. If the body was refused at once, nothing has changed at all, and no later call or finished class
can tell. Otherwise the session is as if the body had only been applied: earlier constants stay in their
places, and the constants of the body are registered after them, all of them if it could be applied to
the end. If these were known before, nothing has changed either. -/
theorem refused_body_leaves_constants {graph₀ graph₁ : ClassGraph} {draft : ClassDraft}
    (hnew : ClassDraft.new settings graph₀ = .ok (draft, graph₁)) {calls : List Call}
    (hrun : (start draft graph₁).run calls = s) {method : Method} {body : Plan} {reason : Error}
    (hrefused : (s.draft.implement s.graph method body).1 = .error reason)
    (hstep : s.step (.implement method body) = s') :
    s'.draft.model = s.draft.model ∧ s'.draft.pending = s.draft.pending ∧
      s'.draft.settings = s.draft.settings ∧ s'.accepted = s.accepted ∧
      ((∃ fault, s.draft.fault? method body = some fault ∧ reason = .body method fault ∧
          s'.BehavesAs s) ∨
        s.draft.fault? method body = none ∧ IsLateReason settings method reason ∧
          s'.BehavesAs (s.applying body) ∧ s.HoldsConstants body s'.draft.constants ∧
          ((∀ n ∈ body.outerCached, s.draft.constants.Knows n) → s'.BehavesAs s)) := by
  have hinv : s.Invariant draft.declared settings := hrun ▸ (invariant_start hnew).run calls
  rcases hcall : s.draft.implement s.graph method body with ⟨outcome, draft', graph'⟩
  rw [hcall] at hrefused
  cases hrefused
  rw [step_of_refused hcall] at hstep
  subst hstep
  rcases implement_eq_error rfl hcall with
    ⟨fault, hfault, rfl, rfl, rfl⟩ | ⟨hfit, hdraft, hgraph, hlate⟩
  · exact ⟨rfl, rfl, rfl, rfl, .inl ⟨fault, hfault, rfl, behavesAs_of_eq rfl rfl⟩⟩
  · -- applying the body has changed the constants of the draft, and nothing else in it
    have hmodel : draft'.model = s.draft.model ∧ draft'.pending = s.draft.pending ∧
        draft'.settings = s.draft.settings := by
      rw [hdraft]
      exact ⟨rfl, rfl, rfl⟩
    rw [← draft_applying] at hdraft
    rw [← graph_applying] at hgraph
    refine ⟨hmodel.1, hmodel.2.1, hmodel.2.2, rfl, .inr ⟨hfit, ?_, behavesAs_of_eq hdraft hgraph,
      ?_, fun hknown => ?_⟩⟩
    · rcases hlate with hfailed | ⟨effect, -, hcompiled⟩
      · exact .inl (Plan.impossiblePlan_of_emit hfailed)
      · have hreason := isLateReason_of_compiled hcompiled
        rwa [BodyDraft.method_foldl, hinv.settings_eq] at hreason
    · rw [hdraft]
      exact hinv.holdsConstants body
    · obtain ⟨hdraft', hgraph'⟩ := applying_of_knows (fault?_eq_none_iff.1 hfit).2.2 hknown
      exact behavesAs_of_eq (hdraft.trans hdraft') (hgraph.trans hgraph')

/-! ### A constant that stays -/

/-- A method of the class that takes nothing and returns nothing. -/
def methodA : Method := ⟨0, classA, ⟨"m"⟩, ⟨[], none⟩, MethodFlags.staticFlag⟩

/-- Read a constant, and return without taking it off the stack. -/
def unbalancedA : Plan := .sequence [.cached (.op .null) (.object classA), .op (.ret none)]

/-- The unbalanced body is handed in. -/
def refusedA : Session := (start draftA graphA).step (.implement methodA unbalancedA)

theorem implement_unbalancedA :
    (draftA.implement graphA methodA unbalancedA).1 = .error (.unbalanced methodA 1) := by cbv

/-- The unbalanced body leaves its constant. -/
theorem refused_body_leaves_constants_unbalancedA :
    refusedA.draft.model = draftA.model ∧ refusedA.draft.pending = none ∧
      refusedA.BehavesAs ((start draftA graphA).applying unbalancedA) ∧
      (start draftA graphA).HoldsConstants unbalancedA refusedA.draft.constants := by
  have hnew : ClassDraft.new settingsA .empty = .ok (draftA, graphA) := rfl
  have hrun : (start draftA graphA).run [] = start draftA graphA := rfl
  obtain ⟨hmodel, hpending, -, -, hlate⟩ :=
    refused_body_leaves_constants hnew hrun implement_unbalancedA rfl
  rcases hlate with ⟨fault, -, hreason, -⟩ | ⟨-, -, hbehaves, hholds, -⟩
  · cases hreason
  · exact ⟨hmodel, hpending, hbehaves, hholds⟩

/-- The numbers of fields and methods of the class that a session would be finished with. -/
def membersMade (s : Session) : Option (Nat × Nat) :=
  (s.draft.withInitializer s.graph).1.toOption.map fun made =>
    (made.finalModel.fields.size, made.finalModel.methods.size)

/-- **A refused body can leave a trace.** The unbalanced body is refused, but its constant stays: the
class that is made afterwards has a field, and a type initializer that fills it. -/
theorem refused_body_leaves_a_trace :
    ClassDraft.new settingsA .empty = .ok (draftA, graphA) ∧
      (draftA.implement graphA methodA unbalancedA).1 = .error (.unbalanced methodA 1) ∧
      draftA.constants.size = 0 ∧ refusedA.draft.constants.size = 1 ∧
      (start draftA graphA).membersMade = some (0, 0) ∧ refusedA.membersMade = some (1, 1) := by
  refine ⟨rfl, implement_unbalancedA, rfl, ?_, ?_, ?_⟩
  · cbv
  · cbv
  · cbv

end Session

end ClassDraft

end JvmCodegen
