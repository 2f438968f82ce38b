/-
**The order in which constants are registered.**

Asking for constants goes through the plans from left to right, and for each constant through those
inside it first; a constant that is the same as a registered one is passed over, with all that is inside
it.  What is registered in the end is therefore easy to say: list all cached constants in post-order, at
any depth, and keep the first of those that are the same.

Main definitions:

* `Stack.addNew` — a list with one more element, unless there is one like it;
* `Stack.Plan.postorder` — all cached constants of a plan, at any depth, in post-order;
* `Stack.ConstantCache.keys` — what is registered, in order;
* `Stack.ConstantCache.Closed` — whatever is inside a known constant is known;
* `Stack.Emitted.AsksFor` — the constants that were asked for while something was emitted;
* `Stack.Ask`, `Stack.ConstantCache.Answered` — what a cache can be asked, and a run of answers.

Main results:

* `Stack.eraseDupsBy_eq_foldl` — the first occurrences, one element after the other;
* `Stack.Plan.postorder_eq_flatMap` — the listing by way of the outer constants;
* `Stack.ConstantCache.Grows.closed` — caches stay closed;
* `Stack.Plan.asksFor_emit` — applying a plan asks for its outer constants;
* `Stack.Scope.keys_cache`, `Stack.Plan.keys_emit` — asking for a constant and applying a plan register
  what is new in their listings;
* `Stack.ConstantCache.Answered.registers_first_occurrences` — **a run of answers registers the first
  occurrences of the listing**, and numbers their fields.
-/

import Mathlib.Data.List.Induction
import JvmCodegen.Proofs.Stack.Initialization
import JvmCodegen.Proofs.Stack.Sameness

set_option relaxedAutoImplicit false
set_option autoImplicit false

namespace JvmCodegen.Stack

/-! ### First occurrences -/

section FirstOccurrences

variable {α : Type} (like : α → α → Bool)

/-- The list with one more element at its end, unless it has one like it. -/
def addNew (kept : List α) (a : α) : List α :=
  if kept.any (like a) then kept else kept ++ [a]

theorem addNew_of_any {kept : List α} {a : α} (h : kept.any (like a) = true) :
    addNew like kept a = kept := by rw [addNew, if_pos h]

theorem addNew_of_not_any {kept : List α} {a : α} (h : kept.any (like a) = false) :
    addNew like kept a = kept ++ [a] := by rw [addNew, h, if_neg Bool.false_ne_true]

/-- Where there is an element like each of a list, the list adds nothing. -/
theorem foldl_addNew_of_any {kept l : List α} (h : ∀ a ∈ l, kept.any (like a) = true) :
    l.foldl (addNew like) kept = kept := by
  induction l with
  | nil => rfl
  | cons a l ih =>
      rw [List.foldl_cons, addNew_of_any like (h a List.mem_cons_self)]
      exact ih fun b hb => h b (List.mem_cons_of_mem a hb)

theorem eraseDupsBy_loop_eq (l kept : List α) :
    List.eraseDupsBy.loop like l kept = l.foldl (addNew like) kept.reverse := by
  induction l generalizing kept with
  | nil => rfl
  | cons a l ih =>
      rw [List.eraseDupsBy.loop, List.foldl_cons]
      cases hany : kept.any (like a) with
      | true =>
          rw [addNew_of_any like (by simpa using hany)]
          exact ih kept
      | false =>
          rw [addNew_of_not_any like (by simpa using hany), ← List.reverse_cons]
          exact ih (a :: kept)

/-- The first occurrences are found by adding one element after the other. -/
theorem eraseDupsBy_eq_foldl (l : List α) : l.eraseDupsBy like = l.foldl (addNew like) [] :=
  eraseDupsBy_loop_eq like l []

theorem eraseDupsBy_append (a b : List α) :
    (a ++ b).eraseDupsBy like = b.foldl (addNew like) (a.eraseDupsBy like) := by
  rw [eraseDupsBy_eq_foldl, eraseDupsBy_eq_foldl, List.foldl_append]

end FirstOccurrences

/-! ### All cached constants -/

namespace Plan

mutual

/-- All cached constants of a plan, at any depth, from left to right, each one after those inside it. -/
def postorder : Plan → List CachedValue
  | sequence parts => postorderEach parts
  | cached value type => value.postorder ++ [⟨value, type⟩]
  | array _ elements => postorderEach elements
  | impossible | nothing | op _ | methodObject _ => []

/-- All cached constants of the plans of a list. -/
def postorderEach : List Plan → List CachedValue
  | [] => []
  | plan :: rest => plan.postorder ++ postorderEach rest

end

/-- All constants inside a constant, and then the constant itself. -/
def CachedValue.postorder (n : CachedValue) : List CachedValue := n.value.postorder ++ [n]

theorem postorderEach_eq_flatMap {plans : List Plan}
    (h : ∀ p ∈ plans, p.postorder = p.outerCached.flatMap CachedValue.postorder) :
    postorderEach plans = (plans.flatMap outerCached).flatMap CachedValue.postorder := by
  induction plans with
  | nil => rfl
  | cons plan plans ih =>
      have htail := ih fun p hp => h p (List.mem_cons_of_mem plan hp)
      rw [postorderEach, h plan List.mem_cons_self, htail, List.flatMap_cons, List.flatMap_append]

/-- The listing goes through the outer constants, one after the other. -/
theorem postorder_eq_flatMap (plan : Plan) :
    plan.postorder = plan.outerCached.flatMap CachedValue.postorder := by
  induction plan with
  | impossible | nothing | op _ | methodObject _ => simp [postorder]
  | cached value type _ => simp [postorder, CachedValue.postorder]
  | sequence parts ih => rw [postorder, outerCached_sequence, postorderEach_eq_flatMap ih]
  | array component elements ih => rw [postorder, outerCached_array, postorderEach_eq_flatMap ih]

end Plan

/-! ### What is registered -/

/-- What was asked for when the constant was registered. -/
def Registration.key (r : Registration) : Plan.CachedValue := ⟨r.value, r.type⟩

namespace ConstantCache

variable {c d : ConstantCache} {m n : Plan.CachedValue}

/-- What is registered, in the order of registration. -/
def keys (c : ConstantCache) : List Plan.CachedValue := c.registrations.toList.map Registration.key

@[simp] theorem keys_push (c : ConstantCache) (serial : Nat) (value : Plan) (type : ValueType) :
    (c.push serial value type).keys = c.keys ++ [⟨value, type⟩] := by
  simp [keys, push, Registration.key, Registration.type, nextField]

/-- A constant is known if a registered one is the same. -/
theorem knows_iff : c.Knows n ↔ c.keys.any n.same = true := by
  have hsame : ∀ r : Registration,
      (r.type == n.type && r.value.same n.value) = true ↔ n.same r.key = true := by
    intro r
    constructor
    · intro h
      exact Plan.CachedValue.same_symm (m := r.key) h
    · intro h
      exact Plan.CachedValue.same_symm (n := r.key) h
  constructor
  · rintro ⟨field, hfield⟩
    obtain ⟨r, hr, -⟩ := Option.map_eq_some_iff.1 hfield
    have hmatch := Array.find?_some hr
    refine List.any_eq_true.2 ⟨r.key, ?_, (hsame r).1 hmatch⟩
    exact List.mem_map_of_mem (Array.mem_toList_iff.2 (Array.mem_of_find?_eq_some hr))
  · intro hany
    obtain ⟨key, hkey, heq⟩ := List.any_eq_true.1 hany
    obtain ⟨r, hr, rfl⟩ := List.mem_map.1 hkey
    have hfound : (c.registrations.find? fun r => r.type == n.type && r.value.same n.value).isSome := by
      rw [Array.find?_isSome]
      exact ⟨r, Array.mem_toList_iff.1 hr, (hsame r).2 heq⟩
    obtain ⟨r', hr'⟩ := Option.isSome_iff_exists.1 hfound
    exact ⟨r'.field, by rw [find?, hr']; rfl⟩

theorem Knows.of_same (h : c.Knows n) (hsame : m.same n = true) : c.Knows m := by
  rw [knows_iff] at h ⊢
  obtain ⟨key, hkey, heq⟩ := List.any_eq_true.1 h
  exact List.any_eq_true.2 ⟨key, hkey, Plan.CachedValue.same_trans hsame heq⟩

/-- A cache of which all constants were new when they were registered has no two that are the same. -/
theorem Grows.eraseDupsBy_keys {p : Plan → Prop} (h : Grows p c d)
    (hc : c.keys.eraseDupsBy Plan.CachedValue.same = c.keys) :
    d.keys.eraseDupsBy Plan.CachedValue.same = d.keys := by
  induction h with
  | refl => exact hc
  | @push d serial value type _ _ _ hfresh _ ih =>
      have hnew : d.keys.any (Plan.CachedValue.same ⟨value, type⟩) = false := by
        refine Bool.eq_false_iff.2 fun hany => ?_
        obtain ⟨field, hfield⟩ := knows_iff.2 hany
        rw [hfresh] at hfield
        cases hfield
      rw [keys_push, eraseDupsBy_append, ih]
      exact addNew_of_not_any _ hnew

/-! ### Closed caches -/

/-- Whatever is inside a known constant is known. -/
def Closed (c : ConstantCache) : Prop := ∀ n, c.Knows n → ∀ m ∈ n.value.outerCached, c.Knows m

theorem closed_new (owner : Class) (namePart : UnqualifiedName) : (new owner namePart).Closed := by
  rintro n ⟨field, hfield⟩
  cases hfield

/-- **Caches stay closed.** -/
theorem Grows.closed {p : Plan → Prop} (h : Grows p c d) (hc : c.Closed) : d.Closed := by
  induction h with
  | refl => exact hc
  | @push d serial value type hgrows hvalue hpossible hfresh hnested ih =>
      have hstep : Grows p d (d.push serial value type) :=
        .push serial value type (.refl d) hvalue hpossible hfresh hnested
      intro n hn m hm
      refine hstep.knows ?_
      rw [knows_iff, keys_push, List.any_append, Bool.or_eq_true] at hn
      rcases hn with hold | hnew
      · exact ih n (knows_iff.2 hold) m hm
      · -- the constant is the same as the new one, which had everything inside it registered before
        have hsame : (Plan.CachedValue.mk value type).same n = true :=
          Plan.CachedValue.same_symm (by simpa using hnew)
        rw [Plan.CachedValue.same, Bool.and_eq_true] at hsame
        obtain ⟨k, hk, hkm⟩ := Plan.exists_same_of_mem_outerCached hsame.2 hm
        exact (hnested k hk).of_same (Plan.CachedValue.same_symm hkm)

/-- In a closed cache everything inside a known constant is known, at any depth. -/
theorem Closed.knows_postorder (h : c.Closed) {n : Plan.CachedValue} (hn : c.Knows n) :
    ∀ m ∈ n.postorder, c.Knows m := by
  intro m hm
  rcases List.mem_append.1 hm with hm | hm
  · rw [Plan.postorder_eq_flatMap] at hm
    obtain ⟨k, hk, hm⟩ := List.mem_flatMap.1 hm
    exact Closed.knows_postorder h (h n hn k hk) m hm
  · rw [List.mem_singleton.1 hm]
    exact hn
termination_by sizeOf n.value
decreasing_by exact Plan.sizeOf_lt_of_mem_outerCached hk

end ConstantCache

/-! ### Asking for a constant -/

namespace Scope

open Plan (CachedValue)

/-- Constants are only registered where a cache is closed, and leave it closed. -/
theorem closed_cache (s : Scope) (h : s.constants.Closed) (value : Plan) (type : ValueType) :
    (s.cache value type).2.constants.Closed :=
  (grows_cache (p := fun _ => True) (fun _ _ _ _ => trivial) s trivial type).closed h

/-- Asking for a constant fails only if its value is impossible. -/
theorem cache_eq_error_iff (s : Scope) (value : Plan) (type : ValueType) :
    (∃ reason, (s.cache value type).1 = .error reason) ↔ value.isPossible = false := by
  constructor
  · rintro ⟨reason, herror⟩
    exact (of_cache_eq_error (Prod.ext herror rfl)).1
  · intro h
    exact ⟨.impossiblePlan, by rw [cache_of_not_isPossible s h]⟩

theorem keys_cacheEach {ns : List CachedValue}
    (h : ∀ n ∈ ns, ∀ s : Scope, s.constants.Closed → ∀ field s', s.cache n.value n.type = (.ok field, s') →
      s'.constants.keys = n.postorder.foldl (addNew CachedValue.same) s.constants.keys)
    {s s' : Scope} (hs : s.constants.Closed) (hok : s.cacheEach ns = (.ok (), s')) :
    s'.constants.keys =
      (ns.flatMap CachedValue.postorder).foldl (addNew CachedValue.same) s.constants.keys := by
  induction ns generalizing s with
  | nil =>
      cases hok
      rfl
  | cons n ns ih =>
      rcases hcache : s.cache n.value n.type with ⟨reason | field, s₁⟩
      · rw [cacheEach_cons_of_error hcache] at hok
        cases hok
      · rw [cacheEach_cons_of_ok hcache] at hok
        have hclosed : s₁.constants.Closed := by
          have := s.closed_cache hs n.value n.type
          rwa [hcache] at this
        have htail := ih (fun m hm => h m (List.mem_cons_of_mem n hm)) hclosed hok
        rw [htail, h n List.mem_cons_self s hs field s₁ hcache, List.flatMap_cons, List.foldl_append]

/-- **Asking for a constant registers what is new in its listing.** -/
theorem keys_cache {s s' : Scope} (hs : s.constants.Closed) {value : Plan} {type : ValueType}
    {field : Field} (hok : s.cache value type = (.ok field, s')) :
    s'.constants.keys =
      (CachedValue.mk value type).postorder.foldl (addNew CachedValue.same) s.constants.keys := by
  have hpossible := isPossible_of_cache hok
  have hnested : ∀ n ∈ value.outerCached, ∀ s : Scope, s.constants.Closed → ∀ field s',
      s.cache n.value n.type = (.ok field, s') →
      s'.constants.keys = n.postorder.foldl (addNew CachedValue.same) s.constants.keys :=
    fun n hn s hs field s' hok => keys_cache hs hok
  cases hfind : s.constants.find? value type with
  | some known =>
      -- everything in the listing is known already
      rw [cache_of_find? hpossible hfind] at hok
      cases hok
      have hknown := hs.knows_postorder (n := ⟨value, type⟩) ⟨field, hfind⟩
      exact (foldl_addNew_of_any _ fun m hm => ConstantCache.knows_iff.1 (hknown m hm)).symm
  | none =>
      -- what is inside is registered first; the constant weighs more than any of it, so it is still new
      have heach : s.CacheEachSpec value.outerCached :=
        cacheEachSpec (fun n _ s => cacheSpec s n.value n.type) s
      obtain ⟨hdone, -⟩ := heach.known fun n hn => Plan.isPossible_of_mem_outerCached hpossible hn
      have hinside := keys_cacheEach hnested hs (Prod.ext hdone rfl)
      have hfresh := heach.find?_eq_none hfind
      rw [cache_of_find?_eq_none hpossible hfind (Prod.ext hdone rfl)] at hok
      generalize s.cacheEach value.outerCached = inner at hok hinside hfresh
      have hs' : s' = (inner.2.register value type).2 := (Prod.mk.inj hok).2.symm
      have hnew : inner.2.constants.keys.any (CachedValue.same ⟨value, type⟩) = false := by
        refine Bool.eq_false_iff.2 fun hany => ?_
        obtain ⟨known, hknown⟩ := ConstantCache.knows_iff.2 hany
        rw [hfresh] at hknown
        cases hknown
      calc s'.constants.keys
          = inner.2.constants.keys ++ [⟨value, type⟩] := by
            rw [hs']
            exact ConstantCache.keys_push inner.2.constants inner.2.graph.fieldCount value type
        _ = addNew CachedValue.same inner.2.constants.keys ⟨value, type⟩ :=
            (addNew_of_not_any _ hnew).symm
        _ = (CachedValue.mk value type).postorder.foldl (addNew CachedValue.same) s.constants.keys := by
            rw [hinside, CachedValue.postorder, Plan.postorder_eq_flatMap, List.foldl_append]
            rfl
termination_by sizeOf value
decreasing_by exact Plan.sizeOf_lt_of_mem_outerCached hn

/-- **Asking for several constants registers what is new in their listings.** -/
theorem keys_cacheEach_of_closed {s s' : Scope} (hs : s.constants.Closed) {ns : List CachedValue}
    (hok : s.cacheEach ns = (.ok (), s')) :
    s'.constants.keys =
      (ns.flatMap CachedValue.postorder).foldl (addNew CachedValue.same) s.constants.keys := by
  refine keys_cacheEach ?_ hs hok
  intro n _ s hs field s' hcache
  exact keys_cache hs hcache

end Scope

/-! ### Applying a plan -/

namespace Scope

theorem cacheEach_append (s : Scope) (a b : List Plan.CachedValue) :
    s.cacheEach (a ++ b) = andThen (s.cacheEach a) fun _ s => s.cacheEach b := by
  rw [cacheEach, List.foldl_append, foldl_cacheEach]
  rfl

theorem cacheEach_append_of_ok {s s₁ s₂ : Scope} {a b : List Plan.CachedValue}
    (ha : s.cacheEach a = (.ok (), s₁)) (hb : s₁.cacheEach b = (.ok (), s₂)) :
    s.cacheEach (a ++ b) = (.ok (), s₂) := by
  rw [cacheEach_append, ha]
  exact hb

end Scope

/-- What was emitted asked for constants of a list, one after the other: for all of them if it
succeeded, and for those before some place if it failed. -/
def Emitted.AsksFor (r : Emitted) (s : Scope) (ns : List Plan.CachedValue) : Prop :=
  ∃ asked, asked <+: ns ∧ s.cacheEach asked = (.ok (), r.scope) ∧
    ∀ effect, r.outcome = .ok effect → asked = ns

namespace Emitted.AsksFor

variable {s : Scope} {r : Emitted} {ns ms : List Plan.CachedValue}

theorem nil (hscope : r.scope = s) : r.AsksFor s [] :=
  ⟨[], List.nil_prefix, by rw [hscope]; rfl, fun _ _ => rfl⟩

theorem of_error (hscope : r.scope = s) {reason : Error} (h : r.outcome = .error reason) :
    r.AsksFor s ns := by
  refine ⟨[], List.nil_prefix, by rw [hscope]; rfl, ?_⟩
  intro effect hok
  rw [h] at hok
  cases hok

theorem after (h : r.AsksFor s ns) (first : List SymbolicInstruction) :
    (r.after first).AsksFor s ns := by
  rwa [AsksFor, Emitted.scope_after, Emitted.outcome_after]

theorem andThen {next : Effect → Scope → Emitted} (h : r.AsksFor s ns)
    (hnext : ∀ effect, (next effect r.scope).AsksFor r.scope ms) :
    (r.andThen next).AsksFor s (ns ++ ms) := by
  obtain ⟨asked, hasked, hcache, hall⟩ := h
  cases hr : r.outcome with
  | error reason =>
      rw [Emitted.andThen_of_error hr]
      refine ⟨asked, hasked.trans (List.prefix_append ns ms), hcache, fun effect hok => ?_⟩
      rw [hr] at hok
      cases hok
  | ok effect =>
      obtain ⟨more, hmore, hcache', hall'⟩ := hnext effect
      rw [Emitted.andThen_of_ok hr]
      refine ⟨ns ++ more, (List.prefix_append_right_inj ns).2 hmore, ?_, fun last hok => ?_⟩
      · rw [hall effect hr] at hcache
        exact Scope.cacheEach_append_of_ok hcache hcache'
      · rw [hall' last hok]

end Emitted.AsksFor

namespace Plan

variable {s : Scope} {effect : Effect}

theorem asksFor_emitEach {plans : List Plan}
    (h : ∀ p ∈ plans, ∀ s, (p.emit s).AsksFor s p.outerCached) (soFar : Effect) (s : Scope) :
    (emitEach plans soFar s).AsksFor s (plans.flatMap outerCached) := by
  induction plans generalizing soFar s with
  | nil => exact .nil rfl
  | cons plan rest ih =>
      rw [emitEach, List.flatMap_cons]
      refine (h plan List.mem_cons_self s).andThen fun effect => ?_
      exact ih (fun p hp => h p (List.mem_cons_of_mem plan hp)) _ _

theorem asksFor_emitFill {component : ValueType} {plans : List Plan}
    (h : ∀ p ∈ plans, ∀ s, (p.emit s).AsksFor s p.outerCached) (index : Nat) (soFar : Effect)
    (s : Scope) :
    (emitFill component plans index soFar s).AsksFor s (plans.flatMap outerCached) := by
  induction plans generalizing index soFar s with
  | nil => exact .nil rfl
  | cons plan rest ih =>
      rw [emitFill, List.flatMap_cons]
      refine ((h plan List.mem_cons_self s).andThen fun effect => ?_).after _
      exact (ih (fun p hp => h p (List.mem_cons_of_mem plan hp)) _ _ _).after _

/-- **Applying a plan asks for its outer constants**, one after the other. -/
theorem asksFor_emit (plan : Plan) (s : Scope) : (plan.emit s).AsksFor s plan.outerCached := by
  induction plan generalizing s with
  | impossible => exact .of_error rfl rfl
  | nothing | op _ =>
      rw [emit]
      simpa only [outerCached_nothing, outerCached_op] using Emitted.AsksFor.nil rfl
  | methodObject method =>
      rw [emit, outerCached_methodObject]
      exact .nil (scope_emitMethodObject method s)
  | sequence parts ih =>
      rw [outerCached_sequence]
      exact asksFor_emitEach ih Effect.zero s
  | cached value type _ =>
      rw [emit, emitCached, outerCached_cached]
      rcases hcache : s.cache value type with ⟨reason | field, s₁⟩
      · exact .of_error (Scope.of_cache_eq_error hcache).2.2 rfl
      · exact ⟨[⟨value, type⟩], List.prefix_refl _,
          Scope.cacheEach_cons_of_ok (n := ⟨value, type⟩) hcache [], fun _ _ => rfl⟩
  | array component elements ih =>
      rw [emit, outerCached_array]
      split
      case isTrue => exact (asksFor_emitFill ih 0 ⟨1, 1⟩ s).after _
      case isFalse => exact .of_error rfl rfl

/-- **Applying a plan registers what is new in its listing.** -/
theorem keys_emit {plan : Plan} (hs : s.constants.Closed) (hok : (plan.emit s).outcome = .ok effect) :
    (plan.emit s).scope.constants.keys =
      plan.postorder.foldl (addNew CachedValue.same) s.constants.keys := by
  obtain ⟨asked, -, hcache, hall⟩ := plan.asksFor_emit s
  rw [postorder_eq_flatMap, ← hall effect hok]
  exact Scope.keys_cacheEach_of_closed hs hcache

end Plan

/-! ### Runs of answers -/

/-- What a cache can be asked: for a constant, or for those of a plan that is applied. -/
inductive Ask
  | cache (value : Plan) (type : ValueType)
  | apply (plan : Plan)

/-- All cached constants that are asked for, in post-order. -/
def Ask.postorder : Ask → List Plan.CachedValue
  | cache value type => (Plan.CachedValue.mk value type).postorder
  | apply plan => plan.postorder

namespace ConstantCache

variable {b c : ConstantCache} {asks : List Ask}

/-- A cache is asked one thing after the other, each of them with success. The class graph may have
changed in between, and the code of plans goes to any collectors. -/
inductive Answered (b : ConstantCache) : List Ask → ConstantCache → Prop
  | nil : Answered b [] b
  | cache {c : ConstantCache} {asks : List Ask} (answered : Answered b asks c) {graph : ClassGraph}
      {value : Plan} {type : ValueType} {field : Field} {s : Scope}
      (ok : Scope.cache ⟨graph, c⟩ value type = (.ok field, s)) :
      Answered b (asks ++ [.cache value type]) s.constants
  | apply {c : ConstantCache} {asks : List Ask} (answered : Answered b asks c) {σ : Type}
      [CodeCollector σ] {graph : ClassGraph} {code : σ} {plan : Plan} {effect : Effect}
      {e : Emission σ} (ok : plan.apply ⟨code, ⟨graph, c⟩⟩ = (.ok effect, e)) :
      Answered b (asks ++ [.apply plan]) e.scope.constants

namespace Answered

/-- Answers only ever register something more. -/
theorem grows (h : Answered b asks c) : Grows (fun _ => True) b c := by
  have hany : Plan.Hereditary fun _ => True := fun _ _ _ _ => trivial
  induction h with
  | nil => exact .refl b
  | @cache c asks _ graph value type field s hok ih =>
      have hstep : Grows _ c (Scope.cache ⟨graph, c⟩ value type).2.constants :=
        Scope.grows_cache hany ⟨graph, c⟩ trivial type
      rw [hok] at hstep
      exact ih.trans hstep
  | @apply c asks _ σ _ graph code plan effect e hok ih =>
      have hstep : Grows _ c (plan.emit ⟨graph, c⟩).scope.constants :=
        Plan.grows_emit hany (fun _ _ => trivial) ⟨graph, c⟩
      rw [(Plan.of_apply_eq hok).2] at hstep
      exact ih.trans hstep

/-- Everything that is new in the listing of what is asked is registered. -/
theorem keys_eq_foldl (h : Answered b asks c) (hb : b.Closed) :
    c.keys = (asks.flatMap Ask.postorder).foldl (addNew Plan.CachedValue.same) b.keys := by
  induction h with
  | nil => rfl
  | @cache c asks hanswered graph value type field s hok ih =>
      have hclosed := hanswered.grows.closed hb
      rw [Scope.keys_cache hclosed hok, ih, List.flatMap_append, List.foldl_append,
        List.flatMap_singleton]
      rfl
  | @apply c asks hanswered σ _ graph code plan effect e hok ih =>
      have hclosed := hanswered.grows.closed hb
      obtain ⟨houtcome, hscope⟩ := Plan.of_apply_eq hok
      rw [← hscope, Plan.keys_emit hclosed houtcome, ih, List.flatMap_append, List.foldl_append,
        List.flatMap_singleton]
      rfl

end Answered

/-- Every registered constant is found under its own field. -/
theorem Grows.find?_registration {p : Plan → Prop} (h : Grows p b c)
    (hb : ∀ r ∈ b.registrations, b.find? r.value r.type = some r.field) :
    ∀ r ∈ c.registrations, c.find? r.value r.type = some r.field := by
  induction h with
  | refl => exact hb
  | @push d serial value type _ _ _ hfresh _ ih =>
      intro r hr
      rcases Array.mem_push.1 hr with hr | rfl
      · exact find?_push_of_find? (ih r hr) serial value type
      · exact find?_push_self hfresh serial

/-- In a numbered cache the field of every key is the one of its place. -/
theorem Numbered.field_of_key (h : c.Numbered)
    (hfind : ∀ r ∈ c.registrations, c.find? r.value r.type = some r.field) {n : Nat}
    {key : Plan.CachedValue} (hkey : c.keys[n]? = some key) :
    ∃ f, c.fields[n]? = some f ∧ c.find? key.value key.type = some f ∧ f.owner = c.owner ∧
      f.name.text = c.namePart.text ++ "$" ++ n.repr ∧ f.type = key.type := by
  rw [keys, List.getElem?_map, Option.map_eq_some_iff] at hkey
  obtain ⟨r, hr, rfl⟩ := hkey
  have hfield : c.fields[n]? = some r.field := by
    rw [fields, List.getElem?_map, hr]
    rfl
  have hnumbers := h n r.field hfield
  refine ⟨r.field, hfield, ?_, hnumbers.owner, ?_, rfl⟩
  · exact hfind r (Array.mem_toList_iff.1 (List.mem_of_getElem? hr))
  · rw [hnumbers.name]
    rfl

/-- No two fields of a numbered cache have one name. -/
theorem Numbered.nodup_names (h : c.Numbered) : (c.fields.map Field.name).Nodup := by
  refine List.pairwise_map.2 (List.pairwise_iff_getElem.2 ?_)
  intro i j hi hj hlt heq
  rw [(h i _ (List.getElem?_eq_getElem hi)).name, (h j _ (List.getElem?_eq_getElem hj)).name] at heq
  exact Nat.ne_of_lt hlt (fieldName_inj heq)

/-- **A run of answers registers the first occurrences of its listing.** A cache that was reached in any
way is asked for constants, and plans are applied with it, each with success. What is registered in the
end, in order, are the first of the same constants in the listing: those registered before, and then all
cached constants asked for, at any depth, from left to right and each one after those inside it. The
`n`-th has a field of its type, which the class declares under the number `n`; no two share a field, or
the name of one. And asking for a constant fails exactly if its value is impossible, which changes
nothing. -/
theorem Answered.registers_first_occurrences {owner : Class} {namePart : UnqualifiedName}
    {plans : List Plan} (hb : Reached owner namePart plans b) (h : Answered b asks c) :
    c.keys = (b.keys ++ asks.flatMap Ask.postorder).eraseDupsBy Plan.CachedValue.same ∧
    (∀ (n : Nat) (key : Plan.CachedValue), c.keys[n]? = some key →
      ∃ f, c.fields[n]? = some f ∧ c.find? key.value key.type = some f ∧ f.owner = owner ∧
        f.name.text = namePart.text ++ "$" ++ n.repr ∧ f.type = key.type) ∧
    c.fields.Nodup ∧ (c.fields.map Field.name).Nodup ∧
    ∀ graph value type,
      ((∃ reason, (Scope.cache ⟨graph, c⟩ value type).1 = .error reason) ↔
        value.isPossible = false) ∧
      ∀ reason s, Scope.cache ⟨graph, c⟩ value type = (.error reason, s) → s = ⟨graph, c⟩ := by
  -- whatever happened before, the cache is numbered and closed, and each key finds its own field
  have hbefore := hb.grows
  have hall := (hbefore.mono fun _ _ => trivial).trans h.grows
  have hnumbered : c.Numbered := hall.numbered (numbered_new owner namePart)
  have hfind := hall.find?_registration (by simp [new])
  refine ⟨?_, ?_, hnumbered.nodup, hnumbered.nodup_names, ?_⟩
  · have hdistinct := hbefore.eraseDupsBy_keys (by rfl)
    rw [eraseDupsBy_append, hdistinct]
    exact h.keys_eq_foldl (hbefore.closed (closed_new owner namePart))
  · intro n key hkey
    obtain ⟨f, hf, hfound, howner, hname, htype⟩ := hnumbered.field_of_key hfind hkey
    rw [hall.owner_eq] at howner
    rw [hall.namePart_eq] at hname
    exact ⟨f, hf, hfound, howner, hname, htype⟩
  · intro graph value type
    refine ⟨Scope.cache_eq_error_iff ⟨graph, c⟩ value type, ?_⟩
    intro reason s herror
    exact (Scope.of_cache_eq_error herror).2.2

/-- An array that is a constant, with a number in it that is one too. -/
def cachedArray (bits : UInt32) : Plan :=
  .cached (.array (.primitive .float) [.cached (.op (.float bits)) (.primitive .float)])
    (.array (.primitive .float))

/-- The plans of a list are applied one after the other, each of them with success. -/
theorem exists_answered (b : ConstantCache) {plans : List Plan}
    (h : ∀ p ∈ plans, p.isPossible = true ∧ p.ObjectsFit) :
    ∃ c, Answered b (plans.map .apply) c := by
  induction plans using List.reverseRecOn with
  | nil => exact ⟨b, .nil⟩
  | append_singleton plans plan ih =>
      obtain ⟨c, hc⟩ := ih fun p hp => h p (List.mem_append_left _ hp)
      obtain ⟨hpossible, hfit⟩ := h plan (List.mem_append_right _ List.mem_cons_self)
      obtain ⟨effect, hok⟩ := Plan.emit_succeeds hpossible hfit ⟨.empty, c⟩
      have happly : plan.apply ⟨(#[] : Array SymbolicInstruction), ⟨.empty, c⟩⟩ =
          (.ok effect, ((plan.emit ⟨.empty, c⟩).onto #[]).2) := by
        rw [Plan.apply_eq_emit, Emitted.onto, hok]
      rw [List.map_append]
      exact ⟨_, hc.apply happly⟩

/-- Of four arrays, the second holds a value that is no number either, and the last two hold zeros of
different sign: three numbers and three arrays are registered, each number before its array. -/
theorem registers_first_occurrences_cachedArrays :
    ∃ c, Answered (new Java.object defaultNamePart)
        ([0x7FC00000, 0x7FC00001, 0, 0x80000000].map fun bits => .apply (cachedArray bits)) c ∧
      c.keys = ([0x7FC00000, 0, 0x80000000].flatMap fun bits => (cachedArray bits).postorder) ∧
      ∃ f, c.fields[5]? = some f ∧ f.owner = Java.object ∧ f.name.text = "cachedValue$5" ∧
        f.type = .array (.primitive .float) := by
  have hplans : ∀ p ∈ [0x7FC00000, 0x7FC00001, 0, 0x80000000].map cachedArray,
      p.isPossible = true ∧ p.ObjectsFit := by
    intro p hp
    obtain ⟨bits, -, rfl⟩ := List.mem_map.1 hp
    refine ⟨rfl, ?_⟩
    intro m hm
    simp [cachedArray, Plan.subplans, Plan.subplansEach] at hm
  obtain ⟨c, hc⟩ := exists_answered (new Java.object defaultNamePart) hplans
  obtain ⟨hkeys, hfields, -⟩ := Answered.registers_first_occurrences .new hc
  have hlisting : c.keys =
      ([0x7FC00000, 0, 0x80000000].flatMap fun bits => (cachedArray bits).postorder) := hkeys.trans rfl
  obtain ⟨f, hf, -, howner, hname, htype⟩ := hfields 5 _ (by rw [hlisting]; rfl)
  exact ⟨c, hc, hlisting, f, hf, howner, hname, htype⟩

end ConstantCache

end JvmCodegen.Stack
