/-
**How a cache grows.**

A cache only ever grows at its end, and a constant is registered when everything that its value
reads is registered already.  Whatever is known to a cache therefore stays known, under the same
field, for as long as the class is being generated.  This is all that the rest of the theory needs
to know about caching.

Main definitions:

* `Stack.ConstantCache.Knows` — the cache has a field for a constant;
* `Stack.ConstantCache.push` — the cache with one more constant;
* `Stack.ConstantCache.Grows` — the cache after some registrations, each of a constant that has the
  constants nested inside it registered before;
* `Stack.Plan.ComesFrom` — all that is inside a plan is inside one of a list;
* `Stack.Plan.Emits`, `Stack.Plan.Uses` — the instructions that a plan emits, and how code comes to
  use a field.

Main results:

* `Stack.ConstantCache.Grows.find?_eq` — known constants keep their fields;
* `Stack.Scope.grows_cache`, `Stack.Scope.cache_of_isPossible` — asking for a constant;
* `Stack.Scope.cache_rule`, `Stack.Plan.scope_emit_of_cached`, `Stack.Plan.scope_emit_rule` — what
  registering a constant keeps is kept;
* `Stack.Plan.emit_rule` — what holds of the operations, the constants and the reflective objects of
  a plan holds of all that it emits;
* `Stack.Plan.grows_emit`, `Stack.Plan.scope_emit_of_knows`, `Stack.Plan.emit_succeeds` — **applying
  a plan** registers its constants, changes nothing if they are known, and fails only for a reason;
* `Stack.Plan.emits_of_mem_emit`, `Stack.Plan.uses_of_access_mem_emit` — **the emitted code**, and the
  fields that it uses.
-/

import JvmCodegen.Proofs.Stack.Nesting

set_option relaxedAutoImplicit false
set_option autoImplicit false

namespace JvmCodegen.Stack

/-! ### Equality of plans -/

theorem Operation.same_refl (o : Operation) : o.same o = true := beq_self_eq_true o.canonical

namespace Plan

theorem allSame_refl {plans : List Plan} (h : ∀ p ∈ plans, p.same p = true) :
    allSame plans plans = true := by
  induction plans with
  | nil => rfl
  | cons plan plans ih =>
      rw [allSame, h plan List.mem_cons_self, ih fun p hp => h p (List.mem_cons_of_mem plan hp)]
      rfl

theorem same_refl (plan : Plan) : plan.same plan = true := by
  induction plan with
  | impossible | nothing => rfl
  | sequence parts ih => rw [same, allSame_refl ih]
  | op operation => rw [same, operation.same_refl]
  | methodObject method => rw [same, beq_self_eq_true]
  | cached value type ih => rw [same, ih, beq_self_eq_true, Bool.and_self]
  | array component elements ih => rw [same, allSame_refl ih, beq_self_eq_true, Bool.and_self]

end Plan

/-! ### Fields of constants -/

namespace ConstantCache

/-- The cache has a field for the constant. -/
def Knows (c : ConstantCache) (n : Plan.CachedValue) : Prop :=
  ∃ field, c.find? n.value n.type = some field

/-- The field that the cache declares next, for a constant of a type. -/
def nextField (c : ConstantCache) (serial : Nat) (type : ValueType) : Field :=
  ⟨serial, c.owner, c.fieldName c.size, type, fieldFlags⟩

/-- The cache with one more constant. -/
def push (c : ConstantCache) (serial : Nat) (value : Plan) (type : ValueType) : ConstantCache :=
  { c with registrations := c.registrations.push ⟨value, c.nextField serial type⟩ }

/-- A constant has a field of the type that it was asked for with. -/
theorem type_of_find? {c : ConstantCache} {value : Plan} {type : ValueType} {field : Field}
    (h : c.find? value type = some field) : field.type = type := by
  obtain ⟨r, hr, rfl⟩ := Option.map_eq_some_iff.1 h
  have hmatch := Array.find?_some hr
  rw [Bool.and_eq_true, beq_iff_eq] at hmatch
  exact hmatch.1

theorem mem_fields_of_mem {c : ConstantCache} {r : Registration} (h : r ∈ c.registrations) :
    r.field ∈ c.fields :=
  List.mem_map.2 ⟨r, Array.mem_toList_iff.2 h, rfl⟩

theorem mem_fields_of_find? {c : ConstantCache} {value : Plan} {type : ValueType} {field : Field}
    (h : c.find? value type = some field) : field ∈ c.fields := by
  obtain ⟨r, hr, rfl⟩ := Option.map_eq_some_iff.1 h
  exact mem_fields_of_mem (Array.mem_of_find?_eq_some hr)

/-- What is registered later is not found in place of what is known. -/
theorem find?_push_of_find? {c : ConstantCache} {value : Plan} {type : ValueType} {field : Field}
    (h : c.find? value type = some field) (serial : Nat) (value' : Plan) (type' : ValueType) :
    (c.push serial value' type').find? value type = some field := by
  obtain ⟨r, hr, rfl⟩ := Option.map_eq_some_iff.1 h
  rw [find?, push, Array.find?_push, hr]
  rfl

/-- What has been registered is found again. -/
theorem find?_push_self {c : ConstantCache} {value : Plan} {type : ValueType}
    (h : c.find? value type = none) (serial : Nat) :
    (c.push serial value type).find? value type = some (c.nextField serial type) := by
  have hnone : (c.registrations.find? fun r => r.type == type && r.value.same value) = none :=
    Option.map_eq_none_iff.1 h
  rw [find?, push, Array.find?_push, hnone]
  simp [Registration.type, nextField, Plan.same_refl]

/-- Registering something else does not make a constant known. -/
theorem find?_push_eq_none {c : ConstantCache} {value : Plan} {type : ValueType}
    (h : c.find? value type = none) (serial : Nat) {value' : Plan}
    (hne : value'.same value = false) (type' : ValueType) :
    (c.push serial value' type').find? value type = none := by
  have hnone : (c.registrations.find? fun r => r.type == type && r.value.same value) = none :=
    Option.map_eq_none_iff.1 h
  rw [find?, push, Array.find?_push, hnone]
  simp [hne]

@[simp] theorem fields_push (c : ConstantCache) (serial : Nat) (value : Plan) (type : ValueType) :
    (c.push serial value type).fields = c.fields ++ [c.nextField serial type] := by
  simp [fields, push]

/-! ### Growth -/

/-- The second cache comes out of the first by registering new constants whose values have a
property. The constants that a value reads are always registered before it. -/
inductive Grows (p : Plan → Prop) : ConstantCache → ConstantCache → Prop
  | refl (c : ConstantCache) : Grows p c c
  | push {c d : ConstantCache} (serial : Nat) (value : Plan) (type : ValueType)
      (grown : Grows p c d) (property : p value) (possible : value.isPossible = true)
      (fresh : d.find? value type = none) (nested : ∀ n ∈ value.outerCached, d.Knows n) :
      Grows p c (d.push serial value type)

namespace Grows

variable {p q : Plan → Prop} {c d e : ConstantCache}

theorem trans (h : Grows p c d) (h' : Grows p d e) : Grows p c e := by
  induction h' with
  | refl => exact h
  | push serial value type _ hp hpossible hfresh hnested ih =>
      exact .push serial value type ih hp hpossible hfresh hnested

theorem mono (h : Grows p c d) (hpq : ∀ v, p v → q v) : Grows q c d := by
  induction h with
  | refl => exact .refl c
  | push serial value type _ hp hpossible hfresh hnested ih =>
      exact .push serial value type ih (hpq value hp) hpossible hfresh hnested

/-- Known constants keep their fields. -/
theorem find?_eq (h : Grows p c d) {value : Plan} {type : ValueType} {field : Field}
    (hfind : c.find? value type = some field) : d.find? value type = some field := by
  induction h with
  | refl => exact hfind
  | push serial value' type' _ _ _ _ _ ih => exact find?_push_of_find? ih serial value' type'

theorem knows (h : Grows p c d) {n : Plan.CachedValue} (hn : c.Knows n) : d.Knows n := by
  obtain ⟨field, hfield⟩ := hn
  exact ⟨field, h.find?_eq hfield⟩

/-- Growing by values of another kind does not make a constant known. -/
theorem find?_eq_none (h : Grows p c d) {value : Plan} {type : ValueType}
    (hfind : c.find? value type = none) (hne : ∀ v, p v → v.same value = false) :
    d.find? value type = none := by
  induction h with
  | refl => exact hfind
  | push serial value' type' _ hp _ _ _ ih =>
      exact find?_push_eq_none ih serial (hne value' hp) type'

theorem owner_eq (h : Grows p c d) : d.owner = c.owner := by
  induction h with
  | refl => rfl
  | push _ _ _ _ _ _ _ _ ih => exact ih

theorem namePart_eq (h : Grows p c d) : d.namePart = c.namePart := by
  induction h with
  | refl => rfl
  | push _ _ _ _ _ _ _ _ ih => exact ih

/-- Registering what is inside a constant does not make the constant itself known: everything inside
it is smaller. -/
theorem find?_eq_none_of_weight_lt {value : Plan} (h : Grows (fun v => v.weight < value.weight) c d)
    {type : ValueType} (hfind : c.find? value type = none) : d.find? value type = none := by
  refine h.find?_eq_none hfind fun v hlt => Bool.eq_false_iff.2 fun hsame => ?_
  have heq := Plan.weight_eq_of_same hsame
  omega

/-- What is registered stays in its place. -/
theorem registrations_prefix (h : Grows p c d) :
    c.registrations.toList <+: d.registrations.toList := by
  induction h with
  | refl => exact List.prefix_refl _
  | push serial value type _ _ _ _ _ ih =>
      refine ih.trans ?_
      rw [ConstantCache.push, Array.toList_push]
      exact List.prefix_append _ _

/-- A cache never shrinks. -/
theorem size_le (h : Grows p c d) : c.size ≤ d.size := by
  induction h with
  | refl => exact Nat.le_refl c.size
  | push _ _ _ _ _ _ _ _ ih =>
      refine Nat.le_trans ih ?_
      rw [ConstantCache.push, size, size, Array.size_push]
      exact Nat.le_succ _

end Grows

end ConstantCache

/-! ### Asking for a constant -/

/-- A property of values that is passed on to the constants inside them. -/
def Plan.Hereditary (p : Plan → Prop) : Prop :=
  ∀ value, p value → ∀ n ∈ value.outerCached, p n.value

/-- Everything inside the plan is inside one of the plans of a list. -/
def Plan.ComesFrom (plans : List Plan) (value : Plan) : Prop :=
  ∃ plan ∈ plans, ∀ q ∈ value.subplans, q ∈ plan.subplans

namespace Plan.ComesFrom

variable {plan : Plan} {plans : List Plan}

theorem hereditary (plans : List Plan) : Plan.Hereditary (Plan.ComesFrom plans) := by
  rintro v ⟨plan, hplan, hv⟩ n hn
  exact ⟨plan, hplan, fun q hq => hv q (mem_subplans_of_mem_outerCached hn hq)⟩

theorem self (h : plan ∈ plans) : Plan.ComesFrom plans plan := ⟨plan, h, fun _ hq => hq⟩

theorem of_mem_outerCached (h : plan ∈ plans) {n : CachedValue} (hn : n ∈ plan.outerCached) :
    Plan.ComesFrom plans n.value :=
  hereditary plans plan (self h) n hn

theorem cons {value : Plan} (h : Plan.ComesFrom plans value) (plan : Plan) :
    Plan.ComesFrom (plan :: plans) value := by
  obtain ⟨p, hp, hv⟩ := h
  exact ⟨p, List.mem_cons_of_mem plan hp, hv⟩

end Plan.ComesFrom

namespace Scope

variable {p : Plan → Prop}

theorem foldl_cacheEach (outcome : Except Error Unit × Scope) (ns : List Plan.CachedValue) :
    ns.foldl (fun outcome nested => andThen outcome fun _ s =>
      andThen (cache s nested.value nested.type) fun _ s => (.ok (), s)) outcome =
      andThen outcome fun _ s => s.cacheEach ns := by
  induction ns generalizing outcome with
  | nil => rcases outcome with ⟨reason | ⟨⟩, s⟩ <;> rfl
  | cons n ns ih =>
      rcases outcome with ⟨reason | ⟨⟩, s⟩
      · rw [List.foldl_cons, ih]
        rfl
      · rfl

theorem cacheEach_cons (s : Scope) (n : Plan.CachedValue) (ns : List Plan.CachedValue) :
    s.cacheEach (n :: ns) = andThen (s.cache n.value n.type) fun _ s => s.cacheEach ns := by
  rw [cacheEach, List.foldl_cons, foldl_cacheEach]
  simp only [andThen]
  rcases s.cache n.value n.type with ⟨reason | field, s⟩ <;> rfl

/-- The first failure ends it. -/
theorem cacheEach_cons_of_error {s s₁ : Scope} {n : Plan.CachedValue} {reason : Error}
    (h : s.cache n.value n.type = (.error reason, s₁)) (ns : List Plan.CachedValue) :
    s.cacheEach (n :: ns) = (.error reason, s₁) := by
  rw [cacheEach_cons, h]
  rfl

theorem cacheEach_cons_of_ok {s s₁ : Scope} {n : Plan.CachedValue} {field : Field}
    (h : s.cache n.value n.type = (.ok field, s₁)) (ns : List Plan.CachedValue) :
    s.cacheEach (n :: ns) = s₁.cacheEach ns := by
  rw [cacheEach_cons, h]
  rfl

/-- An impossible constant is refused, and changes nothing. -/
theorem cache_of_not_isPossible (s : Scope) {value : Plan} (h : value.isPossible = false)
    (type : ValueType) : s.cache value type = (.error .impossiblePlan, s) := by
  rw [cache_eq, h, if_neg Bool.false_ne_true]

/-- Asking again changes nothing. -/
theorem cache_of_find? {s : Scope} {value : Plan} (h : value.isPossible = true)
    {type : ValueType} {field : Field} (hfind : s.constants.find? value type = some field) :
    s.cache value type = (.ok field, s) := by
  rw [cache_eq, h, if_pos rfl, hfind]

/-- A new constant is registered after those inside it. -/
theorem cache_of_find?_eq_none {s s₁ : Scope} {value : Plan} (h : value.isPossible = true)
    {type : ValueType} (hfind : s.constants.find? value type = none)
    (hnested : s.cacheEach value.outerCached = (.ok (), s₁)) :
    s.cache value type =
      (.ok (s₁.constants.nextField s₁.graph.fieldCount type), (s₁.register value type).2) := by
  rw [cache_eq, h, if_pos rfl, hfind]
  simp only [andThen, hnested]
  rfl

/-- What asking for a constant does to the cache. -/
structure CacheSpec (s : Scope) (value : Plan) (type : ValueType) : Prop where
  grows : ∀ {p : Plan → Prop}, Plan.Hereditary p → p value →
    ConstantCache.Grows p s.constants (s.cache value type).2.constants
  known : value.isPossible = true → ∃ field, (s.cache value type).1 = .ok field ∧
    (s.cache value type).2.constants.find? value type = some field

/-- What asking for each constant of a list does to the cache. -/
structure CacheEachSpec (s : Scope) (ns : List Plan.CachedValue) : Prop where
  grows : ∀ {p : Plan → Prop}, Plan.Hereditary p → (∀ n ∈ ns, p n.value) →
    ConstantCache.Grows p s.constants (s.cacheEach ns).2.constants
  known : (∀ n ∈ ns, n.value.isPossible = true) → (s.cacheEach ns).1 = .ok () ∧
    ∀ n ∈ ns, (s.cacheEach ns).2.constants.Knows n

theorem cacheEachSpec {ns : List Plan.CachedValue}
    (h : ∀ n ∈ ns, ∀ s : Scope, s.CacheSpec n.value n.type) (s : Scope) : s.CacheEachSpec ns := by
  induction ns generalizing s with
  | nil => exact ⟨fun _ _ => .refl _, fun _ => ⟨rfl, fun n hn => absurd hn List.not_mem_nil⟩⟩
  | cons n ns ih =>
      obtain ⟨hgrows, hknown⟩ := h n List.mem_cons_self s
      have htail := ih fun m hm => h m (List.mem_cons_of_mem n hm)
      rcases hcache : s.cache n.value n.type with ⟨reason | field, s₁⟩
      · refine ⟨fun hp hall => ?_, fun hall => ?_⟩
        · have hfirst := hgrows hp (hall n List.mem_cons_self)
          rw [cacheEach_cons_of_error hcache]
          rwa [hcache] at hfirst
        · obtain ⟨field, hok, -⟩ := hknown (hall n List.mem_cons_self)
          rw [hcache] at hok
          cases hok
      · obtain ⟨hgrows', hknown'⟩ := htail s₁
        rw [hcache] at hgrows hknown
        refine ⟨fun hp hall => ?_, fun hall => ?_⟩
        · rw [cacheEach_cons_of_ok hcache]
          have hfirst := hgrows hp (hall n List.mem_cons_self)
          exact hfirst.trans (hgrows' hp fun m hm => hall m (List.mem_cons_of_mem n hm))
        · rw [cacheEach_cons_of_ok hcache]
          obtain ⟨hok, hrest⟩ := hknown' fun m hm => hall m (List.mem_cons_of_mem n hm)
          refine ⟨hok, fun m hm => ?_⟩
          rcases List.mem_cons.1 hm with rfl | hm
          · -- it is known before the others are asked for, and stays known
            obtain ⟨field', -, hfind⟩ := hknown (hall m List.mem_cons_self)
            exact (hgrows' (p := fun _ => True) (fun _ _ _ _ => trivial)
              fun _ _ => trivial).knows ⟨field', hfind⟩
          · exact hrest m hm

/-- When the constants inside a new constant are registered, the constant itself is still new. -/
theorem CacheEachSpec.find?_eq_none {s : Scope} {value : Plan} (h : s.CacheEachSpec value.outerCached)
    {type : ValueType} (hfind : s.constants.find? value type = none) :
    (s.cacheEach value.outerCached).2.constants.find? value type = none :=
  (h.grows (p := fun v => v.weight < value.weight)
    (fun _ hv _ hn => Nat.lt_trans (Plan.weight_lt_of_mem_outerCached hn) hv)
    fun _ hn => Plan.weight_lt_of_mem_outerCached hn).find?_eq_none_of_weight_lt hfind

/-- Asking for a constant, by induction on the size of its value. -/
theorem cacheSpec (s : Scope) (value : Plan) (type : ValueType) : s.CacheSpec value type := by
  have hnested : ∀ n ∈ value.outerCached, ∀ s : Scope, s.CacheSpec n.value n.type :=
    fun n hn s => cacheSpec s n.value n.type
  have heach := cacheEachSpec hnested s
  cases hpossible : value.isPossible with
  | false =>
      have heq := cache_of_not_isPossible s hpossible type
      exact ⟨fun _ _ => heq ▸ .refl _, fun h => absurd (hpossible.symm.trans h) (by decide)⟩
  | true =>
      cases hfind : s.constants.find? value type with
      | some field =>
          have heq := cache_of_find? hpossible hfind
          exact ⟨fun _ _ => heq ▸ .refl _, fun _ => ⟨field, heq ▸ rfl, heq ▸ hfind⟩⟩
      | none =>
          have hinside : ∀ n ∈ value.outerCached, n.value.isPossible = true :=
            fun n hn => Plan.isPossible_of_mem_outerCached hpossible hn
          obtain ⟨hok, hknown⟩ := heach.known hinside
          have heq := cache_of_find?_eq_none hpossible hfind (Prod.ext hok rfl)
          -- the constants inside are registered by now, but none of them is the constant itself
          have hfresh := heach.find?_eq_none hfind
          refine ⟨fun hp hvalue => ?_, fun _ => ⟨_, congrArg Prod.fst heq, ?_⟩⟩
          · rw [heq]
            exact .push _ value type (heach.grows hp fun n hn => hp value hvalue n hn) hvalue
              hpossible hfresh hknown
          · rw [heq]
            exact ConstantCache.find?_push_self hfresh _
termination_by sizeOf value
decreasing_by exact Plan.sizeOf_lt_of_mem_outerCached hn

theorem grows_cache {p : Plan → Prop} (hp : Plan.Hereditary p) (s : Scope) {value : Plan}
    (hvalue : p value) (type : ValueType) :
    ConstantCache.Grows p s.constants (s.cache value type).2.constants :=
  (cacheSpec s value type).grows hp hvalue

/-- A possible constant gets a field, under which it is found from then on. -/
theorem cache_of_isPossible (s : Scope) {value : Plan} (h : value.isPossible = true)
    (type : ValueType) : ∃ field, (s.cache value type).1 = .ok field ∧
      (s.cache value type).2.constants.find? value type = some field :=
  (cacheSpec s value type).known h

/-- Asking for a constant fails only if its value is impossible, and changes nothing then. -/
theorem of_cache_eq_error {s s' : Scope} {value : Plan} {type : ValueType} {reason : Error}
    (h : s.cache value type = (.error reason, s')) :
    value.isPossible = false ∧ reason = .impossiblePlan ∧ s' = s := by
  cases hpossible : value.isPossible with
  | true =>
      obtain ⟨field, hok, -⟩ := s.cache_of_isPossible hpossible type
      rw [h] at hok
      cases hok
  | false =>
      rw [cache_of_not_isPossible s hpossible] at h
      cases h
      exact ⟨rfl, rfl, rfl⟩

/-- Only a possible constant gets a field. -/
theorem isPossible_of_cache {s s' : Scope} {value : Plan} {type : ValueType} {field : Field}
    (h : s.cache value type = (.ok field, s')) : value.isPossible = true := by
  refine Bool.of_not_eq_false fun hpossible => ?_
  rw [cache_of_not_isPossible s hpossible] at h
  cases h

/-- Whatever field is handed out is known as the field of the constant. -/
theorem find?_of_cache {s s' : Scope} {value : Plan} {type : ValueType} {field : Field}
    (h : s.cache value type = (.ok field, s')) : s'.constants.find? value type = some field := by
  obtain ⟨field', hok, hfind⟩ := cache_of_isPossible s (isPossible_of_cache h) type
  rw [h] at hok hfind
  cases hok
  exact hfind

section Rule

variable {R : Scope → Scope → Prop} (refl : ∀ s, R s s)
  (trans : ∀ {s t u}, R s t → R t u → R s u)
  (register : ∀ (s : Scope) value type, R s (s.register value type).2)

include refl trans in
theorem cacheEach_rule {ns : List Plan.CachedValue}
    (h : ∀ n ∈ ns, ∀ s : Scope, R s (s.cache n.value n.type).2) (s : Scope) :
    R s (s.cacheEach ns).2 := by
  induction ns generalizing s with
  | nil => exact refl s
  | cons n ns ih =>
      have hfirst := h n List.mem_cons_self s
      rcases hcache : s.cache n.value n.type with ⟨reason | field, s₁⟩
      · rw [hcache] at hfirst
        rwa [cacheEach_cons_of_error hcache]
      · rw [hcache] at hfirst
        rw [cacheEach_cons_of_ok hcache]
        exact trans hfirst (ih (fun m hm => h m (List.mem_cons_of_mem n hm)) s₁)

include refl trans register in
/-- Whatever relates a scope to the one after a registration relates it to the one after asking for a
constant. -/
theorem cache_rule (s : Scope) (value : Plan) (type : ValueType) : R s (s.cache value type).2 := by
  have hnested : ∀ n ∈ value.outerCached, ∀ s : Scope, R s (s.cache n.value n.type).2 :=
    fun n hn s => cache_rule s n.value n.type
  have heach := cacheEach_rule refl trans hnested s
  rw [cache_eq]
  split
  · split
    · exact refl s
    · rcases hcache : s.cacheEach value.outerCached with ⟨reason | ⟨⟩, s₁⟩
      · rwa [hcache] at heach
      · rw [hcache] at heach
        exact trans heach (register s₁ value type)
  · exact refl s
termination_by sizeOf value
decreasing_by exact Plan.sizeOf_lt_of_mem_outerCached hn

end Rule

end Scope

/-! ### Applying a plan -/

/-- The instructions that arrange the elements of an array, around those that compute them. -/
inductive ArrangesArray : SymbolicInstruction → Prop
  | bare (op : BareOp) : ArrangesArray (.bare op)
  | bipush (value : Int8) : ArrangesArray (.bipush value)
  | sipush (value : Int16) : ArrangesArray (.sipush value)
  | int (value : Int32) : ArrangesArray (.ldc (.int value))
  | newArray (element : Primitive) : ArrangesArray (.newArray element)
  | newRefArray (element : RefType Class) : ArrangesArray (.newRefArray element)

theorem arrangesArray_intInstruction (value : Int32) : ArrangesArray (intInstruction value) := by
  unfold intInstruction
  repeat' split
  all_goals constructor

theorem arrangesArray_of_mem_arrayStart {component : ValueType} {length : Nat}
    {i : SymbolicInstruction} (h : i ∈ arrayStart component length) : ArrangesArray i := by
  rcases List.mem_cons.1 h with rfl | h
  · exact arrangesArray_intInstruction _
  · cases List.mem_singleton.1 h
    cases component <;> constructor

theorem arrangesArray_of_mem_elementStart {index : Nat} {i : SymbolicInstruction}
    (h : i ∈ elementStart index) : ArrangesArray i := by
  rcases List.mem_cons.1 h with rfl | h
  · exact .bare .dup
  · cases List.mem_singleton.1 h
    exact arrangesArray_intInstruction _

namespace Plan

section Rule

variable {R : Scope → Emitted → Prop} (done : ∀ s effect, R s ⟨.ok effect, [], s⟩)
  (stop : ∀ s, R s ⟨.error .impossiblePlan, [], s⟩)
  (after : ∀ s r first, (∀ i ∈ first, ArrangesArray i) → R s r → R s (r.after first))
  (andThen : ∀ s r next, R s r →
    (∀ effect, r.outcome = .ok effect → R r.scope (next effect r.scope)) → R s (r.andThen next))

include done andThen in
theorem emitEach_rule {plans : List Plan} (h : ∀ p ∈ plans, ∀ s, R s (p.emit s)) (soFar : Effect)
    (s : Scope) : R s (emitEach plans soFar s) := by
  induction plans generalizing soFar s with
  | nil => exact done s soFar
  | cons plan rest ih =>
      have hrest := ih fun p hp => h p (List.mem_cons_of_mem plan hp)
      rw [emitEach]
      exact andThen s _ _ (h plan List.mem_cons_self s) fun effect _ => hrest _ _

include done after andThen in
theorem emitFill_rule {component : ValueType} {plans : List Plan}
    (h : ∀ p ∈ plans, ∀ s, R s (p.emit s)) (index : Nat) (soFar : Effect) (s : Scope) :
    R s (emitFill component plans index soFar s) := by
  induction plans generalizing index soFar s with
  | nil => exact done s soFar
  | cons plan rest ih =>
      have hrest := ih fun p hp => h p (List.mem_cons_of_mem plan hp)
      rw [emitFill]
      refine after s _ _ (fun _ => arrangesArray_of_mem_elementStart) ?_
      refine andThen s _ _ (h plan List.mem_cons_self s) fun effect _ => ?_
      refine after _ _ _ (fun i hi => ?_) (hrest _ _ _)
      cases List.mem_singleton.1 hi
      exact .bare _

include done stop after andThen in
/-- What is emitted for a plan is put together from what is emitted for its operations, its cached
constants and its reflective objects, and from instructions around them that arrange arrays. -/
theorem emit_rule (object : ∀ method s, R s (emitMethodObject method s)) {plan : Plan}
    (op : ∀ o ∈ plan.operations, ∀ s, R s ⟨.ok o.effect, [o.instruction], s⟩)
    (cached : ∀ n ∈ plan.outerCached, ∀ s, R s (emitCached n.value n.type s)) (s : Scope) :
    R s (plan.emit s) := by
  induction plan generalizing s with
  | impossible => exact stop s
  | nothing => exact done s Effect.zero
  | sequence parts ih =>
      refine emitEach_rule done andThen (fun p hp => ih p hp ?_ ?_) Effect.zero s
      · exact fun o ho => op o (mem_operationsEach.2 ⟨p, hp, ho⟩)
      · intro n hn
        refine cached n ?_
        rw [outerCached_sequence]
        exact List.mem_flatMap.2 ⟨p, hp, hn⟩
  | op operation => exact op operation List.mem_cons_self s
  | methodObject method => exact object method s
  | cached value type _ =>
      refine cached ⟨value, type⟩ ?_ s
      rw [outerCached_cached]
      exact List.mem_cons_self
  | array component elements ih =>
      rw [emit]
      split
      case isFalse => exact stop s
      case isTrue =>
          refine after s _ _ (fun _ => arrangesArray_of_mem_arrayStart) ?_
          refine emitFill_rule done after andThen (fun p hp => ih p hp ?_ ?_) 0 ⟨1, 1⟩ s
          · exact fun o ho => op o (mem_operationsEach.2 ⟨p, hp, ho⟩)
          · intro n hn
            refine cached n ?_
            rw [outerCached_array]
            exact List.mem_flatMap.2 ⟨p, hp, hn⟩

end Rule

/-- **What applying a plan does to the scope**: whatever relates a scope to the one after asking for a
constant of the plan relates it to the one after applying the plan. -/
theorem scope_emit_of_cached {R : Scope → Scope → Prop} (refl : ∀ s, R s s)
    (trans : ∀ {s t u}, R s t → R t u → R s u) {plan : Plan}
    (cached : ∀ n ∈ plan.outerCached, ∀ s : Scope, R s (s.cache n.value n.type).2) (s : Scope) :
    R s (plan.emit s).scope := by
  refine emit_rule (R := fun s r => R s r.scope) ?done ?stop ?after ?andThen ?object ?op ?cached s
  case done => exact fun s _ => refl s
  case stop => exact refl
  case after => exact fun _ _ _ _ h => h
  case andThen =>
    intro s r next hr hnext
    rcases r.andThen_cases next with heq | ⟨effect, hok, heq⟩
    · rwa [heq]
    · rw [heq]
      exact trans hr (hnext effect hok)
  case object =>
    intro method s
    rw [scope_emitMethodObject]
    exact refl s
  case op => exact fun _ _ s => refl s
  case cached =>
    intro n hn s
    rw [scope_emitCached]
    exact cached n hn s

/-- Applying a plan registers constants with any property that is passed on from the constants of
the plan. -/
theorem grows_emit {p : Plan → Prop} (hp : Hereditary p) {plan : Plan}
    (h : ∀ n ∈ plan.outerCached, p n.value) (s : Scope) :
    ConstantCache.Grows p s.constants (plan.emit s).scope.constants :=
  scope_emit_of_cached (R := fun s t => ConstantCache.Grows p s.constants t.constants)
    (fun s => .refl s.constants) (fun hfirst hsecond => hfirst.trans hsecond)
    (fun n hn s => Scope.grows_cache hp s (h n hn) n.type) s

/-- Whatever relates a scope to the one after a registration relates it to the one after applying a
plan. -/
theorem scope_emit_rule {R : Scope → Scope → Prop} (refl : ∀ s, R s s)
    (trans : ∀ {s t u}, R s t → R t u → R s u)
    (register : ∀ (s : Scope) value type, R s (s.register value type).2) (plan : Plan) (s : Scope) :
    R s (plan.emit s).scope :=
  scope_emit_of_cached refl trans
    (fun n _ s => Scope.cache_rule refl trans register s n.value n.type) s

/-- If all constants of a plan are known, applying it leaves the scope as it is. -/
theorem scope_emit_of_knows {plan : Plan} {s : Scope}
    (h : ∀ n ∈ plan.outerCached, n.value.isPossible = true ∧ s.constants.Knows n) :
    (plan.emit s).scope = s := by
  refine scope_emit_of_cached (R := fun s' t => s' = s → t = s) ?refl ?trans ?cached s rfl
  case refl => exact fun _ hs => hs
  case trans => exact fun hfirst hsecond hs => hsecond (hfirst hs)
  case cached =>
    rintro n hn s' rfl
    obtain ⟨hpossible, field, hfind⟩ := h n hn
    rw [Scope.cache_of_find? hpossible hfind]

/-! ### Success -/

/-- Every method whose reflective object the plan pushes has a parameter list that an array has room
for. -/
def ObjectsFit (plan : Plan) : Prop :=
  ∀ m, .methodObject m ∈ plan.subplans → m.descriptor.parameters.length ≤ maxArrayLength

theorem emitEach_succeeds {plans : List Plan}
    (h : ∀ p ∈ plans, ∀ s, ∃ effect, (p.emit s).outcome = .ok effect) (soFar : Effect) (s : Scope) :
    ∃ effect, (emitEach plans soFar s).outcome = .ok effect := by
  induction plans generalizing soFar s with
  | nil => exact ⟨soFar, rfl⟩
  | cons plan rest ih =>
      obtain ⟨effect, hok⟩ := h plan List.mem_cons_self s
      rw [emitEach, Emitted.andThen_of_ok hok]
      exact ih (fun p hp => h p (List.mem_cons_of_mem plan hp)) _ _

theorem emitFill_succeeds {component : ValueType} {plans : List Plan}
    (h : ∀ p ∈ plans, ∀ s, ∃ effect, (p.emit s).outcome = .ok effect) (index : Nat)
    (soFar : Effect) (s : Scope) :
    ∃ effect, (emitFill component plans index soFar s).outcome = .ok effect := by
  induction plans generalizing index soFar s with
  | nil => exact ⟨soFar, rfl⟩
  | cons plan rest ih =>
      obtain ⟨effect, hok⟩ := h plan List.mem_cons_self s
      rw [emitFill, Emitted.andThen_of_ok hok]
      exact ih (fun p hp => h p (List.mem_cons_of_mem plan hp)) _ _ _

/-- **A possible plan can be applied in every scope.** -/
theorem emit_succeeds {plan : Plan} (hpossible : plan.isPossible = true) (hfit : plan.ObjectsFit)
    (s : Scope) : ∃ effect, (plan.emit s).outcome = .ok effect := by
  induction plan generalizing s with
  | impossible => cases hpossible
  | nothing => exact ⟨Effect.zero, rfl⟩
  | op operation => exact ⟨operation.effect, rfl⟩
  | sequence parts ih =>
      rw [isPossible, allPossible_iff] at hpossible
      refine emitEach_succeeds (fun p hp => ih p hp (hpossible p hp) fun m hm => ?_) Effect.zero s
      exact hfit m (mem_subplans_sequence hp hm)
  | methodObject method =>
      rw [emit, emitMethodObject, if_pos (hfit method (self_mem_subplans _))]
      exact ⟨_, rfl⟩
  | cached value type _ =>
      rw [isPossible] at hpossible
      obtain ⟨field, hok, -⟩ := s.cache_of_isPossible hpossible type
      refine ⟨Effect.pushing type.slots, ?_⟩
      rw [emit, emitCached, show s.cache value type = (.ok field, (s.cache value type).2) from
        Prod.ext hok rfl]
  | array component elements ih =>
      rw [isPossible, Bool.and_eq_true, allPossible_iff, decide_eq_true_eq] at hpossible
      rw [emit, if_pos hpossible.1]
      refine emitFill_succeeds (fun p hp => ih p hp (hpossible.2 p hp) fun m hm => ?_) 0 ⟨1, 1⟩ s
      exact hfit m (mem_subplans_array hp hm)

/-! ### What a plan emits -/

/-- **The instructions that a plan emits**, where its constants are in a cache: those of its operations,
those that arrange arrays, a look-up of each of its constants, and what finding a reflective object
takes. -/
inductive Emits (plan : Plan) (c : ConstantCache) : SymbolicInstruction → Prop
  | op {o : Operation} (ho : o ∈ plan.operations) : Emits plan c o.instruction
  | array {i : SymbolicInstruction} (hi : ArrangesArray i) : Emits plan c i
  | cached {n : CachedValue} {f : Field} (hn : n ∈ plan.outerCached)
      (hfind : c.find? n.value n.type = some f) : Emits plan c (.access .getStatic f)
  | classOf (type : Option ValueType) : Emits plan c (Operation.classOf type).instruction
  | text (value : String) : Emits plan c (.ldc (.text value))
  | lookup (method : Method) : Emits plan c (.invoke .virtual (lookupMethod method))

theorem Emits.mono {plan : Plan} {p : Plan → Prop} {c d : ConstantCache} {i : SymbolicInstruction}
    (h : plan.Emits c i) (hgrows : ConstantCache.Grows p c d) : plan.Emits d i := by
  cases h with
  | op ho => exact .op ho
  | array hi => exact .array hi
  | cached hn hfind => exact .cached hn (hgrows.find?_eq hfind)
  | classOf type => exact .classOf type
  | text value => exact .text value
  | lookup method => exact .lookup method

theorem emits_of_mem_fillTypes (plan : Plan) (c : ConstantCache) {component : ValueType}
    {types : List ValueType} {index : Nat} {soFar : Effect} {i : SymbolicInstruction}
    (h : i ∈ (fillTypes component types index soFar []).1) : plan.Emits c i := by
  induction types generalizing index soFar with
  | nil => exact absurd h List.not_mem_nil
  | cons type types ih =>
      rw [fillTypes, fillTypes_eq] at h
      simp only [List.append_nil, List.reverse_cons, List.reverse_reverse,
        List.mem_append, List.mem_singleton] at h
      rcases h with ((h | rfl) | rfl) | h
      · exact .array (arrangesArray_of_mem_elementStart h)
      · exact .classOf (some type)
      · exact .array (.bare _)
      · exact ih h

theorem emits_of_mem_emitMethodObject (plan : Plan) (c : ConstantCache) {method : Method} {s : Scope}
    {i : SymbolicInstruction} (h : i ∈ (emitMethodObject method s).code) : plan.Emits c i := by
  have htarget : ∀ i ∈ (lookupTarget method).map Operation.instruction, plan.Emits c i := by
    intro i hi
    have howner : plan.Emits c (Operation.typeObject (.object method.owner)).instruction :=
      .classOf (some (.object method.owner))
    unfold lookupTarget at hi
    split at hi
    · cases List.mem_singleton.1 hi
      exact howner
    · rcases List.mem_cons.1 hi with rfl | hi
      · exact howner
      · cases List.mem_singleton.1 hi
        exact .text _
  unfold emitMethodObject at h
  split at h
  · simp only [lookupCode, List.mem_append, List.mem_singleton] at h
    rcases h with (h | h | h) | rfl
    · exact htarget i h
    · exact .array (arrangesArray_of_mem_arrayStart h)
    · exact emits_of_mem_fillTypes plan c h
    · exact .lookup method
  · exact htarget i h

/-- **What is emitted for a plan** is what the plan emits, with the constants that are known by then. -/
theorem emits_of_mem_emit {plan : Plan} {s : Scope} {i : SymbolicInstruction}
    (h : i ∈ (plan.emit s).code) : plan.Emits (plan.emit s).scope.constants i := by
  let any : Plan → Prop := fun _ => True
  refine (emit_rule (R := fun s r => ConstantCache.Grows any s.constants r.scope.constants ∧
    ∀ i ∈ r.code, plan.Emits r.scope.constants i) ?done ?stop ?after ?andThen ?object ?op ?cached
    s).2 i h
  case done => exact fun s _ => ⟨.refl s.constants, fun _ h => absurd h List.not_mem_nil⟩
  case stop => exact fun s => ⟨.refl s.constants, fun _ h => absurd h List.not_mem_nil⟩
  case after =>
    intro s r first hfirst ⟨hgrows, hemits⟩
    refine ⟨hgrows, fun i hi => ?_⟩
    rcases List.mem_append.1 hi with hi | hi
    · exact .array (hfirst i hi)
    · exact hemits i hi
  case andThen =>
    -- what the second part registers does not change what the first part emits
    intro s r next ⟨hgrows, hemits⟩ hnext
    rcases r.andThen_cases next with heq | ⟨effect, hok, heq⟩
    · rw [heq]
      exact ⟨hgrows, hemits⟩
    · obtain ⟨hgrows', hemits'⟩ := hnext effect hok
      rw [heq]
      refine ⟨hgrows.trans hgrows', fun i hi => ?_⟩
      rcases List.mem_append.1 hi with hi | hi
      · exact (hemits i hi).mono hgrows'
      · exact hemits' i hi
  case object =>
    intro method s
    rw [scope_emitMethodObject]
    exact ⟨.refl s.constants, fun i hi => emits_of_mem_emitMethodObject plan _ hi⟩
  case op =>
    intro o ho s
    refine ⟨.refl s.constants, fun i hi => ?_⟩
    cases List.mem_singleton.1 hi
    exact .op ho
  case cached =>
    intro n hn s
    refine ⟨?_, fun i hi => ?_⟩
    · rw [scope_emitCached]
      exact Scope.grows_cache (fun _ _ _ _ => trivial) s trivial n.type
    · cases hcache : s.cache n.value n.type with
      | mk outcome s' =>
          cases outcome with
          | error reason =>
              rw [emitCached, hcache] at hi
              exact absurd hi List.not_mem_nil
          | ok field =>
              rw [emitCached, hcache] at hi ⊢
              cases List.mem_singleton.1 hi
              exact .cached hn (Scope.find?_of_cache hcache)

/-! ### The fields that code uses -/

/-- How code comes to use a field: an operation of the plan does, or the field holds a class object,
or it holds a constant of the plan. -/
def Uses (plan : Plan) (c : ConstantCache) (op : FieldOp) (f : Field) : Prop :=
  (∃ o ∈ plan.operations, o.instruction = .access op f) ∨
    op = .getStatic ∧ ((∃ type, f = classObjectField type) ∨
      ∃ n ∈ plan.outerCached, c.find? n.value n.type = some f)

theorem Uses.mono {plan : Plan} {p : Plan → Prop} {c d : ConstantCache} {op : FieldOp} {f : Field}
    (h : plan.Uses c op f) (hgrows : ConstantCache.Grows p c d) : plan.Uses d op f := by
  rcases h with h | ⟨hop, h | ⟨n, hn, hfind⟩⟩
  · exact .inl h
  · exact .inr ⟨hop, .inl h⟩
  · exact .inr ⟨hop, .inr ⟨n, hn, hgrows.find?_eq hfind⟩⟩

theorem classOf_access {type : Option ValueType} {op : FieldOp} {f : Field}
    (h : (Operation.classOf type).instruction = .access op f) :
    op = .getStatic ∧ ∃ type, f = classObjectField type := by
  rcases type with _ | p | r
  · cases h
    exact ⟨rfl, none, rfl⟩
  · cases h
    exact ⟨rfl, some p, rfl⟩
  · cases h

/-- **The fields that the code of a plan uses** are those of its operations, those of class objects
and those of its constants. -/
theorem uses_of_access_mem_emit {plan : Plan} {s : Scope} {op : FieldOp} {f : Field}
    (h : .access op f ∈ (plan.emit s).code) : plan.Uses (plan.emit s).scope.constants op f := by
  have hemits := emits_of_mem_emit h
  generalize hi : Instruction.access op f = i at hemits
  cases hemits with
  | op ho => exact .inl ⟨_, ho, hi.symm⟩
  | array harray => cases hi ▸ harray
  | cached hn hfind =>
      cases hi
      exact .inr ⟨rfl, .inr ⟨_, hn, hfind⟩⟩
  | classOf type =>
      obtain ⟨hop, hobject⟩ := classOf_access hi.symm
      exact .inr ⟨hop, .inl hobject⟩
  | text value => cases hi
  | lookup method => cases hi

end Plan

end JvmCodegen.Stack
