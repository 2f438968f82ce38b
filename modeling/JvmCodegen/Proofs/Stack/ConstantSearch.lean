/-
**The search for the constants of a plan.**

The cached constants that have to be initialized before a plan are found by a loop over a stack of what
is still to be looked at.  Looking at a plan takes it off the stack and puts its parts there, the last
one first, so that the first one comes out next.  Applying the plan goes through the same parts by
recursion, and stops where something fails.  Both see the same constants in the same order, one for each
place at which a constant stands.

A place inside a plan is given by an address, which tells level by level with which part to go on.
Constants are leaves here: nothing inside a constant has an address.

Main definitions:

* `Stack.Plan.at?` — the plan at an address;
* `Stack.Plan.located` — the constants of a plan with their addresses;
* `Stack.Plan.Search`, `Stack.Plan.Search.turn` — the state of the loop, and one turn of it;
* `Stack.Plan.Search.result` — what is found in the end, which no turn changes;
* `Stack.Plan.AppliesAt` — applying a plan comes to applying the plan at an address.

Main results:

* `Stack.Plan.mem_located`, `Stack.Plan.pairwise_located` — the listing has exactly the constants that
  have an address, in the order of their addresses;
* `Stack.Plan.Search.exists_turns` — the loop ends;
* `Stack.Plan.AppliesAt.at?_eq`, `Stack.Plan.exists_appliesAt` — what is applied has an address, and
  everything that has one is applied if nothing fails;
* `Stack.Plan.search_equals_traversal` — **the loop finds what the recursion meets**.
-/

import JvmCodegen.Proofs.Stack.RegistrationOrder

set_option relaxedAutoImplicit false
set_option autoImplicit false

namespace JvmCodegen.Stack.Plan

/-! ### Addresses -/

/-- The plans right inside a plan that are applied with it. -/
def parts : Plan → List Plan
  | sequence parts => parts
  | array _ elements => elements
  | impossible | nothing | op _ | methodObject _ | cached _ _ => []

/-- The plan at an address inside a plan. An address tells, level by level, with which part to go on;
it never leads into a cached constant. -/
def at? (plan : Plan) : List Nat → Option Plan
  | [] => some plan
  | i :: address => plan.parts[i]?.bind fun part => part.at? address

@[simp] theorem at?_nil (plan : Plan) : plan.at? [] = some plan := rfl

theorem at?_cons_eq_some_iff {plan q : Plan} {i : Nat} {address : List Nat} :
    plan.at? (i :: address) = some q ↔ ∃ p, plan.parts[i]? = some p ∧ p.at? address = some q :=
  Option.bind_eq_some_iff

/-- The plan that reads a constant. -/
def CachedValue.toPlan (c : CachedValue) : Plan := .cached c.value c.type

mutual

/-- The cached constants of a plan with their addresses, from left to right. -/
def located : Plan → List (List Nat × CachedValue)
  | sequence parts => locatedEach parts 0
  | cached value type => [([], ⟨value, type⟩)]
  | array _ elements => locatedEach elements 0
  | impossible | nothing | op _ | methodObject _ => []

/-- The cached constants of each plan of a list, with their addresses from an index on. -/
def locatedEach : List Plan → Nat → List (List Nat × CachedValue)
  | [], _ => []
  | plan :: rest, index =>
      plan.located.map (fun x => (index :: x.1, x.2)) ++ locatedEach rest (index + 1)

end

theorem mem_locatedEach {plans : List Plan} {index : Nat} {address : List Nat} {c : CachedValue} :
    (address, c) ∈ locatedEach plans index ↔
      ∃ i rest p, address = (index + i) :: rest ∧ plans[i]? = some p ∧ (rest, c) ∈ p.located := by
  induction plans generalizing index with
  | nil => simp [locatedEach]
  | cons plan plans ih =>
      rw [locatedEach, List.mem_append, List.mem_map, ih]
      constructor
      · rintro (⟨⟨rest, d⟩, hmem, heq⟩ | ⟨i, rest, p, rfl, hp, hmem⟩)
        · cases heq
          exact ⟨0, rest, plan, rfl, rfl, hmem⟩
        · exact ⟨i + 1, rest, p, by rw [Nat.add_right_comm]; rfl, hp, hmem⟩
      · rintro ⟨_ | i, rest, p, rfl, hp, hmem⟩
        · cases hp
          exact .inl ⟨(rest, c), hmem, rfl⟩
        · exact .inr ⟨i, rest, p, by rw [Nat.add_right_comm]; rfl, hp, hmem⟩

/-- A plan that is no constant itself lists what its parts do. -/
theorem mem_located_of_parts {plan : Plan} {address : List Nat} {c : CachedValue}
    (hlocated : plan.located = locatedEach plan.parts 0) (hplan : plan ≠ c.toPlan)
    (h : ∀ p ∈ plan.parts, ∀ rest, (rest, c) ∈ p.located ↔ p.at? rest = some c.toPlan) :
    (address, c) ∈ plan.located ↔ plan.at? address = some c.toPlan := by
  rw [hlocated, mem_locatedEach]
  cases address with
  | nil =>
      rw [at?_nil, Option.some.injEq]
      refine iff_of_false ?_ hplan
      rintro ⟨i, rest, p, hnil, -⟩
      cases hnil
  | cons i rest =>
      rw [at?_cons_eq_some_iff]
      constructor
      · rintro ⟨j, rest, p, heq, hp, hmem⟩
        rw [Nat.zero_add] at heq
        cases heq
        exact ⟨p, hp, (h p (List.mem_of_getElem? hp) rest).1 hmem⟩
      · rintro ⟨p, hp, hat⟩
        exact ⟨i, rest, p, by rw [Nat.zero_add], hp, (h p (List.mem_of_getElem? hp) rest).2 hat⟩

/-- **The listing has exactly the constants that have an address.** -/
theorem mem_located {plan : Plan} {address : List Nat} {c : CachedValue} :
    (address, c) ∈ plan.located ↔ plan.at? address = some c.toPlan := by
  induction plan generalizing address with
  | impossible | nothing | op _ | methodObject _ =>
      exact mem_located_of_parts rfl nofun fun _ hp => absurd hp List.not_mem_nil
  | sequence parts ih => exact mem_located_of_parts rfl nofun fun p hp _ => ih p hp
  | array component elements ih => exact mem_located_of_parts rfl nofun fun p hp _ => ih p hp
  | cached value type _ =>
      obtain ⟨value', type'⟩ := c
      rw [located, List.mem_singleton]
      cases address with
      | nil => simp [CachedValue.toPlan, eq_comm]
      | cons i rest => simp [at?, parts]

theorem pairwise_locatedEach {plans : List Plan}
    (h : ∀ p ∈ plans, p.located.Pairwise fun x y => List.Lex (· < ·) x.1 y.1) (index : Nat) :
    (locatedEach plans index).Pairwise fun x y => List.Lex (· < ·) x.1 y.1 := by
  induction plans generalizing index with
  | nil => exact .nil
  | cons plan rest ih =>
      rw [locatedEach, List.pairwise_append]
      refine ⟨?_, ih (fun p hp => h p (List.mem_cons_of_mem plan hp)) (index + 1), ?_⟩
      · exact List.pairwise_map.2 ((h plan List.mem_cons_self).imp .cons)
      · -- the first plan has a smaller index than those behind it
        rintro x hx ⟨address, c⟩ hy
        obtain ⟨⟨first, d⟩, -, rfl⟩ := List.mem_map.1 hx
        obtain ⟨i, second, p, rfl, -⟩ := mem_locatedEach.1 hy
        exact .rel (by omega)

/-- The constants are listed in the order of their addresses. -/
theorem pairwise_located (plan : Plan) :
    plan.located.Pairwise fun x y => List.Lex (· < ·) x.1 y.1 := by
  induction plan with
  | impossible | nothing | op _ | methodObject _ => exact .nil
  | cached value type _ => exact List.pairwise_singleton _ _
  | sequence parts ih => exact pairwise_locatedEach ih 0
  | array component elements ih => exact pairwise_locatedEach ih 0

theorem map_snd_locatedEach {plans : List Plan}
    (h : ∀ p ∈ plans, p.located.map Prod.snd = p.directCached) (index : Nat) :
    (locatedEach plans index).map Prod.snd = directCachedEach plans := by
  induction plans generalizing index with
  | nil => rfl
  | cons plan rest ih =>
      rw [locatedEach, directCachedEach, List.map_append, List.map_map,
        ih (fun p hp => h p (List.mem_cons_of_mem plan hp)), ← h plan List.mem_cons_self]
      rfl

/-- Without the addresses, the listing is that of the recursion. -/
theorem map_snd_located (plan : Plan) : plan.located.map Prod.snd = plan.directCached := by
  induction plan with
  | impossible | nothing | op _ | methodObject _ | cached _ _ _ => rfl
  | sequence parts ih => exact map_snd_locatedEach ih 0
  | array component elements ih => exact map_snd_locatedEach ih 0

/-! ### The loop -/

/-- The state of the search: the plans that are still to be looked at, the next one at the end, and the
constants found so far. -/
structure Search where
  pending : Array Plan
  found : Array CachedValue

namespace Search

/-- Look at a plan. Its parts are pushed in reverse, and so come out from left to right. -/
def look (s : Search) : Plan → Search
  | sequence parts => { s with pending := s.pending ++ parts.reverse }
  | array _ elements => { s with pending := s.pending ++ elements.reverse }
  | cached value type => { s with found := s.found.push ⟨value, type⟩ }
  | impossible | nothing | op _ | methodObject _ => s

/-- One turn of the loop: take the next plan off the stack and look at it. Where nothing is pending, the
loop has ended. -/
def turn (s : Search) : Search :=
  match s.pending.back? with
  | some plan => look { s with pending := s.pending.pop } plan
  | none => s

/-- A number of turns. -/
def turns : Nat → Search → Search
  | 0, s => s
  | n + 1, s => turns n s.turn

/-- What is found in the end, when the plans on the stack are gone through from its top down. -/
def result (s : Search) : Array CachedValue := collectCached s.pending.toList.reverse s.found

/-- The number of nodes of what is pending. -/
def weight (s : Search) : Nat := weightEach s.pending.toList

@[simp] theorem turn_push (pending : Array Plan) (plan : Plan) (found : Array CachedValue) :
    turn ⟨pending.push plan, found⟩ = look ⟨pending, found⟩ plan := by
  simp [turn]

/-- Looking at a plan does not change what is found in the end. -/
theorem result_look (pending : Array Plan) (found : Array CachedValue) (plan : Plan) :
    (look ⟨pending, found⟩ plan).result = result ⟨pending.push plan, found⟩ := by
  have htop : (pending.push plan).toList.reverse = plan :: pending.toList.reverse := by simp
  rw [result, result, htop]
  cases plan with
  | sequence parts | array _ parts =>
      -- what is pushed in reverse is taken off from left to right
      have hparts : (pending ++ parts.reverse).toList.reverse = parts ++ pending.toList.reverse := by simp
      rw [look, hparts, collectCached]
  | cached value type => rw [look, collectCached]
  | impossible | nothing | op _ | methodObject _ => rw [look, collectCached]

/-- Each plan that is looked at makes the stack lighter, whatever it pushes. -/
theorem weight_look_lt (pending : Array Plan) (found : Array CachedValue) (plan : Plan) :
    (look ⟨pending, found⟩ plan).weight < weight ⟨pending.push plan, found⟩ := by
  have htop : weight ⟨pending.push plan, found⟩ = weightEach pending.toList + plan.weight := by
    rw [weight, Array.toList_push, weightEach_append, weightEach, weightEach, Nat.add_zero]
  rw [htop, weight]
  cases plan with
  | sequence parts | array _ parts =>
      -- the parts weigh as much as the plan without its own node
      rw [look, Array.toList_appendList, weightEach_append, weightEach_reverse, Plan.weight]
      exact Nat.lt_succ_self _
  | cached value type => exact Nat.lt_add_of_pos_right (Nat.succ_pos value.weight)
  | impossible | nothing | op _ | methodObject _ => exact Nat.lt_succ_self _

/-- **The loop ends**, after at most as many turns as there are nodes. -/
theorem exists_turns (s : Search) : ∃ n ≤ s.weight, turns n s = ⟨#[], s.result⟩ := by
  obtain ⟨pending, found⟩ := s
  by_cases hpending : pending = #[]
  · subst hpending
    exact ⟨0, Nat.zero_le _, by simp [turns, result, collectCached]⟩
  · -- one turn more than from the lighter stack that it leaves
    obtain ⟨pending, plan, rfl⟩ := Array.exists_push_of_ne_empty hpending
    have hlt := weight_look_lt pending found plan
    obtain ⟨n, hn, hturns⟩ := exists_turns (look ⟨pending, found⟩ plan)
    refine ⟨n + 1, by omega, ?_⟩
    rw [turns, turn_push, hturns, result_look]
termination_by s.weight

end Search

/-! ### Applying a plan -/

section Apply

variable {σ : Type} [CodeCollector σ]

/-- Applying a plan comes to applying the plan at an address inside it, to the code and the scope that
there are when everything before it has been applied. -/
inductive AppliesAt : Plan → Emission σ → List Nat → Plan → Emission σ → Prop
  | here (plan : Plan) (e : Emission σ) : AppliesAt plan e [] plan e
  | part {parts : List Plan} {i : Nat} {p q : Plan} {address : List Nat} {e e₁ e₂ : Emission σ}
      {soFar : Effect} (hp : parts[i]? = some p)
      (hbefore : applyEach (parts.take i) Effect.zero e = (.ok soFar, e₁))
      (h : AppliesAt p e₁ address q e₂) : AppliesAt (.sequence parts) e (i :: address) q e₂
  | element {component : ValueType} {elements : List Plan} {i : Nat} {p q : Plan}
      {address : List Nat} {e e₁ e₂ : Emission σ} {soFar : Effect}
      (hlength : elements.length ≤ maxArrayLength) (hp : elements[i]? = some p)
      (hbefore : fill component (elements.take i) 0 ⟨1, 1⟩
        (e.appendAll (arrayStart component elements.length)) = (.ok soFar, e₁))
      (h : AppliesAt p (e₁.appendAll (elementStart i)) address q e₂) :
      AppliesAt (.array component elements) e (i :: address) q e₂

/-- What is applied has an address. -/
theorem AppliesAt.at?_eq {plan q : Plan} {address : List Nat} {e e' : Emission σ}
    (h : AppliesAt plan e address q e') : plan.at? address = some q := by
  induction h with
  | here plan e => rfl
  | part hp _ _ ih => exact at?_cons_eq_some_iff.2 ⟨_, hp, ih⟩
  | element _ hp _ _ ih => exact at?_cons_eq_some_iff.2 ⟨_, hp, ih⟩

/-- If the plans of a list are applied one after the other, each of them is applied after those before
it. -/
theorem exists_apply_of_applyEach {plans : List Plan} {i : Nat} {p : Plan} (hp : plans[i]? = some p)
    {soFar effect : Effect} {e e' : Emission σ} (h : applyEach plans soFar e = (.ok effect, e')) :
    ∃ soFar₁ e₁ effect₂ e₂, applyEach (plans.take i) soFar e = (.ok soFar₁, e₁) ∧
      p.apply e₁ = (.ok effect₂, e₂) := by
  induction plans generalizing i soFar e with
  | nil => cases hp
  | cons plan rest ih =>
      rw [applyEach] at h
      rcases happly : plan.apply e with ⟨reason | effect₁, e₁⟩
      · rw [happly] at h
        cases h
      · rw [happly] at h
        cases i with
        | zero =>
            cases hp
            exact ⟨soFar, e, effect₁, e₁, rfl, happly⟩
        | succ i =>
            obtain ⟨soFar₁, e₂, effect₃, e₃, hbefore, hafter⟩ := ih hp h
            refine ⟨soFar₁, e₂, effect₃, e₃, ?_, hafter⟩
            rw [List.take_succ_cons, applyEach, happly]
            exact hbefore

/-- The same of the plans whose values fill an array. -/
theorem exists_apply_of_fill {component : ValueType} {plans : List Plan} {i : Nat} {p : Plan}
    (hp : plans[i]? = some p) {index : Nat} {soFar effect : Effect} {e e' : Emission σ}
    (h : fill component plans index soFar e = (.ok effect, e')) :
    ∃ soFar₁ e₁ effect₂ e₂, fill component (plans.take i) index soFar e = (.ok soFar₁, e₁) ∧
      p.apply (e₁.appendAll (elementStart (index + i))) = (.ok effect₂, e₂) := by
  induction plans generalizing i index soFar e with
  | nil => cases hp
  | cons plan rest ih =>
      rw [fill] at h
      rcases happly : plan.apply (e.appendAll (elementStart index)) with ⟨reason | effect₁, e₁⟩
      · rw [happly] at h
        cases h
      · rw [happly] at h
        cases i with
        | zero =>
            cases hp
            exact ⟨soFar, e, effect₁, e₁, rfl, happly⟩
        | succ i =>
            obtain ⟨soFar₁, e₂, effect₃, e₃, hbefore, hafter⟩ := ih hp h
            refine ⟨soFar₁, e₂, effect₃, e₃, ?_, by rwa [Nat.add_right_comm] at hafter⟩
            rw [List.take_succ_cons, fill, happly]
            exact hbefore

/-- **Everything that has an address is applied**, if applying the plan succeeds. -/
theorem exists_appliesAt {plan q : Plan} {address : List Nat} (hat : plan.at? address = some q)
    {e e' : Emission σ} {effect : Effect} (h : plan.apply e = (.ok effect, e')) :
    ∃ e₁, AppliesAt plan e address q e₁ := by
  induction address generalizing plan e e' effect with
  | nil =>
      cases hat
      exact ⟨e, .here q e⟩
  | cons i address ih =>
      obtain ⟨p, hp, hrest⟩ := at?_cons_eq_some_iff.1 hat
      cases plan with
      | impossible | nothing | op _ | methodObject _ | cached _ _ => cases hp
      | sequence parts =>
          rw [apply] at h
          obtain ⟨soFar, e₁, effect₂, e₂, hbefore, happly⟩ := exists_apply_of_applyEach hp h
          obtain ⟨e₃, hinside⟩ := ih hrest happly
          exact ⟨e₃, .part hp hbefore hinside⟩
      | array component elements =>
          rw [apply] at h
          split at h
          case isFalse => cases h
          case isTrue hlength =>
              obtain ⟨soFar, e₁, effect₂, e₂, hbefore, happly⟩ := exists_apply_of_fill hp h
              rw [Nat.zero_add] at happly
              obtain ⟨e₃, hinside⟩ := ih hrest happly
              exact ⟨e₃, .element hlength hp hbefore hinside⟩

end Apply

/-! ### The search and the traversal -/

theorem weight_lt_of_mem_parts {plan p : Plan} (hp : p ∈ plan.parts) : p.weight < plan.weight := by
  cases plan with
  | impossible | nothing | op _ | methodObject _ | cached _ _ => exact absurd hp List.not_mem_nil
  | sequence parts => exact Nat.lt_succ_of_le (weight_le_weightEach hp)
  | array component elements => exact Nat.lt_succ_of_le (weight_le_weightEach hp)

/-- A plan that has an address is the whole plan, or has fewer nodes. -/
theorem eq_or_weight_lt_of_at? {plan q : Plan} {address : List Nat} (h : plan.at? address = some q) :
    q = plan ∨ q.weight < plan.weight := by
  induction address generalizing plan with
  | nil => exact .inl (Option.some.inj h).symm
  | cons i address ih =>
      obtain ⟨p, hp, hrest⟩ := at?_cons_eq_some_iff.1 h
      have hlt := weight_lt_of_mem_parts (List.mem_of_getElem? hp)
      rcases ih hrest with rfl | hsmaller
      · exact .inr hlt
      · exact .inr (Nat.lt_trans hsmaller hlt)

/-- **The loop finds what the recursion meets.** Started with a plan on its stack, the loop ends after at
most as many turns as the plan has nodes, and has then found the outer constants of the plan, which are
those of the recursion. They are the constants that stand at an address inside the plan, one for each
such address and in the order of the addresses. Wherever the plan is applied, every constant that
applying it comes to is listed with its address, and if nothing fails, applying it comes to each one that
is listed; what is registered is what comes of asking for the constants from the first one up to where
something fails. And each constant that is found is the plan itself, or has fewer nodes. -/
theorem search_equals_traversal (plan : Plan) :
    (∃ n ≤ plan.weight, Search.turns n ⟨#[plan], #[]⟩ = ⟨#[], plan.outerCached.toArray⟩) ∧
    plan.outerCached = plan.directCached ∧
    (∃ listing : List (List Nat × CachedValue),
      listing.map Prod.snd = plan.outerCached ∧
      (listing.Pairwise fun x y => List.Lex (· < ·) x.1 y.1) ∧
      (∀ address c, (address, c) ∈ listing ↔ plan.at? address = some c.toPlan) ∧
      ∀ {σ : Type} [CodeCollector σ] (e : Emission σ),
        (∀ address c e₁, AppliesAt plan e address c.toPlan e₁ → (address, c) ∈ listing) ∧
        ∀ effect e', plan.apply e = (.ok effect, e') →
          ∀ x ∈ listing, ∃ e₁, AppliesAt plan e x.1 x.2.toPlan e₁) ∧
    (∀ {σ : Type} [CodeCollector σ] (e : Emission σ), ∃ asked, asked <+: plan.outerCached ∧
      e.scope.cacheEach asked = (.ok (), (plan.apply e).2.scope) ∧
      ∀ effect e', plan.apply e = (.ok effect, e') → asked = plan.outerCached) ∧
    ∀ c ∈ plan.outerCached, c.toPlan = plan ∨ c.toPlan.weight < plan.weight := by
  have hlisting : plan.located.map Prod.snd = plan.outerCached := by
    rw [map_snd_located, outerCached_eq_directCached]
  refine ⟨?_, plan.outerCached_eq_directCached,
    ⟨plan.located, hlisting, plan.pairwise_located, fun _ _ => mem_located, fun e => ⟨?_, ?_⟩⟩,
    fun e => ?_, fun c hc => ?_⟩
  · obtain ⟨n, hn, hturns⟩ := Search.exists_turns ⟨#[plan], #[]⟩
    have hweight : Search.weight ⟨#[plan], #[]⟩ = plan.weight := Nat.add_zero plan.weight
    exact ⟨n, hweight ▸ hn, hturns⟩
  · exact fun address c e₁ h => mem_located.2 h.at?_eq
  · exact fun effect e' hok x hx => exists_appliesAt (mem_located.1 hx) hok
  · obtain ⟨asked, hasked, hcache, hall⟩ := plan.asksFor_emit e.scope
    refine ⟨asked, hasked, ?_, fun effect e' hok => hall effect (of_apply_eq hok).1⟩
    rw [apply_eq_emit]
    exact hcache
  · rw [← hlisting] at hc
    obtain ⟨⟨address, d⟩, hmem, rfl⟩ := List.mem_map.1 hc
    exact eq_or_weight_lt_of_at? (mem_located.1 hmem)

/-- A number that is a constant. -/
def cachedNumber : CachedValue := ⟨.op (.float 0x3F800000), .primitive .float⟩

/-- Three uses of a constant: two in an array, one of them further inside, and one inside another
constant. -/
def repeatedNumber : Plan :=
  .sequence
    [.array (.primitive .float) [cachedNumber.toPlan, .sequence [.nothing, cachedNumber.toPlan]],
      .cached (.sequence [cachedNumber.toPlan, .nothing]) (.primitive .float)]

/-- The two uses in the array are found, and the second one of them is applied; the third use is left to
the other constant. -/
theorem search_equals_traversal_repeatedNumber :
    ∃ (n : Nat) (effect : Effect) (e e' e₁ : Emission (Array SymbolicInstruction)),
      n ≤ 13 ∧ Search.turns n ⟨#[repeatedNumber], #[]⟩ =
        ⟨#[], #[cachedNumber, cachedNumber,
          ⟨.sequence [cachedNumber.toPlan, .nothing], .primitive .float⟩]⟩ ∧
      repeatedNumber.apply e = (.ok effect, e') ∧
      AppliesAt repeatedNumber e [0, 1, 1] cachedNumber.toPlan e₁ ∧
      cachedNumber.toPlan.weight < repeatedNumber.weight := by
  obtain ⟨⟨n, hn, hturns⟩, hrecursion, ⟨listing, hlisting, -, hmem, happlied⟩, -, hsmaller⟩ :=
    search_equals_traversal repeatedNumber
  have hfound : ([0, 1, 1], cachedNumber) ∈ listing := (hmem _ _).2 rfl
  have hinside : cachedNumber ∈ repeatedNumber.outerCached := hlisting ▸ List.mem_map_of_mem hfound
  have hpossible : repeatedNumber.isPossible = true := rfl
  have hfit : repeatedNumber.ObjectsFit := by
    intro m hm
    simp [repeatedNumber, cachedNumber, CachedValue.toPlan, subplans, subplansEach] at hm
  let start : Emission (Array SymbolicInstruction) :=
    ⟨#[], ⟨.empty, .new Java.object ConstantCache.defaultNamePart⟩⟩
  obtain ⟨effect, hok⟩ := emit_succeeds hpossible hfit start.scope
  have happly : repeatedNumber.apply start =
      (.ok effect, ((repeatedNumber.emit start.scope).onto start.code).2) := by
    rw [apply_eq_emit, Emitted.onto, hok]
  obtain ⟨e₁, hat⟩ := (happlied start).2 effect _ happly _ hfound
  refine ⟨n, effect, start, _, e₁, hn, ?_, happly, hat, ?_⟩
  · rw [hturns, hrecursion]
    rfl
  · rcases hsmaller cachedNumber hinside with heq | hlt
    · cases heq
    · exact hlt

end JvmCodegen.Stack.Plan
