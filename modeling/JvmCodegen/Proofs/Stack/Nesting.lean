/-
**Cached constants inside plans.**

The cached constants of a plan that are not inside another one are found with a list of what is
still to be looked at.  Here they are read off the plan by recursion, and both ways give the same
list.  What a plan says about its parts is then passed on to the constants inside it.

Main definitions:

* `Stack.Plan.directCached` — the cached constants of a plan, by recursion;
* `Stack.Plan.weight` — the number of nodes of a plan.

Main results:

* `Stack.Plan.outerCached_eq_directCached` — the list of what is pending finds the same constants;
* `Stack.Plan.outerCached_sequence`, `Stack.Plan.outerCached_array` and the like — the constants of a
  plan are those of its parts;
* `Stack.Plan.isPossible_of_mem_outerCached`, `Stack.Plan.mem_subplans_of_mem_outerCached` — what
  holds of a plan holds of the constants inside it;
* `Stack.Plan.weight_eq_of_same`, `Stack.Plan.weight_lt_of_mem_outerCached` — equal plans have equal
  weight, and a constant inside a plan has less, so that no plan is equal to a constant inside it.
-/

import JvmCodegen.Proofs.Stack.Emitted

set_option relaxedAutoImplicit false
set_option autoImplicit false

namespace JvmCodegen.Stack.Plan

/-! ### Cached constants by recursion -/

mutual

/-- The cached constants of a plan that are not inside another cached constant. -/
def directCached : Plan → List CachedValue
  | sequence parts => directCachedEach parts
  | cached value type => [⟨value, type⟩]
  | array _ elements => directCachedEach elements
  | impossible | nothing | op _ | methodObject _ => []

/-- The cached constants of each plan of a list. -/
def directCachedEach : List Plan → List CachedValue
  | [] => []
  | plan :: rest => plan.directCached ++ directCachedEach rest

end

theorem directCachedEach_eq_flatMap (plans : List Plan) :
    directCachedEach plans = plans.flatMap directCached := by
  induction plans with
  | nil => rfl
  | cons plan plans ih => rw [directCachedEach, ih, List.flatMap_cons]

theorem directCachedEach_append (a b : List Plan) :
    directCachedEach (a ++ b) = directCachedEach a ++ directCachedEach b := by
  simp only [directCachedEach_eq_flatMap, List.flatMap_append]

/-- What is found are the constants found so far and then those of the pending plans. -/
theorem toList_collectCached (pending : List Plan) (found : Array CachedValue) :
    (collectCached pending found).toList = found.toList ++ directCachedEach pending := by
  fun_induction collectCached pending found with
  | case1 found => simp [directCachedEach]
  | case2 parts pending found ih =>
      rw [ih, directCachedEach_append, directCachedEach, directCached]
  | case3 component elements pending found ih =>
      rw [ih, directCachedEach_append, directCachedEach, directCached]
  | case4 value type pending found ih =>
      rw [ih, directCachedEach, directCached]
      simp
  | case5 pending found ih | case6 pending found ih | case7 operation pending found ih
  | case8 method pending found ih =>
      rw [ih, directCachedEach, directCached, List.nil_append]

theorem outerCached_eq_directCached (plan : Plan) : plan.outerCached = plan.directCached := by
  rw [outerCached, toList_collectCached, directCachedEach, directCachedEach]
  simp

/-! ### The constants of a plan and of its parts -/

@[simp] theorem outerCached_impossible : outerCached .impossible = [] :=
  outerCached_eq_directCached .impossible

@[simp] theorem outerCached_nothing : outerCached .nothing = [] :=
  outerCached_eq_directCached .nothing

@[simp] theorem outerCached_op (operation : Operation) : outerCached (.op operation) = [] :=
  outerCached_eq_directCached (.op operation)

@[simp] theorem outerCached_methodObject (method : Method) :
    outerCached (.methodObject method) = [] :=
  outerCached_eq_directCached (.methodObject method)

@[simp] theorem outerCached_cached (value : Plan) (type : ValueType) :
    outerCached (.cached value type) = [⟨value, type⟩] :=
  outerCached_eq_directCached (.cached value type)

@[simp] theorem outerCached_sequence (parts : List Plan) :
    outerCached (.sequence parts) = parts.flatMap outerCached := by
  rw [funext outerCached_eq_directCached]
  exact directCachedEach_eq_flatMap parts

@[simp] theorem outerCached_array (component : ValueType) (elements : List Plan) :
    outerCached (.array component elements) = elements.flatMap outerCached := by
  rw [funext outerCached_eq_directCached]
  exact directCachedEach_eq_flatMap elements

/-! ### What is passed on -/

theorem allPossible_iff {plans : List Plan} :
    allPossible plans = true ↔ ∀ p ∈ plans, p.isPossible = true := by
  induction plans with
  | nil => simp [allPossible]
  | cons plan plans ih => simp [allPossible, ih]

/-- A possible plan has only possible constants inside it. -/
theorem isPossible_of_mem_outerCached {plan : Plan} (h : plan.isPossible = true)
    {n : CachedValue} (hn : n ∈ plan.outerCached) : n.value.isPossible = true := by
  induction plan with
  | impossible | nothing | op _ | methodObject _ => simp at hn
  | sequence parts ih =>
      obtain ⟨p, hp, hn⟩ := List.mem_flatMap.1 (outerCached_sequence parts ▸ hn)
      rw [isPossible, allPossible_iff] at h
      exact ih p hp (h p hp) hn
  | cached value type _ =>
      rw [outerCached_cached, List.mem_singleton] at hn
      rw [isPossible] at h
      rw [hn]
      exact h
  | array component elements ih =>
      obtain ⟨p, hp, hn⟩ := List.mem_flatMap.1 (outerCached_array component elements ▸ hn)
      rw [isPossible, Bool.and_eq_true, allPossible_iff] at h
      exact ih p hp (h.2 p hp) hn

/-- What is inside a constant of a plan is inside the plan. -/
theorem mem_subplans_of_mem_outerCached {plan : Plan} {n : CachedValue}
    (hn : n ∈ plan.outerCached) {q : Plan} (hq : q ∈ n.value.subplans) : q ∈ plan.subplans := by
  induction plan with
  | impossible | nothing | op _ | methodObject _ => simp at hn
  | sequence parts ih =>
      obtain ⟨p, hp, hn⟩ := List.mem_flatMap.1 (outerCached_sequence parts ▸ hn)
      exact mem_subplans_sequence hp (ih p hp hn)
  | cached value type _ =>
      rw [outerCached_cached, List.mem_singleton] at hn
      rw [hn] at hq
      exact mem_subplans_cached hq type
  | array component elements ih =>
      obtain ⟨p, hp, hn⟩ := List.mem_flatMap.1 (outerCached_array component elements ▸ hn)
      exact mem_subplans_array hp (ih p hp hn)

/-! ### The weight of a plan -/

mutual

/-- The number of nodes of a plan, those inside cached constants included. -/
def weight : Plan → Nat
  | sequence parts => weightEach parts + 1
  | cached value _ => value.weight + 1
  | array _ elements => weightEach elements + 1
  | impossible | nothing | op _ | methodObject _ => 1

/-- The number of nodes of the plans of a list. -/
def weightEach : List Plan → Nat
  | [] => 0
  | plan :: rest => plan.weight + weightEach rest

end

theorem weight_le_weightEach {plan : Plan} {plans : List Plan} (h : plan ∈ plans) :
    plan.weight ≤ weightEach plans := by
  induction plans with
  | nil => exact absurd h List.not_mem_nil
  | cons first plans ih =>
      rw [weightEach]
      rcases List.mem_cons.1 h with rfl | h
      · omega
      · have := ih h
        omega

theorem weightEach_append (a b : List Plan) : weightEach (a ++ b) = weightEach a + weightEach b := by
  induction a with
  | nil => rw [List.nil_append, weightEach, Nat.zero_add]
  | cons plan a ih => rw [List.cons_append, weightEach, weightEach, ih, Nat.add_assoc]

theorem weightEach_reverse (plans : List Plan) : weightEach plans.reverse = weightEach plans := by
  induction plans with
  | nil => rfl
  | cons plan plans ih =>
      rw [List.reverse_cons, weightEach_append, ih, weightEach, weightEach, weightEach, Nat.add_zero,
        Nat.add_comm]

theorem weightEach_eq_of_allSame {a : List Plan}
    (h : ∀ p ∈ a, ∀ q : Plan, p.same q = true → p.weight = q.weight) {b : List Plan}
    (hab : allSame a b = true) : weightEach a = weightEach b := by
  induction a generalizing b with
  | nil =>
      cases b with
      | nil => rfl
      | cons q b => cases hab
  | cons p a ih =>
      cases b with
      | nil => cases hab
      | cons q b =>
          rw [allSame, Bool.and_eq_true] at hab
          rw [weightEach, weightEach, h p List.mem_cons_self q hab.1,
            ih (fun p' hp' => h p' (List.mem_cons_of_mem p hp')) hab.2]

/-- Equal plans have the same weight, whatever their floating-point values are. -/
theorem weight_eq_of_same {a b : Plan} (h : a.same b = true) : a.weight = b.weight := by
  induction a generalizing b with
  | impossible | nothing | op _ | methodObject _ => cases b <;> first | rfl | cases h
  | sequence parts ih =>
      cases b with
      | sequence parts' =>
          rw [same] at h
          rw [weight, weight, weightEach_eq_of_allSame (fun p hp q => ih p hp) h]
      | _ => cases h
  | cached value type ih =>
      cases b with
      | cached value' type' =>
          rw [same, Bool.and_eq_true] at h
          rw [weight, weight, ih h.2]
      | _ => cases h
  | array component elements ih =>
      cases b with
      | array component' elements' =>
          rw [same, Bool.and_eq_true] at h
          rw [weight, weight, weightEach_eq_of_allSame (fun p hp q => ih p hp) h.2]
      | _ => cases h

theorem weight_lt_of_mem_outerCached {plan : Plan} {n : CachedValue} (hn : n ∈ plan.outerCached) :
    n.value.weight < plan.weight := by
  induction plan with
  | impossible | nothing | op _ | methodObject _ => simp at hn
  | sequence parts ih =>
      obtain ⟨p, hp, hn⟩ := List.mem_flatMap.1 (outerCached_sequence parts ▸ hn)
      have hlt := ih p hp hn
      have hle := weight_le_weightEach hp
      rw [weight]
      omega
  | cached value type _ =>
      rw [outerCached_cached, List.mem_singleton] at hn
      rw [hn, weight]
      exact Nat.lt_succ_self value.weight
  | array component elements ih =>
      obtain ⟨p, hp, hn⟩ := List.mem_flatMap.1 (outerCached_array component elements ▸ hn)
      have hlt := ih p hp hn
      have hle := weight_le_weightEach hp
      rw [weight]
      omega

end JvmCodegen.Stack.Plan
