/-
**When two plans are the same.**

Plans are compared part by part, and floating-point constants by their bits, except that all values
that are not numbers count as one.  Making those values one throughout a plan gives its canonical form,
and two plans are the same exactly if they have the same form.  So sameness is an equivalence, and it is
passed on to the cached constants inside.

Main definitions:

* `Stack.Plan.canonical` — the canonical form of a plan;
* `Stack.Plan.CachedValue.same` — the same constant, asked for with the same type.

Main results:

* `Stack.Plan.same_iff` — **plans are the same if their canonical forms are equal**;
* `Stack.Plan.same_symm`, `Stack.Plan.same_trans` — sameness is an equivalence;
* `Stack.Plan.outerCached_canonical`, `Stack.Plan.exists_same_of_mem_outerCached` — plans that are the
  same have the same cached constants inside.
-/

import Mathlib.Data.List.Basic
import JvmCodegen.Proofs.Stack.Caching

set_option relaxedAutoImplicit false
set_option autoImplicit false

namespace JvmCodegen.Stack

theorem Operation.same_iff {a b : Operation} : a.same b = true ↔ a.canonical = b.canonical := by
  rw [Operation.same, beq_iff_eq]

namespace Plan

/-! ### Canonical forms -/

mutual

/-- The plan with all floating-point values that are not numbers made one. -/
def canonical : Plan → Plan
  | sequence parts => sequence (canonicalEach parts)
  | op operation => op operation.canonical
  | cached value type => cached value.canonical type
  | array component elements => array component (canonicalEach elements)
  | impossible => impossible
  | nothing => nothing
  | methodObject method => methodObject method

/-- The canonical forms of the plans of a list. -/
def canonicalEach : List Plan → List Plan
  | [] => []
  | plan :: rest => plan.canonical :: canonicalEach rest

end

theorem canonicalEach_eq_map (plans : List Plan) : canonicalEach plans = plans.map canonical := by
  induction plans with
  | nil => rfl
  | cons plan plans ih => rw [canonicalEach, ih, List.map_cons]

theorem allSame_iff {a : List Plan}
    (h : ∀ p ∈ a, ∀ q : Plan, p.same q = true ↔ p.canonical = q.canonical) {b : List Plan} :
    allSame a b = true ↔ canonicalEach a = canonicalEach b := by
  induction a generalizing b with
  | nil => cases b <;> simp [allSame, canonicalEach]
  | cons p a ih =>
      cases b with
      | nil => simp [allSame, canonicalEach]
      | cons q b =>
          have hhead := h p List.mem_cons_self q
          have htail := ih (fun r hr => h r (List.mem_cons_of_mem p hr)) (b := b)
          simp only [allSame, canonicalEach, Bool.and_eq_true, List.cons.injEq, hhead, htail]

/-- **Plans are the same if their canonical forms are equal.** -/
theorem same_iff {a b : Plan} : a.same b = true ↔ a.canonical = b.canonical := by
  induction a generalizing b with
  | impossible | nothing => cases b <;> simp [same, canonical]
  | op operation => cases b <;> simp [same, canonical, Operation.same_iff]
  | methodObject method => cases b <;> simp [same, canonical]
  | sequence parts ih =>
      cases b with
      | sequence parts' =>
          have hparts := allSame_iff (fun p hp q => ih p hp) (b := parts')
          simp [same, canonical, hparts]
      | _ => simp [same, canonical]
  | cached value type ih =>
      cases b with
      | cached value' type' =>
          have hvalue := ih (b := value')
          simp [same, canonical, hvalue, and_comm]
      | _ => simp [same, canonical]
  | array component elements ih =>
      cases b with
      | array component' elements' =>
          have helements := allSame_iff (fun p hp q => ih p hp) (b := elements')
          simp [same, canonical, helements]
      | _ => simp [same, canonical]

theorem same_symm {a b : Plan} (h : a.same b = true) : b.same a = true := by
  rw [same_iff] at h ⊢
  exact h.symm

theorem same_trans {a b c : Plan} (h : a.same b = true) (h' : b.same c = true) :
    a.same c = true := by
  rw [same_iff] at h h' ⊢
  exact h.trans h'

/-! ### Cached constants -/

namespace CachedValue

/-- The constants are the same, and are asked for with one type. -/
def same (m n : CachedValue) : Bool := m.type == n.type && m.value.same n.value

/-- The constant with its value in canonical form. -/
def canonical (n : CachedValue) : CachedValue := ⟨n.value.canonical, n.type⟩

theorem same_iff {m n : CachedValue} : m.same n = true ↔ m.canonical = n.canonical := by
  rcases m with ⟨value, type⟩
  rcases n with ⟨value', type'⟩
  simp [same, canonical, Plan.same_iff, and_comm]

theorem same_refl (n : CachedValue) : n.same n = true := same_iff.2 rfl

theorem same_symm {m n : CachedValue} (h : m.same n = true) : n.same m = true := by
  rw [same_iff] at h ⊢
  exact h.symm

theorem same_trans {l m n : CachedValue} (h : l.same m = true) (h' : m.same n = true) :
    l.same n = true := by
  rw [same_iff] at h h' ⊢
  exact h.trans h'

end CachedValue

theorem outerCached_canonicalEach {plans : List Plan}
    (h : ∀ p ∈ plans, p.canonical.outerCached = p.outerCached.map CachedValue.canonical) :
    (canonicalEach plans).flatMap outerCached =
      (plans.flatMap outerCached).map CachedValue.canonical := by
  rw [canonicalEach_eq_map, List.flatMap_map, List.map_flatMap]
  exact List.flatMap_congr h

/-- The constants of the canonical form are those of the plan, in canonical form. -/
theorem outerCached_canonical (plan : Plan) :
    plan.canonical.outerCached = plan.outerCached.map CachedValue.canonical := by
  induction plan with
  | impossible | nothing | op _ | methodObject _ => simp [canonical]
  | cached value type _ => simp [canonical, CachedValue.canonical]
  | sequence parts ih =>
      rw [canonical, outerCached_sequence, outerCached_sequence, outerCached_canonicalEach ih]
  | array component elements ih =>
      rw [canonical, outerCached_array, outerCached_array, outerCached_canonicalEach ih]

/-- Every constant inside a plan is the same as one inside any plan that is the same. -/
theorem exists_same_of_mem_outerCached {a b : Plan} (h : a.same b = true) {n : CachedValue}
    (hn : n ∈ b.outerCached) : ∃ m ∈ a.outerCached, m.same n = true := by
  have hforms : a.outerCached.map CachedValue.canonical = b.outerCached.map CachedValue.canonical := by
    rw [← outerCached_canonical, ← outerCached_canonical, same_iff.1 h]
  have hmem : n.canonical ∈ a.outerCached.map CachedValue.canonical := by
    rw [hforms]
    exact List.mem_map_of_mem hn
  obtain ⟨m, hm, heq⟩ := List.mem_map.1 hmem
  exact ⟨m, hm, CachedValue.same_iff.2 heq⟩

end Plan

end JvmCodegen.Stack
