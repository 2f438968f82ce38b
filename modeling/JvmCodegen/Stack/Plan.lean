/-
**Plans for code.**

A plan says what a piece of code does to the operand stack; nothing is emitted before it is applied.
Plans are trees, put together from operations of one instruction, from constants that are computed
once and read from a field afterwards, and from arrays that are filled element by element.  Some
plans are impossible; they can be built, but not applied.

Main definitions:

* `Stack.Plan` — the plans;
* `Stack.Plan.isPossible` — the plan holds nothing impossible;
* `Stack.Plan.same` — equality, which takes all floating-point values that are not numbers
  for one;
* `Stack.Plan.outerCached` — the cached constants of a plan that are not inside another
  cached constant, from left to right, found with a list of what is still to be looked at.

Main result: `Stack.Plan.sizeOf_lt_of_mem_outerCached` — what is found is smaller than the
plan it is found in.
-/

import JvmCodegen.Stack.Operation

set_option relaxedAutoImplicit false
set_option autoImplicit false

namespace JvmCodegen.Stack

/-- A plan for a piece of code. -/
inductive Plan
  /-- An impossible plan. -/
  | impossible
  /-- The plan for no code. -/
  | nothing
  /-- The plans of a list, one after the other. -/
  | sequence (parts : List Plan)
  | op (operation : Operation)
  /-- Push the reflective object of a method or a constructor. -/
  | methodObject (method : Method)
  /-- Read a value out of a field that the type initializer computes it into. -/
  | cached (value : Plan) (type : ValueType)
  /-- Push a new array, filled with the value that each plan pushes. -/
  | array (component : ValueType) (elements : List Plan)

namespace Plan

/-! ### Possible plans -/

/-- The greatest number of elements of an array. -/
def maxArrayLength : Nat := 2147483647

mutual

/-- The plan holds nothing impossible. -/
def isPossible : Plan → Bool
  | impossible => false
  | sequence parts => allPossible parts
  | cached value _ => value.isPossible
  | array _ elements => decide (elements.length ≤ maxArrayLength) && allPossible elements
  | _ => true

/-- No plan of a list holds anything impossible. -/
def allPossible : List Plan → Bool
  | [] => true
  | plan :: rest => plan.isPossible && allPossible rest

end

/-! ### Equality -/

mutual

/-- The plans are the same, up to which floating-point value it is that is not a number. -/
def same : Plan → Plan → Bool
  | impossible, impossible => true
  | nothing, nothing => true
  | sequence a, sequence b => allSame a b
  | op a, op b => a.same b
  | methodObject a, methodObject b => a == b
  | cached a t, cached b u => t == u && a.same b
  | array t a, array u b => t == u && allSame a b
  | _, _ => false

/-- The plans of two lists are the same one by one. -/
def allSame : List Plan → List Plan → Bool
  | [], [] => true
  | a :: as, b :: bs => a.same b && allSame as bs
  | _, _ => false

end

/-! ### Cached constants -/

/-- A constant that is computed into a field of a type. -/
structure CachedValue where
  value : Plan
  type : ValueType

theorem sizeOf_append (a b : List Plan) : sizeOf (a ++ b) + 1 = sizeOf a + sizeOf b := by
  induction a with
  | nil => simp; omega
  | cons plan a ih => simp only [List.cons_append, List.cons.sizeOf_spec]; omega

/-- The cached constants in the pending plans, after those found so far. The parts of a plan are
looked at before the plans behind it. -/
def collectCached : List Plan → Array CachedValue → Array CachedValue
  | [], found => found
  | sequence parts :: pending, found => collectCached (parts ++ pending) found
  | array _ elements :: pending, found => collectCached (elements ++ pending) found
  | cached value type :: pending, found => collectCached pending (found.push ⟨value, type⟩)
  | impossible :: pending, found => collectCached pending found
  | nothing :: pending, found => collectCached pending found
  | op _ :: pending, found => collectCached pending found
  | methodObject _ :: pending, found => collectCached pending found
termination_by pending => sizeOf pending
decreasing_by
  all_goals simp only [List.cons.sizeOf_spec, sequence.sizeOf_spec, array.sizeOf_spec]
  · have := sizeOf_append parts pending
    omega
  · have := sizeOf_append elements pending
    omega
  all_goals omega

/-- **The cached constants of a plan that are not inside another cached constant**, from left to
right. -/
def outerCached (plan : Plan) : List CachedValue := (collectCached [plan] #[]).toList

theorem sizeOf_lt_of_mem_collectCached {c : CachedValue} {pending : List Plan}
    {found : Array CachedValue} (h : c ∈ collectCached pending found) :
    c ∈ found ∨ sizeOf c.value + 2 < sizeOf pending := by
  fun_induction collectCached pending found with
  | case1 found => exact .inl h
  | case2 parts pending found ih =>
      have := sizeOf_append parts pending
      rcases ih h with h | h
      · exact .inl h
      · exact .inr (by simp only [List.cons.sizeOf_spec, sequence.sizeOf_spec]; omega)
  | case3 component elements pending found ih =>
      have := sizeOf_append elements pending
      rcases ih h with h | h
      · exact .inl h
      · exact .inr (by simp only [List.cons.sizeOf_spec, array.sizeOf_spec]; omega)
  | case4 value type pending found ih =>
      rcases ih h with h | h
      · rcases Array.mem_push.1 h with h | rfl
        · exact .inl h
        · have : 0 < sizeOf pending := by
            cases pending <;> simp only [List.nil.sizeOf_spec, List.cons.sizeOf_spec] <;> omega
          exact .inr (by simp only [List.cons.sizeOf_spec, cached.sizeOf_spec]; omega)
      · exact .inr (by simp only [List.cons.sizeOf_spec]; omega)
  | case5 pending found ih | case6 pending found ih | case7 operation pending found ih
  | case8 method pending found ih =>
      rcases ih h with h | h
      · exact .inl h
      · exact .inr (by simp only [List.cons.sizeOf_spec]; omega)

/-- A cached constant is smaller than the plan in which it is found. -/
theorem sizeOf_lt_of_mem_outerCached {c : CachedValue} {plan : Plan}
    (h : c ∈ plan.outerCached) : sizeOf c.value < sizeOf plan := by
  rcases sizeOf_lt_of_mem_collectCached (Array.mem_toList_iff.1 h) with h | h
  · simp at h
  · simp only [List.cons.sizeOf_spec, List.nil.sizeOf_spec] at h
    omega

end Plan

end JvmCodegen.Stack
