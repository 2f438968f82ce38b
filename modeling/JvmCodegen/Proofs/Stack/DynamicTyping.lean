/-
**Static and dynamic typing.**

Dynamic typing lets a conversion rely on checks when the code is run.  It adds conversions where there were
none, and does nothing else: whatever static typing has a plan for, dynamic typing has the same plan for.
What it adds is nearly everything.  Between references there is always a cast, and `void` has default
values, so all that remains without a conversion are numbers: one that would have to be narrowed, whether it
lies on the stack itself or in its wrapper.

Both halves go through the converters one by one, because each hands the typing on to the one inside it.

Main definitions:

* `Primitive.nextWider?`, `Primitive.Widens` — the primitive types in the order in which they widen;
* `Stack.IsConservative` — a converter with which dynamic typing only adds plans;
* `Stack.ReachesReferences` — a converter that dynamically converts any reference to any other;
* `Stack.IsRefused` — the pairs of types that no typing converts.

Main results:

* `Stack.isPossible_widening_iff` — which primitive types are widened;
* `Stack.IsConservative.convertPrimitive`, `Stack.isPossible_convertPrimitive_iff` — the converter of
  primitive types, on top of another one;
* `Stack.static_conversions_stay` — **dynamic typing keeps what static typing has**, and refuses numbers that
  would be narrowed, but nothing else.
-/

import Mathlib
import JvmCodegen.Proofs.Stack.Conversion

set_option relaxedAutoImplicit false
set_option autoImplicit false

namespace JvmCodegen

/-! ### Widening -/

namespace Primitive

/-- The next wider type. Truth values have none, and neither have the widest numbers. -/
def nextWider? : Primitive → Option Primitive
  | byte => some short
  | short | char => some int
  | int => some long
  | long => some float
  | float => some double
  | double | boolean => none

/-- The second type is the first one, or is wider. -/
inductive Widens : Primitive → Primitive → Prop
  | refl (p : Primitive) : Widens p p
  | step {p q r : Primitive} (h : p.nextWider? = some q) (h' : Widens q r) : Widens p r

/-- How many wider types there can be. -/
def narrowness : Primitive → Nat
  | byte => 5
  | short | char => 4
  | int => 3
  | long => 2
  | float => 1
  | double | boolean => 0

theorem narrowness_lt_of_nextWider? {p q : Primitive} (h : p.nextWider? = some q) :
    q.narrowness < p.narrowness := by
  cases p <;> cases h <;> decide

end Primitive

namespace Stack

open Primitive

/-- A conversion that is possible from a type is possible from every type that is next narrower. -/
theorem isPossible_widening_of_nextWider? {p q r : Primitive} (h : p.nextWider? = some q)
    (hq : (widening q r).isPossible = true) : (widening p r).isPossible = true := by
  cases p <;> cases h <;> cases r <;> first | rfl | cases hq

/-- A conversion that is possible has nothing to do, or goes on from the next wider type. -/
theorem nextWider?_of_isPossible_widening {p r : Primitive} (h : (widening p r).isPossible = true) :
    p = r ∨ ∃ q, p.nextWider? = some q ∧ (widening q r).isPossible = true := by
  cases p <;> cases r <;> first | exact .inl rfl | exact .inr ⟨_, rfl, rfl⟩ | cases h

/-- There are fewer and fewer types to go. -/
theorem widens_of_isPossible_widening {p r : Primitive} (h : (widening p r).isPossible = true) :
    p.Widens r := by
  rcases nextWider?_of_isPossible_widening h with rfl | ⟨q, hnext, hq⟩
  · exact .refl p
  · exact .step hnext (widens_of_isPossible_widening hq)
termination_by p.narrowness
decreasing_by exact narrowness_lt_of_nextWider? hnext

/-- **A primitive type is widened to exactly the wider ones.** -/
theorem isPossible_widening_iff {p r : Primitive} :
    (widening p r).isPossible = true ↔ p.Widens r := by
  refine ⟨widens_of_isPossible_widening, fun h => ?_⟩
  induction h with
  | refl p => cases p <;> rfl
  | step hnext _ ih => exact isPossible_widening_of_nextWider? hnext ih

theorem isPossible_widening_eq_false_iff {p r : Primitive} :
    (widening p r).isPossible = false ↔ ¬ p.Widens r := by
  rw [← isPossible_widening_iff, Bool.not_eq_true]

/-! ### What static typing has -/

/-- Wherever the converter has a plan with static typing, it has the same one with dynamic typing. -/
def IsConservative (converter : Converter) : Prop :=
  ∀ source target, (converter source target .static).isPossible = true →
    converter source target .dynamic = converter source target .static

theorem isConservative_convertReference (g : ClassGraph) : IsConservative (convertReference g) := by
  intro source target h
  cases source with
  | primitive p => rfl
  | reference source =>
      cases target with
      | primitive p => rfl
      | reference target =>
          -- without a subtype there is nothing to keep
          by_cases hsub : g.isSubtype source target = true
          · simp [convertReference, hsub]
          · simp [convertReference, hsub, Plan.isPossible] at h

/-- The converter of primitive types only hands the typing on, or makes use of it where static typing has
nothing. -/
theorem IsConservative.convertPrimitive {inner : Converter} (h : IsConservative inner) :
    IsConservative (convertPrimitive inner) := by
  intro source target hpossible
  cases source with
  | primitive source =>
      cases target with
      | primitive target => rfl
      | reference target =>
          simp only [Stack.convertPrimitive, Plan.isPossible, Plan.allPossible, Bool.and_true,
            Bool.true_and] at hpossible
          rw [Stack.convertPrimitive, Stack.convertPrimitive, h _ _ hpossible]
  | reference source =>
      cases target with
      | reference target => exact h _ _ hpossible
      | primitive target =>
          rw [Stack.convertPrimitive] at hpossible ⊢
          cases hunwrapped : unwrappedType? source with
          | some p => simp [Stack.convertPrimitive, hunwrapped]
          | none => simp [hunwrapped, Plan.isPossible] at hpossible

/-! ### What dynamic typing adds -/

/-- Every reference is converted to every reference type, if the typing is dynamic. -/
def ReachesReferences (converter : Converter) : Prop :=
  ∀ source target : RefType Class,
    (converter (.reference source) (.reference target) .dynamic).isPossible = true

theorem reachesReferences_convertReference (g : ClassGraph) :
    ReachesReferences (convertReference g) := by
  intro source target
  by_cases hsub : g.isSubtype source target = true
  · simp [convertReference, hsub, Plan.isPossible]
  · simp [convertReference, hsub, castTo, Plan.isPossible]

/-- **The pairs of types without a conversion**: numbers that would have to be narrowed, or to become truth
values or the other way round, whether they lie on the stack themselves or in their wrappers. -/
inductive IsRefused : ValueType → ValueType → Prop
  | primitive {p q : Primitive} (h : ¬ p.Widens q) : IsRefused (.primitive p) (.primitive q)
  | wrapper {p q : Primitive} (h : ¬ p.Widens q) :
      IsRefused (.object (Java.wrapper p)) (.primitive q)

/-- Only numbers are refused. -/
theorem not_isRefused_reference (source : ValueType) (target : RefType Class) :
    ¬ IsRefused source (.reference target) := by
  intro h
  cases h

theorem isRefused_primitive_iff {p q : Primitive} :
    IsRefused (.primitive p) (.primitive q) ↔ ¬ p.Widens q := by
  constructor
  · intro h
    cases h with
    | primitive h => exact h
  · exact .primitive

/-- A reference is refused only if it is unwrapped to a number that is. -/
theorem isRefused_reference_iff {source : RefType Class} {q : Primitive} :
    IsRefused (.reference source) (.primitive q) ↔
      ∃ p, unwrappedType? source = some p ∧ ¬ p.Widens q := by
  constructor
  · intro h
    generalize hs : FieldType.reference source = s at h
    cases h with
    | primitive h => cases hs
    | @wrapper p q h =>
        cases hs
        exact ⟨p, Java.unwrapped?_wrapper p, h⟩
  · rintro ⟨p, hp, h⟩
    rw [eq_wrapper_of_unwrappedType? hp]
    exact .wrapper h

/-- **What the converter of primitive types refuses with dynamic typing**, if the one inside it refuses no
reference. -/
theorem isPossible_convertPrimitive_iff {inner : Converter} (h : ReachesReferences inner)
    (source target : ValueType) :
    (convertPrimitive inner source target .dynamic).isPossible = false ↔
      IsRefused source target := by
  cases target with
  | reference target =>
      -- a number is boxed first
      have hpossible :
          (convertPrimitive inner source (.reference target) .dynamic).isPossible = true := by
        cases source with
        | primitive p =>
            have hbox : (inner (.object (Java.wrapper p)) (.reference target) .dynamic).isPossible = true :=
              h _ target
            simpa [convertPrimitive, Plan.isPossible, Plan.allPossible] using hbox
        | reference source => exact h source target
      simp [hpossible, not_isRefused_reference]
  | primitive q =>
      cases source with
      | primitive p => rw [isRefused_primitive_iff, convertPrimitive, isPossible_widening_eq_false_iff]
      | reference source =>
          rw [isRefused_reference_iff, convertPrimitive]
          cases hunwrapped : unwrappedType? source with
          | some p =>
              simp [Plan.isPossible, Plan.allPossible, isPossible_widening_eq_false_iff]
          | none => simp [castTo, FieldType.object, Plan.isPossible, Plan.allPossible]

/-! ### `void` -/

/-- A value that is to be discarded can be. -/
theorem isPossible_discard (source : ValueType) : (discard (some source)).isPossible = true := by
  unfold discard
  split <;> rfl

/-- Every type has a default value. -/
theorem isPossible_defaultValue (target : ValueType) :
    (defaultValue (some target)).isPossible = true := by
  unfold defaultValue
  split <;> rfl

/-- **Dynamic typing keeps what static typing has**, in every class graph and for all types and `void`: where
there is a plan with static typing, dynamic typing has the very same one. With dynamic typing only numbers
are refused: a primitive type that does not widen to the primitive type that is asked for, and the wrapper
class of such a type. -/
theorem static_conversions_stay (g : ClassGraph) (source target : Option ValueType) :
    ((convert g source target .static).isPossible = true →
      convert g source target .dynamic = convert g source target .static) ∧
    ((convert g source target .dynamic).isPossible = false ↔
      ∃ s t, source = some s ∧ target = some t ∧ IsRefused s t) := by
  have hkeeps := (isConservative_convertReference g).convertPrimitive
  have hrefuses := isPossible_convertPrimitive_iff (reachesReferences_convertReference g)
  cases source with
  | none =>
      cases target with
      | none => simp [convert, convertVoid, Plan.isPossible]
      | some t => simp [convert, convertVoid, Plan.isPossible, isPossible_defaultValue]
  | some s =>
      cases target with
      | none => simp [convert, convertVoid, isPossible_discard]
      | some t =>
          refine ⟨hkeeps s t, ?_⟩
          rw [convert, convertVoid, hrefuses]
          simp

/-- A number is boxed on its way to a more general class, with either typing; and what is in a wrapper of
two slots does not become one of the small numbers, with neither. -/
theorem static_conversions_stay_numbers :
    let number : ValueType := .object Java.number
    let boxed : ValueType := .object (Java.wrapper .double)
    (convert .withJavaLibrary (some (.primitive .int)) (some number) .static).isPossible = true ∧
    convert .withJavaLibrary (some (.primitive .int)) (some number) .dynamic =
      convert .withJavaLibrary (some (.primitive .int)) (some number) .static ∧
    (convert .withJavaLibrary (some boxed) (some (.primitive .int)) .dynamic).isPossible = false := by
  intro number boxed
  have hpossible :
      (convert .withJavaLibrary (some (.primitive .int)) (some number) .static).isPossible = true := by
    cbv
  have hnarrows : ¬ Primitive.Widens .double .int := by
    rw [← isPossible_widening_iff]
    decide
  obtain ⟨hstays, -⟩ := static_conversions_stay .withJavaLibrary (some (.primitive .int)) (some number)
  obtain ⟨-, hrefused⟩ := static_conversions_stay .withJavaLibrary (some boxed) (some (.primitive .int))
  exact ⟨hpossible, hstays hpossible, hrefused.2 ⟨_, _, rfl, rfl, .wrapper hnarrows⟩⟩

end Stack

end JvmCodegen
