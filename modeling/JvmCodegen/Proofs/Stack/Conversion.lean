/-
**Conversions are sound.**

A conversion that is possible does what it is for: run on the types of values, its code finds the value
that it starts from, and leaves one that can be used as a value of the type that was asked for.  With
static typing it relies on no check.  The converters are built on top of each other, and so is the
argument: a converter is sound if the converter inside it is.

Main definitions:

* `Stack.Plan.Carries` — a plan whose code takes some types on the stack to others, whatever the scope;
* `Stack.Plan.Converts`, `Stack.IsSoundConverter` — plans that convert values, and converters that make
  no other possible ones.

Main results:

* `Stack.Plan.Carries.impact_eq` — the reported change of the height is that of the types;
* `Stack.isSound_convertReference`, `Stack.IsSoundConverter.convertPrimitive`,
  `Stack.IsSoundConverter.convertVoid` — the converters, one on top of the other;
* `Stack.convert_is_sound` — **every possible conversion is sound**.
-/

import Mathlib.Data.Option.Basic
import JvmCodegen.Proofs.Stack.Accounting
import JvmCodegen.Proofs.Stack.TypedMachine
import JvmCodegen.Stack.Conversion

set_option relaxedAutoImplicit false
set_option autoImplicit false

namespace JvmCodegen

open Stack

/-- A class is the wrapper of the primitive type that it is unwrapped to. -/
theorem Java.eq_wrapper_of_unwrapped? {c : Class} {p : Primitive} (h : Java.unwrapped? c = some p) :
    c = Java.wrapper p := by
  have hfound := List.find?_some h
  exact (beq_iff_eq.1 hfound).symm

namespace Stack

open TypedMachine

variable {g : ClassGraph}

/-! ### Plans on types -/

/-- Applying the plan emits the same code in every scope and leaves the scope as it is, and the code
takes some types on the stack to others. -/
structure Plan.Carries (g : ClassGraph) (plan : Plan) (before after : List StackType)
    (code : List SymbolicInstruction) : Prop where
  proper : ∀ o ∈ plan.operations, o.IsProper
  emits : ∃ effect, ∀ s, plan.emit s = ⟨.ok effect, code, s⟩
  runs : ∀ frame, run g frame code before = some after

namespace Plan.Carries

variable {p q : Plan} {before between after : List StackType} {code code' : List SymbolicInstruction}

/-- **The reported change of the height is that of the types.** -/
theorem impact_eq (h : p.Carries g before after code) {effect : Effect}
    (heffect : ∀ s, p.emit s = ⟨.ok effect, code, s⟩) :
    effect.impact = stackSlots after - stackSlots before := by
  -- any scope will do, because the code is the same in all of them
  let s : Scope := ⟨.empty, .new Java.object ConstantCache.defaultNamePart⟩
  have hright := accountsFor_emit (Int.le_of_lt Int.zero_lt_one)
    (fun o ho => o.accountsFor_one (h.proper o ho)) s effect (by rw [heffect])
  have himpact : effect.impact = netHeight code := by
    rw [hright.impact_eq, heffect]
  have hslots := slots_run (h.runs fun _ => none)
  omega

/-- Doing nothing. -/
theorem nothing (stack : List StackType) : Plan.nothing.Carries g stack stack [] :=
  ⟨nofun, ⟨Effect.zero, fun _ => rfl⟩, fun _ => rfl⟩

/-- One operation. -/
theorem op {o : Operation} (hproper : o.IsProper)
    (hstep : ∀ frame, step g frame o.instruction before = some after) :
    (Plan.op o).Carries g before after [o.instruction] := by
  refine ⟨fun o' ho' => ?_, ⟨o.effect, fun _ => rfl⟩, fun frame => ?_⟩
  · rw [List.mem_singleton.1 ho']
    exact hproper
  · rw [run_singleton, hstep frame]

/-- One plan and then another. -/
theorem pair (hp : p.Carries g before between code) (hq : q.Carries g between after code') :
    (Plan.sequence [p, q]).Carries g before after (code ++ code') := by
  obtain ⟨effect, hemit⟩ := hp.emits
  obtain ⟨effect', hemit'⟩ := hq.emits
  refine ⟨fun o ho => ?_, ⟨(Effect.zero.andThen effect).andThen effect', fun s => ?_⟩, fun frame => ?_⟩
  · rw [operations, mem_operationsEach] at ho
    obtain ⟨part, hpart, ho⟩ := ho
    rcases List.mem_cons.1 hpart with rfl | hpart
    · exact hp.proper o ho
    · cases List.mem_singleton.1 hpart
      exact hq.proper o ho
  · simp only [emit, emitEach, hemit, hemit', Emitted.andThen, Emitted.after, List.append_nil]
  · rw [run_append, hp.runs frame]
    exact hq.runs frame

end Plan.Carries

/-! ### Single steps -/

/-- The primitive type that a widening conversion starts from. -/
def Widening.source : Widening → Primitive
  | intToLong | intToFloat | intToDouble => .int
  | longToFloat | longToDouble => .long
  | floatToDouble => .float

/-- The primitive type that a widening conversion leads to. -/
def Widening.target : Widening → Primitive
  | intToLong => .long
  | intToFloat | longToFloat => .float
  | intToDouble | longToDouble | floatToDouble => .double

/-- A possible conversion between primitive types has nothing to do, or is one of the instructions. -/
theorem widening_cases {source target : Primitive} (h : (widening source target).isPossible = true) :
    (widening source target = .nothing ∧
      StackType.ofType (.primitive source) = StackType.ofType (.primitive target)) ∨
    ∃ conversion : Widening, widening source target = .op (.widen conversion) ∧
      StackType.ofType (.primitive conversion.source) = StackType.ofType (.primitive source) ∧
      StackType.ofType (.primitive conversion.target) = StackType.ofType (.primitive target) := by
  cases source <;> cases target <;>
    first
    | exact .inl ⟨rfl, rfl⟩
    | exact .inr ⟨_, rfl, rfl, rfl⟩
    | cases h

/-- The plan converts what is on the stack into something that can be used as a value of a type, or into
nothing for `void`. With static typing it casts nothing. -/
def Plan.Converts (g : ClassGraph) (typing : Typing) (plan : Plan) (before : List StackType)
    (target : Option ValueType) : Prop :=
  ∃ code result, plan.Carries g before (Option.toList result) code ∧
    Option.Rel (fun v t => StackType.fits g v t = true) result target ∧
    (typing = .static → ∀ r, .checkCast r ∉ code)

namespace Plan.Converts

variable {typing : Typing}

/-- A value that can be used already is left alone. -/
theorem nothing {v : StackType} {t : ValueType} (h : v.fits g t = true) :
    Plan.nothing.Converts g typing [v] (some t) :=
  ⟨[], some v, .nothing [v], .some h, fun _ _ => List.not_mem_nil⟩

/-- One operation, other than a cast. -/
theorem op {o : Operation} {before : List StackType} {result : Option StackType}
    {target : Option ValueType} (hproper : o.IsProper)
    (hstep : ∀ frame, step g frame o.instruction before = some result.toList)
    (hfits : Option.Rel (fun v t => StackType.fits g v t = true) result target)
    (hcast : ∀ r, o.instruction ≠ .checkCast r) : (Plan.op o).Converts g typing before target :=
  ⟨_, result, .op hproper hstep, hfits, fun _ r hr => hcast r (List.mem_singleton.1 hr).symm⟩

/-- A conversion after something else that casts nothing. -/
theorem after {p q : Plan} {before between : List StackType} {code : List SymbolicInstruction}
    {target : Option ValueType} (hq : q.Converts g typing between target)
    (hp : p.Carries g before between code) (hcast : ∀ r, .checkCast r ∉ code) :
    (Plan.sequence [p, q]).Converts g typing before target := by
  obtain ⟨code', result, hcarries, hfits, hstatic⟩ := hq
  refine ⟨code ++ code', result, hp.pair hcarries, hfits, fun htyping r hr => ?_⟩
  rcases List.mem_append.1 hr with hr | hr
  · exact hcast r hr
  · exact hstatic htyping r hr

end Plan.Converts

/-- Widening a primitive value. -/
theorem converts_widening {typing : Typing} {source target : Primitive}
    (h : (widening source target).isPossible = true) :
    (widening source target).Converts g typing [.ofType (.primitive source)]
      (some (.primitive target)) := by
  rcases widening_cases h with ⟨hplan, hsame⟩ | ⟨conversion, hplan, hsource, htarget⟩
  · rw [hplan, hsame]
    exact .nothing (StackType.fits_ofType g _)
  · rw [hplan, ← hsource]
    have hfits : (StackType.ofType (.primitive conversion.target)).fits g (.primitive target) = true := by
      rw [htarget]
      exact StackType.fits_ofType g _
    refine .op trivial (fun frame => ?_) (.some hfits) (fun r => ?_)
    · cases conversion <;> rfl
    · exact nofun

/-- Boxing a primitive value. -/
theorem carries_box (p : Primitive) :
    (Plan.op (.box p)).Carries g [.ofType (.primitive p)] [.ref (.object (Java.wrapper p))]
      [.invoke .static (Java.valueOf p)] := by
  refine .op trivial fun frame => ?_
  cases p <;> rfl

/-- Unboxing a wrapper. -/
theorem carries_unbox (p : Primitive) :
    (Plan.op (.unbox p)).Carries g [.ref (.object (Java.wrapper p))] [.ofType (.primitive p)]
      [.invoke .virtual (Java.unbox p)] := by
  refine .op trivial fun frame => ?_
  have hreceiver : take g [.type (.object (Java.wrapper p))] [.ref (.object (Java.wrapper p))] = some [] :=
    if_pos (StackType.fits_ofType g (.object (Java.wrapper p)))
  have hresult : pushes frame (.invoke .virtual (Java.unbox p)) = some [.ofType (.primitive p)] := by
    cases p <;> rfl
  exact step_of_take rfl hresult hreceiver

/-- Casting a reference. -/
theorem carries_cast (source target : RefType Class) :
    (Plan.op (.cast target)).Carries g [.ref source] [.ref target] [.checkCast target] :=
  .op trivial fun _ => rfl

/-- Discarding a value. -/
theorem converts_discard {typing : Typing} (t : ValueType) :
    (discard (some t)).Converts g typing [.ofType t] none := by
  rcases t with p | r
  · cases p <;> exact .op trivial (fun _ => rfl) .none (fun _ => nofun)
  · exact .op trivial (fun _ => rfl) .none (fun _ => nofun)

/-- Making up a default value. -/
theorem converts_defaultValue {typing : Typing} (t : ValueType) :
    (defaultValue (some t)).Converts g typing [] (some t) := by
  rcases t with p | r
  · have hfits := StackType.fits_ofType g (.primitive p)
    cases p <;> exact .op trivial (fun _ => rfl) (.some hfits) (fun _ => nofun)
  · have hfits : StackType.null.fits g (.reference r) = true := rfl
    exact .op trivial (fun _ => rfl) (.some hfits) (fun _ => nofun)

/-! ### Converters -/

/-- Whatever the converter makes of two types converts the one into the other, if it is possible. -/
def IsSoundConverter (g : ClassGraph) (converter : Converter) : Prop :=
  ∀ source target typing, (converter source target typing).isPossible = true →
    (converter source target typing).Converts g typing [.ofType source] (some target)

/-- **The converter of references is sound.** -/
theorem isSound_convertReference (g : ClassGraph) : IsSoundConverter g (convertReference g) := by
  intro source target typing h
  -- where a type is primitive, nothing but the same type will do
  have hprimitive : ∀ plan, plan = (if source = target then Plan.nothing else .impossible) →
      plan.isPossible = true → plan.Converts g typing [.ofType source] (some target) := by
    rintro plan rfl hplan
    by_cases hsame : source = target
    · rw [if_pos hsame, hsame]
      exact .nothing (StackType.fits_ofType g target)
    · rw [if_neg hsame] at hplan
      cases hplan
  cases source with
  | primitive p => exact hprimitive _ rfl h
  | reference source =>
      cases target with
      | primitive p => exact hprimitive _ rfl h
      | reference target =>
          rw [convertReference] at h ⊢
          by_cases hsubtype : g.isSubtype source target = true
          · rw [if_pos hsubtype]
            exact .nothing hsubtype
          · rw [if_neg hsubtype] at h ⊢
            cases typing with
            | static => cases h
            | dynamic =>
                exact ⟨_, some (.ref target), carries_cast source target,
                  .some (g.isSubtype_refl target), fun htyping => by cases htyping⟩

/-- A type that is unwrapped is that of a wrapper. -/
theorem eq_wrapper_of_unwrappedType? {r : RefType Class} {p : Primitive}
    (h : unwrappedType? r = some p) : r = .object (Java.wrapper p) := by
  cases r with
  | object c => rw [Java.eq_wrapper_of_unwrapped? h]
  | objectArray | primitiveArray => cases h

/-- **The converter of primitive types is sound** if the one inside it is. -/
theorem IsSoundConverter.convertPrimitive {inner : Converter} (h : IsSoundConverter g inner) :
    IsSoundConverter g (convertPrimitive inner) := by
  intro source target typing hpossible
  cases source with
  | primitive source =>
      cases target with
      | primitive target => exact converts_widening hpossible
      | reference target =>
          -- what is inside starts from the wrapper
          simp only [Stack.convertPrimitive, Plan.isPossible, Plan.allPossible, Bool.and_true,
            Bool.true_and] at hpossible
          exact (h _ _ _ hpossible).after (carries_box source) (fun _ => by simp)
  | reference source =>
      cases target with
      | reference target => exact h _ _ _ hpossible
      | primitive target =>
          rw [Stack.convertPrimitive] at hpossible ⊢
          cases hunwrapped : unwrappedType? source with
          | some primitive =>
              simp only [hunwrapped, Plan.isPossible, Plan.allPossible, Bool.and_true,
                Bool.true_and] at hpossible
              rw [eq_wrapper_of_unwrappedType? hunwrapped]
              exact (converts_widening hpossible).after (carries_unbox primitive) (fun _ => by simp)
          | none =>
              simp only [hunwrapped] at hpossible
              cases typing with
              | static => cases hpossible
              | dynamic =>
                  have hcast := carries_cast (g := g) source (.object (Java.wrapper target))
                  exact ⟨_, some _, hcast.pair (carries_unbox target),
                    .some (StackType.fits_ofType g _), fun htyping => by cases htyping⟩

/-- What the converter makes of two types, or of `void`, converts the one into the other if it is
possible. -/
def IsSoundForVoid (g : ClassGraph)
    (converter : Option ValueType → Option ValueType → Typing → Plan) : Prop :=
  ∀ source target typing, (converter source target typing).isPossible = true →
    (converter source target typing).Converts g typing (source.map StackType.ofType).toList target

/-- **The converter of `void` is sound** if the one inside it is. -/
theorem IsSoundConverter.convertVoid {inner : Converter} (h : IsSoundConverter g inner) :
    IsSoundForVoid g (convertVoid inner) := by
  intro source target typing hpossible
  cases source with
  | some source =>
      cases target with
      | some target => exact h source target typing hpossible
      | none => exact converts_discard source
  | none =>
      cases target with
      | none => exact ⟨[], none, .nothing [], .none, fun _ _ => List.not_mem_nil⟩
      | some target =>
          cases typing with
          | static => cases hpossible
          | dynamic => exact converts_defaultValue target

/-- What can be used as a value of a type, or as nothing for `void`, has its room. -/
theorem stackSlots_of_rel {result : Option StackType} {t : Option ValueType}
    (h : Option.Rel (fun v t => StackType.fits g v t = true) result t) :
    stackSlots result.toList = (SlotCount.ofResult t).slots := by
  cases h with
  | none => rfl
  | @some v t hfits =>
      have hslots := StackType.slots_of_fits hfits
      simp [SlotCount.ofResult, hslots]

theorem rel_ofType (t : Option ValueType) :
    Option.Rel (fun v t => StackType.fits g v t = true) (t.map StackType.ofType) t := by
  cases t with
  | none => exact .none
  | some t => exact .some (StackType.fits_ofType g t)

/-- **Every possible conversion is sound**, whatever the class graph. Applying it succeeds and leaves the
scope as it is, and what it reports is the difference between the rooms of both types. Its code is well
typed on every stack with a value of the source type on top, or with nothing more for `void`. It does not
touch what lies below, and leaves in place of the value exactly one that can be used as a value of the
target type, or nothing for `void`. With static typing it holds no checked cast. -/
theorem convert_is_sound (g : ClassGraph) (source target : Option ValueType) (typing : Typing)
    (hpossible : (convert g source target typing).isPossible = true) :
    ∃ (effect : Effect) (code : List SymbolicInstruction) (result : Option StackType),
      (∀ {σ : Type} [CodeCollector σ] (e : Emission σ), (convert g source target typing).apply e =
        (.ok effect, ⟨code.foldl CodeCollector.append e.code, e.scope⟩)) ∧
      effect.impact = (SlotCount.ofResult target).slots - (SlotCount.ofResult source).slots ∧
      (∀ (frame : Frame) (rest : List StackType),
        run g frame code ((source.map StackType.ofType).toList ++ rest) = some (result.toList ++ rest)) ∧
      Option.Rel (fun v t => StackType.fits g v t = true) result target ∧
      (typing = .static → ∀ r, .checkCast r ∉ code) := by
  have hsound := (isSound_convertReference g).convertPrimitive.convertVoid
  obtain ⟨code, result, hcarries, hfits, hstatic⟩ := hsound source target typing hpossible
  obtain ⟨effect, heffect⟩ := hcarries.emits
  refine ⟨effect, code, result, fun e => ?_, ?_, fun frame rest => run_frame (hcarries.runs frame) rest,
    hfits, hstatic⟩
  · have hemit := heffect e.scope
    rw [← convert] at hemit
    rw [Plan.apply_eq_emit, hemit]
    rfl
  · rw [hcarries.impact_eq heffect, stackSlots_of_rel hfits, stackSlots_of_rel (rel_ofType (g := g) source)]

/-- A number of two slots is taken out of an object, with a cast that static typing refuses. -/
theorem convert_is_sound_objectToLong :
    (convert .withJavaLibrary (some (.object Java.object)) (some (.primitive .long))
      .dynamic).isPossible = true ∧
    ∃ (effect : Effect) (code : List SymbolicInstruction) (result : Option StackType),
      effect.impact = 1 ∧
      run .withJavaLibrary (fun _ => none) code [.ref (.object Java.object), .int] =
        some (result.toList ++ [.int]) ∧
      Option.Rel (fun v t => StackType.fits .withJavaLibrary v t = true) result
        (some (.primitive .long)) := by
  have hpossible : (convert .withJavaLibrary (some (.object Java.object)) (some (.primitive .long))
      .dynamic).isPossible = true := by decide
  obtain ⟨effect, code, result, -, himpact, hruns, hfits, -⟩ := convert_is_sound _ _ _ _ hpossible
  exact ⟨hpossible, effect, code, result, himpact, hruns _ [.int], hfits⟩

end Stack

end JvmCodegen
