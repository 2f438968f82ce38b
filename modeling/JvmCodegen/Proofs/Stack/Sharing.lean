/-
**Plans that are the same can share a field.**

Whatever is done with a plan can be done with its canonical form instead: judging it, looking it up,
registering it, applying it.  In a scope whose registered constants are put into canonical form too,
this comes to the same, up to that form.  Because plans are the same exactly if they have one canonical
form, they cannot be told apart by what they do, and one field can stand for all of them.

The converse fails in one place only.  Floating-point constants that are not the same have different
instructions, unless they are the two zeros: there is a short instruction for zero, which does not look
at the sign.

Main definitions:

* `Stack.ConstantCache.canonical`, `Stack.Scope.canonical` — all registered values in canonical form;
* `Stack.Scope.IsLike` — the same fields, in the same order, for constants that are the same.

Main results:

* `Stack.Operation.instruction_canonical` — the instruction does not tell values apart that are not
  numbers;
* `Stack.ConstantCache.find?_canonical`, `Stack.Scope.cache_canonical` — asking for a constant;
* `Stack.Plan.emit_canonical` — **canonical forms emit the same**;
* `Stack.Plan.same_is_sound_for_sharing` — **sameness is an equivalence that nothing can tell apart**.
-/

import Mathlib.Data.List.Forall2
import JvmCodegen.Proofs.Stack.Applicability
import JvmCodegen.Proofs.Stack.NumberInstructions
import JvmCodegen.Proofs.Stack.RegistrationOrder

set_option relaxedAutoImplicit false
set_option autoImplicit false

namespace JvmCodegen

namespace Stack

/-! ### Canonical forms of operations and plans -/

namespace Operation

theorem canonical_canonical (o : Operation) : o.canonical.canonical = o.canonical := by
  cases o with
  | float bits => exact congrArg float (Precision.single.canonical_canonical bits)
  | double bits => exact congrArg double (Precision.double.canonical_canonical bits)
  | _ => rfl

/-- **The instruction does not tell values apart that are not numbers.** -/
theorem instruction_canonical (o : Operation) : o.canonical.instruction = o.instruction := by
  cases o with
  | float bits =>
      rw [canonical, instruction, instruction, floatInstruction_eq, floatInstruction_eq]
      exact Precision.single.instruction_canonical bits
  | double bits =>
      rw [canonical, instruction, instruction, doubleInstruction_eq, doubleInstruction_eq]
      exact Precision.double.instruction_canonical bits
  | _ => rfl

theorem effect_canonical (o : Operation) : o.canonical.effect = o.effect := by
  cases o <;> rfl

theorem canonical_ne_of_not_same {a b : Operation} (h : a.same b = false) : a.canonical ≠ b.canonical := by
  intro heq
  rw [same_iff.2 heq] at h
  cases h

/-- **Only the two zeros** are different constants of single precision with one instruction. -/
theorem instruction_float_eq_iff {x y : UInt32} (h : (float x).same (float y) = false) :
    (float x).instruction = (float y).instruction ↔
      x = 0 ∧ y = 0x80000000 ∨ x = 0x80000000 ∧ y = 0 := by
  rw [instruction, instruction, floatInstruction_eq, floatInstruction_eq]
  exact Precision.single.instruction_eq_iff fun heq => canonical_ne_of_not_same h (congrArg float heq)

/-- **Only the two zeros** are different constants of double precision with one instruction. -/
theorem instruction_double_eq_iff {x y : UInt64} (h : (double x).same (double y) = false) :
    (double x).instruction = (double y).instruction ↔
      x = 0 ∧ y = 0x8000000000000000 ∨ x = 0x8000000000000000 ∧ y = 0 := by
  rw [instruction, instruction, doubleInstruction_eq, doubleInstruction_eq]
  exact Precision.double.instruction_eq_iff fun heq => canonical_ne_of_not_same h (congrArg double heq)

end Operation

namespace Plan

theorem canonical_canonical (plan : Plan) : plan.canonical.canonical = plan.canonical := by
  induction plan with
  | impossible | nothing | methodObject _ => rfl
  | op operation => rw [canonical, canonical, operation.canonical_canonical]
  | cached value type ih => rw [canonical, canonical, ih]
  | sequence parts ih =>
      rw [canonical, canonical, canonicalEach_eq_map, canonicalEach_eq_map, List.map_map]
      exact congrArg sequence (List.map_congr_left ih)
  | array component elements ih =>
      rw [canonical, canonical, canonicalEach_eq_map, canonicalEach_eq_map, List.map_map]
      exact congrArg (array component) (List.map_congr_left ih)

/-- Canonical forms are the same exactly if the plans are. -/
theorem same_canonical (a b : Plan) : a.canonical.same b.canonical = a.same b := by
  rw [Bool.eq_iff_iff, same_iff, same_iff, canonical_canonical, canonical_canonical]

theorem allPossible_canonicalEach {plans : List Plan}
    (h : ∀ p ∈ plans, p.canonical.isPossible = p.isPossible) :
    allPossible (canonicalEach plans) = allPossible plans := by
  induction plans with
  | nil => rfl
  | cons plan plans ih =>
      rw [canonicalEach, allPossible, allPossible, h plan List.mem_cons_self,
        ih fun p hp => h p (List.mem_cons_of_mem plan hp)]

theorem isPossible_canonical (plan : Plan) : plan.canonical.isPossible = plan.isPossible := by
  induction plan with
  | impossible | nothing | op _ | methodObject _ => rfl
  | cached value type ih => rw [canonical, isPossible, isPossible, ih]
  | sequence parts ih => rw [canonical, isPossible, isPossible, allPossible_canonicalEach ih]
  | array component elements ih =>
      rw [canonical, isPossible, isPossible, allPossible_canonicalEach ih, canonicalEach_eq_map,
        List.length_map]

end Plan

/-! ### Canonical forms of scopes -/

/-- The registration with its value in canonical form. -/
def Registration.canonical (r : Registration) : Registration := ⟨r.value.canonical, r.field⟩

/-- The cache with all registered values in canonical form. -/
def ConstantCache.canonical (c : ConstantCache) : ConstantCache :=
  { c with registrations := c.registrations.map Registration.canonical }

/-- The scope with all registered values in canonical form. -/
def Scope.canonical (s : Scope) : Scope := { s with constants := s.constants.canonical }

/-- The same with all registered values in canonical form. -/
def Emitted.canonical (r : Emitted) : Emitted := { r with scope := r.scope.canonical }

/-- A constant is found under the field under which its canonical form is. -/
theorem ConstantCache.find?_canonical (c : ConstantCache) (value : Plan) (type : ValueType) :
    c.canonical.find? value.canonical type = c.find? value type := by
  have hmatch : ∀ r : Registration,
      (r.canonical.type == type && r.canonical.value.same value.canonical) =
        (r.type == type && r.value.same value) :=
    fun r => congrArg (r.type == type && ·) (r.value.same_canonical value)
  rw [find?, find?, canonical, Array.find?_map, Option.map_map]
  simp only [Function.comp_def, hmatch]
  rfl

namespace Scope

theorem register_canonical (s : Scope) (value : Plan) (type : ValueType) :
    s.canonical.register value.canonical type = (s.register value type).map id canonical := by
  simp [register, canonical, ConstantCache.canonical, Registration.canonical, ConstantCache.size,
    ConstantCache.fieldName]

theorem cacheEach_canonical {ns : List Plan.CachedValue}
    (h : ∀ n ∈ ns, ∀ s : Scope, s.canonical.cache n.value.canonical n.type =
      (s.cache n.value n.type).map id canonical) (s : Scope) :
    s.canonical.cacheEach (ns.map Plan.CachedValue.canonical) =
      (s.cacheEach ns).map id canonical := by
  induction ns generalizing s with
  | nil => rfl
  | cons n ns ih =>
      have hfirst := h n List.mem_cons_self s
      rcases hcache : s.cache n.value n.type with ⟨reason | field, s₁⟩
      · rw [hcache] at hfirst
        rw [cacheEach_cons_of_error hcache, List.map_cons, cacheEach_cons_of_error hfirst]
        rfl
      · rw [hcache] at hfirst
        rw [cacheEach_cons_of_ok hcache, List.map_cons, cacheEach_cons_of_ok hfirst]
        exact ih (fun m hm => h m (List.mem_cons_of_mem n hm)) s₁

/-- **Asking for the canonical form of a constant** gives the same field. -/
theorem cache_canonical (s : Scope) (value : Plan) (type : ValueType) :
    s.canonical.cache value.canonical type = (s.cache value type).map id canonical := by
  have hnested : ∀ n ∈ value.outerCached, ∀ s : Scope,
      s.canonical.cache n.value.canonical n.type = (s.cache n.value n.type).map id canonical :=
    fun n hn s => cache_canonical s n.value n.type
  cases hpossible : value.isPossible with
  | false =>
      have hpossible' := value.isPossible_canonical.trans hpossible
      rw [cache_of_not_isPossible s hpossible, cache_of_not_isPossible s.canonical hpossible']
      rfl
  | true =>
      have hpossible' := value.isPossible_canonical.trans hpossible
      have hfind' := s.constants.find?_canonical value type
      cases hfind : s.constants.find? value type with
      | some field =>
          rw [hfind] at hfind'
          rw [cache_of_find? hpossible hfind, cache_of_find? hpossible' hfind']
          rfl
      | none =>
          rw [hfind] at hfind'
          -- the canonical forms of what is inside are registered first, and then the field is the same
          obtain ⟨s₁, hok⟩ := cacheEach_outerCached hpossible s
          have hok' : s.canonical.cacheEach value.canonical.outerCached = (.ok (), s₁.canonical) := by
            rw [value.outerCached_canonical, cacheEach_canonical hnested, hok]
            rfl
          have hregister := congrArg Prod.snd (s₁.register_canonical value type)
          rw [cache_of_find?_eq_none hpossible hfind hok, cache_of_find?_eq_none hpossible' hfind' hok',
            hregister]
          simp [ConstantCache.nextField, canonical, ConstantCache.canonical, ConstantCache.fieldName,
            ConstantCache.size]
termination_by sizeOf value
decreasing_by exact Plan.sizeOf_lt_of_mem_outerCached hn

end Scope

/-! ### Applying canonical forms -/

theorem Emitted.canonical_after (r : Emitted) (first : List SymbolicInstruction) :
    (r.after first).canonical = r.canonical.after first := rfl

/-- Going on in a scope of canonical forms. -/
theorem Emitted.canonical_andThen (r : Emitted) {next next' : Effect → Scope → Emitted}
    (h : ∀ effect s, next' effect s.canonical = (next effect s).canonical) :
    (r.andThen next).canonical = r.canonical.andThen next' := by
  cases hr : r.outcome with
  | error reason =>
      have hr' : r.canonical.outcome = .error reason := hr
      rw [andThen_of_error hr, andThen_of_error hr']
  | ok effect =>
      have hr' : r.canonical.outcome = .ok effect := hr
      rw [andThen_of_ok hr, andThen_of_ok hr', canonical_after, ← h]
      rfl

namespace Plan

theorem emitEach_canonicalEach {plans : List Plan}
    (h : ∀ p ∈ plans, ∀ s : Scope, p.canonical.emit s.canonical = (p.emit s).canonical)
    (soFar : Effect) (s : Scope) :
    emitEach (canonicalEach plans) soFar s.canonical = (emitEach plans soFar s).canonical := by
  induction plans generalizing soFar s with
  | nil => rfl
  | cons plan rest ih =>
      have hrest := ih fun p hp => h p (List.mem_cons_of_mem plan hp)
      rw [canonicalEach, emitEach, emitEach, h plan List.mem_cons_self]
      exact (Emitted.canonical_andThen _ fun effect s => hrest (soFar.andThen effect) s).symm

theorem emitFill_canonicalEach (component : ValueType) {plans : List Plan}
    (h : ∀ p ∈ plans, ∀ s : Scope, p.canonical.emit s.canonical = (p.emit s).canonical)
    (index : Nat) (soFar : Effect) (s : Scope) :
    emitFill component (canonicalEach plans) index soFar s.canonical =
      (emitFill component plans index soFar s).canonical := by
  induction plans generalizing index soFar s with
  | nil => rfl
  | cons plan rest ih =>
      have hrest := ih fun p hp => h p (List.mem_cons_of_mem plan hp)
      rw [canonicalEach, emitFill, emitFill, h plan List.mem_cons_self, Emitted.canonical_after]
      refine congrArg (Emitted.after _) (Emitted.canonical_andThen _ fun effect s => ?_).symm
      rw [Emitted.canonical_after, hrest]

/-- **Canonical forms emit the same**, and register the canonical forms of the same constants. -/
theorem emit_canonical (plan : Plan) (s : Scope) :
    plan.canonical.emit s.canonical = (plan.emit s).canonical := by
  induction plan generalizing s with
  | impossible | nothing => rfl
  | op operation =>
      rw [canonical, emit, emit, operation.effect_canonical, operation.instruction_canonical]
      rfl
  | sequence parts ih => exact emitEach_canonicalEach ih Effect.zero s
  | methodObject method =>
      rw [canonical, emit, emit, emitMethodObject, emitMethodObject]
      split <;> rfl
  | cached value type _ =>
      rw [canonical, emit, emit, emitCached, emitCached, Scope.cache_canonical]
      rcases s.cache value type with ⟨reason | field, s'⟩ <;> rfl
  | array component elements ih =>
      have hfill := emitFill_canonicalEach component ih 0 ⟨1, 1⟩ s
      have hlength : (canonicalEach elements).length = elements.length := by
        rw [canonicalEach_eq_map, List.length_map]
      rw [canonical, emit, emit, hlength, hfill]
      split <;> rfl

end Plan

/-! ### Plans that are the same -/

/-- **The scopes have the same fields for the same constants**, in the same order, and one class
graph. -/
structure Scope.IsLike (s t : Scope) : Prop where
  graph_eq : s.graph = t.graph
  owner_eq : s.constants.owner = t.constants.owner
  namePart_eq : s.constants.namePart = t.constants.namePart
  fields_eq : s.constants.fields = t.constants.fields
  keys_same : List.Forall₂ (fun m n => Plan.CachedValue.same m n = true) s.constants.keys
    t.constants.keys

theorem ConstantCache.fields_canonical (c : ConstantCache) : c.canonical.fields = c.fields := by
  simp [fields, canonical, Registration.canonical]

theorem ConstantCache.keys_canonical (c : ConstantCache) :
    c.canonical.keys = c.keys.map Plan.CachedValue.canonical := by
  simp [keys, canonical, Registration.canonical, Registration.key, Plan.CachedValue.canonical,
    Registration.type]

/-- Scopes with one canonical form are alike. -/
theorem Scope.IsLike.of_canonical_eq {s t : Scope} (h : s.canonical = t.canonical) : s.IsLike t where
  graph_eq := (congrArg Scope.graph h :)
  owner_eq := (congrArg (fun s => s.constants.owner) h :)
  namePart_eq := (congrArg (fun s => s.constants.namePart) h :)
  fields_eq := by
    rw [← s.constants.fields_canonical, ← t.constants.fields_canonical]
    exact congrArg (fun s => s.constants.fields) h
  keys_same := by
    have hkeys : s.constants.keys.map Plan.CachedValue.canonical =
        t.constants.keys.map Plan.CachedValue.canonical := by
      rw [← ConstantCache.keys_canonical, ← ConstantCache.keys_canonical]
      exact congrArg (fun s => s.constants.keys) h
    have hforms : List.Forall₂ (fun m n => m = n) (s.constants.keys.map Plan.CachedValue.canonical)
        (t.constants.keys.map Plan.CachedValue.canonical) := by
      rw [hkeys]
      exact List.forall₂_refl _
    have hpairs := List.forall₂_map_left_iff.1 (List.forall₂_map_right_iff.1 hforms)
    exact hpairs.imp fun m n hmn => Plan.CachedValue.same_iff.2 hmn

namespace Plan

variable {a b : Plan}

theorem isPossible_of_same (h : a.same b = true) : a.isPossible = b.isPossible := by
  rw [← a.isPossible_canonical, same_iff.1 h, b.isPossible_canonical]

/-- Plans that are the same are found under one field. -/
theorem find?_of_same (h : a.same b = true) (c : ConstantCache) (type : ValueType) :
    c.find? a type = c.find? b type := by
  rw [← c.find?_canonical a, ← c.find?_canonical b, same_iff.1 h]

/-- Once one of two plans that are the same is registered, the field is that of the other. -/
theorem cache_of_same (h : a.same b = true) {s s' : Scope} {type : ValueType} {field : Field}
    (hcache : s.cache a type = (.ok field, s')) : s'.cache b type = (.ok field, s') := by
  have hpossible : b.isPossible = true := by
    rw [← isPossible_of_same h]
    exact Scope.isPossible_of_cache hcache
  have hfind := Scope.find?_of_cache hcache
  rw [find?_of_same h] at hfind
  exact Scope.cache_of_find? hpossible hfind

theorem emit_canonical_of_same (h : a.same b = true) (s : Scope) :
    (a.emit s).canonical = (b.emit s).canonical := by
  rw [← emit_canonical, same_iff.1 h, emit_canonical]

/-- Asking for plans that are the same gives one field, and scopes with one canonical form. -/
theorem cache_canonical_of_same (h : a.same b = true) (s : Scope) (type : ValueType) :
    (s.cache a type).map id Scope.canonical = (s.cache b type).map id Scope.canonical := by
  rw [← Scope.cache_canonical, same_iff.1 h, Scope.cache_canonical]

/-- **Sameness is an equivalence that nothing can tell apart**, and so one field can stand for all plans
that are the same.

Plans that are the same are possible together. In every scope and for all collectors, applying them
appends the same instructions, gives the same effect or the same reason to fail, and registers the same
constants in the same order. Asking for them gives the same field, whether they are registered already
or not, and after one of them the other is registered too. Floating-point constants that are not the
same have one instruction only if they are the two zeros. -/
theorem same_is_sound_for_sharing :
    Equivalence (fun a b : Plan => a.same b = true) ∧
    (∀ a b : Plan, a.same b = true → a.isPossible = b.isPossible ∧
      (∀ s : Scope, ∃ (outcome : Except Error Effect) (code : List SymbolicInstruction) (s₁ s₂ : Scope),
        (∀ {σ : Type} [CodeCollector σ] (start : σ),
          a.apply ⟨start, s⟩ = (outcome, ⟨code.foldl CodeCollector.append start, s₁⟩) ∧
          b.apply ⟨start, s⟩ = (outcome, ⟨code.foldl CodeCollector.append start, s₂⟩)) ∧
        s₁.IsLike s₂) ∧
      (∀ (c : ConstantCache) (type : ValueType), c.find? a type = c.find? b type) ∧
      ∀ (s : Scope) (type : ValueType),
        (s.cache a type).1 = (s.cache b type).1 ∧ (s.cache a type).2.IsLike (s.cache b type).2 ∧
        ∀ field s', s.cache a type = (.ok field, s') → s'.cache b type = (.ok field, s')) ∧
    (∀ x y : UInt32, (Operation.float x).same (.float y) = false →
      ((Operation.float x).instruction = (Operation.float y).instruction ↔
        x = 0 ∧ y = 0x80000000 ∨ x = 0x80000000 ∧ y = 0)) ∧
    ∀ x y : UInt64, (Operation.double x).same (.double y) = false →
      ((Operation.double x).instruction = (Operation.double y).instruction ↔
        x = 0 ∧ y = 0x8000000000000000 ∨ x = 0x8000000000000000 ∧ y = 0) := by
  refine ⟨⟨same_refl, same_symm, same_trans⟩, fun a b hsame => ?_,
    fun _ _ => Operation.instruction_float_eq_iff, fun _ _ => Operation.instruction_double_eq_iff⟩
  refine ⟨isPossible_of_same hsame, fun s => ?_, find?_of_same hsame, fun s type => ?_⟩
  · have hemit := emit_canonical_of_same hsame s
    have houtcome : (a.emit s).outcome = (b.emit s).outcome :=
      (congrArg Emitted.outcome hemit :)
    have hcode : (a.emit s).code = (b.emit s).code := (congrArg Emitted.code hemit :)
    refine ⟨(a.emit s).outcome, (a.emit s).code, (a.emit s).scope, (b.emit s).scope, fun start => ?_,
      .of_canonical_eq (congrArg Emitted.scope hemit)⟩
    rw [apply_eq_emit, apply_eq_emit, Emitted.onto, Emitted.onto, houtcome, hcode]
    exact ⟨rfl, rfl⟩
  · have hcache := cache_canonical_of_same hsame s type
    have hfields : (s.cache a type).1 = (s.cache b type).1 := (congrArg Prod.fst hcache :)
    exact ⟨hfields, .of_canonical_eq (congrArg Prod.snd hcache), fun _ _ => cache_of_same hsame⟩

/-- An array of a constant that is not a number, which is an array of such a number itself. -/
def nestedNumbers (bits : UInt32) : Plan :=
  .array (.object Java.object)
    [.cached (.array (.primitive .float) [.cached (.op (.float bits)) (.primitive .float)])
      (.array (.primitive .float))]

/-- The two arrays differ in the bits of a value that is no number, at the bottom of two constants. -/
theorem same_is_sound_for_sharing_nestedNumbers :
    (nestedNumbers 0x7FC00000).same (nestedNumbers 0xFFC00001) = true ∧
    ((nestedNumbers 0x7FC00000).apply ⟨(#[] : Array SymbolicInstruction),
      ⟨.empty, .new Java.object ConstantCache.defaultNamePart⟩⟩).2.code =
    ((nestedNumbers 0xFFC00001).apply ⟨(#[] : Array SymbolicInstruction),
      ⟨.empty, .new Java.object ConstantCache.defaultNamePart⟩⟩).2.code := by
  obtain ⟨-, hsound, -⟩ := same_is_sound_for_sharing
  have hsame : (nestedNumbers 0x7FC00000).same (nestedNumbers 0xFFC00001) = true := by decide
  obtain ⟨-, happly, -⟩ := hsound _ _ hsame
  obtain ⟨outcome, code, s₁, s₂, hboth, -⟩ :=
    happly ⟨.empty, .new Java.object ConstantCache.defaultNamePart⟩
  obtain ⟨ha, hb⟩ := hboth (#[] : Array SymbolicInstruction)
  exact ⟨hsame, by rw [ha, hb]⟩

end Plan

end Stack

end JvmCodegen
