/-
**Cached constants of a class.**

While a class is generated, constants can be moved into hidden static fields that the type
initializer fills.  Its cache keeps the constants of a class in the order in which they were
first asked for, and that is the order in which they are initialized; a constant that reads other
cached constants has those registered ahead of it.  Equal constants of one type share a field.

Main definitions:

* `Stack.Registration`, `Stack.ConstantCache` — a cached constant with its field, and a cache;
* `Stack.Scope` — a cache together with the class graph in which its fields are declared;
* `Stack.Scope.cache` — the field of a constant, which is registered the first time;
* `Stack.ConstantCache.initializer?`, `Stack.ConstantCache.typeInitializer` — the code that fills
  one field, or all of them.

Main result: `Stack.Scope.cache_eq` — a constant is registered after those nested inside it.
-/

import JvmCodegen.Stack.Plan

set_option relaxedAutoImplicit false
set_option autoImplicit false

namespace JvmCodegen.Stack

/-! ### Caches -/

/-- A constant that is computed into a field. -/
structure Registration where
  value : Plan
  field : Field

/-- The type that the constant was asked for with, which is that of its field. -/
def Registration.type (r : Registration) : ValueType := r.field.type

/-- The cached constants of a class, in the order of their registration. -/
structure ConstantCache where
  /-- The class that declares the fields. -/
  owner : Class
  /-- What the names of the fields begin with. -/
  namePart : UnqualifiedName
  registrations : Array Registration

/-- The cached constants of a class, together with the class graph. -/
structure Scope where
  graph : ClassGraph
  constants : ConstantCache

namespace ConstantCache

/-- The beginning of the names of the fields, where nothing else is asked for. -/
def defaultNamePart : UnqualifiedName := ⟨"cachedValue"⟩

/-- The cache without cached constants. -/
def new (owner : Class) (namePart : UnqualifiedName) : ConstantCache := ⟨owner, namePart, #[]⟩

/-- The number of cached constants. -/
def size (c : ConstantCache) : Nat := c.registrations.size

/-- The fields of the cached constants, in the order of their registration. -/
def fields (c : ConstantCache) : List Field := c.registrations.toList.map (·.field)

/-- The name of the field of the `n`-th cached constant. -/
def fieldName (c : ConstantCache) (n : Nat) : UnqualifiedName :=
  (c.namePart.append ⟨"$"⟩).append (.ofNat n)

/-- The flags of the fields of cached constants. -/
def fieldFlags : FieldFlags :=
  FieldFlags.privateFlag ||| FieldFlags.staticFlag ||| FieldFlags.finalFlag
    ||| FieldFlags.syntheticFlag

/-- The field of a constant of a type, if it is registered. -/
def find? (c : ConstantCache) (value : Plan) (type : ValueType) : Option Field :=
  (c.registrations.find? fun r => r.type == type && r.value.same value).map (·.field)

/-! ### Initializers -/

/-- The code that computes a constant into its field. -/
def initializer (r : Registration) : Plan :=
  .sequence [r.value, .op (.field .put r.field)]

/-- The code that computes the `n`-th cached constant into its field. -/
def initializer? (c : ConstantCache) (n : Nat) : Option Plan :=
  c.registrations[n]?.map initializer

/-- The code that computes every cached constant into its field. -/
def typeInitializer (c : ConstantCache) : Plan :=
  .sequence (c.registrations.toList.map initializer)

end ConstantCache

/-! ### Caching -/

namespace Scope

/-- A new field for a constant, which becomes the last one registered. -/
def register (s : Scope) (value : Plan) (type : ValueType) : Field × Scope :=
  let name := s.constants.fieldName s.constants.size
  let (field, graph) := s.graph.addField s.constants.owner name type ConstantCache.fieldFlags
  (field, ⟨graph, { s.constants with
    registrations := s.constants.registrations.push ⟨value, field⟩ }⟩)

/-- Go on with an outcome only if it is not a failure. -/
def andThen {α β : Type} (outcome : Except Error α × Scope)
    (next : α → Scope → Except Error β × Scope) : Except Error β × Scope :=
  match outcome with
  | (.ok a, s) => next a s
  | (.error e, s) => (.error e, s)

/-- **The field of a constant of a type.** The first time it is asked for, the cached constants
nested inside it are registered, and then the constant itself. -/
def cache (s : Scope) (value : Plan) (type : ValueType) : Except Error Field × Scope :=
  if value.isPossible then
    match s.constants.find? value type with
    | some field => (.ok field, s)
    | none =>
        andThen
          (value.outerCached.attach.foldl
            (fun outcome nested => andThen outcome fun _ s =>
              andThen (cache s nested.1.value nested.1.type) fun _ s => (.ok (), s))
            ((.ok (), s) : Except Error Unit × Scope))
          fun _ s =>
            let (field, s) := s.register value type
            (.ok field, s)
  else (.error .impossiblePlan, s)
termination_by sizeOf value
decreasing_by exact Plan.sizeOf_lt_of_mem_outerCached nested.2

/-- Cache every constant of a list in order, up to the first failure. -/
def cacheEach (s : Scope) (constants : List Plan.CachedValue) :
    Except Error Unit × Scope :=
  constants.foldl
    (fun outcome nested => andThen outcome fun _ s =>
      andThen (cache s nested.value nested.type) fun _ s => (.ok (), s))
    (.ok (), s)

/-- A constant that is not registered yet is registered after those nested inside it. -/
theorem cache_eq (s : Scope) (value : Plan) (type : ValueType) :
    s.cache value type =
      if value.isPossible then
        match s.constants.find? value type with
        | some field => (.ok field, s)
        | none =>
            andThen (s.cacheEach value.outerCached) fun _ s =>
              let (field, s) := s.register value type
              (.ok field, s)
      else (.error .impossiblePlan, s) := by
  rw [cache]
  split
  · split
    · rfl
    · rw [cacheEach, ← List.foldl_attach (l := value.outerCached)]
  · rfl

end Scope

end JvmCodegen.Stack
