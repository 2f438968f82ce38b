/-
**Applying plans.**

Applying a plan appends its instructions to those emitted before and reports its effect on the
height of the stack.  Cached constants are registered on the way.  What was emitted before a failure
stays emitted.

Main definitions:

* `Stack.Emission` — the code so far together with the scope of the class that is generated;
* `Stack.elementEffect`, `Stack.arrayStart`, `Stack.elementStart`, `Stack.storeOp` — the pieces of
  the code that fills an array;
* `Stack.Plan.ofMethod` — the plan that pushes the reflective object of a method;
* `Stack.Plan.apply` — applying a plan.
-/

import JvmCodegen.Stack.ConstantCache

set_option relaxedAutoImplicit false
set_option autoImplicit false

namespace JvmCodegen.Stack

/-! ### Emissions -/

/-- The instructions so far, and the scope of the class that is generated. -/
structure Emission (σ : Type) where
  code : σ
  scope : Scope

namespace Emission

variable {σ : Type} [CodeCollector σ]

/-- Append an instruction. -/
def append (e : Emission σ) (instruction : SymbolicInstruction) : Emission σ :=
  { e with code := CodeCollector.append e.code instruction }

/-- Append the instructions of a list in order. -/
def appendAll (e : Emission σ) (instructions : List SymbolicInstruction) : Emission σ :=
  instructions.foldl append e

@[simp] theorem appendAll_nil (e : Emission σ) : e.appendAll [] = e := rfl

@[simp] theorem appendAll_cons (e : Emission σ) (i : SymbolicInstruction)
    (rest : List SymbolicInstruction) :
    e.appendAll (i :: rest) = (e.append i).appendAll rest := rfl

end Emission

/-! ### Arrays -/

/-- The instruction that creates an array with components of a type. -/
def createArray : ValueType → SymbolicInstruction
  | .primitive p => .newArray p
  | .reference r => .newRefArray r

/-- The instruction that stores a component of a type into an array. -/
def storeOp : ValueType → BareOp
  | .primitive .int => .iastore
  | .primitive .long => .lastore
  | .primitive .float => .fastore
  | .primitive .double => .dastore
  | .primitive .boolean | .primitive .byte => .bastore
  | .primitive .char => .castore
  | .primitive .short => .sastore
  | .reference _ => .aastore

/-- Push a new array of a length. -/
def arrayStart (component : ValueType) (length : Nat) : List SymbolicInstruction :=
  [intInstruction (Int32.ofNat length), createArray component]

/-- Push a second reference to the array, and an index. -/
def elementStart (index : Nat) : List SymbolicInstruction :=
  [.bare .dup, intInstruction (Int32.ofNat index)]

/-- The effect so far, with one more element stored. The reference, the index and the value are all
consumed by the store. -/
def elementEffect (component : ValueType) (soFar element : Effect) : Effect :=
  (((soFar.andThen ⟨1, 1⟩).andThen ⟨1, 1⟩).andThen element).andThen
    (Effect.popping (2 + component.slots))

/-! ### Reflective objects -/

/-- The elements of an array of class objects, from an index on, and the effect so far with them. -/
def fillTypes (component : ValueType) : List ValueType → Nat → Effect →
    List SymbolicInstruction → List SymbolicInstruction × Effect
  | [], _, soFar, emitted => (emitted.reverse, soFar)
  | type :: rest, index, soFar, emitted =>
      let operation := Operation.classOf (some type)
      fillTypes component rest (index + 1) (elementEffect component soFar operation.effect)
        (.bare (storeOp component) :: operation.instruction
          :: (elementStart index).reverse ++ emitted)

/-- Push the class that declares a method, and its name unless it is a constructor. -/
def lookupTarget (method : Method) : List Operation :=
  if method.isConstructor then [.typeObject (.object method.owner)]
  else [.typeObject (.object method.owner), .text method.name.text]

/-- The method that finds the reflective object of a method. -/
def lookupMethod (method : Method) : Method :=
  if method.isConstructor then Java.getDeclaredConstructor else Java.getDeclaredMethod

/-- The class of the reflective object of a method. -/
def methodObjectClass (method : Method) : Class :=
  if method.isConstructor then Java.reflectConstructor else Java.reflectMethod

/-- The type of the reflective object of a method. -/
def methodObjectType (method : Method) : ValueType := .object (methodObjectClass method)

/-- Push the reflective object of a method: find it on its class by its name and by the class
objects of its parameters. -/
def applyMethodObject {σ : Type} [CodeCollector σ] (method : Method) (e : Emission σ) :
    Except Error Effect × Emission σ :=
  let target := lookupTarget method
  let parameters := method.descriptor.parameters
  let e := e.appendAll (target.map Operation.instruction)
  if parameters.length ≤ Plan.maxArrayLength then
    let component : ValueType := .object Java.classClass
    let e := e.appendAll (arrayStart component parameters.length)
    let (fill, arrayEffect) := fillTypes component parameters 0 ⟨1, 1⟩ []
    let e := (e.appendAll fill).append (.invoke .virtual (lookupMethod method))
    let targetEffect := (target.map Operation.effect).foldl Effect.andThen Effect.zero
    (.ok ⟨1, (targetEffect.andThen arrayEffect).peak⟩, e)
  else (.error .impossiblePlan, e)

/-- The plan that pushes the reflective object of a method. A type initializer has none. -/
def Plan.ofMethod (method : Method) : Except Error Plan :=
  if method.isTypeInitializer then .error (.typeInitializerObject method)
  else .ok (.methodObject method)

/-- The plan that pushes the reflective object of a method, which is found only once. -/
def Plan.ofMethodCached (method : Method) : Except Error Plan :=
  (ofMethod method).map fun object => .cached object (methodObjectType method)

/-! ### Applying -/

namespace Plan

variable {σ : Type} [CodeCollector σ]

mutual

/-- **Apply a plan.** -/
def apply : Plan → Emission σ → Except Error Effect × Emission σ
  | impossible, e => (.error .impossiblePlan, e)
  | nothing, e => (.ok Effect.zero, e)
  | sequence parts, e => applyEach parts Effect.zero e
  | op operation, e => (.ok operation.effect, e.append operation.instruction)
  | methodObject method, e => applyMethodObject method e
  | cached value type, e =>
      match e.scope.cache value type with
      | (.error reason, scope) => (.error reason, ⟨e.code, scope⟩)
      | (.ok field, scope) =>
          (.ok (Effect.pushing type.slots),
            Emission.append ⟨e.code, scope⟩ (.access .getStatic field))
  | array component elements, e =>
      if elements.length ≤ maxArrayLength then
        fill component elements 0 ⟨1, 1⟩ (e.appendAll (arrayStart component elements.length))
      else (.error .impossiblePlan, e)

/-- Apply the plans of a list in order, after code whose effect is known. -/
def applyEach : List Plan → Effect → Emission σ → Except Error Effect × Emission σ
  | [], soFar, e => (.ok soFar, e)
  | m :: rest, soFar, e =>
      match m.apply e with
      | (.error reason, e) => (.error reason, e)
      | (.ok effect, e) => applyEach rest (soFar.andThen effect) e

/-- Store the values of a list into the array on top of the stack, from an index on. -/
def fill (component : ValueType) : List Plan → Nat → Effect → Emission σ →
    Except Error Effect × Emission σ
  | [], _, soFar, e => (.ok soFar, e)
  | m :: rest, index, soFar, e =>
      match m.apply (e.appendAll (elementStart index)) with
      | (.error reason, e) => (.error reason, e)
      | (.ok effect, e) =>
          fill component rest (index + 1) (elementEffect component soFar effect)
            (e.append (.bare (storeOp component)))

end

end Plan

end JvmCodegen.Stack
