/-
**Effects counted in 32 bits.**

The two numbers of an effect are integers without bound.  Code that counts them has 32 bits for each,
and stops where a sum leaves that range.  Whether it does so depends on the order in which the sums are
taken, that is, on how the parts of a plan are grouped.

This module follows the count of a plan sum by sum.  What is counted depends on the plan alone, not on
the scope or on the collector that it is applied to.

Main definitions:

* `Stack.Stop` — why a count stops early;
* `Stack.Size`, `Stack.Size.andThen` — an effect in 32 bits, and that of one piece of code after another;
* `Stack.Operation.size`, `Stack.Plan.size` — the count of an operation, and of a plan.
-/

import JvmCodegen.Stack.Emission

set_option relaxedAutoImplicit false
set_option autoImplicit false

namespace JvmCodegen.Stack

/-- Why a count stops early. -/
inductive Stop
  /-- Something impossible has been reached. -/
  | impossible
  /-- A number has left the range of 32 bits. -/
  | overflow
deriving DecidableEq

/-- An effect on the height of the stack, counted in 32 bits. -/
structure Size where
  impact : Int32
  peak : Int32
deriving DecidableEq

namespace Size

/-- The number in 32 bits, if it is in range. -/
def ofInt (n : Int) : Except Stop Int32 :=
  if -2147483648 ≤ n ∧ n ≤ 2147483647 then .ok (Int32.ofInt n) else .error .overflow

/-- The effect in 32 bits, if both of its numbers are in range. -/
def ofEffect (e : Effect) : Except Stop Size := do
  let impact ← ofInt e.impact
  let peak ← ofInt e.peak
  return ⟨impact, peak⟩

/-- The effect as a pair of integers. -/
def toEffect (s : Size) : Effect := ⟨s.impact.toInt, s.peak.toInt⟩

/-- The size of no code. -/
def zero : Size := ⟨0, 0⟩

/-- The size of one piece of code and then another. Both sums are taken, also where the peak of the
first is the greater one. -/
def andThen (a b : Size) : Except Stop Size := do
  let impact ← ofInt (a.impact.toInt + b.impact.toInt)
  let peak ← ofInt (a.impact.toInt + b.peak.toInt)
  return ⟨impact, if a.peak ≤ peak then peak else a.peak⟩

end Size

/-- The size of an operation. -/
def Operation.size (o : Operation) : Except Stop Size := Size.ofEffect o.effect

/-- The size so far, with one more element stored into an array. The sums before the element come
first. -/
def elementSize (component : ValueType) (soFar : Size) (element : Except Stop Size) :
    Except Stop Size := do
  let soFar ← soFar.andThen ⟨1, 1⟩
  let soFar ← soFar.andThen ⟨1, 1⟩
  let soFar ← soFar.andThen (← element)
  soFar.andThen (← Size.ofEffect (Effect.popping (2 + component.slots)))

/-- The size so far, with one operation after the other. -/
def operationsSize : List Operation → Size → Except Stop Size
  | [], soFar => .ok soFar
  | o :: rest, soFar => do operationsSize rest (← soFar.andThen (← o.size))

/-- The size so far, with the class objects of the types stored into an array. -/
def typesSize (component : ValueType) : List ValueType → Size → Except Stop Size
  | [], soFar => .ok soFar
  | type :: rest, soFar => do
      typesSize component rest (← elementSize component soFar (Operation.classOf (some type)).size)

/-- The size of pushing the reflective object of a method. -/
def methodObjectSize (method : Method) : Except Stop Size :=
  if method.descriptor.parameters.length ≤ Plan.maxArrayLength then do
    let target ← operationsSize (lookupTarget method) Size.zero
    let array ← typesSize (.object Java.classClass) method.descriptor.parameters ⟨1, 1⟩
    return ⟨1, (← target.andThen array).peak⟩
  else .error .impossible

namespace Plan

mutual

/-- **The size of a plan**, counted as applying it does. -/
def size : Plan → Except Stop Size
  | impossible => .error .impossible
  | nothing => .ok Size.zero
  | sequence parts => sizeEach parts Size.zero
  | op operation => operation.size
  | methodObject method => methodObjectSize method
  | cached value type =>
      if value.isPossible then Size.ofEffect (Effect.pushing type.slots) else .error .impossible
  | array component elements =>
      if elements.length ≤ maxArrayLength then sizeFill component elements ⟨1, 1⟩
      else .error .impossible

/-- The size so far, with the plans of a list one after the other. -/
def sizeEach : List Plan → Size → Except Stop Size
  | [], soFar => .ok soFar
  | plan :: rest, soFar => do sizeEach rest (← soFar.andThen (← plan.size))

/-- The size so far, with the values of a list stored into an array. -/
def sizeFill (component : ValueType) : List Plan → Size → Except Stop Size
  | [], soFar => .ok soFar
  | plan :: rest, soFar => do sizeFill component rest (← elementSize component soFar plan.size)

end

end Plan

end JvmCodegen.Stack
