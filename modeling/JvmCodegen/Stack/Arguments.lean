/-
**Passing arguments on.**

When a method is entered its arguments lie in the first local variables, after the receiver of an
instance method.  The plans here push them again, so that they can be handed to another method.

Main definitions:

* `Stack.loadArguments` — push every argument;
* `Stack.loadReceiverAndArguments` — push the receiver, if there is one, and every argument;
* `Stack.loadBridged` — push the arguments of a bridge method as its target expects them.
-/

import JvmCodegen.Stack.Conversion

set_option relaxedAutoImplicit false
set_option autoImplicit false

namespace JvmCodegen.Stack

/-- The first slot of the arguments of a method. -/
def firstSlot (m : Method) : Nat := if m.isStatic then 0 else 1

/-- Push the local variable of a type at a slot. There is no slot beyond 65535. -/
def loadSlot (type : ValueType) (slot : Nat) : Plan :=
  if slot ≤ 65535 then .op (.load (ValueKind.ofType type) (UInt16.ofNat slot)) else .impossible

/-- Push the local variables that hold values of the given types, from a slot on. `done` holds the
plans so far, the last one first. -/
def loadFrom (done : List Plan) : List ValueType → Nat → List Plan
  | [], _ => done.reverse
  | type :: rest, slot => loadFrom (loadSlot type slot :: done) rest (slot + type.slots)

/-- **Push every argument of a method in order.** -/
def loadArguments (m : Method) : Plan :=
  .sequence (loadFrom [] m.descriptor.parameters (firstSlot m))

/-- Push the receiver of an instance method, and then every argument. -/
def loadReceiverAndArguments (m : Method) : Plan :=
  if m.isStatic then loadArguments m
  else .sequence [.op (.load .reference 0), loadArguments m]

/-- Push the local variables that hold values of the first types, from a slot on, each cast to the
second type of its pair where that one differs. -/
def loadCast (done : List Plan) : List (ValueType × ValueType) → Nat → List Plan
  | [], _ => done.reverse
  | (held, wanted) :: rest, slot =>
      let loaded := loadSlot held slot :: done
      loadCast (if held = wanted then loaded else castTo wanted :: loaded) rest (slot + held.slots)

/-- **Push the arguments of a bridge method as its target expects them.** The two have to have the
same number of parameters. -/
def loadBridged (bridge target : Method) : Except Error Plan :=
  if bridge.descriptor.parameters.length = target.descriptor.parameters.length then
    .ok (.sequence (loadCast []
      (bridge.descriptor.parameters.zip target.descriptor.parameters) (firstSlot bridge)))
  else .error (.bridgeArity bridge target)

end JvmCodegen.Stack
