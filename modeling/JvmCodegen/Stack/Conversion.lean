/-
**Converting values.**

A conversion is the plan that turns a value of one type into a value of another: by widening,
boxing, unboxing or casting, or by doing nothing.  Where there is none, the plan is the impossible
one.  Converters are built on top of each other: one knows references only, one adds the primitive
types, and the last one adds `void`, which is the absence of a type.

Main definitions:

* `Stack.widening`, `Stack.castTo`, `Stack.defaultValue`, `Stack.discard`, `Stack.duplicate` — the
  single steps;
* `Stack.Converter`, `Stack.convertReference`, `Stack.convertPrimitive` — the converters between
  types;
* `Stack.convertVoid`, `Stack.convert` — converters between types and `void`, and the usual one.
-/

import JvmCodegen.ClassGraph.Subtyping
import JvmCodegen.Stack.Plan

set_option relaxedAutoImplicit false
set_option autoImplicit false

namespace JvmCodegen.Stack

/-! ### Single steps -/

/-- The conversion of one primitive type into another, if it is a widening one. There is nothing to
do where both types live on the stack alike. -/
def widening (source target : Primitive) : Plan :=
  if source = target then .nothing
  else match source, target with
    | .byte, .short => .nothing
    | .byte, .int | .short, .int | .char, .int => .nothing
    | .byte, .long | .short, .long | .char, .long | .int, .long => .op (.widen .intToLong)
    | .byte, .float | .short, .float | .char, .float | .int, .float => .op (.widen .intToFloat)
    | .byte, .double | .short, .double | .char, .double | .int, .double =>
        .op (.widen .intToDouble)
    | .long, .float => .op (.widen .longToFloat)
    | .long, .double => .op (.widen .longToDouble)
    | .float, .double => .op (.widen .floatToDouble)
    | _, _ => .impossible

/-- The conversion between two types that have to be primitive. -/
def widenTypes : ValueType → ValueType → Except Error Plan
  | .primitive source, .primitive target => .ok (widening source target)
  | .primitive _, .reference r => .error (.notPrimitive r)
  | .reference r, _ => .error (.notPrimitive r)

/-- The checked cast to a type, which has to be a reference type. -/
def castTo : ValueType → Plan
  | .reference r => .op (.cast r)
  | .primitive _ => .impossible

/-- The value that fields of a type begin with; nothing for `void`. -/
def defaultValue : Option ValueType → Plan
  | none => .nothing
  | some (.primitive .long) => .op (.long 0)
  | some (.primitive .float) => .op (.float 0)
  | some (.primitive .double) => .op (.double 0)
  | some (.primitive _) => .op (.int 0)
  | some (.reference _) => .op .null

/-- Discard a value of a type; nothing for `void`. -/
def discard (type : Option ValueType) : Plan :=
  match SlotCount.ofResult type with
  | .zero => .nothing
  | .single => .op (.pop false)
  | .double => .op (.pop true)

/-- Push a second copy of a value of a type. -/
def duplicate (type : ValueType) : Plan := .op (.dup (type.slots == 2))

/-! ### Converters -/

/-- Whether a conversion may rely on checks when the code is run. -/
inductive Typing
  | static
  | dynamic
deriving DecidableEq

/-- A way of converting values of one type into values of another. -/
abbrev Converter := ValueType → ValueType → Typing → Plan

/-- References are converted along the subtype relation, and with dynamic typing by a cast as well.
A primitive type is converted to itself only. -/
def convertReference (graph : ClassGraph) : Converter
  | .reference source, .reference target, typing =>
      if graph.isSubtype source target then .nothing
      else if typing = .dynamic then castTo (.reference target)
      else .impossible
  | source, target, _ => if source = target then .nothing else .impossible

/-- The primitive type whose wrapper a reference type is. -/
def unwrappedType? : RefType Class → Option Primitive
  | .object c => Java.unwrapped? c
  | _ => none

/-- Primitive values are widened, boxed and unboxed. Between references the inner converter
decides, and it also decides what a boxed value may be converted to. -/
def convertPrimitive (inner : Converter) : Converter
  | .primitive source, .primitive target, _ => widening source target
  | .primitive source, .reference target, typing =>
      .sequence [.op (.box source),
        inner (.object (Java.wrapper source)) (.reference target) typing]
  | .reference source, .primitive target, typing =>
      match unwrappedType? source with
      | some primitive => .sequence [.op (.unbox primitive), widening primitive target]
      | none =>
          if typing = .dynamic then
            .sequence [castTo (.object (Java.wrapper target)), .op (.unbox target)]
          else .impossible
  | .reference source, .reference target, typing =>
      inner (.reference source) (.reference target) typing

/-- A value is discarded where `void` is expected. Where a value is expected from `void`, dynamic
typing makes up a default one. -/
def convertVoid (inner : Converter) :
    Option ValueType → Option ValueType → Typing → Plan
  | none, none, _ => .nothing
  | some source, none, _ => discard (some source)
  | none, some target, typing =>
      if typing = .dynamic then defaultValue (some target) else .impossible
  | some source, some target, typing => inner source target typing

/-- **The usual way of converting values**: `void`, then primitive types, then references. -/
def convert (graph : ClassGraph) : Option ValueType → Option ValueType → Typing → Plan :=
  convertVoid (convertPrimitive (convertReference graph))

end JvmCodegen.Stack
