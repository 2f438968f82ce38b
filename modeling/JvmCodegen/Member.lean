/-
**Classes and their members.**

A class, a method or a field is known by its *serial number*, which the class graph hands out: two
declarations are the same only if they are one declaration, whatever they are called.  What never
changes about a declaration travels with it, so most of the library can look at a method or a
field without looking into a graph.

Main definitions:

* `Class`, `Method`, `Field` — the declarations;
* `InvokeKind`, `Method.invokeKind` — the ways of invoking a method, and the one that a method
  calls for;
* `Method.render`, `Field.render` — a member with its owner and its type, as text.
-/

import JvmCodegen.AccessFlags
import JvmCodegen.FieldType

set_option relaxedAutoImplicit false
set_option autoImplicit false

namespace JvmCodegen

/-! ### Classes -/

/-- A class or an interface. -/
structure Class where
  serial : Nat
  name : BinaryName
  flags : ClassFlags
deriving DecidableEq

/-- The serial number alone tells two classes of a graph apart. -/
instance : Hashable Class := ⟨fun c => hash c.serial⟩

/-- The class is an interface. -/
def Class.isInterface (c : Class) : Bool := c.flags.has ClassFlags.interfaceFlag

/-- A type over the classes of a graph. -/
abbrev ValueType := FieldType Class

/-- The descriptor of a reference type over the classes of a graph. -/
def RefType.render (r : RefType Class) : String := (r.map Class.name).descriptor

/-- The descriptor of a type over the classes of a graph. -/
def FieldType.render (t : ValueType) : String := (t.map Class.name).descriptor

/-- The text of a method descriptor over the classes of a graph. -/
def MethodDescriptor.render (d : MethodDescriptor Class) : String := (d.map Class.name).descriptor

/-! ### Members -/

/-- A method of a class. -/
structure Method where
  serial : Nat
  owner : Class
  name : UnqualifiedName
  descriptor : MethodDescriptor Class
  flags : MethodFlags
deriving DecidableEq

/-- The serial number alone tells two methods of a graph apart. -/
instance : Hashable Method := ⟨fun m => hash m.serial⟩

/-- A field of a class. -/
structure Field where
  serial : Nat
  owner : Class
  name : UnqualifiedName
  type : ValueType
  flags : FieldFlags
deriving DecidableEq

/-- The serial number alone tells two fields of a graph apart. -/
instance : Hashable Field := ⟨fun f => hash f.serial⟩

/-- The ways of invoking a method. An interface invocation says how many slots its arguments take,
the receiver included. -/
inductive InvokeKind
  | static
  | special
  | virtual
  | interface (count : UInt8)
deriving DecidableEq, Hashable

namespace Method

/-- The method has no receiver. -/
def isStatic (m : Method) : Bool := m.flags.has MethodFlags.staticFlag

/-- The method builds instances. -/
def isConstructor (m : Method) : Bool := m.name == UnqualifiedName.constructor

/-- The method initializes its class. -/
def isTypeInitializer (m : Method) : Bool := m.name == UnqualifiedName.typeInitializer

/-- The number of slots of the arguments, the receiver of an instance method included. -/
def argumentSlots (m : Method) : Nat := m.descriptor.parameterSlots (!m.isStatic)

/-- The way of invoking the method, with dynamic dispatch wherever there is a choice. The count of
an interface invocation keeps the low eight bits only. -/
def invokeKind (m : Method) : InvokeKind :=
  if m.isStatic then .static
  else if m.isConstructor || m.flags.has MethodFlags.privateFlag then .special
  else if m.owner.isInterface then .interface (UInt8.ofNat (m.descriptor.parameterSlots true))
  else .virtual

/-- The method with its owner and its descriptor. -/
def render (m : Method) : String :=
  m.owner.name.text ++ "." ++ m.name.text ++ ":" ++ m.descriptor.render

end Method

namespace Field

/-- The field belongs to the class, not to its instances. -/
def isStatic (f : Field) : Bool := f.flags.has FieldFlags.staticFlag

/-- The field with its owner and its type. -/
def render (f : Field) : String :=
  f.owner.name.text ++ "." ++ f.name.text ++ ":" ++ f.type.render

end Field

end JvmCodegen
