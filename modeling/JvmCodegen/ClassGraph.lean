/-
**The class graph.**

The graph holds every class that generated code can refer to, in the order in which the classes
were added, and for each class what can still grow: its interfaces, its methods and its fields.
Adding hands out the next serial number.  Several classes may have one name; looking a name up
finds the first of them.

Main definitions:

* `ClassGraph`, `ClassEntry` — the graph, and what it holds about a class;
* `ClassGraph.find?` — the first class of a name;
* `ClassGraph.addClass`, `ClassGraph.findOrAdd` — a new class, or a known one;
* `ClassGraph.addMethod`, `ClassGraph.addField` — a new member; a class lists at most one method
  of a given name, descriptor and staticness.
-/

import JvmCodegen.Member

set_option relaxedAutoImplicit false
set_option autoImplicit false

namespace JvmCodegen

/-- What the graph holds about a class. -/
structure ClassEntry where
  declared : Class
  superclass : Option Class
  interfaces : Array Class
  methods : Array Method
  fields : Array Field

/-- The classes in the order of their serial numbers, and the numbers of members handed out. -/
structure ClassGraph where
  entries : Array ClassEntry
  methodCount : Nat
  fieldCount : Nat

namespace ClassGraph

/-- The graph without classes. -/
def empty : ClassGraph := ⟨#[], 0, 0⟩

/-! ### Looking things up -/

/-- What the graph holds about a class. -/
def entry? (g : ClassGraph) (c : Class) : Option ClassEntry := g.entries[c.serial]?

/-- The direct superclass of a class. -/
def superclass? (g : ClassGraph) (c : Class) : Option Class := (g.entry? c).bind (·.superclass)

/-- The direct interfaces of a class, in the order in which they were added. -/
def interfaces (g : ClassGraph) (c : Class) : List Class :=
  match g.entry? c with
  | none => []
  | some entry => entry.interfaces.toList

/-- The methods of a class, in the order in which they were added. -/
def methods (g : ClassGraph) (c : Class) : List Method :=
  match g.entry? c with
  | none => []
  | some entry => entry.methods.toList

/-- The fields of a class, in the order in which they were added. -/
def fields (g : ClassGraph) (c : Class) : List Field :=
  match g.entry? c with
  | none => []
  | some entry => entry.fields.toList

/-- The first class that was added under a name. -/
def find? (g : ClassGraph) (name : BinaryName) : Option Class :=
  (g.entries.find? fun entry => entry.declared.name == name).map (·.declared)

/-! ### Adding classes -/

/-- A new class without members. -/
def addClass (g : ClassGraph) (name : BinaryName) (superclass : Option Class)
    (flags : ClassFlags) : Class × ClassGraph :=
  let declared : Class := ⟨g.entries.size, name, flags⟩
  (declared, { g with entries := g.entries.push ⟨declared, superclass, #[], #[], #[]⟩ })

/-- The first class of a name, or else a new public class. -/
def findOrAdd (g : ClassGraph) (name : BinaryName) (superclass : Class) : Class × ClassGraph :=
  match g.find? name with
  | some known => (known, g)
  | none => g.addClass name (some superclass) ClassFlags.publicClass

/-- The graph with `count` more mentions of an interface at the end of a class's list. -/
def addInterface (g : ClassGraph) (c interface : Class) (count : Nat) : ClassGraph :=
  { g with entries := g.entries.modify c.serial fun entry =>
      { entry with interfaces := entry.interfaces ++ Array.replicate count interface } }

/-! ### Adding members -/

/-- A new field, at the end of its owner's list. -/
def addField (g : ClassGraph) (owner : Class) (name : UnqualifiedName) (type : ValueType)
    (flags : FieldFlags) : Field × ClassGraph :=
  let field : Field := ⟨g.fieldCount, owner, name, type, flags⟩
  (field, { g with
    entries := g.entries.modify owner.serial fun entry =>
      { entry with fields := entry.fields.push field }
    fieldCount := g.fieldCount + 1 })

/-- A method that its owner lists under a name, a descriptor and a staticness. -/
def findMethod (g : ClassGraph) (owner : Class) (name : UnqualifiedName)
    (descriptor : MethodDescriptor Class) (isStatic : Bool) : Option Method :=
  (g.entry? owner).bind fun entry => entry.methods.find? fun m =>
    m.name == name && m.isStatic == isStatic && m.descriptor == descriptor

/-- The method that its owner lists under the name, the descriptor and the staticness, whatever its
other flags, or else a new method at the end of the list. -/
def addMethod (g : ClassGraph) (owner : Class) (name : UnqualifiedName)
    (descriptor : MethodDescriptor Class) (flags : MethodFlags) : Method × ClassGraph :=
  let method : Method := ⟨g.methodCount, owner, name, descriptor, flags⟩
  match g.findMethod owner name descriptor method.isStatic with
  | some known => (known, g)
  | none => (method, { g with
      entries := g.entries.modify owner.serial fun entry =>
        { entry with methods := entry.methods.push method }
      methodCount := g.methodCount + 1 })

end ClassGraph

end JvmCodegen
