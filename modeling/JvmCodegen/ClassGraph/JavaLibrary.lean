/-
**The Java library classes.**

Generated code leans on a few classes of `java.lang`, `java.lang.reflect` and `java.io`: boxing
goes through the wrapper classes, class objects of primitive types are read from fields, and
reflective look-ups go through `java.lang.Class`.  They are the first classes of every graph that
code is generated against, so each of them is a constant with a fixed serial number.

Main definitions:

* `Java.object` … `Java.reflectConstructor` — the classes;
* `Java.wrapper`, `Java.unwrapped?` — the wrapper class of a primitive type, and back;
* `Java.valueOf`, `Java.unbox`, `Java.classObject` — the members that box a primitive value, take
  it out again, and hold the class object of its type;
* `ClassGraph.withJavaLibrary` — the graph with these classes and nothing else.

Main result: `Java.unwrapped?_wrapper` — wrapping a primitive type loses nothing.
-/

import JvmCodegen.ClassGraph

set_option relaxedAutoImplicit false
set_option autoImplicit false

namespace JvmCodegen.Java

/-! ### The flags of library classes -/

/-- The flags of a public final class. -/
def finalClass : ClassFlags := ClassFlags.publicClass ||| ClassFlags.finalFlag

/-- The flags of a public interface. -/
def interfaceClass : ClassFlags :=
  ClassFlags.publicFlag ||| ClassFlags.interfaceFlag ||| ClassFlags.abstractFlag

/-! ### The classes -/

def object : Class := ⟨0, ⟨"java/lang/Object"⟩, ClassFlags.publicClass⟩
def serializable : Class := ⟨1, ⟨"java/io/Serializable"⟩, interfaceClass⟩
def cloneable : Class := ⟨2, ⟨"java/lang/Cloneable"⟩, interfaceClass⟩
def comparable : Class := ⟨3, ⟨"java/lang/Comparable"⟩, interfaceClass⟩
def charSequence : Class := ⟨4, ⟨"java/lang/CharSequence"⟩, interfaceClass⟩
def string : Class := ⟨5, ⟨"java/lang/String"⟩, finalClass⟩
def number : Class := ⟨6, ⟨"java/lang/Number"⟩, ClassFlags.publicClass⟩
def classClass : Class := ⟨7, ⟨"java/lang/Class"⟩, finalClass⟩
def void : Class := ⟨16, ⟨"java/lang/Void"⟩, finalClass⟩
def accessibleObject : Class :=
  ⟨17, ⟨"java/lang/reflect/AccessibleObject"⟩, ClassFlags.publicClass⟩
def executable : Class :=
  ⟨18, ⟨"java/lang/reflect/Executable"⟩, ClassFlags.publicClass ||| ClassFlags.abstractFlag⟩
def reflectMethod : Class := ⟨19, ⟨"java/lang/reflect/Method"⟩, finalClass⟩
def reflectConstructor : Class := ⟨20, ⟨"java/lang/reflect/Constructor"⟩, finalClass⟩

/-- The place of a primitive type among the wrapper classes. -/
def wrapperRank : Primitive → Nat
  | .boolean => 0
  | .byte => 1
  | .short => 2
  | .char => 3
  | .int => 4
  | .long => 5
  | .float => 6
  | .double => 7

/-- The name of the wrapper class of a primitive type. -/
def wrapperName : Primitive → BinaryName
  | .boolean => ⟨"java/lang/Boolean"⟩
  | .byte => ⟨"java/lang/Byte"⟩
  | .short => ⟨"java/lang/Short"⟩
  | .char => ⟨"java/lang/Character"⟩
  | .int => ⟨"java/lang/Integer"⟩
  | .long => ⟨"java/lang/Long"⟩
  | .float => ⟨"java/lang/Float"⟩
  | .double => ⟨"java/lang/Double"⟩

/-- The class whose instances hold one value of a primitive type. -/
def wrapper (p : Primitive) : Class := ⟨8 + wrapperRank p, wrapperName p, finalClass⟩

/-- The primitive type whose wrapper the class is, if it is one of the eight. -/
def unwrapped? (c : Class) : Option Primitive := Primitive.all.find? fun p => wrapper p == c

@[simp] theorem unwrapped?_wrapper (p : Primitive) : unwrapped? (wrapper p) = some p := by
  cases p <;> rfl

/-! ### Their members -/

/-- The constructor that every other constructor goes through in the end. -/
def objectConstructor : Method :=
  ⟨0, object, UnqualifiedName.constructor, ⟨[], none⟩, MethodFlags.publicFlag⟩

/-- The type of an array of class objects. -/
def classArray : ValueType := FieldType.array (.object classClass)

/-- The look-up of a method by its name and its parameter types. -/
def getDeclaredMethod : Method :=
  ⟨1, classClass, ⟨"getDeclaredMethod"⟩,
    ⟨[.object string, classArray], some (.object reflectMethod)⟩,
    MethodFlags.publicFlag ||| MethodFlags.varargsFlag⟩

/-- The look-up of a constructor by its parameter types. -/
def getDeclaredConstructor : Method :=
  ⟨2, classClass, ⟨"getDeclaredConstructor"⟩,
    ⟨[classArray], some (.object reflectConstructor)⟩,
    MethodFlags.publicFlag ||| MethodFlags.varargsFlag⟩

/-- The static factory that boxes a value of a primitive type. -/
def valueOf (p : Primitive) : Method :=
  ⟨3 + 2 * wrapperRank p, wrapper p, ⟨"valueOf"⟩,
    ⟨[.primitive p], some (.object (wrapper p))⟩,
    MethodFlags.publicFlag ||| MethodFlags.staticFlag⟩

/-- The accessor that takes the value of a primitive type out of its wrapper. -/
def unbox (p : Primitive) : Method :=
  ⟨4 + 2 * wrapperRank p, wrapper p, ⟨p.keyword ++ "Value"⟩, ⟨[], some (.primitive p)⟩,
    MethodFlags.publicFlag⟩

/-- The flags of the fields that hold class objects. -/
def classObjectFlags : FieldFlags :=
  FieldFlags.publicFlag ||| FieldFlags.staticFlag ||| FieldFlags.finalFlag

/-- The field that holds the class object of a primitive type. -/
def classObject (p : Primitive) : Field :=
  ⟨wrapperRank p, wrapper p, ⟨"TYPE"⟩, .object classClass, classObjectFlags⟩

/-- The field that holds the class object of `void`. -/
def voidClassObject : Field := ⟨8, void, ⟨"TYPE"⟩, .object classClass, classObjectFlags⟩

end JvmCodegen.Java

/-! ### The graph of the library -/

namespace JvmCodegen.ClassGraph

open Java in
/-- What the graph of the library holds about the wrapper class of a primitive type. -/
def wrapperEntry (p : Primitive) : ClassEntry :=
  let numeric := p != .boolean && p != .char
  ⟨wrapper p, some (if numeric then number else object),
    if numeric then #[comparable] else #[serializable, comparable],
    #[valueOf p, unbox p], #[classObject p]⟩

open Java in
/-- **The graph that holds the Java library classes and nothing else.** -/
def withJavaLibrary : ClassGraph where
  entries := #[
    ⟨object, none, #[], #[objectConstructor], #[]⟩,
    ⟨serializable, some object, #[], #[], #[]⟩,
    ⟨cloneable, some object, #[], #[], #[]⟩,
    ⟨comparable, some object, #[], #[], #[]⟩,
    ⟨charSequence, some object, #[], #[], #[]⟩,
    ⟨string, some object, #[serializable, comparable, charSequence], #[], #[]⟩,
    ⟨number, some object, #[serializable], #[], #[]⟩,
    ⟨classClass, some object, #[serializable], #[getDeclaredMethod, getDeclaredConstructor], #[]⟩,
    wrapperEntry .boolean, wrapperEntry .byte, wrapperEntry .short, wrapperEntry .char,
    wrapperEntry .int, wrapperEntry .long, wrapperEntry .float, wrapperEntry .double,
    ⟨void, some object, #[], #[], #[voidClassObject]⟩,
    ⟨accessibleObject, some object, #[], #[], #[]⟩,
    ⟨executable, some accessibleObject, #[], #[], #[]⟩,
    ⟨reflectMethod, some executable, #[], #[], #[]⟩,
    ⟨reflectConstructor, some executable, #[], #[], #[]⟩]
  methodCount := 19
  fieldCount := 9

end JvmCodegen.ClassGraph
