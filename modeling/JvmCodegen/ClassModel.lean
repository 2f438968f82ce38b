/-
**Classes before they are written.**

A class model lists the fields and methods that a class file will declare, with their bodies still
symbolic.  Turning it into a class file builds a constant pool from nothing, in a fixed order: the
class itself, its superclass, its interfaces, its fields, its methods.

Main definitions:

* `MethodModel`, `ClassModel` — methods with their bodies, and classes;
* `ClassModel.toClassFile` — the class file.
-/

import JvmCodegen.ClassGraph
import JvmCodegen.MethodBody

set_option relaxedAutoImplicit false
set_option autoImplicit false

namespace JvmCodegen

/-- A method with its body. Abstract and native methods have none. -/
structure MethodModel where
  method : Method
  body : Option MethodBody

/-- A class with the members that its class file will declare. -/
structure ClassModel where
  declared : Class
  fields : Array Field
  methods : Array MethodModel

/-- The class without members. -/
def ClassModel.new (declared : Class) : ClassModel := ⟨declared, #[], #[]⟩

/-- The mark of a member, if it is synthetic. -/
def syntheticAttributes (isSynthetic : Bool) : ClassFileM (List Attribute) :=
  if isSynthetic then (fun mark => [mark]) <$> syntheticAttribute else pure []

/-- The attribute that holds a body, if there is one. -/
def bodyAttributes : Option MethodBody → ClassFileM (List Attribute)
  | none => pure []
  | some body => do
      let contents ← body.toAttribute
      return [← namedAttribute CodeAttribute.name contents.encode]

/-- The entry of a field. -/
def Field.toInfo (f : Field) : ClassFileM (MemberInfo .field) := do
  let name ← (ConstantPool.utf8 f.name.text).toClassFileM
  let descriptor ← (ConstantPool.utf8 f.type.render).toClassFileM
  let attributes ← syntheticAttributes (f.flags.has FieldFlags.syntheticFlag)
  return ⟨f.flags, name, descriptor, attributes⟩

/-- The entry of a method. The body comes before the mark of a synthetic method. -/
def MethodModel.toInfo (m : MethodModel) : ClassFileM (MemberInfo .method) := do
  let name ← (ConstantPool.utf8 m.method.name.text).toClassFileM
  let descriptor ← (ConstantPool.utf8 m.method.descriptor.render).toClassFileM
  let body ← bodyAttributes m.body
  let mark ← syntheticAttributes (m.method.flags.has MethodFlags.syntheticFlag)
  return ⟨m.method.flags, name, descriptor, body ++ mark⟩

namespace ClassModel

/-- The indices of classes, looked up in order. -/
def classIndices (classes : List Class) : PoolM (List PoolIndex) :=
  classes.mapM fun c => ConstantPool.type (.object c)

/-- The index of the superclass, if there is one. -/
def superclassIndex : Option Class → PoolM (Option PoolIndex)
  | none => pure none
  | some c => some <$> ConstantPool.type (.object c)

/-- Everything in the class file that refers to constants. -/
def build (m : ClassModel) (superclass : Option Class) (interfaces : List Class)
    (version : Version) : ClassFileM (OffsetList Constant → ClassFile) := do
  let thisClass ← (ConstantPool.type (.object m.declared)).toClassFileM
  let superClass ← (superclassIndex superclass).toClassFileM
  let interfaces ← (classIndices interfaces).toClassFileM
  let fields ← m.fields.toList.mapM Field.toInfo
  let methods ← m.methods.toList.mapM MethodModel.toInfo
  return fun constants =>
    ⟨version, constants, m.declared.flags, thisClass, superClass, interfaces, fields, methods, []⟩

/-- **The class file of a class**, with the superclass and the interfaces that the graph knows. -/
def toClassFile (m : ClassModel) (graph : ClassGraph) (version : Version) :
    Except ClassFileError ClassFile :=
  match m.build (graph.superclass? m.declared) (graph.interfaces m.declared) version
      ConstantPool.empty with
  | (.error reason, _) => .error reason
  | (.ok file, pool) => .ok (file pool.constants)

/-- The bytes of the class file of a class. -/
def encode (m : ClassModel) (graph : ClassGraph) (version : Version) :
    Except ClassFileError (List UInt8) :=
  match m.toClassFile graph version with
  | .error reason => .error reason
  | .ok file => file.encode.mapError .encoding

end ClassModel

end JvmCodegen
