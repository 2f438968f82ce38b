/-
**The class file format.**

A class file is a header, the constant pool, and then tables of interfaces, fields, methods and
attributes whose entries refer to constants by index.  An attribute is a name and a body of bytes;
the body of a method is such an attribute.

Main definitions:

* `Attribute`, `CodeAttribute` — attributes, and the contents of the one that holds a method body;
* `MemberInfo` — the entry of a field or a method;
* `ClassFile`, `ClassFile.encode` — class files and their bytes.
-/

import JvmCodegen.AccessFlags
import JvmCodegen.Constant
import JvmCodegen.Version

set_option relaxedAutoImplicit false
set_option autoImplicit false

namespace JvmCodegen

/-! ### Attributes -/

/-- A named body of bytes. -/
structure Attribute where
  name : PoolIndex
  info : List UInt8
deriving DecidableEq

/-- The bytes of an attribute. The length of the body has 32 bits. -/
def Attribute.encode (a : Attribute) : List UInt8 :=
  a.name.encode ++ Bytes.u32 (UInt32.ofNat a.info.length) ++ a.info

/-- The contents of the attribute that holds a method body. -/
structure CodeAttribute where
  maxStack : UInt16
  maxLocals : UInt16
  code : List UInt8
  attributes : List Attribute
deriving DecidableEq

/-- The name of the attribute that holds a method body. -/
def CodeAttribute.name : String := "Code"

/-- The bytes of a method body. The length of the code has 32 bits, and there are no exception
handlers. -/
def CodeAttribute.encode (c : CodeAttribute) : Except EncodingError (List UInt8) :=
  (Bytes.counted Attribute.encode c.attributes).map fun attributes =>
    Bytes.u16 c.maxStack ++ Bytes.u16 c.maxLocals
      ++ Bytes.u32 (UInt32.ofNat c.code.length) ++ c.code ++ Bytes.u16 0 ++ attributes

/-- The name of the attribute of members that do not appear in any source text. Its body is
empty. -/
def syntheticAttributeName : String := "Synthetic"

/-! ### Members -/

/-- The entry of a field or a method. -/
structure MemberInfo (kind : DeclarationKind) where
  flags : AccessFlags kind
  name : PoolIndex
  descriptor : PoolIndex
  attributes : List Attribute
deriving DecidableEq

/-- The bytes of the entry of a member. -/
def MemberInfo.encode {kind : DeclarationKind} (m : MemberInfo kind) :
    Except EncodingError (List UInt8) :=
  (Bytes.counted Attribute.encode m.attributes).map fun attributes =>
    Bytes.u16 m.flags.bits ++ m.name.encode ++ m.descriptor.encode ++ attributes

/-! ### Class files -/

/-- A class file. -/
structure ClassFile where
  version : Version
  constants : OffsetList Constant
  flags : ClassFlags
  thisClass : PoolIndex
  superClass : Option PoolIndex
  interfaces : List PoolIndex
  fields : List (MemberInfo .field)
  methods : List (MemberInfo .method)
  attributes : List Attribute

namespace ClassFile

/-- The first four bytes of every class file. -/
def magic : List UInt8 := [0xCA, 0xFE, 0xBA, 0xBE]

/-- The bytes of the constants, without their count. -/
def encodeConstants (constants : OffsetList Constant) : Except EncodingError (List UInt8) :=
  Bytes.encodeEach Constant.encode [] (constants.toList.map Prod.snd)

/-- **The bytes of a class file.** The count of the constants is the offset after the last one, and
a class without a superclass says 0 for it. -/
def encode (f : ClassFile) : Except EncodingError (List UInt8) := do
  let constants ← encodeConstants f.constants
  let interfaces ← Bytes.counted PoolIndex.encode f.interfaces
  let fields ← Bytes.countedM MemberInfo.encode f.fields
  let methods ← Bytes.countedM MemberInfo.encode f.methods
  let attributes ← Bytes.counted Attribute.encode f.attributes
  return magic ++ f.version.encode ++ Bytes.u16 (UInt16.ofNat f.constants.next) ++ constants
    ++ Bytes.u16 f.flags.bits ++ f.thisClass.encode
    ++ (match f.superClass with | none => Bytes.u16 0 | some i => i.encode)
    ++ interfaces ++ fields ++ methods ++ attributes

end ClassFile

end JvmCodegen
