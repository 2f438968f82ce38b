/-
**Constants of a class file.**

The constant pool of a class file holds texts, numbers, and references to classes and members.
Constants refer to each other by their indices.  Every constant is written as a tag of one byte
followed by its contents.

Main definitions:

* `PoolIndex` — the index of a constant;
* `HandleKind` — the ways in which a method handle invokes its method;
* `Constant` — the constants, with the number of indices that each takes up;
* `Constant.encode` — the bytes of a constant; only a text can be too long to have any.
-/

import JvmCodegen.Bytes
import JvmCodegen.OffsetList
import JvmCodegen.Text.ModifiedUtf8

set_option relaxedAutoImplicit false
set_option autoImplicit false

namespace JvmCodegen

/-- The index of a constant. -/
structure PoolIndex where
  val : UInt16
deriving DecidableEq, Hashable

/-- The bytes of an index. -/
def PoolIndex.encode (i : PoolIndex) : List UInt8 := Bytes.u16 i.val

/-- The ways in which a method handle invokes its method. -/
inductive HandleKind
  | invokeVirtual
  | invokeStatic
  | invokeSpecial
  | newInvokeSpecial
  | invokeInterface
deriving DecidableEq, Hashable

/-- The byte that stands for a way of invoking. -/
def HandleKind.code : HandleKind → UInt8
  | invokeVirtual => 5
  | invokeStatic => 6
  | invokeSpecial => 7
  | newInvokeSpecial => 8
  | invokeInterface => 9

/-- A constant of the pool. -/
inductive Constant
  | type (name : PoolIndex)
  | field (owner member : PoolIndex)
  | method (owner member : PoolIndex) (isInterface : Bool)
  | text (content : PoolIndex)
  | integer (value : Int32)
  | float (bits : UInt32)
  | long (value : Int64)
  | double (bits : UInt64)
  | nameAndType (name descriptor : PoolIndex)
  | utf8 (content : String)
  | methodHandle (kind : HandleKind) (target : PoolIndex)
deriving DecidableEq

namespace Constant

/-- The eight-byte constants take up two indices, of which the second is never used. -/
instance : HasWidth Constant where
  width
    | long _ | double _ => 2
    | _ => 1

theorem width_pos (c : Constant) : 1 ≤ width c := by
  cases c <;> first | exact Nat.le_refl 1 | exact Nat.le_succ 1

/-- The tag that a constant begins with. -/
def tag : Constant → UInt8
  | utf8 _ => 1
  | integer _ => 3
  | float _ => 4
  | long _ => 5
  | double _ => 6
  | type _ => 7
  | text _ => 8
  | field _ _ => 9
  | method _ _ isInterface => if isInterface then 11 else 10
  | nameAndType _ _ => 12
  | methodHandle _ _ => 15

/-- The length of a text, in 16 bits, and its bytes. -/
def encodeUtf8 (content : String) : Except EncodingError (List UInt8) :=
  let bytes := ModifiedUtf8.encode content
  if bytes.length ≤ 65535 then .ok (Bytes.u16 (UInt16.ofNat bytes.length) ++ bytes)
  else .error (.textTooLong bytes.length)

/-- What follows the tag. -/
def encodeBody : Constant → Except EncodingError (List UInt8)
  | utf8 content => encodeUtf8 content
  | integer value => .ok (Bytes.i32 value)
  | float bits => .ok (Bytes.u32 bits)
  | long value => .ok (Bytes.i64 value)
  | double bits => .ok (Bytes.u64 bits)
  | type name => .ok name.encode
  | text content => .ok content.encode
  | field owner member => .ok (owner.encode ++ member.encode)
  | method owner member _ => .ok (owner.encode ++ member.encode)
  | nameAndType name descriptor => .ok (name.encode ++ descriptor.encode)
  | methodHandle kind target => .ok (kind.code :: target.encode)

/-- **The bytes of a constant.** -/
def encode (c : Constant) : Except EncodingError (List UInt8) :=
  c.encodeBody.map (c.tag :: ·)

end Constant

end JvmCodegen
