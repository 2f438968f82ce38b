/-
**The constant pool under construction.**

A pool answers requests: for a text, a class, a member or a literal it gives the index of the
constant that stands for it, and adds the constant, and those it refers to, the first time.  Every
kind of request goes through one operation, `ConstantPool.intern`, which looks a key up before it
builds anything.  A request that finds no room fails, but the constants that it had already added
stay.

Main definitions:

* `PoolKey` — what a constant was added for;
* `ConstantPool`, `PoolError`, `PoolM` — pools, and computations that use one;
* `ConstantPool.add`, `ConstantPool.intern` — adding a constant, and adding it once;
* `ConstantPool.utf8`, `.type`, `.method`, `.field`, `.literal` — the requests.
-/

import Std.Data.HashMap
import JvmCodegen.Constant
import JvmCodegen.Literal

set_option relaxedAutoImplicit false
set_option autoImplicit false

namespace JvmCodegen

/-! ### Pools -/

/-- What a constant was added for. Texts that are loaded, pairs of a name and a type, and method
handles are known by the constants that they refer to. -/
inductive PoolKey
  | utf8 (content : String)
  | text (content : PoolIndex)
  | integer (value : Int32)
  | float (bits : UInt32)
  | long (value : Int64)
  | double (bits : UInt64)
  | type (value : RefType Class)
  | nameAndType (name descriptor : PoolIndex)
  | field (value : Field)
  | method (value : Method)
  | methodHandle (kind : HandleKind) (target : PoolIndex)
deriving DecidableEq, Hashable

/-- The constants in the order in which they were added, and the index of each by its key. -/
structure ConstantPool where
  constants : OffsetList Constant
  known : Std.HashMap PoolKey PoolIndex

/-- Why a pool has no constant for a request. -/
inductive PoolError
  /-- The constant does not fit at the offset where it would begin. -/
  | full (constant : Constant) (offset : Nat)
  /-- The text is longer than 65535 bytes. -/
  | textTooLong (bytes : Nat)
deriving DecidableEq

/-- A computation that uses a pool and can fail. The pool outlives a failure. -/
abbrev PoolM := ExceptT PoolError (StateM ConstantPool)

namespace ConstantPool

/-- The pool without constants. The index 0 is never used. -/
def empty : ConstantPool := ⟨OffsetList.startingAt 1, ∅⟩

/-- Add a constant at the end. The offset after the last constant is at most 65535, because it is
written as the count of the pool. -/
def add (c : Constant) : PoolM PoolIndex := fun pool =>
  let offset := pool.constants.next
  if offset + width c ≤ 65535 then
    (.ok ⟨UInt16.ofNat offset⟩, { pool with constants := pool.constants.push c })
  else (.error (.full c offset), pool)

/-- Record the index of the constant for a key. -/
def remember (key : PoolKey) (i : PoolIndex) : PoolM Unit := fun pool =>
  (.ok (), { pool with known := pool.known.insert key i })

/-- **The index of the constant for a key**: the one on record, or that of a new constant, which is
built and added now. -/
def intern (key : PoolKey) (build : PoolM Constant) : PoolM PoolIndex := fun pool =>
  match pool.known[key]? with
  | some i => (.ok i, pool)
  | none =>
      (do
        let i ← add (← build)
        remember key i
        return i : PoolM PoolIndex) pool

/-! ### Requests -/

/-- The constant that holds a text. -/
def utf8 (content : String) : PoolM PoolIndex :=
  intern (.utf8 content) do
    let bytes := ModifiedUtf8.length content
    if bytes > 65535 then throw (.textTooLong bytes)
    return .utf8 content

/-- The name by which a constant refers to a class, or the descriptor of an array type. -/
def typeName : RefType Class → String
  | .object c => c.name.text
  | array => array.render

/-- The constant for a class or an array type. -/
def type (t : RefType Class) : PoolM PoolIndex :=
  intern (.type t) do return .type (← utf8 (typeName t))

/-- The constant for a name together with a descriptor. -/
def nameAndType (name descriptor : String) : PoolM PoolIndex := do
  let name ← utf8 name
  let descriptor ← utf8 descriptor
  intern (.nameAndType name descriptor) do return .nameAndType name descriptor

/-- The constant for a method. -/
def method (m : Method) : PoolM PoolIndex :=
  intern (.method m) do
    let owner ← type (.object m.owner)
    let member ← nameAndType m.name.text m.descriptor.render
    return .method owner member m.owner.isInterface

/-- The constant for a field. -/
def field (f : Field) : PoolM PoolIndex :=
  intern (.field f) do
    let owner ← type (.object f.owner)
    let member ← nameAndType f.name.text f.type.render
    return .field owner member

/-- The way in which a handle of the method invokes it. -/
def handleKind (m : Method) : HandleKind :=
  match m.invokeKind with
  | .static => .invokeStatic
  | .special => if m.isConstructor then .newInvokeSpecial else .invokeSpecial
  | .interface _ => .invokeInterface
  | .virtual => .invokeVirtual

/-- The constant for a literal. -/
def literal : Literal → PoolM PoolIndex
  | .text value => do
      let content ← utf8 value
      intern (.text content) do return .text content
  | .type value => type value
  | .int value => intern (.integer value) do return .integer value
  | .long value => intern (.long value) do return .long value
  | .float bits => intern (.float bits) do return .float bits
  | .double bits => intern (.double bits) do return .double bits
  | .methodHandle target => do
      let index ← method target
      intern (.methodHandle (handleKind target) index) do
        return .methodHandle (handleKind target) index

end ConstantPool

end JvmCodegen
