/-
**Loadable constants.**

A few kinds of values can be pushed straight out of the constant pool.  Floating-point values are
kept as their bit patterns, so that zeros of either sign and all the values that are not numbers
stay apart.

Main definitions: `Literal`, and `Literal.isWide` for those that take two slots.
-/

import JvmCodegen.Member

set_option relaxedAutoImplicit false
set_option autoImplicit false

namespace JvmCodegen

/-- A value that can be pushed out of the constant pool. -/
inductive Literal
  | text (value : String)
  | type (value : RefType Class)
  | int (value : Int32)
  | long (value : Int64)
  | float (bits : UInt32)
  | double (bits : UInt64)
  | methodHandle (target : Method)
deriving DecidableEq

/-- The value takes two slots on the stack. -/
def Literal.isWide : Literal → Bool
  | .long _ | .double _ => true
  | _ => false

end JvmCodegen
