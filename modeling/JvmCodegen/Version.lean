/-
**Versions of the class file format.**

Every release of the platform raised the major version by one, starting from 50 for release 6.
Method handles can be loaded from version 51 on.

Main definitions: `Version`, `Version.ofRelease?`, `Version.knowsMethodHandles`.
-/

import JvmCodegen.Bytes

set_option relaxedAutoImplicit false
set_option autoImplicit false

namespace JvmCodegen

/-- The version of a class file. -/
structure Version where
  major : UInt16
  minor : UInt16
deriving DecidableEq

namespace Version

def java6 : Version := ⟨50, 0⟩
def java7 : Version := ⟨51, 0⟩
def java8 : Version := ⟨52, 0⟩
def java11 : Version := ⟨55, 0⟩
def java17 : Version := ⟨61, 0⟩

/-- The version for a release of the platform, from release 6 to release 17. -/
def ofRelease? (release : UInt16) : Option Version :=
  if 6 ≤ release && release ≤ 17 then some ⟨release + 44, 0⟩ else none

/-- Versions are ordered by their major numbers and then by their minor numbers. -/
def order (a b : Version) : Ordering := (compare a.major b.major).then (compare a.minor b.minor)

/-- Method handles can be loaded. -/
def knowsMethodHandles (v : Version) : Bool := (v.order java7).isGE

/-- The bytes of a version: the minor number comes first. -/
def encode (v : Version) : List UInt8 := Bytes.u16 v.minor ++ Bytes.u16 v.major

end Version

end JvmCodegen
