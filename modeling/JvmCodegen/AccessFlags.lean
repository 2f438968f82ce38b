/-
**Access flags.**

A class, a method and a field each carry a set of flags in one 16-bit word.  Which bits mean
something depends on what is declared, so the three sets are three types; bits without a meaning
are dropped when a set is read.

Main definitions:

* `DeclarationKind`, `DeclarationKind.table` — the named bits of each kind of declaration;
* `AccessFlags` — a set of flags; `ClassFlags`, `MethodFlags` and `FieldFlags` are the three;
* `AccessFlags.ofBits` — the known bits of a word;
* `AccessFlags.has` — membership of a flag.
-/

set_option relaxedAutoImplicit false
set_option autoImplicit false

namespace JvmCodegen

/-- What can be declared with access flags. -/
inductive DeclarationKind
  | type
  | method
  | field
deriving DecidableEq

namespace DeclarationKind

/-- The named bits of a kind of declaration, in the order in which they are listed. -/
def table : DeclarationKind → List (String × UInt16)
  | type =>
      [("PUBLIC", 0x0001), ("FINAL", 0x0010), ("SUPER", 0x0020), ("INTERFACE", 0x0200),
        ("ABSTRACT", 0x0400), ("SYNTHETIC", 0x1000), ("ANNOTATION", 0x2000), ("ENUM", 0x4000)]
  | method =>
      [("PUBLIC", 0x0001), ("PRIVATE", 0x0002), ("PROTECTED", 0x0004), ("STATIC", 0x0008),
        ("FINAL", 0x0010), ("SYNCHRONIZED", 0x0020), ("BRIDGE", 0x0040), ("VARARGS", 0x0080),
        ("NATIVE", 0x0100), ("ABSTRACT", 0x0400), ("STRICT", 0x0800), ("SYNTHETIC", 0x1000)]
  | field =>
      [("PUBLIC", 0x0001), ("PRIVATE", 0x0002), ("PROTECTED", 0x0004), ("STATIC", 0x0008),
        ("FINAL", 0x0010), ("VOLATILE", 0x0040), ("TRANSIENT", 0x0080), ("SYNTHETIC", 0x1000),
        ("ENUM", 0x4000)]

/-- The bits with a meaning. -/
def knownBits (kind : DeclarationKind) : UInt16 :=
  kind.table.foldl (fun bits (_, bit) => bits ||| bit) 0

end DeclarationKind

/-- A set of access flags of a kind of declaration. -/
structure AccessFlags (kind : DeclarationKind) where
  bits : UInt16
deriving DecidableEq, Hashable

/-- The flags of a class or an interface. -/
abbrev ClassFlags := AccessFlags .type

/-- The flags of a method. -/
abbrev MethodFlags := AccessFlags .method

/-- The flags of a field. -/
abbrev FieldFlags := AccessFlags .field

namespace AccessFlags

variable {kind : DeclarationKind}

/-- The flags of a word; bits without a meaning are dropped. -/
def ofBits (bits : UInt16) : AccessFlags kind := ⟨bits &&& kind.knownBits⟩

/-- All flags of `other` are among `flags`. -/
def has (flags other : AccessFlags kind) : Bool := flags.bits &&& other.bits == other.bits

/-- The flags of either set. -/
def union (a b : AccessFlags kind) : AccessFlags kind := ⟨a.bits ||| b.bits⟩

instance : OrOp (AccessFlags kind) := ⟨union⟩

/-- The names of the flags in the set, in the order of the table. -/
def names (flags : AccessFlags kind) : List String :=
  (kind.table.filter fun (_, bit) => flags.has ⟨bit⟩).map Prod.fst

/-- The names of the flags in the set, joined by bars. -/
def render (flags : AccessFlags kind) : String :=
  match flags.names with
  | [] => "(empty)"
  | names => " | ".intercalate names

end AccessFlags

/-! ### The flags that the library sets or looks at -/

namespace ClassFlags

def publicFlag : ClassFlags := ⟨0x0001⟩
def finalFlag : ClassFlags := ⟨0x0010⟩
def superFlag : ClassFlags := ⟨0x0020⟩
def interfaceFlag : ClassFlags := ⟨0x0200⟩
def abstractFlag : ClassFlags := ⟨0x0400⟩

/-- The flags of a public class. -/
def publicClass : ClassFlags := publicFlag ||| superFlag

end ClassFlags

namespace MethodFlags

def publicFlag : MethodFlags := ⟨0x0001⟩
def privateFlag : MethodFlags := ⟨0x0002⟩
def staticFlag : MethodFlags := ⟨0x0008⟩
def varargsFlag : MethodFlags := ⟨0x0080⟩
def syntheticFlag : MethodFlags := ⟨0x1000⟩

end MethodFlags

namespace FieldFlags

def publicFlag : FieldFlags := ⟨0x0001⟩
def privateFlag : FieldFlags := ⟨0x0002⟩
def staticFlag : FieldFlags := ⟨0x0008⟩
def finalFlag : FieldFlags := ⟨0x0010⟩
def syntheticFlag : FieldFlags := ⟨0x1000⟩

end FieldFlags

end JvmCodegen
