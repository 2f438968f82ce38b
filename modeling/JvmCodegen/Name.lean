/-
**Names of classes and of their members.**

A class file knows two kinds of names.  An *unqualified* name names a method or a field; a
*binary* name names a class and is made of unqualified names joined by `/`.  Both are plain text
with a few characters taken out, because descriptors and class files use those characters as
punctuation.  Angle brackets are kept for the two special methods `<init>` and `<clinit>`.

Main definitions:

* `UnqualifiedName`, `BinaryName` — the two kinds of names;
* `UnqualifiedName.fault?`, `BinaryName.fault?` — the first rule a text breaks;
* `UnqualifiedName.ofString?`, `BinaryName.ofString?` — reading a name, or the rule it breaks;
* `BinaryName.segments` — the parts of a text between slashes;
* `UnqualifiedName.append`, `BinaryName.append`, `BinaryName.join` — longer names from shorter.
-/

set_option relaxedAutoImplicit false
set_option autoImplicit false

namespace JvmCodegen

/-! ### What can be wrong with a name -/

/-- The rule that a text breaks when it is not a name. -/
inductive NameError
  | empty
  | illegalCharacter (name : String)
  | angleBracket (name : String)
  | binaryEmpty
  | binaryAngleBracket (name : String)
deriving DecidableEq

/-- The wording of a broken rule. -/
def NameError.message : NameError → String
  | .empty => "Unqualified name is empty"
  | .illegalCharacter name => "Unqualified name '" ++ name ++ "' contains an illegal character"
  | .angleBracket name =>
      "Unqualified name '" ++ name ++ "' may only use angle brackets for `<init>` or `<clinit>`"
  | .binaryEmpty => "Binary name is empty"
  | .binaryAngleBracket name => "Binary name '" ++ name ++ "' contains an angle bracket"

/-- The characters that descriptors and class files use as punctuation. -/
def isPunctuation (c : Char) : Bool := c = '.' || c = ';' || c = '[' || c = '/'

/-- The characters kept for the special methods. -/
def isAngleBracket (c : Char) : Bool := c = '<' || c = '>'

/-! ### Unqualified names -/

/-- The name of a method or a field. -/
structure UnqualifiedName where
  text : String
deriving DecidableEq, Hashable

namespace UnqualifiedName

/-- The first rule that a text breaks as an unqualified name. -/
def fault? (s : String) : Option NameError :=
  if s.toList.any isPunctuation then some (.illegalCharacter s)
  else if s.toList.any isAngleBracket && s != "<init>" && s != "<clinit>" then
    some (.angleBracket s)
  else if s = "" then some .empty
  else none

/-- The text as an unqualified name, or the first rule it breaks. -/
def ofString? (s : String) : Except NameError UnqualifiedName :=
  match fault? s with
  | some fault => .error fault
  | none => .ok ⟨s⟩

/-- The name made of the texts of two names. -/
def append (a b : UnqualifiedName) : UnqualifiedName := ⟨a.text ++ b.text⟩

/-- The decimal digits of a number, as a name. -/
def ofNat (n : Nat) : UnqualifiedName := ⟨n.repr⟩

/-- The name of every constructor. -/
def constructor : UnqualifiedName := ⟨"<init>"⟩

/-- The name of the type initializer. -/
def typeInitializer : UnqualifiedName := ⟨"<clinit>"⟩

theorem ofString?_of_fault {s : String} {e : NameError} (h : fault? s = some e) :
    ofString? s = .error e := by
  simp [ofString?, h]

theorem ofString?_of_valid {s : String} (h : fault? s = none) : ofString? s = .ok ⟨s⟩ := by
  simp [ofString?, h]

end UnqualifiedName

/-! ### Binary names -/

/-- The name of a class or an interface. -/
structure BinaryName where
  text : String
deriving DecidableEq, Hashable

namespace BinaryName

/-- The parts of a list of characters between its slashes: the first part, and the others. -/
def splitSlashes (cs : List Char) : List Char × List (List Char) :=
  cs.foldr (fun c (part, parts) => if c = '/' then ([], part :: parts) else (c :: part, parts))
    ([], [])

@[simp] theorem splitSlashes_nil : splitSlashes [] = ([], []) := rfl

@[simp] theorem splitSlashes_cons (c : Char) (cs : List Char) :
    splitSlashes (c :: cs) =
      if c = '/' then ([], (splitSlashes cs).1 :: (splitSlashes cs).2)
      else (c :: (splitSlashes cs).1, (splitSlashes cs).2) := rfl

/-- The parts of a text between its slashes. A text without a slash is its own only part. -/
def segments (s : String) : List String :=
  let (part, parts) := splitSlashes s.toList
  (part :: parts).map String.ofList

/-- The first rule that a text breaks as a binary name: those of the whole text, then those of
its segments from left to right. -/
def fault? (s : String) : Option NameError :=
  if s = "" then some .binaryEmpty
  else if s.toList.any isAngleBracket then some (.binaryAngleBracket s)
  else (segments s).findSome? UnqualifiedName.fault?

/-- The text as a binary name, or the first rule it breaks. -/
def ofString? (s : String) : Except NameError BinaryName :=
  match fault? s with
  | some fault => .error fault
  | none => .ok ⟨s⟩

/-- The binary name with the text of an unqualified name after its own. -/
def append (a : BinaryName) (b : UnqualifiedName) : BinaryName := ⟨a.text ++ b.text⟩

/-- The binary name that goes on below `a` with the segments of `b`. -/
def join (a b : BinaryName) : BinaryName := ⟨a.text ++ "/" ++ b.text⟩

/-- The binary name one segment below `a`. -/
def child (a : BinaryName) (b : UnqualifiedName) : BinaryName := ⟨a.text ++ "/" ++ b.text⟩

theorem ofString?_of_fault {s : String} {e : NameError} (h : fault? s = some e) :
    ofString? s = .error e := by
  simp [ofString?, h]

theorem ofString?_of_valid {s : String} (h : fault? s = none) : ofString? s = .ok ⟨s⟩ := by
  simp [ofString?, h]

end BinaryName

end JvmCodegen
