/-
**Reading field descriptors.**

A descriptor is read from the front of a list of characters, and what is left is handed back.  A
whole text is a descriptor only if nothing is left.

Main definitions:

* `DescriptorError` — what can be wrong with a descriptor;
* `BinaryName.read`, `FieldType.read` — reading one class or one type from the front;
* `BinaryName.parse`, `FieldType.parse` — reading a whole text.
-/

import JvmCodegen.FieldType

set_option relaxedAutoImplicit false
set_option autoImplicit false

namespace JvmCodegen

/-- What is wrong with a text that is not a descriptor. -/
inductive DescriptorError
  | notClass
  | unterminated (name : String)
  | badName (fault : NameError)
  | tooManyDimensions (count : Nat)
  | notType (c : Char)
  | missing
  | trailing (c : Char) (source : String)
deriving DecidableEq

/-- The wording of a descriptor error. -/
def DescriptorError.message : DescriptorError → String
  | .notClass => "Object types start with 'L'"
  | .unterminated name => "Missing ';' after 'L" ++ name ++ "'"
  | .badName fault => fault.message
  | .tooManyDimensions count => "Array type has " ++ count.repr ++ " dimensions"
  | .notType c => "'" ++ c.toString ++ "' does not start a field type"
  | .missing => "Missing field type"
  | .trailing c source =>
      "Unexpected '" ++ c.toString ++ "' after descriptor in '" ++ source ++ "'"

/-- The whole of a text, read by a reader that takes its value from the front. -/
def parseWhole {α : Type} (read : List Char → Except DescriptorError (α × List Char))
    (source : String) : Except DescriptorError α :=
  match read source.toList with
  | .error e => .error e
  | .ok (value, []) => .ok value
  | .ok (_, c :: _) => .error (.trailing c source)

/-! ### Classes -/

/-- The class between an `L` that is already read and the next `;`. -/
def BinaryName.readRest (cs : List Char) : Except DescriptorError (BinaryName × List Char) :=
  match cs.dropWhile (· ≠ ';') with
  | [] => .error (.unterminated (String.ofList cs))
  | _ :: rest =>
      match BinaryName.ofString? (String.ofList (cs.takeWhile (· ≠ ';'))) with
      | .error fault => .error (.badName fault)
      | .ok name => .ok (name, rest)

/-- The class at the front: an `L`, a binary name and a `;`. -/
def BinaryName.read : List Char → Except DescriptorError (BinaryName × List Char)
  | 'L' :: cs => BinaryName.readRest cs
  | _ => .error .notClass

/-- The class that a whole text describes. -/
def BinaryName.parse (source : String) : Except DescriptorError BinaryName :=
  parseWhole BinaryName.read source

/-! ### Field types -/

/-- The type at the front, where it is not an array: a class or a primitive type. -/
def FieldType.readElement : List Char → Except DescriptorError (FieldType BinaryName × List Char)
  | [] => .error .missing
  | 'L' :: cs =>
      match BinaryName.readRest cs with
      | .error e => .error e
      | .ok (name, rest) => .ok (.object name, rest)
  | c :: cs =>
      match Primitive.ofLetter? c with
      | some p => .ok (.primitive p, cs)
      | none => .error (.notType c)

/-- The type of the arrays with `dimensions` dimensions over an element type. -/
def FieldType.nestArray {C : Type} (dimensions : Nat) (t : FieldType C) : FieldType C :=
  Nat.repeat FieldType.array dimensions t

/-- The type at the front. An array has at most 255 dimensions, which are counted before the
element type is looked at. -/
def FieldType.read (cs : List Char) : Except DescriptorError (FieldType BinaryName × List Char) :=
  let dimensions := (cs.takeWhile (· = '[')).length
  if dimensions > 255 then .error (.tooManyDimensions dimensions)
  else match FieldType.readElement (cs.dropWhile (· = '[')) with
    | .error e => .error e
    | .ok (t, rest) => .ok (t.nestArray dimensions, rest)

/-- The type that a whole text describes. -/
def FieldType.parse (source : String) : Except DescriptorError (FieldType BinaryName) :=
  parseWhole FieldType.read source

end JvmCodegen
