/-
**Constants on the command line.**

A constant is asked for as `NAME:TYPE:LITERAL`: the name of the method that will return it, a word
for its type, and its value.  The literal is all that follows the second colon, colons included.

Main definitions:

* `ConstantMethod` — a method that returns a constant;
* `CommandLine.splitColons` — the three parts of a text;
* `CommandLine.readConstant` — the type and the value that a type word and a literal stand for;
* `CommandLine.readValue` — reading a whole text.
-/

import JvmCodegen.Float.Reader
import JvmCodegen.Stack.Plan

set_option relaxedAutoImplicit false
set_option autoImplicit false

namespace JvmCodegen

open Stack

/-- A static method without parameters that returns a constant. -/
structure ConstantMethod where
  name : UnqualifiedName
  type : ValueType
  /-- The plan that pushes the constant. -/
  value : Plan

namespace CommandLine

/-- The texts around the first colon, if there is one. -/
def splitColon (cs : List Char) : Option (List Char × List Char) :=
  match cs.dropWhile (· ≠ ':') with
  | [] => none
  | _ :: rest => some (cs.takeWhile (· ≠ ':'), rest)

/-- The texts around the first two colons, if there are two. -/
def splitColons (s : String) : Option (String × String × String) := do
  let (name, rest) ← splitColon s.toList
  let (type, literal) ← splitColon rest
  return (String.ofList name, String.ofList type, String.ofList literal)

/-- The refusal of a literal. -/
def malformed (type literal : String) : Error := .settings (.malformedLiteral type literal)

/-- A number of a type that lives on the stack as `int`. It has to be an integer of 64 bits before
its range is judged. -/
def readNumber (type : Primitive) (literal : String) : Except Error Operation :=
  match Numeral.integerBetween? Int64.minValue.toInt Int64.maxValue.toInt literal with
  | none => .error (malformed type.keyword literal)
  | some n => Operation.ofPrimitive n type

/-- The number of a single character. -/
def readCharacter (literal : String) : Except Error Operation :=
  match literal.toList with
  | [c] => Operation.ofPrimitive c.toNat .char
  | _ => .error (malformed Primitive.char.keyword literal)

/-- A value of a primitive type. -/
def readPrimitive (type : Primitive) (literal : String) : Except Error Operation :=
  match type with
  | .boolean =>
      if literal = "true" then .ok (.ofBool true)
      else if literal = "false" then .ok (.ofBool false)
      else .error (malformed type.keyword literal)
  | .byte | .short | .int => readNumber type literal
  | .char => readCharacter literal
  | .long =>
      match Numeral.integerBetween? Int64.minValue.toInt Int64.maxValue.toInt literal with
      | none => .error (malformed type.keyword literal)
      | some n => .ok (.long (Int64.ofInt n))
  | .float =>
      match FloatFormat.single.read? literal with
      | none => .error (malformed type.keyword literal)
      | some bits => .ok (.float (UInt32.ofNat bits))
  | .double =>
      match FloatFormat.double.read? literal with
      | none => .error (malformed type.keyword literal)
      | some bits => .ok (.double (UInt64.ofNat bits))

/-- The type of a graph that a descriptor names. A class that the graph does not know is added to
it, below `java.lang.Object`. -/
def findType (type : FieldType BinaryName) : StateM ClassGraph ValueType :=
  type.mapM fun name graph => graph.findOrAdd name Java.object

/-- The class object of the type that a descriptor names. -/
def readClass (graph : ClassGraph) (literal : String) : Except Error Operation × ClassGraph :=
  match FieldType.parse literal with
  | .error fault => (.error (.settings (.descriptor fault)), graph)
  | .ok type =>
      let (type, graph) := findType type graph
      (.ok (.classOf (some type)), graph)

/-- The type and the value that a type word and a literal stand for. -/
def readConstant (graph : ClassGraph) (type literal : String) :
    Except Error (ValueType × Operation) × ClassGraph :=
  match Primitive.all.find? (·.keyword == type) with
  | some primitive =>
      ((readPrimitive primitive literal).map fun value => (.primitive primitive, value), graph)
  | none =>
      if type = "string" then (.ok (.object Java.string, .text literal), graph)
      else if type = "class" then
        let (value, graph) := readClass graph literal
        (value.map fun value => (.object Java.classClass, value), graph)
      else (.error (.settings (.unknownType type)), graph)

/-- **The method that a text asks for.** The name is judged before the type and the literal. -/
def readValue (graph : ClassGraph) (text : String) :
    Except Error ConstantMethod × ClassGraph :=
  match splitColons text with
  | none => (.error (.settings (.valueShape text)), graph)
  | some (name, type, literal) =>
      match UnqualifiedName.ofString? name with
      | .error fault => (.error (.settings (.name fault)), graph)
      | .ok name =>
          let (constant, graph) := readConstant graph type literal
          (constant.map fun (type, value) => ⟨name, type, .op value⟩, graph)

end CommandLine

end JvmCodegen
