/-
**Reports.**

A report shows a value by the name of its kind and by its parts, so that a reader can tell exactly
which value it is: parts without names stand between parentheses, and parts with names between
braces.  Texts are quoted, numbers with a fraction are the shortest decimals that read back.

Main definitions:

* `Report.call`, `Report.record`, `Report.list` — the shapes of a report;
* `RefType.report`, `Literal.report`, `Constant.report`, `OffsetList.report` — reports of values;
* `Error.report`, `SaveFault.report` — the reports of failures.
-/

import JvmCodegen.Error
import JvmCodegen.Float.Shortest
import JvmCodegen.OutputFile
import JvmCodegen.Text.Quoted

set_option relaxedAutoImplicit false
set_option autoImplicit false

namespace JvmCodegen

/-! ### Shapes -/

namespace Report

/-- A kind and the reports of its parts. -/
def call (kind : String) (parts : List String) : String :=
  kind ++ "(" ++ ", ".intercalate parts ++ ")"

/-- A kind and the reports of its named parts. -/
def record (kind : String) (parts : List (String × String)) : String :=
  let named := parts.map fun (name, part) => name ++ ": " ++ part
  kind ++ " \x7b " ++ ", ".intercalate named ++ " \x7d"

/-- The reports of the elements of a list. -/
def list (elements : List String) : String := "[" ++ ", ".intercalate elements ++ "]"

/-- A truth value. -/
def bool (b : Bool) : String := if b then "true" else "false"

/-- A value of single precision. -/
def float (bits : UInt32) : String := FloatFormat.single.render .report bits.toNat

/-- A value of double precision. -/
def double (bits : UInt64) : String := FloatFormat.double.render .report bits.toNat

end Report

/-! ### Literals -/

/-- The report of an array type. -/
def RefType.reportArray (extra : Nat) (element : String) : String :=
  Report.record "ArrayType" [("additional_dimensions", extra.repr), ("element_type", element)]

/-- The report of a reference type. -/
def RefType.report : RefType Class → String
  | .object c => Report.call "Object" [c.mention]
  | .objectArray extra c => Report.call "ObjectArray" [reportArray extra c.mention]
  | .primitiveArray extra p => Report.call "PrimitiveArray" [reportArray extra p.title]

/-- The report of a literal. The numbers other than `int` end with a letter for their type. -/
def Literal.report : Literal → String
  | .text value => Quoted.quote value
  | .type value => value.report
  | .int value => value.toInt.repr
  | .long value => value.toInt.repr ++ "L"
  | .float bits => Report.float bits ++ "f"
  | .double bits => Report.double bits ++ "d"
  | .methodHandle target => target.mention

/-! ### Constants -/

/-- The report of an index that refers to a kind of constant. -/
def PoolIndex.report (kind : String) (i : PoolIndex) : String :=
  Report.call kind [Report.call "ConstantIndex" [i.val.toNat.repr]]

/-- The report of an index of a text. -/
def PoolIndex.reportUtf8 : PoolIndex → String := report "Utf8ConstantIndex"

/-- The report of an index of a class. -/
def PoolIndex.reportClass : PoolIndex → String := report "ClassConstantIndex"

/-- The report of an index of a pair of a name and a type. -/
def PoolIndex.reportMember : PoolIndex → String := report "NameAndTypeConstantIndex"

/-- The report of an index of a method. -/
def PoolIndex.reportMethod : PoolIndex → String := report "MethodRefConstantIndex"

/-- The name of a way of invoking. -/
def HandleKind.title : HandleKind → String
  | invokeVirtual => "InvokeVirtual"
  | invokeStatic => "InvokeStatic"
  | invokeSpecial => "InvokeSpecial"
  | newInvokeSpecial => "NewInvokeSpecial"
  | invokeInterface => "InvokeInterface"

/-- The report of a constant. -/
def Constant.report : Constant → String
  | .type name => Report.call "Class" [name.reportUtf8]
  | .field owner member => Report.call "FieldRef" [owner.reportClass, member.reportMember]
  | .method owner member isInterface =>
      Report.record "MethodRef" [("class", owner.reportClass),
        ("name_and_type", member.reportMember), ("is_interface", Report.bool isInterface)]
  | .text content => Report.call "String" [content.reportUtf8]
  | .integer value => Report.call "Integer" [value.toInt.repr]
  | .float bits => Report.call "Float" [Report.float bits]
  | .long value => Report.call "Long" [value.toInt.repr]
  | .double bits => Report.call "Double" [Report.double bits]
  | .nameAndType name descriptor =>
      Report.record "NameAndType" [("name", name.reportUtf8),
        ("descriptor", descriptor.reportUtf8)]
  | .utf8 content => Report.call "Utf8" [Quoted.quote content]
  | .methodHandle kind target =>
      Report.record "MethodHandle" [("handle_kind", kind.title), ("method", target.reportMethod)]

/-- The report of a list addressed by offset: every element behind the offset at which it begins. -/
def OffsetList.report {α : Type} (reportElement : α → String) (xs : OffsetList α) : String :=
  Report.list (xs.toList.map fun (offset, x) => "#" ++ offset.repr ++ " = " ++ reportElement x)

/-! ### Failures -/

/-- The report of a failure to build a class file. -/
def ClassFileError.report : ClassFileError → String
  | .pool (.full constant offset) =>
      Report.record "ConstantPoolOverflow" [("constant", constant.report), ("offset", offset.repr)]
  | .pool (.textTooLong bytes) => Report.call "Utf8ConstantTooLong" [bytes.repr]
  | .encoding reason =>
      Report.call "IoError" [Report.record "Custom" [("kind", "InvalidInput"),
        ("error", Quoted.quote reason.message)]]
  | .stackTooDeep depth => Report.call "MethodCodeMaxStackOverflow" [depth.repr]
  | .tooManyLocals slots => Report.call "MethodCodeMaxLocalsOverflow" [slots.repr]
  | .codeTooLong bytes => Report.call "MethodCodeOverflow" [bytes.repr]

/-- **The report of a failure.** -/
def Error.report : Error → String
  | .classFile reason => Report.call "BytecodeGen" [reason.report]
  | .impossiblePlan => "IllegalStackManipulation"
  | .typeInitializerObject method =>
      Report.call "TypeInitializerConstant" [Quoted.quote method.mention]
  | .outOfRange value type =>
      Report.record "ConstantOutOfRange" [("value", value.repr), ("primitive", type.title)]
  | .notPrimitive type => Report.call "NotPrimitive" [Quoted.quote type.render]
  | .bridgeArity bridge target =>
      Report.record "BridgeArityMismatch" [("bridge", Quoted.quote bridge.mention),
        ("target", Quoted.quote target.mention)]
  | .body method fault => Report.call "InvalidMethodBody" [Quoted.quote (fault.message method)]
  | .unbalanced method impact =>
      Report.record "UnbalancedMethodBody" [("method", Quoted.quote method.mention),
        ("size_impact", impact.repr)]
  | .settings fault => Report.call "InvalidSettings" [Quoted.quote fault.message]

/-- The report of a failure to save a class file. -/
def SaveFault.report (fault : SaveFault) : String :=
  let parts := [("kind", fault.title), ("message", Quoted.quote fault.message)]
  let cause := match fault.code? with
    | none => Report.record "Error" parts
    | some code => Report.record "Os" (("code", code.repr) :: parts)
  Report.call "BytecodeGen" [Report.call "IoError" [cause]]

end JvmCodegen
