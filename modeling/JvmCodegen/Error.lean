/-
**What can go wrong.**

Every way in which building a class can fail, with what is needed to say why.  The wording is kept
apart from the causes.

Main definitions:

* `SettingsFault`, `BodyFault` — why a setting or a method body is refused;
* `Error` — every failure;
* `Error.message?` — the wording of the failures that have one.
-/

import JvmCodegen.FieldType.Parser
import JvmCodegen.MethodBody

set_option relaxedAutoImplicit false
set_option autoImplicit false

namespace JvmCodegen

/-- Why a setting, or a value given on the command line, is refused. -/
inductive SettingsFault
  | name (fault : NameError)
  | descriptor (fault : DescriptorError)
  | unsupportedRelease (release : UInt16)
  | classExists (name : BinaryName)
  /-- The text is not a name, a type and a literal with colons between them. -/
  | valueShape (text : String)
  | malformedLiteral (type literal : String)
  | unknownType (type : String)
deriving DecidableEq

/-- The wording of a refusal. -/
def SettingsFault.message : SettingsFault → String
  | .name fault => fault.message
  | .descriptor fault => fault.message
  | .unsupportedRelease release => "unsupported Java release " ++ release.toNat.repr
  | .classExists taken => "class '" ++ taken.text ++ "' already exists"
  | .valueShape text => "expected NAME:TYPE:LITERAL, got '" ++ text ++ "'"
  | .malformedLiteral type literal => "malformed " ++ type ++ " literal '" ++ literal ++ "'"
  | .unknownType type => "unknown constant type '" ++ type ++ "'"

/-- Why a method body is refused. -/
inductive BodyFault
  /-- The method belongs to a class other than the one being written. -/
  | foreign (written : Class)
  | alreadyImplemented
  | invalid
  /-- The body loads a method handle, which the version does not know. -/
  | methodHandle (version : Version)
deriving DecidableEq

/-- A class, as reports mention it. -/
def Class.mention (c : Class) : String := "RefId(" ++ c.name.text ++ ")"

/-- A method, as reports mention it. -/
def Method.mention (m : Method) : String := "RefId(" ++ m.render ++ ")"

/-- A version, as reports mention it. -/
def Version.mention (v : Version) : String :=
  "Version \x7b major_version: " ++ v.major.toNat.repr ++ ", minor_version: "
    ++ v.minor.toNat.repr ++ " \x7d"

/-- The wording of a refusal of the body of a method. -/
def BodyFault.message (m : Method) : BodyFault → String
  | .foreign written => m.mention ++ " is not declared on " ++ written.name.text
  | .alreadyImplemented => m.mention ++ " is already implemented"
  | .invalid => m.mention ++ " has an invalid body"
  | .methodHandle version =>
      m.mention ++ " loads a method handle, which " ++ version.mention ++ " does not support"

/-- **Why a class could not be built.** -/
inductive Error
  | classFile (reason : ClassFileError)
  /-- An impossible plan was applied. -/
  | impossiblePlan
  /-- A type initializer cannot be looked up by reflection. -/
  | typeInitializerObject (method : Method)
  /-- A number is not in the range of a type that lives on the stack as `int`. -/
  | outOfRange (value : Int) (type : Primitive)
  | notPrimitive (type : RefType Class)
  /-- A bridge method and its target have different numbers of parameters. -/
  | bridgeArity (bridge target : Method)
  | body (method : Method) (fault : BodyFault)
  /-- A method body leaves the stack higher or lower than it found it. -/
  | unbalanced (method : Method) (impact : Int)
  | settings (fault : SettingsFault)

/-- The wording of a failure, for those that have one. -/
def Error.message? : Error → Option String
  | .typeInitializerObject method => some method.mention
  | .notPrimitive type => some type.render
  | .body method fault => some (fault.message method)
  | .settings fault => some fault.message
  | .classFile (.encoding reason) => some reason.message
  | _ => none

end JvmCodegen
