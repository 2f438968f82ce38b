/-
**Command line arguments.**

An option is written as two hyphens and its name; its value follows as the next argument, or in the
same one after an equals sign.  A value that begins with a hyphen can only be given in the second
way, because the next argument would be taken for another option.  Asking for help or for the
version ends the reading at once.

Main definitions:

* `CommandLine.ValueOption`, `CommandLine.Flag` — options with and without a value;
* `CommandLine.Token`, `CommandLine.Token.ofArgument` — what one argument is by itself;
* `CommandLine.Request`, `CommandLine.Invocation` — what the program is asked to do;
* `CommandLine.UsageError` — why the arguments make no sense;
* `CommandLine.readArguments` — reading all arguments.
-/

import JvmCodegen.Text.Numeral

set_option relaxedAutoImplicit false
set_option autoImplicit false

namespace JvmCodegen.CommandLine

/-! ### Options -/

/-- An option with a value. -/
inductive ValueOption
  | outputClass
  | value
  | cachedNamePart
  | target
  | outputDirectory
deriving DecidableEq

/-- An option without a value. -/
inductive Flag
  | cache
  | help
  | version
deriving DecidableEq

namespace ValueOption

/-- The options with a value, in the order in which help lists them. -/
def all : List ValueOption := [outputClass, value, cachedNamePart, target, outputDirectory]

/-- The name of the option, as it is written behind two hyphens. -/
def name : ValueOption → String
  | outputClass => "output-class"
  | value => "value"
  | cachedNamePart => "cached-field-prefix"
  | target => "target"
  | outputDirectory => "output-dir"

end ValueOption

namespace Flag

/-- The options without a value. -/
def all : List Flag := [cache, help, version]

/-- The name of the option, as it is written behind two hyphens. -/
def name : Flag → String
  | cache => "cache"
  | help => "help"
  | version => "version"

end Flag

/-! ### Single arguments -/

/-- What an argument is by itself. -/
inductive Token
  | flag (f : Flag)
  | option (o : ValueOption)
  /-- An option with its value. -/
  | assignment (o : ValueOption) (value : String)
  /-- Two hyphens alone. No option follows. -/
  | terminator
  /-- An argument without a hyphen in front, or a hyphen alone. -/
  | plain (text : String)
  | unknown (text : String)
deriving DecidableEq

namespace Token

/-- An argument that begins with two hyphens, which are taken off. -/
def ofLong (argument : String) (cs : List Char) : Token :=
  let name := String.ofList (cs.takeWhile (· ≠ '='))
  match cs.dropWhile (· ≠ '=') with
  | [] =>
      match ValueOption.all.find? (·.name == name), Flag.all.find? (·.name == name) with
      | some o, _ => option o
      | none, some f => flag f
      | none, none => unknown argument
  | _ :: value =>
      match ValueOption.all.find? (·.name == name) with
      | some o => assignment o (String.ofList value)
      | none => unknown argument

/-- What an argument is by itself. The letters `h` and `V` behind a single hyphen ask for help and
for the version. -/
def ofArgument (argument : String) : Token :=
  match argument.toList with
  | ['-', '-'] => terminator
  | '-' :: '-' :: cs => ofLong argument cs
  | '-' :: 'h' :: _ => flag .help
  | '-' :: 'V' :: _ => flag .version
  | '-' :: _ :: _ => unknown argument
  | _ => plain argument

end Token

/-! ### Requests -/

/-- The class that the program is asked to generate. -/
structure Request where
  outputClass : String
  /-- The constants, each as a text with its name, its type and its value. -/
  values : List String
  cache : Bool
  cachedNamePart : Option String
  release : UInt16
  outputDirectory : String
deriving DecidableEq

/-- What the program is asked to do. -/
inductive Invocation
  | help
  | version
  | generate (request : Request)
deriving DecidableEq

/-- Why the arguments make no sense. -/
inductive UsageError
  | unexpectedArgument (text : String)
  | missingValue (o : ValueOption)
  | repeated (name : String)
  | invalidValue (o : ValueOption) (text : String)
  | missingOption (name : String)
deriving DecidableEq

/-- The wording of a usage error. -/
def UsageError.message : UsageError → String
  | .unexpectedArgument text => "unexpected argument '" ++ text ++ "' found"
  | .missingValue o => "a value is required for '--" ++ o.name ++ "' but none was supplied"
  | .repeated name => "the argument '--" ++ name ++ "' cannot be used multiple times"
  | .invalidValue o text => "invalid value '" ++ text ++ "' for '--" ++ o.name ++ "'"
  | .missingOption name => "the required argument '--" ++ name ++ "' was not provided"

/-! ### Gathering options -/

/-- The options read so far. The constants are kept with the last one first. -/
structure Gathered where
  outputClass : Option String
  values : List String
  cache : Bool
  cachedNamePart : Option String
  release : Option UInt16
  outputDirectory : Option String

namespace Gathered

/-- No options. -/
def empty : Gathered := ⟨none, [], false, none, none, none⟩

/-- The value of an option that can be given only once. -/
def once {α : Type} (o : ValueOption) (given : Option α) (value : α) :
    Except UsageError (Option α) :=
  match given with
  | none => .ok (some value)
  | some _ => .error (.repeated o.name)

/-- The options with one more value. -/
def setValue (g : Gathered) (o : ValueOption) (value : String) : Except UsageError Gathered :=
  match o with
  | .outputClass =>
      (once o g.outputClass value).map fun given => { g with outputClass := given }
  | .value => .ok { g with values := value :: g.values }
  | .cachedNamePart =>
      (once o g.cachedNamePart value).map fun given => { g with cachedNamePart := given }
  | .target =>
      match Numeral.integerBetween? 0 65535 value with
      | none => .error (.invalidValue o value)
      | some n => (once o g.release (UInt16.ofNat n.toNat)).map fun given =>
          { g with release := given }
  | .outputDirectory =>
      (once o g.outputDirectory value).map fun given => { g with outputDirectory := given }

/-- The options with caching. -/
def setCache (g : Gathered) : Except UsageError Gathered :=
  if g.cache then .error (.repeated Flag.cache.name) else .ok { g with cache := true }

/-- The request that the options make. The name of the class has to be given, and a beginning of the
names of cached constants makes sense only with caching. -/
def finish (g : Gathered) : Except UsageError Invocation :=
  match g.outputClass with
  | none => .error (.missingOption ValueOption.outputClass.name)
  | some outputClass =>
      if g.cachedNamePart.isSome && !g.cache then .error (.missingOption Flag.cache.name)
      else .ok (.generate ⟨outputClass, g.values.reverse, g.cache, g.cachedNamePart,
        g.release.getD 8, g.outputDirectory.getD "."⟩)

end Gathered

/-- Read arguments after the options gathered so far. -/
def readFrom (g : Gathered) : List String → Except UsageError Invocation
  | [] => g.finish
  | argument :: rest =>
      match Token.ofArgument argument with
      | .flag .help => .ok .help
      | .flag .version => .ok .version
      | .flag .cache =>
          match g.setCache with
          | .error e => .error e
          | .ok g => readFrom g rest
      | .assignment o value =>
          match g.setValue o value with
          | .error e => .error e
          | .ok g => readFrom g rest
      | .option o =>
          match rest with
          | [] => .error (.missingValue o)
          | next :: rest =>
              match Token.ofArgument next with
              | .plain value =>
                  match g.setValue o value with
                  | .error e => .error e
                  | .ok g => readFrom g rest
              | _ => .error (.missingValue o)
      | .terminator =>
          match rest with
          | [] => g.finish
          | next :: _ => .error (.unexpectedArgument next)
      | .plain text => .error (.unexpectedArgument text)
      | .unknown text => .error (.unexpectedArgument text)

/-- **What the program is asked to do.** -/
def readArguments (arguments : List String) : Except UsageError Invocation :=
  readFrom Gathered.empty arguments

end JvmCodegen.CommandLine
