/-
**The command line program.**

The program generates one class.  For every constant on the command line the class has a public
static method that returns it, computed anew on every call or, on request, once and for all when the
class is initialized.

Main definitions:

* `CommandLine.generate` — the class that a request asks for;
* `CommandLine.Outcome`, `CommandLine.run` — everything that a run of the program brings about.
-/

import JvmCodegen.CommandLine.Arguments
import JvmCodegen.CommandLine.Value
import JvmCodegen.OutputFile
import JvmCodegen.Report
import JvmCodegen.ClassDraft

set_option relaxedAutoImplicit false
set_option autoImplicit false

namespace JvmCodegen.CommandLine

open Stack

/-! ### Generating the class -/

/-- The settings that a request asks for. -/
def settings (r : Request) : Except Error Settings := do
  let settings ← (← Settings.new r.outputClass).withRelease r.release
  match r.cachedNamePart with
  | none => return settings
  | some name => settings.withCachedNamePart name

/-- The flags of the methods that return constants. -/
def constantMethodFlags : MethodFlags := MethodFlags.publicFlag ||| MethodFlags.staticFlag

/-- The body of a method that returns a constant. -/
def constantBody (m : ConstantMethod) (cache : Bool) : Plan :=
  .sequence [if cache then .cached m.value m.type else m.value, .op (.returning (some m.type))]

/-- Add the methods for the constants of a list in order. -/
def addConstants (cache : Bool) (draft : ClassDraft) (graph : ClassGraph) :
    List String → Except Error (ClassDraft × ClassGraph)
  | [] => .ok (draft, graph)
  | text :: rest =>
      match readValue graph text with
      | (.error e, _) => .error e
      | (.ok constant, graph) =>
          let (method, graph) := draft.declare graph constant.name ⟨[], some constant.type⟩
            constantMethodFlags
          match draft.implement graph method (constantBody constant cache) with
          | (.error e, _, _) => .error e
          | (.ok (), draft, graph) => addConstants cache draft graph rest

/-- **The class that a request asks for.** -/
def generate (r : Request) : Except Error GeneratedClass := do
  let (draft, graph) ← ClassDraft.new (← settings r) ClassGraph.withJavaLibrary
  let (draft, graph) ← addConstants r.cache draft graph r.values
  (draft.finish graph).1

/-! ### Running the program -/

/-- The line that says which program this is. -/
def versionText : String := "JVM constant class generator 0.1.0\n"

/-- The options as help spells them, each with what it is for. -/
def helpEntries : List (String × String) :=
  [("      --output-class <CLASS_NAME>",
      "Binary name of the generated class, eg. `me/example/Constants`"),
   ("      --value <NAME:TYPE:LITERAL>",
      "Static method returning a constant. TYPE is one of boolean, byte, short, char, int, long, " ++
      "float, double, string, or class. A class LITERAL is a field descriptor, eg. " ++
      "`Ljava/util/List;`, `[I`, or `J`"),
   ("      --cache", "Compute each constant once, in the type initializer"),
   ("      --cached-field-prefix <PREFIX>", ""),
   ("      --target <RELEASE>", "Java SE release to target (6 to 17) [default: 8]"),
   ("      --output-dir <DIRECTORY>", "[default: .]"),
   ("  -h, --help", "Print help"),
   ("  -V, --version", "Print version")]

/-- The column in which help says what the options are for. It lies two blanks behind the longest
spelling. -/
def helpColumn : Nat := (helpEntries.map (·.1.length)).foldl max 0 + 2

/-- The line of help for one option. -/
def helpLine (spelling purpose : String) : String :=
  spelling ++ "".pushn ' ' (helpColumn - spelling.length) ++ purpose ++ "\n"

/-- The lines that explain the options of the program, which is called by a name. -/
def helpText (program : String) : String :=
  "Generates a class whose static methods return the given constants\n\n" ++
  "Usage: " ++ program ++ " [OPTIONS] --output-class <CLASS_NAME>\n\n" ++
  "Options:\n" ++ String.join (helpEntries.map fun (spelling, purpose) => helpLine spelling purpose)

/-- Everything that a run of the program brings about. -/
structure Outcome where
  exitStatus : UInt8
  output : String
  errorOutput : String
  /-- The files that are written, with the directories that they need. -/
  files : List OutputFile

/-- The outcome of reading the arguments of the program and doing what they ask for. -/
def run (program : String) (arguments : List String) : Outcome :=
  match readArguments arguments with
  | .error e => ⟨2, "", "error: " ++ e.message ++ "\n", []⟩
  | .ok .help => ⟨0, helpText program, "", []⟩
  | .ok .version => ⟨0, versionText, "", []⟩
  | .ok (.generate r) =>
      match generate r with
      | .error e => ⟨1, "", "Error: " ++ e.report ++ "\n", []⟩
      | .ok type =>
          match type.save r.outputDirectory with
          | .error fault => ⟨1, "", "Error: " ++ fault.report ++ "\n", []⟩
          | .ok file => ⟨0, "", "", [file]⟩

end JvmCodegen.CommandLine
