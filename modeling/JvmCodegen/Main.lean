/-
**The program.**

The outermost layer: it reads the arguments, writes the files and the texts of the outcome, and ends
with its status.  Everything else is decided by `CommandLine.run`.
-/

import JvmCodegen.CommandLine

set_option relaxedAutoImplicit false
set_option autoImplicit false

namespace JvmCodegen.CommandLine

/-- Write a file and the directories that it needs. -/
def writeFile (file : OutputFile) : IO Unit := do
  let directory := "/".intercalate (file.path.splitOn "/").dropLast
  if directory ≠ "" then IO.FS.createDirAll directory
  IO.FS.writeBinFile file.path ⟨file.bytes.toArray⟩

end JvmCodegen.CommandLine

/-- Run the program. -/
def main (arguments : List String) : IO UInt32 := do
  let program := (← IO.appPath).fileStem.getD ""
  let outcome := JvmCodegen.CommandLine.run program arguments
  outcome.files.forM JvmCodegen.CommandLine.writeFile
  IO.print outcome.output
  IO.eprint outcome.errorOutput
  return outcome.exitStatus.toUInt32
