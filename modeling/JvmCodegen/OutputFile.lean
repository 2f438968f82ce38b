/-
**Output files.**

A class file is saved under the name of its class, in one directory per package.  What matters of a
path is the list of its pieces: empty ones and single points say nothing, and two points take back
the piece before them.  A file can be saved where every directory that its path leads through
exists, and where no name is longer than the file system allows.

Main definitions:

* `Path.join`, `Path.components`, `Path.render` — paths as text, and as lists of components;
* `Path.parents`, `Path.passed` — the pieces for which directories are created on the way to a file,
  and those that a path leads through;
* `SaveFault` — why a file cannot be saved;
* `OutputFile.save` — saving bytes in an empty directory.
-/

import JvmCodegen.Name

set_option relaxedAutoImplicit false
set_option autoImplicit false

namespace JvmCodegen

/-! ### Paths -/

namespace Path

/-- The path says where it leads without a directory to start from. -/
def isAbsolute (path : String) : Bool := path.toList.head? = some '/'

/-- A directory as the beginning of a path: with a slash at its end. The empty directory is the
current one. -/
def opened (directory : String) : String :=
  match directory.toList.getLast? with
  | none => directory
  | some c => if c = '/' then directory else directory ++ "/"

/-- A path as seen from a directory. An absolute path does not depend on it. -/
def join (directory path : String) : String :=
  if isAbsolute path then path else opened directory ++ path

/-- The texts between the slashes of a list of characters. -/
def pieces (cs : List Char) : List (List Char) :=
  let (piece, pieces) := BinaryName.splitSlashes cs
  piece :: pieces

/-- A place below the current directory: the components of the way to it, the last one first. -/
abbrev Place := List (List Char)

/-- The piece of a path says nothing. -/
def isIdle (piece : List Char) : Bool := piece = [] || piece = ['.']

/-- The piece of a path is the name of a file or a directory. -/
def isName (piece : List Char) : Bool := !isIdle piece && piece ≠ ['.', '.']

/-- The place to which a piece of a path leads. -/
def descend (above : Place) (piece : List Char) : Place :=
  if isIdle piece then above
  else if isName piece then piece :: above
  else above.drop 1

/-- The place to which a path leads from the current directory. -/
def place (path : String) : Place := (pieces path.toList).foldl descend []

/-- The components of a path below the current directory. -/
def components (path : String) : List (List Char) :=
  (place path).reverse

/-- A path without superfluous components. -/
def render (path : String) : String :=
  "/".intercalate ((components path).map String.ofList)

/-- The places to which the pieces of a path lead one after the other. -/
def places (start : Place) : List (List Char) → List Place
  | [] => []
  | piece :: rest => descend start piece :: places (descend start piece) rest

/-- The pieces of the directories to create for a path: those before its last piece that says
something. -/
def parents (path : String) : List (List Char) :=
  ((pieces path.toList).filter fun piece => !isIdle piece).dropLast

/-- The pieces that a path leads through before its last one. Slashes at the end count for nothing
here. -/
def passed (path : String) : List (List Char) :=
  ((pieces path.toList).reverse.dropWhile List.isEmpty).tail.reverse

/-- The last piece of a path. It is empty where the path ends with a slash. -/
def lastPiece (path : String) : List Char := (pieces path.toList).getLastD []

/-- The greatest number of bytes of a name. -/
def maxNameBytes : Nat := 255

/-- The greatest number of bytes of a path. -/
def maxPathBytes : Nat := 4095

/-- The piece of a path has too many bytes for a name. -/
def isTooLong (piece : List Char) : Bool := maxNameBytes < (String.ofList piece).utf8ByteSize

end Path

/-! ### Saving -/

/-- A file with its contents. -/
structure OutputFile where
  path : String
  bytes : List UInt8

/-- Why a file cannot be saved. -/
inductive SaveFault
  /-- The path holds a zero character, which would end it. -/
  | zeroInPath
  | missingDirectory
  /-- The path is that of a directory. -/
  | isDirectory
  | nameTooLong
deriving DecidableEq

namespace SaveFault

/-- The kind of a fault. -/
def title : SaveFault → String
  | zeroInPath => "InvalidInput"
  | missingDirectory => "NotFound"
  | isDirectory => "IsADirectory"
  | nameTooLong => "InvalidFilename"

/-- What is said about a fault. -/
def message : SaveFault → String
  | zeroInPath => "file name contained an unexpected NUL byte"
  | missingDirectory => "No such file or directory"
  | isDirectory => "Is a directory"
  | nameTooLong => "File name too long"

/-- The number that the operating system has for a fault. A path with a zero character is refused
before the system sees it. -/
def code? : SaveFault → Option Nat
  | zeroInPath => none
  | missingDirectory => some 2
  | isDirectory => some 21
  | nameTooLong => some 36

end SaveFault

/-- What keeps the pieces of a path from leading through the directories that exist, from one of
them on. -/
def Path.obstacle? (existing : List Place) (start : Place) : List (List Char) → Option SaveFault
  | [] => none
  | piece :: rest =>
      if isTooLong piece then some .nameTooLong
      else if existing.contains (descend start piece) then
        obstacle? existing (descend start piece) rest
      else some .missingDirectory

/-- What keeps a path from being that of a file, where some directories exist. -/
def Path.fault? (existing : List Place) (path : String) : Option SaveFault :=
  match obstacle? existing [] (passed path) with
  | some fault => some fault
  | none =>
      if !isName (lastPiece path) || existing.contains (place path) then some .isDirectory
      else if isTooLong (lastPiece path) then some .nameTooLong
      else none

/-- **Save bytes under a path in an empty directory.** The directories on the way are created only
if that is asked for. The current directory exists in any case. -/
def OutputFile.save (path : String) (bytes : List UInt8) (createDirectories : Bool) :
    Except SaveFault OutputFile :=
  let created := if createDirectories then Path.parents path else []
  if path.toList.contains '\x00' then .error .zeroInPath
  else if Path.maxPathBytes < path.utf8ByteSize || created.any Path.isTooLong then
    .error .nameTooLong
  else match Path.fault? ([] :: Path.places [] created) path with
    | some fault => .error fault
    | none => .ok ⟨path, bytes⟩

end JvmCodegen
