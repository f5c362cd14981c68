import FrameLisp.Eval.Error

/-!
# Files

What a session can load: the bytes behind each path, or why they cannot be read. A directory of
files is one way to say that; paths are then relative to it.
-/
namespace FrameLisp

/-- The content of the file at each path. -/
abbrev Files := String → Except FileFault (List UInt8)

inductive DirectoryEntry where
  | file (bytes : List UInt8)
  | directory

/-- What a directory holds, by the paths from it. What lies on the way to an entry are directories
too. -/
abbrev Directory := List (String × DirectoryEntry)

namespace Directory

/-- Whether a part of a path leads from a directory to a directory without naming one. -/
def isStep (part : String) : Bool := part == "" || part == "." || part == ".."

/-- The names on the way to an entry, its own name first. -/
def namesOf (path : String) : List String :=
  ((path.splitOn "/").filter fun part => !isStep part).reverse

def entry? (d : Directory) (names : List String) : Option DirectoryEntry :=
  match d.find? fun e => namesOf e.1 == names with
  | some e => some e.2
  | none => if d.any fun e => names.isSuffixOf (namesOf e.1) then some .directory else none

/-- The most bytes that a name can have. -/
def longestName : Nat := 255

/-- The most bytes that a path can have. -/
def longestPath : Nat := 4095

/-- Follows the parts of a path above the outermost directory, where directories have unknown
entries. -/
def walkOutside (parts : List String) : Except FileFault (List UInt8) :=
  match parts.find? fun part => !isStep part with
  | none => .error .isDirectory
  | some name => .error (if longestName < name.utf8ByteSize then .invalidName else .notFound)

/-- Follows the parts of a path. `inside` holds the names of the directories below the outermost
one, the innermost first. -/
def walk (d : Directory) (inside : List String) : List String → Except FileFault (List UInt8)
  | [] => .error .isDirectory
  | part :: parts =>
    if part = "" ∨ part = "." then walk d inside parts
    else if part = ".." then
      match inside with
      | [] => walkOutside parts
      | _ :: inside => walk d inside parts
    else if longestName < part.utf8ByteSize then .error .invalidName
    else
      match d.entry? (part :: inside) with
      | some (.file bytes) => if parts.isEmpty then .ok bytes else .error .notDirectory
      | some .directory => walk d (part :: inside) parts
      | none => .error .notFound

def files (d : Directory) : Files := fun path =>
  if path.contains '\x00' then .error .invalidPath
  else if path = "" then .error .notFound
  else if longestPath < path.utf8ByteSize then .error .invalidName
  else if path.front = '/' then walkOutside (path.splitOn "/")
  else d.walk [] (path.splitOn "/")

end Directory

end FrameLisp
