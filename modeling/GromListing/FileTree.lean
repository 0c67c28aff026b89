import GromListing.Fault
import GromListing.FileName

/-!
# File trees

A tree of directories held in memory, and the files that names denote in it.
-/

set_option autoImplicit false

namespace GromListing

/-- A file, or a directory of named entries. -/
inductive FileTree
  | file (bytes : List UInt8)
  | directory (entries : List (String × FileTree))

namespace FileTree

/-- Follows the parts of a name from `tree`, whose ancestors are `above`, nearest first. The root
is its own parent. What is wrong with the earliest part decides, and only a directory is asked for
the next part. -/
def walk (above : List FileTree) (tree : FileTree) : List String → Except FileFault FileTree
  | [] => .ok tree
  | part :: rest =>
    match tree with
    | .file _ => .error .notDirectory
    | .directory entries =>
      if part = "" ∨ part = "." then walk above tree rest
      else if part = ".." then
        match above with
        | [] => walk [] tree rest
        | parent :: above => walk above parent rest
      else if FileName.maxPartSize < part.utf8ByteSize then .error .nameTooLong
      else
        match entries.lookup part with
        | some entry => walk (tree :: above) entry rest
        | none => .error .notFound

/-- The entry that a name denotes below `root`, for a program that works in the directory with the
parts `working`. The empty name denotes nothing. -/
def find (root : FileTree) (working : List String) (name : String) : Except FileFault FileTree :=
  if '\x00' ∈ name.toList then .error .nameHasNul
  else if FileName.maxSize < name.utf8ByteSize then .error .nameTooLong
  else if name = "" then .error .notFound
  else if FileName.isAbsolute name then walk [] root (FileName.parts name)
  else walk [] root (working ++ FileName.parts name)

def read (root : FileTree) (working : List String) (name : String) :
    Except FileFault (List UInt8) :=
  match root.find working name with
  | .ok (.file bytes) => .ok bytes
  | .ok (.directory _) => .error .isDirectory
  | .error fault => .error fault

end FileTree

end GromListing
