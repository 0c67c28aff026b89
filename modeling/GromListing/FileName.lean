/-!
# File names

Names are parts between slashes. The extension of the last part tells what a file holds.
-/

set_option autoImplicit false

namespace GromListing.FileName

def parts (name : String) : List String := (name.toList.splitOn '/').map String.ofList

/-- The most bytes that a name can have. -/
def maxSize : Nat := 4095

def maxPartSize : Nat := 255

def isAbsolute (name : String) : Bool := name.toList.head? == some '/'

/-- A name as seen from a directory. The empty name is the directory itself. -/
def within (directory name : String) : String :=
  if isAbsolute name then name else directory ++ "/" ++ name

/-- The text after the last dot of the last part, not counting parts that stay in place. A part
that only begins with a dot has no extension, nor has the parent directory. -/
def extension? (name : String) : Option String := do
  let part ← ((parts name).filter fun part => part != "" && part != ".").getLast?
  let reversed := part.toList.reverse
  match reversed.dropWhile (· != '.') with
  | '.' :: stem =>
    if stem.isEmpty || part == ".." then none
    else some (String.ofList (reversed.takeWhile (· != '.')).reverse)
  | _ => none

/-- Whether the extension is `hex`, in either case. -/
def isHex (name : String) : Bool :=
  match extension? name with
  | some extension => extension.toList.map Char.toLower == ['h', 'e', 'x']
  | none => false

end GromListing.FileName
