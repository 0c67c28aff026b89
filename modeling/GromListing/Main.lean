import GromListing.Session

/-!
# The program

Reads the arguments and the file that they name, and prints what the session leaves behind.
-/

set_option autoImplicit false

namespace GromListing

/-- The cause of a failed read. A path through something that is not a directory fails as it is
opened, and the error names the path; a directory opens, and fails as it is read. -/
def FileFault.ofError : IO.Error → FileFault
  | .noFileOrDirectory .. => .notFound
  | .inappropriateType none .. => .isDirectory
  | .inappropriateType (some _) .. => .notDirectory
  | .invalidArgument (some _) _ "name too long" => .nameTooLong
  | error => .other (toString error)

def readFile (name : String) : IO (Except FileFault (List UInt8)) := do
  try
    let bytes ← IO.FS.readBinFile name
    return .ok bytes.toList
  catch error =>
    return .error (.ofError error)

end GromListing

def main (arguments : List String) : IO UInt32 := do
  let request := GromListing.CommandLine.request arguments
  let output ← GromListing.Session.answer GromListing.readFile request
  IO.print output.stdout
  IO.eprint output.stderr
  return output.exitCode
