import GromListing.Instruction.Basic

/-!
# Lines of a listing

A line shows one instruction, or one byte that is listed as data. On request it shows the bytes
too, between the address and the mnemonic.
-/

set_option autoImplicit false

namespace GromListing.Listing

inductive Line
  | code (inst : Instruction)
  | data (addr : UInt16) (byte : UInt8)
  deriving DecidableEq

namespace Line

def addr : Line → UInt16
  | .code inst => inst.addr
  | .data addr _ => addr

/-- The bytes that the line accounts for. -/
def bytes : Line → List UInt8
  | .code inst => inst.bytes
  | .data _ byte => [byte]

def isData : Line → Bool
  | .code _ => false
  | .data .. => true

/-- The text without the address. -/
def body : Line → String
  | .code inst => inst.body
  | .data _ byte => Instruction.columns "BYTE" (">" ++ Hex.byte byte)

def text (line : Line) : String := Hex.word line.addr ++ "  " ++ line.body

/-- The width of the column that shows bytes: eight pairs and the blanks between them. -/
def bytesWidth : Nat := 23

/-- The bytes as pairs of digits, in their column. -/
def bytesText (line : Line) : String :=
  Text.padRight bytesWidth (" ".intercalate (line.bytes.map Hex.byte))

def render (showBytes : Bool) (line : Line) : String :=
  if showBytes then Hex.word line.addr ++ "  " ++ line.bytesText ++ "  " ++ line.body
  else line.text

end Line

end GromListing.Listing
