import GromListing.Text.Hex
import GromListing.Text.Style

/-!
# Faults

Everything that can go wrong, as causes. `Fault.report` gives each cause its kind and its words;
`Report.display` and `Report.debug` are the two ways in which a report is printed.
-/

set_option autoImplicit false

namespace GromListing

/-- An instruction at `addr` needs its byte number `needed` where only `supplied` are there. -/
structure Truncation where
  addr : UInt16
  needed : Nat
  supplied : Nat
  deriving DecidableEq

/-- Why a record may not join a hex file. -/
inductive Refusal
  | afterEnd
  /-- Neither a data record nor an end record. -/
  | unsupportedKind (kind : UInt8)
  /-- A data record at `addr` that leaves the address space. -/
  | pastTop (addr : UInt16)
  deriving DecidableEq

/-- What is wrong with a line of a hex file. -/
inductive LineFault
  /-- The record on it has a wrong size or checksum. -/
  | malformed
  | refused (why : Refusal)
  deriving DecidableEq

inductive FileFault
  | notFound
  | isDirectory
  | notDirectory
  | notText
  /-- The name, or one of its parts, is longer than a file system takes. -/
  | nameTooLong
  /-- The name holds the character that ends names. -/
  | nameHasNul
  /-- Any other cause, in the system's words. -/
  | other (message : String)
  deriving DecidableEq

inductive Fault
  | truncated (cause : Truncation)
  | file (cause : FileFault)
  /-- Lines are numbered from one. -/
  | hexLine (line : Nat) (cause : LineFault)
  | refused (cause : Refusal)
  | endRecordMissing
  | noData
  | imageTooLarge (size : Nat) (origin : UInt16)
  /-- The image has the addresses from `first` to `last`. -/
  | startOutside (start first last : UInt16)
  deriving DecidableEq

inductive Fault.Kind
  | truncated
  | io
  | hexFormat
  | general
  deriving DecidableEq

/-- A fault as it is told: its kind, the address of the instruction concerned, and its text. -/
structure Report where
  kind : Fault.Kind
  addr : Option UInt16
  message : String
  deriving DecidableEq

/-- The text, followed by the instruction's address where there is one. -/
def Report.display (r : Report) : String :=
  match r.addr with
  | some addr => r.message ++ " (instruction at >" ++ Hex.word addr ++ ")"
  | none => r.message

/-- The text behind a coloured heading, without the address. -/
def Report.debug (r : Report) : String :=
  Text.red "gpl::Error" ++ ": " ++ r.message

def Truncation.message (t : Truncation) : String :=
  Text.red "Truncated Instruction" ++ " byte " ++ toString t.needed ++
    " needed but only " ++ toString t.supplied ++ " supplied"

def Refusal.message : Refusal → String
  | .afterEnd => "records after EOF in hex file"
  | .unsupportedKind kind => "unsupported record type " ++ Hex.byte kind
  | .pastTop addr => "record at " ++ Hex.word addr ++ " runs past FFFF"

def LineFault.message : LineFault → String
  | .malformed => "bad record or checksum"
  | .refused why => why.message

def FileFault.message : FileFault → String
  | .notFound => "No such file or directory (os error 2)"
  | .isDirectory => "Is a directory (os error 21)"
  | .notDirectory => "Not a directory (os error 20)"
  | .notText => "stream did not contain valid UTF-8"
  | .nameTooLong => "File name too long (os error 36)"
  | .nameHasNul => "file name contained an unexpected NUL byte"
  | .other message => message

/-- The report of a truncated instruction, the only one that names an instruction. -/
def Truncation.report (t : Truncation) : Report := ⟨.truncated, some t.addr, t.message⟩

def Fault.report : Fault → Report
  | .truncated t => t.report
  | .file cause => ⟨.io, none, cause.message⟩
  | .hexLine line cause =>
    ⟨.hexFormat, none,
      Text.red "Hex Error" ++ ", line " ++ toString line ++ ": " ++ cause.message⟩
  | .refused cause => ⟨.general, none, cause.message⟩
  | .endRecordMissing => ⟨.general, none, "EOF record not found in hex file"⟩
  | .noData => ⟨.general, none, "hex file contains no data"⟩
  | .imageTooLarge size origin =>
    ⟨.general, none,
      toString size ++ " byte image at " ++ Hex.word origin ++ " runs past FFFF"⟩
  | .startOutside start first last =>
    ⟨.general, none,
      "start address " ++ Hex.word start ++ " is outside the image (" ++ Hex.word first ++ "-" ++
        Hex.word last ++ ")"⟩

end GromListing
