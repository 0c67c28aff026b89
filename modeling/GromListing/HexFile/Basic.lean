import GromListing.Fault
import GromListing.HexFile.Record

/-!
# Hex files

A hex file is a sequence of data records that fit the address space, closed by one end record.
Lines without a record may stand anywhere. Reading stops at the first line that does not fit.
-/

set_option autoImplicit false

namespace GromListing

structure HexFile where
  records : Array HexFile.Record
  ended : Bool
  deriving DecidableEq

namespace HexFile

def empty : HexFile := ⟨#[], false⟩

/-- Why a record may not follow those of the file, if it may not. -/
def refusal? (file : HexFile) (r : Record) : Option Refusal :=
  if file.ended then some .afterEnd
  else if r.kind = Record.endKind then none
  else if r.kind = Record.dataKind then
    if 0x10000 < r.stop then some (.pastTop r.address) else none
  else some (.unsupportedKind r.kind)

/-- Adds a record in place, unless it is refused. That the file has ended is marked before the
record that ends it is stored. -/
def store (r : Record) : EStateM Refusal HexFile Unit := do
  if (← get).ended then throw .afterEnd
  if r.kind = Record.endKind then modify fun file => { file with ended := true }
  else if r.kind = Record.dataKind then
    if 0x10000 < r.stop then throw (.pastTop r.address)
  else throw (.unsupportedKind r.kind)
  modify fun file => { file with records := file.records.push r }

def add (file : HexFile) (r : Record) : Except Refusal HexFile :=
  match store r file with
  | .ok _ next => .ok next
  | .error why _ => .error why

def addLine (file : HexFile) (line : String) : Except LineFault HexFile :=
  match Reading.ofLine line with
  | .blank => .ok file
  | .malformed => .error .malformed
  | .record r => (file.add r).mapError .refused

/-- Adds what the lines hold, the first of which has the given number. -/
def addLines (file : HexFile) (number : Nat) : List String → Except Fault HexFile
  | [] => .ok file
  | line :: rest =>
    match file.addLine line with
    | .ok file => file.addLines (number + 1) rest
    | .error cause => .error (.hexLine number cause)

def ofLines (lines : List String) : Except Fault HexFile :=
  match empty.addLines 1 lines with
  | .ok file => if file.ended then .ok file else .error .endRecordMissing
  | .error fault => .error fault

def dataRecords (file : HexFile) : List Record := file.records.toList.filter (·.isData)

end HexFile

end GromListing
