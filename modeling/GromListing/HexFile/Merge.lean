import GromListing.HexFile.Basic
import GromListing.Image.Basic
import GromListing.Notice

/-!
# Merging

The image of a hex file spans its data records. Where records overlap the last one stays, where
none writes the byte is zero, and both are warned of.
-/

set_option autoImplicit false

namespace GromListing.HexFile

/-- A range of addresses under the records written to it. -/
structure Overlay where
  cells : Array (Option UInt8)
  /-- How many writes fell on a byte written before. -/
  overwritten : Nat
  deriving DecidableEq

namespace Overlay

def blank (size : Nat) : Overlay := ⟨Array.replicate size none, 0⟩

def put (overlay : Overlay) (index : Nat) (byte : UInt8) : Overlay :=
  match overlay with
  | ⟨cells, overwritten⟩ =>
    if cells[index]?.join.isSome then ⟨cells.setIfInBounds index (some byte), overwritten + 1⟩
    else ⟨cells.setIfInBounds index (some byte), overwritten⟩

/-- Writes bytes one after another, the first at `index`. -/
def write (overlay : Overlay) (index : Nat) : List UInt8 → Overlay
  | [] => overlay
  | byte :: rest => (overlay.put index byte).write (index + 1) rest

def unset (overlay : Overlay) : Nat := overlay.cells.count none

/-- The bytes of the range, zero where no record wrote. -/
def bytes (overlay : Overlay) : List UInt8 := overlay.cells.toList.map (·.getD 0)

end Overlay

/-- The records laid over the range of `size` bytes from `origin`, one after another. -/
def layOut (records : List Record) (origin size : Nat) : Overlay :=
  records.foldl (fun overlay r => overlay.write (r.address.toNat - origin) r.data) (.blank size)

def lowest? (file : HexFile) : Option Nat := (file.dataRecords.map (·.address.toNat)).min?

/-- The address after the last of all data records. -/
def stop? (file : HexFile) : Option Nat := (file.dataRecords.map (·.stop)).max?

/-- What is to be said of an overlay of the addresses from `origin` up to `stop`. -/
def Overlay.notices (overlay : Overlay) (origin stop : Nat) : List Notice :=
  (if 0 < overlay.overwritten then [.overlap overlay.overwritten] else []) ++
    if 0 < overlay.unset then [.gap overlay.unset origin.toUInt16 (stop - 1).toUInt16] else []

def image (file : HexFile) : Logged Image :=
  match file.lowest?, file.stop? with
  | some origin, some stop =>
    let overlay := layOut file.dataRecords origin (stop - origin)
    ⟨overlay.notices origin stop, Image.ofBytes origin.toUInt16 overlay.bytes⟩
  | _, _ => .fail .noData

end GromListing.HexFile
