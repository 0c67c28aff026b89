import GromListing.HexFile.Merge

/-!
# Checked merging

Merging where nothing is cut off: a number is only taken from one that is not smaller, and bytes are
only written where all of them have room. There is no result when one of these checks fails. This is
what merging, which always has a result, is compared with.
-/

set_option autoImplicit false

namespace GromListing.HexFile

/-- The difference of two numbers, unless it is below zero. -/
def difference? (a b : Nat) : Option Nat := if b ≤ a then some (a - b) else none

namespace Overlay

/-- Writes bytes one after another, the first at `index`, if they end within the range. -/
def write? (overlay : Overlay) (index : Nat) (bytes : List UInt8) : Option Overlay :=
  if index + bytes.length ≤ overlay.cells.size then some (overlay.write index bytes) else none

/-- Writes the data of a record to the range that begins at `origin`. -/
def writeRecord? (origin : Nat) (overlay : Overlay) (r : Record) : Option Overlay := do
  let index ← difference? r.address.toNat origin
  overlay.write? index r.data

/-- The notices of an overlay. The last address of the range is asked for only with a gap. -/
def notices? (overlay : Overlay) (origin stop : Nat) : Option (List Notice) := do
  let overlap := if 0 < overlay.overwritten then [Notice.overlap overlay.overwritten] else []
  if 0 < overlay.unset then
    let last ← difference? stop 1
    return overlap ++ [.gap overlay.unset origin.toUInt16 last.toUInt16]
  else
    return overlap

end Overlay

def layOut? (records : List Record) (origin size : Nat) : Option Overlay :=
  records.foldlM (Overlay.writeRecord? origin) (.blank size)

def image? (file : HexFile) : Option (Logged Image) :=
  match file.lowest?, file.stop? with
  | some origin, some stop => do
    let size ← difference? stop origin
    let overlay ← layOut? file.dataRecords origin size
    let notices ← overlay.notices? origin stop
    return ⟨notices, Image.ofBytes origin.toUInt16 overlay.bytes⟩
  | _, _ => some (.fail .noData)

end GromListing.HexFile
