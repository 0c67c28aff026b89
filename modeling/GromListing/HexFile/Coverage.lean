import GromListing.HexFile.Basic

/-!
# Coverage

Which addresses records write, and what the last of them writes there. This is what a merged image
is compared with.
-/

set_option autoImplicit false

namespace GromListing.HexFile

/-- The byte that a record writes at an address, if it writes one. -/
def Record.byteAt? (r : Record) (address : Nat) : Option UInt8 :=
  if r.address.toNat ≤ address then r.data[address - r.address.toNat]? else none

/-- The byte that the last of the records to write at an address writes there. -/
def lastByteAt? (records : List Record) (address : Nat) : Option UInt8 :=
  records.reverse.findSome? (·.byteAt? address)

/-- How many of the records write at an address. -/
def writersAt (records : List Record) (address : Nat) : Nat :=
  records.countP fun r => (r.byteAt? address).isSome

end GromListing.HexFile
