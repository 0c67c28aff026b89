import GromListing.Image.Basic

/-!
# Ranges of addresses

Which byte an image has at an address, and the bytes that it has in a range of addresses. Slices are
compared with these.
-/

set_option autoImplicit false

namespace GromListing.Image

/-- The image ends within the address space. -/
def Fits (image : Image) : Prop := image.origin.toNat + image.bytes.length ≤ 0x10000

instance (image : Image) : Decidable image.Fits := Nat.decLe ..

/-- The byte at an address, if the image has one there. -/
def byteAt? (image : Image) (addr : Nat) : Option UInt8 :=
  if image.origin.toNat ≤ addr then image.bytes[addr - image.origin.toNat]? else none

/-- The bytes at the addresses from `first` up to but not including `stop`, in that order. -/
def range (image : Image) (first stop : Nat) : List UInt8 :=
  (List.range' first (stop - first)).filterMap image.byteAt?

end GromListing.Image
