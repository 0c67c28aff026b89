import GromListing.Image.Basic

/-!
# Checked slices

A slice taken between two places of the image, which have to be in order and within its bytes. There
is no result when they are not. This is what slices, which always have a result, are compared with.
-/

set_option autoImplicit false

namespace GromListing.Image

/-- The bytes from one place up to another, if both are in bounds and in order. -/
def between? (image : Image) (first stop : Nat) : Option (List UInt8) :=
  if first ≤ stop ∧ stop ≤ image.cells.size then some (image.cells.extract first stop).toList
  else none

/-- The bytes from `addr` up to but not including `stop`. Both addresses become the nearest places of
the image, and a stop before the start becomes the start. -/
def slice? (image : Image) (addr : UInt16) (stop : UInt32) : Option (List UInt8) :=
  let place (address : Nat) : Nat := min (address - image.origin.toNat) image.cells.size
  image.between? (place addr.toNat) (max (place stop.toNat) (place addr.toNat))

end GromListing.Image
