import GromListing.Fault

/-!
# Images

A run of bytes that begins at an address and ends within the address space. Where it ends depends on
its extent alone, and can be told before the bytes are at hand.
-/

set_option autoImplicit false

namespace GromListing

/-- Where a run of bytes begins, and how many there are. -/
structure Extent where
  origin : UInt16
  size : Nat
  deriving DecidableEq

namespace Extent

/-- The address after the last byte, which may be one past the largest word. The size is counted in
32 bits and the sum wraps, where a build that checks for overflow would not come to an end. -/
def stop (extent : Extent) : UInt32 := extent.origin.toUInt32 + extent.size.toUInt32

def contains (extent : Extent) (addr : UInt32) : Bool :=
  extent.origin.toUInt32 ≤ addr && addr < extent.stop

/-- What speaks against an image of this extent: it runs past the top of the address space. -/
def fault? (extent : Extent) : Option Fault :=
  if 0x10000 < extent.stop then some (.imageTooLarge extent.size extent.origin) else none

end Extent

structure Image where
  origin : UInt16
  /-- The bytes, held so that any of them can be reached at once. -/
  cells : Array UInt8
  deriving DecidableEq

namespace Image

def bytes (image : Image) : List UInt8 := image.cells.toList

def extent (image : Image) : Extent := ⟨image.origin, image.cells.size⟩

/-- The address after the last byte. -/
def stop (image : Image) : UInt32 := image.extent.stop

/-- The address before the image's end, which is that of its last byte if it has one. -/
def last (image : Image) : UInt16 := (image.stop.toNat - 1).toUInt16

/-- The image of the bytes at `origin`, unless it runs past the top of the address space. -/
def ofBytes (origin : UInt16) (bytes : List UInt8) : Except Fault Image :=
  match Extent.fault? ⟨origin, bytes.length⟩ with
  | some fault => .error fault
  | none => .ok ⟨origin, bytes.toArray⟩

def contains (image : Image) (addr : UInt32) : Bool := image.extent.contains addr

/-- The bytes from `addr` up to but not including `stop`, as far as the image has them. -/
def slice (image : Image) (addr : UInt16) (stop : UInt32) : List UInt8 :=
  let clamp (address : Nat) : Nat := min (address - image.origin.toNat) image.cells.size
  (image.cells.extract (clamp addr.toNat) (clamp stop.toNat)).toList

end Image

end GromListing
