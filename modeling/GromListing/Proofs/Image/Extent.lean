import GromListing.Image.Basic

/-!
# How far an image reaches

An extent ends where its origin and size add up to, as far as 32 bits can tell (`toNat_stop`). So an
image is made just when this sum, reduced in the same way, is within the address space
(`ofBytes_eq_ok_iff`), and has the addresses below it (`contains_iff`). With a sum that is checked
for overflow (`Extent.stop?`) the image is the same, where there is a sum (`ofBytes?_eq`).
-/

set_option autoImplicit false

namespace GromListing

namespace Extent

/-- The end of an extent, if 32 bits can hold it. The size is counted in as many. -/
def stop? (extent : Extent) : Option UInt32 :=
  if extent.origin.toNat + extent.size.toUInt32.toNat < UInt32.size then some extent.stop else none

theorem toNat_stop (extent : Extent) :
    extent.stop.toNat = (extent.origin.toNat + extent.size) % UInt32.size := by
  have horigin : extent.origin.toUInt32.toNat = extent.origin.toNat := UInt16.toNat_toUInt32 _
  have hsize : extent.size.toUInt32.toNat = extent.size % UInt32.size := UInt32.toNat_ofNat' ..
  rw [stop, UInt32.toNat_add, horigin, hsize]
  exact Nat.add_mod_mod ..

theorem contains_iff {extent : Extent} {addr : UInt32} :
    extent.contains addr = true ↔
      extent.origin.toNat ≤ addr.toNat ∧ addr.toNat < extent.stop.toNat := by
  simp only [contains, Bool.and_eq_true, decide_eq_true_eq, UInt32.le_iff_toNat_le,
    UInt32.lt_iff_toNat_lt, UInt16.toNat_toUInt32]

theorem fault?_eq_none_iff {extent : Extent} :
    extent.fault? = none ↔ extent.stop.toNat ≤ 0x10000 := by
  have htop : (0x10000 : UInt32).toNat = 0x10000 := by decide
  simp only [fault?, ite_eq_right_iff, reduceCtorEq, imp_false, UInt32.not_lt,
    UInt32.le_iff_toNat_le, htop]

end Extent

namespace Image

variable {image : Image} {origin : UInt16} {bytes : List UInt8}

theorem ofBytes_eq_ok_iff : ofBytes origin bytes = .ok image ↔
    (origin.toNat + bytes.length) % UInt32.size ≤ 0x10000 ∧ image = ⟨origin, bytes.toArray⟩ := by
  rw [← Extent.toNat_stop ⟨origin, bytes.length⟩, ← Extent.fault?_eq_none_iff, ofBytes]
  cases Extent.fault? ⟨origin, bytes.length⟩ with
  | none => simp [eq_comm]
  | some fault => simp

/-- The image of the bytes at `origin`, as a build makes it that checks its sums for overflow. There
is no result where one does. -/
def ofBytes? (origin : UInt16) (bytes : List UInt8) : Option (Except Fault Image) := do
  let stop ← Extent.stop? ⟨origin, bytes.length⟩
  if 0x10000 < stop then return .error (.imageTooLarge bytes.length origin)
  return .ok ⟨origin, bytes.toArray⟩

theorem ofBytes?_eq (origin : UInt16) (bytes : List UInt8) :
    ofBytes? origin bytes =
      if origin.toNat + bytes.length % UInt32.size < UInt32.size then some (ofBytes origin bytes)
      else none := by
  have hsize : bytes.length.toUInt32.toNat = bytes.length % UInt32.size := UInt32.toNat_ofNat' ..
  rw [ofBytes?, Extent.stop?, hsize, ofBytes, Extent.fault?]
  by_cases hsum : origin.toNat + bytes.length % UInt32.size < UInt32.size
  · rw [if_pos hsum, if_pos hsum]
    by_cases hstop : 0x10000 < (Extent.mk origin bytes.length).stop
    · simp [hstop]
    · simp [hstop]
  · rw [if_neg hsum, if_neg hsum]
    rfl

end Image

end GromListing
