import GromListing.Image.Range
import GromListing.Proofs.Image.Extent

/-!
# Slices are ranges

`slice_eq_range`: a slice holds the bytes in a range of addresses, wherever the range lies. Ranges
themselves are cut and counted like the addresses in them (`range_append`, `length_range`).
-/

set_option autoImplicit false

namespace GromListing.Image

variable {image : Image} {first mid stop : Nat}

theorem Fits.stop_eq (h : image.Fits) :
    image.stop.toNat = image.origin.toNat + image.bytes.length := by
  have h : image.extent.origin.toNat + image.extent.size ≤ 0x10000 := h
  have htop : 0x10000 < UInt32.size := by decide
  exact image.extent.toNat_stop.trans (Nat.mod_eq_of_lt (Nat.lt_of_le_of_lt h htop))

theorem ofBytes_of_fits {origin : UInt16} {bytes : List UInt8}
    (h : Fits ⟨origin, bytes.toArray⟩) : ofBytes origin bytes = .ok ⟨origin, bytes.toArray⟩ := by
  have h : origin.toNat + bytes.length ≤ 0x10000 := h
  have hmod := Nat.mod_le (origin.toNat + bytes.length) UInt32.size
  exact ofBytes_eq_ok_iff.2 ⟨by omega, rfl⟩

/-! ## Ranges -/

theorem range_of_le (image : Image) (h : stop ≤ first) : image.range first stop = [] := by
  simp [range, Nat.sub_eq_zero_of_le h]

theorem range_cons (image : Image) (h : first < stop) :
    image.range first stop = (image.byteAt? first).toList ++ image.range (first + 1) stop := by
  obtain ⟨n, hn⟩ : ∃ n, stop - first = n + 1 := ⟨stop - first - 1, by omega⟩
  have hn' : stop - (first + 1) = n := by omega
  rw [range, range, hn, hn', List.range'_succ, List.filterMap_cons]
  cases image.byteAt? first <;> rfl

/-- The bytes of a range are those of the image between two places. -/
theorem range_eq_drop_take (image : Image) (first stop : Nat) :
    image.range first stop =
      (image.bytes.take (stop - image.origin.toNat)).drop (first - image.origin.toNat) := by
  by_cases h : first < stop
  · rw [range_cons image h, range_eq_drop_take image (first + 1) stop, byteAt?]
    split
    · rename_i ho
      have hi : first - image.origin.toNat < stop - image.origin.toNat := by omega
      have hs : first + 1 - image.origin.toNat = first - image.origin.toNat + 1 := by omega
      rw [hs, List.drop_eq_getElem?_toList_append (i := first - image.origin.toNat),
        List.getElem?_take_of_lt hi]
    · -- the image has nothing before its origin
      have h₁ : first - image.origin.toNat = 0 := by omega
      have h₂ : first + 1 - image.origin.toNat = 0 := by omega
      rw [h₁, h₂]
      rfl
  · rw [range_of_le image (by omega), List.drop_eq_nil_of_le]
    rw [List.length_take]
    omega
termination_by stop - first

theorem range_append (image : Image) (h₁ : first ≤ mid) (h₂ : mid ≤ stop) :
    image.range first mid ++ image.range mid stop = image.range first stop := by
  have hmid : first + 1 * (mid - first) = mid := by omega
  have hlen : mid - first + (stop - mid) = stop - first := by omega
  rw [range, range, range, ← List.filterMap_append, ← hlen, ← List.range'_append, hmid]

theorem length_range (h₁ : image.origin.toNat ≤ first)
    (h₂ : stop ≤ image.origin.toNat + image.bytes.length) :
    (image.range first stop).length = stop - first := by
  rw [range_eq_drop_take, List.length_drop, List.length_take]
  omega

theorem take_range (h : image.origin.toNat ≤ first) (stop size : Nat) :
    (image.range first stop).take size = image.range first (min stop (first + size)) := by
  have hs : min stop (first + size) - image.origin.toNat =
      min (first - image.origin.toNat + size) (stop - image.origin.toNat) := by omega
  rw [range_eq_drop_take, range_eq_drop_take, hs, List.take_drop, List.take_take]

theorem drop_range (h : image.origin.toNat ≤ first) (stop size : Nat) :
    (image.range first stop).drop size = image.range (first + size) stop := by
  have hs : first + size - image.origin.toNat = first - image.origin.toNat + size := by omega
  rw [range_eq_drop_take, range_eq_drop_take, hs, List.drop_drop]

theorem Fits.range_whole (h : image.Fits) :
    image.range image.origin.toNat image.stop.toNat = image.bytes := by
  rw [range_eq_drop_take, h.stop_eq, Nat.sub_self, List.drop_zero, Nat.add_sub_cancel_left,
    List.take_length]

/-! ## Slices -/

/-- **A slice is a range**, for every image and all bounds. -/
theorem slice_eq_range (image : Image) (addr : UInt16) (stop : UInt32) :
    image.slice addr stop = image.range addr.toNat stop.toNat := by
  have hsize : image.cells.size = image.bytes.length := rfl
  simp only [slice, range_eq_drop_take, Array.toList_extract, List.extract_eq_take_drop, hsize,
    List.drop_take]
  change ((image.bytes.drop _).take _) = _
  by_cases h : addr.toNat - image.origin.toNat ≤ image.bytes.length
  · rw [Nat.min_eq_left h, List.take_eq_take_iff, List.length_drop]
    omega
  · have hmin : min (addr.toNat - image.origin.toNat) image.bytes.length = image.bytes.length := by
      omega
    rw [hmin, List.drop_length, List.drop_eq_nil_of_le (by omega), List.take_nil, List.take_nil]

end GromListing.Image
