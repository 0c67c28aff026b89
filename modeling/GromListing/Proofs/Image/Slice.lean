import GromListing.Image.CheckedSlice
import GromListing.Proofs.Image.Range

/-!
# Slices and addresses

* `slice?_eq`: no slice leaves the bytes of its image, whatever its bounds.
* `Fits.contains_iff`: an image that fits the address space contains the addresses that it has bytes
  at. So `addresses`, those of a range with a byte, are the ones that both the range and the image
  have (`mem_addresses_iff`), and the bytes there are the slice (`map_some_slice`).
* `slice_intersection`: all of this, and where a slice may be cut in two.
-/

set_option autoImplicit false

namespace GromListing.Image

variable {image : Image} {addr : UInt16} {stop : UInt32}

theorem between?_eq_some {first stop : Nat} (h₁ : first ≤ stop) (h₂ : stop ≤ image.cells.size) :
    image.between? first stop = some (image.cells.extract first stop).toList :=
  if_pos ⟨h₁, h₂⟩

theorem slice?_eq (image : Image) (addr : UInt16) (stop : UInt32) :
    image.slice? addr stop = some (image.slice addr stop) := by
  have hle (address : Nat) : min (address - image.origin.toNat) image.cells.size ≤
      image.cells.size := Nat.min_le_right ..
  rw [slice?, between?_eq_some (Nat.le_max_right ..) (Nat.max_le.2 ⟨hle _, hle _⟩), slice]
  -- where the stop was moved to the start, both are empty
  simp only [Array.toList_extract, List.extract_eq_take_drop]
  congr 2
  omega

/-! ## Addresses -/

theorem isSome_byteAt?_iff {address : Nat} : (image.byteAt? address).isSome = true ↔
    image.origin.toNat ≤ address ∧ address < image.origin.toNat + image.bytes.length := by
  rw [byteAt?]
  split
  · rw [isSome_getElem?]
    omega
  · simp only [Option.isSome_none, Bool.false_eq_true, false_iff]
    omega

theorem Fits.contains_iff (h : image.Fits) {address : UInt32} :
    image.contains address = true ↔ (image.byteAt? address.toNat).isSome = true := by
  have hstop : image.extent.stop.toNat = image.origin.toNat + image.bytes.length := h.stop_eq
  rw [contains, Extent.contains_iff, hstop, isSome_byteAt?_iff]
  rfl

/-- The addresses from `addr` up to but not including `stop` that have a byte, in that order. -/
def addresses (image : Image) (addr : UInt16) (stop : UInt32) : List UInt32 :=
  ((List.range' addr.toNat (stop.toNat - addr.toNat)).filter fun address =>
    (image.byteAt? address).isSome).map UInt32.ofNat

theorem lt_size_of_mem_range' {address : Nat}
    (h : address ∈ List.range' addr.toNat (stop.toNat - addr.toNat)) :
    address < UInt32.size := by
  have hstop : stop.toNat < UInt32.size := stop.toNat_lt_size
  have hmem := List.mem_range'_1.1 h
  omega

theorem pairwise_addresses (image : Image) (addr : UInt16) (stop : UInt32) :
    (image.addresses addr stop).Pairwise (· < ·) := by
  have hrange := (List.pairwise_lt_range' (s := addr.toNat) (n := stop.toNat - addr.toNat) 1).filter
    fun address => (image.byteAt? address).isSome
  refine List.pairwise_map.2 (hrange.imp_of_mem fun ha hb hlt => ?_)
  have ha' := lt_size_of_mem_range' (List.mem_filter.1 ha |>.1)
  have hb' := lt_size_of_mem_range' (List.mem_filter.1 hb |>.1)
  exact (UInt32.ofNat_lt_iff_lt ha' hb').2 hlt

theorem mem_addresses_iff {address : UInt32} : address ∈ image.addresses addr stop ↔
    (image.byteAt? address.toNat).isSome = true ∧ addr.toUInt32 ≤ address ∧ address < stop := by
  rw [addresses, List.mem_map, UInt32.le_iff_toNat_le, UInt32.lt_iff_toNat_lt,
    UInt16.toNat_toUInt32]
  constructor
  · rintro ⟨n, hn, rfl⟩
    obtain ⟨hmem, hsome⟩ := List.mem_filter.1 hn
    rw [UInt32.toNat_ofNat_of_lt' (lt_size_of_mem_range' hmem)]
    have hrange := List.mem_range'_1.1 hmem
    exact ⟨hsome, by omega, by omega⟩
  · rintro ⟨hsome, hlow, hhigh⟩
    refine ⟨address.toNat, List.mem_filter.2 ⟨List.mem_range'_1.2 ?_, hsome⟩, UInt32.ofNat_toNat⟩
    omega

theorem map_some_slice (image : Image) (addr : UInt16) (stop : UInt32) :
    (image.slice addr stop).map some =
      (image.addresses addr stop).map fun address => image.byteAt? address.toNat := by
  rw [slice_eq_range, range, addresses, List.map_filterMap_some_eq_filter_map_isSome,
    List.filter_map, List.map_map]
  refine List.map_congr_left fun address hmem => ?_
  have hlt := lt_size_of_mem_range' (List.mem_filter.1 hmem |>.1)
  rw [Function.comp_apply, UInt32.toNat_ofNat_of_lt' hlt]

/-- **A slice is the intersection of two ranges of addresses**, that of the image and the one asked
for. It stays within the bytes of the image, for all bounds. It has the bytes at those addresses
that the image contains from `addr` up to but not including `stop`, in increasing order; and a slice
up to an address between them and one from there make up the whole. -/
theorem slice_intersection (image : Image) (h : image.Fits) (addr : UInt16) (stop : UInt32) :
    image.slice? addr stop = some (image.slice addr stop) ∧
    (∃ addresses : List UInt32, addresses.Pairwise (· < ·) ∧
      (∀ address, address ∈ addresses ↔
        image.contains address = true ∧ addr.toUInt32 ≤ address ∧ address < stop) ∧
      (image.slice addr stop).map some =
        addresses.map fun address => image.byteAt? address.toNat) ∧
    ∀ mid : UInt16, addr ≤ mid → mid.toUInt32 ≤ stop →
      image.slice addr stop = image.slice addr mid.toUInt32 ++ image.slice mid stop := by
  refine ⟨slice?_eq .., ⟨image.addresses addr stop, pairwise_addresses .., fun address => ?_,
    map_some_slice ..⟩, fun mid hlow hhigh => ?_⟩
  · rw [mem_addresses_iff, h.contains_iff]
  · rw [UInt32.le_iff_toNat_le, UInt16.toNat_toUInt32] at hhigh
    rw [slice_eq_range, slice_eq_range, slice_eq_range, UInt16.toNat_toUInt32,
      range_append image (UInt16.le_iff_toNat_le.1 hlow) hhigh]

/-- From inside an image past its end, cut at the address of its last byte; and a stop before the
start. -/
theorem slice_intersection_clamped :
    let image : Image := ⟨0xFFFC, #[0x01, 0x02, 0x03, 0x04]⟩
    image.Fits ∧ image.slice? 0xFFFE 0x20000 = some [0x03, 0x04] ∧
      image.slice 0xFFFE 0x20000 = image.slice 0xFFFE 0xFFFF ++ image.slice 0xFFFF 0x20000 ∧
      image.slice? 0xFFFE 0x1000 = some [] := by
  intro image
  have h : image.Fits := by decide
  obtain ⟨hchecked, -, hcut⟩ := slice_intersection image h 0xFFFE 0x20000
  obtain ⟨hchecked', -, -⟩ := slice_intersection image h 0xFFFE 0x1000
  exact ⟨h, hchecked.trans (by decide), hcut 0xFFFF (by decide) (by decide),
    hchecked'.trans (by decide)⟩

end GromListing.Image
