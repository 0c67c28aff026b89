import GromListing.Proofs.HexFile.Merge
import Mathlib.Order.Lattice.Nat

/-!
# The bounds of a merged image

* `exists_bounds_written`: records with data write a lowest and a highest address.
* `Span.first_eq_iff`, `Span.stop_eq_iff`: the image of a file begins at the lowest address just
  when no record without data is below it, and ends behind the highest one just when none is above.
* `image_span_iff`: an image is as wide as what its records write just when no record without data
  is outside of that. Such a record writes nothing, and still counts for the bounds.
-/

set_option autoImplicit false

namespace GromListing

namespace HexFile

/-- The addresses that records write. -/
def written (records : List Record) : Set Nat :=
  {address | ∃ r ∈ records, (r.byteAt? address).isSome = true}

theorem address_mem_written {records : List Record} {r : Record} (hr : r ∈ records)
    (hdata : r.data ≠ []) : r.address.toNat ∈ written records := by
  have hpos := List.length_pos_iff.2 hdata
  exact ⟨r, hr, Record.isSome_byteAt?_iff.2 (by omega)⟩

theorem last_mem_written {records : List Record} {r : Record} (hr : r ∈ records)
    (hdata : r.data ≠ []) : r.address.toNat + r.data.length - 1 ∈ written records := by
  have hpos := List.length_pos_iff.2 hdata
  exact ⟨r, hr, Record.isSome_byteAt?_iff.2 (by omega)⟩

variable {file : HexFile} {first stop low high : Nat}

theorem exists_bounds_written (h : file.Span first stop)
    (hbyte : ∃ r ∈ file.dataRecords, r.data ≠ []) :
    ∃ low high, IsLeast (written file.dataRecords) low ∧
      IsGreatest (written file.dataRecords) high := by
  obtain ⟨r, hr, hdata⟩ := hbyte
  have hne : (written file.dataRecords).Nonempty := ⟨_, address_mem_written hr hdata⟩
  have hbdd : BddAbove (written file.dataRecords) := by
    refine ⟨stop, ?_⟩
    rintro address ⟨s, hs, hsome⟩
    exact Nat.le_of_lt (h.bounds hs hsome).2
  exact ⟨sInf (written file.dataRecords), sSup (written file.dataRecords),
    ⟨Nat.sInf_mem hne, fun _ hmem => Nat.sInf_le hmem⟩,
    ⟨Nat.sSup_mem hne hbdd, fun _ hmem => le_csSup hbdd hmem⟩⟩

namespace Span

theorem first_eq_iff (h : file.Span first stop) (hlow : IsLeast (written file.dataRecords) low) :
    first = low ↔ ∀ r ∈ file.dataRecords, r.data = [] → low ≤ r.address.toNat := by
  constructor
  · rintro rfl r hr -
    exact (h.within r hr).1
  · intro hempty
    -- the record that the image begins with writes its first byte, or is not below the lowest
    obtain ⟨r, hr, rfl⟩ := List.mem_map.1 (List.min?_eq_some_iff.1 h.lowest?_eq).1
    obtain ⟨s, hs, hsome⟩ := hlow.1
    refine Nat.le_antisymm (h.bounds hs hsome).1 ?_
    by_cases hdata : r.data = []
    · exact hempty r hr hdata
    · exact hlow.2 (address_mem_written hr hdata)

theorem stop_eq_iff (h : file.Span first stop) (hadmitted : ∀ r ∈ file.dataRecords, r.Admitted)
    (hhigh : IsGreatest (written file.dataRecords) high) :
    stop = high + 1 ↔ ∀ r ∈ file.dataRecords, r.data = [] → r.address.toNat ≤ high + 1 := by
  have hle := h.first_le
  constructor
  · rintro rfl r hr hdata
    have hend := (h.within r hr).2
    omega
  · intro hempty
    obtain ⟨r, hr, hstop⟩ := List.mem_map.1 (List.max?_eq_some_iff.1 h.stop?_eq).1
    rw [Record.stop, ← (hadmitted r hr).sound.length_data] at hstop
    obtain ⟨s, hs, hsome⟩ := hhigh.1
    have hlt := (h.bounds hs hsome).2
    by_cases hdata : r.data = []
    · have haddress := hempty r hr hdata
      rw [hdata, List.length_nil] at hstop
      omega
    · have hlast := hhigh.2 (last_mem_written hr hdata)
      omega

end Span

/-- **An image spans what was written, and the records without data.** A file with a data record
that holds a byte has an image. It begins at the lowest address that a data record writes and ends
behind the highest one, unless a data record without data lies before or behind that. -/
theorem image_span_iff (lines : List String) (file : HexFile) (hfile : ofLines lines = .ok file)
    (hbyte : ∃ r ∈ file.dataRecords, r.data ≠ []) :
    ∃ image low high, file.image.result = .ok image ∧
      IsLeast (written file.dataRecords) low ∧ IsGreatest (written file.dataRecords) high ∧
      (image.origin.toNat = low ∧ image.stop.toNat = high + 1 ↔
        ∀ r ∈ file.dataRecords, r.data = [] →
          low ≤ r.address.toNat ∧ r.address.toNat ≤ high + 1) := by
  have hadmitted := admitted_of_ofLines hfile
  have hne : file.dataRecords ≠ [] := by
    obtain ⟨r, hr, -⟩ := hbyte
    exact List.ne_nil_of_mem hr
  obtain ⟨first, stop, hspan⟩ := exists_span hadmitted hne
  obtain ⟨low, high, hlow, hhigh⟩ := exists_bounds_written hspan hbyte
  refine ⟨_, low, high, congrArg Logged.result hspan.image_eq, hlow, hhigh, ?_⟩
  rw [hspan.toNat_origin, hspan.toNat_stop, hspan.first_eq_iff hlow,
    hspan.stop_eq_iff (fun r hr => (hadmitted r hr).2) hhigh]
  exact ⟨fun h r hr hdata => ⟨h.1 r hr hdata, h.2 r hr hdata⟩,
    fun h => ⟨fun r hr hdata => (h r hr hdata).1, fun r hr hdata => (h r hr hdata).2⟩⟩

/-- A record without data that lies next to the bytes written. -/
theorem image_span_iff_adjacent :
    let lines := [":02600000050099", ":006002009E", ":00000001FF"]
    let image : Image := ⟨0x6000, #[0x05, 0x00]⟩
    let file : HexFile := ⟨#[⟨2, 0x6000, 0x00, [0x05, 0x00], 0x99⟩, ⟨0, 0x6002, 0x00, [], 0x9E⟩,
      .ending], true⟩
    ofLines lines = .ok file ∧ file.image.result = .ok image ∧
      IsLeast (written file.dataRecords) 0x6000 ∧ IsGreatest (written file.dataRecords) 0x6001 := by
  intro lines image file
  have hfile : ofLines lines = .ok file := by rfl
  have himage : file.image.result = .ok image := by decide +kernel
  obtain ⟨image', low, high, himage', hlow, hhigh, hiff⟩ := image_span_iff lines file hfile
    ⟨⟨2, 0x6000, 0x00, [0x05, 0x00], 0x99⟩, by decide +kernel, by decide⟩
  obtain rfl := Except.ok.inj (himage.symm.trans himage')
  have hfirst : 0x6000 ∈ written file.dataRecords :=
    ⟨⟨2, 0x6000, 0x00, [0x05, 0x00], 0x99⟩, by decide +kernel, by decide⟩
  have hlast : 0x6001 ∈ written file.dataRecords :=
    ⟨⟨2, 0x6000, 0x00, [0x05, 0x00], 0x99⟩, by decide +kernel, by decide⟩
  have hempty : ∀ r ∈ file.dataRecords, r.data = [] → r.address.toNat = 0x6002 := by
    decide +kernel
  obtain ⟨horigin, hstop⟩ := hiff.2 fun r hr hdata => by
    have haddress := hempty r hr hdata
    have hle := hlow.2 hfirst
    have hge := hhigh.2 hlast
    omega
  have horigin' : image.origin.toNat = 0x6000 := by decide
  have hstop' : image.stop.toNat = 0x6001 + 1 := by decide
  obtain rfl : 0x6000 = low := horigin'.symm.trans horigin
  obtain rfl : 0x6001 = high := Nat.succ.inj (hstop'.symm.trans hstop)
  exact ⟨hfile, himage, hlow, hhigh⟩

/-- So an image can begin at an address that nothing was written to. -/
theorem exists_image_wider_than_written :
    ¬∀ (lines : List String) (file : HexFile) (image : Image), ofLines lines = .ok file →
      (∃ r ∈ file.dataRecords, r.data ≠ []) → file.image.result = .ok image →
      IsLeast (written file.dataRecords) image.origin.toNat ∧
        IsGreatest (written file.dataRecords) (image.stop.toNat - 1) := by
  intro h
  let file : HexFile := ⟨#[⟨0, 0x5FFF, 0x00, [], 0xA2⟩, ⟨1, 0x6000, 0x00, [0x01], 0x9E⟩,
    .ending], true⟩
  have hbounds := h [":005FFF00A2", ":01600000019E", ":00000001FF"] file ⟨0x5FFF, #[0x00, 0x01]⟩
    (by rfl) (by decide +kernel) (by decide +kernel)
  have hunwritten : ¬∃ r ∈ file.dataRecords, (r.byteAt? 0x5FFF).isSome = true := by
    decide +kernel
  exact hunwritten hbounds.1.1

end HexFile

end GromListing
