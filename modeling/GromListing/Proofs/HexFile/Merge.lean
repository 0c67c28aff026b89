import GromListing.Proofs.HexFile.Acceptance
import GromListing.Proofs.HexFile.Overlay
import GromListing.Proofs.Image.Range

/-!
# What a merged image holds

* `Span`: the range of a file's data records, from the lowest of their addresses to the highest of
  their ends. An accepted file with data records has one (`exists_span`), and its image is what the
  records leave there (`Span.image_eq`).
* `unset_layOut_eq_countP`: what an overlay leaves unset are the addresses that no record writes.
* `image_last_writes`: so each byte of an image is the one that was written last at its address, or
  zero, and the notice of a gap tells how many addresses nothing was written at.
-/

set_option autoImplicit false

namespace GromListing

namespace HexFile

/-! ## The range of the records -/

/-- The data records lie in the addresses from `first` up to `stop`, and none of these bounds can be
drawn closer. -/
structure Span (file : HexFile) (first stop : Nat) : Prop where
  lowest?_eq : file.lowest? = some first
  stop?_eq : file.stop? = some stop
  first_lt : first < 0x10000
  first_le : first ≤ stop
  stop_le : stop ≤ 0x10000
  within : ∀ r ∈ file.dataRecords, r.Within first (stop - first)

theorem exists_span {file : HexFile} (h : ∀ r ∈ file.dataRecords, r.isData = true ∧ r.Admitted)
    (hne : file.dataRecords ≠ []) : ∃ first stop, file.Span first stop := by
  obtain ⟨first, hfirst⟩ : ∃ first, file.lowest? = some first :=
    Option.ne_none_iff_exists'.1 fun hn => hne (by simpa [lowest?] using hn)
  obtain ⟨stop, hstop⟩ : ∃ stop, file.stop? = some stop :=
    Option.ne_none_iff_exists'.1 fun hn => hne (by simpa [stop?] using hn)
  obtain ⟨hlowest, hle⟩ := List.min?_eq_some_iff.1 hfirst
  obtain ⟨hhighest, hge⟩ := List.max?_eq_some_iff.1 hstop
  obtain ⟨low, hlow, rfl⟩ := List.mem_map.1 hlowest
  obtain ⟨high, hhigh, rfl⟩ := List.mem_map.1 hhighest
  have hfirst_le : ∀ r ∈ file.dataRecords, low.address.toNat ≤ r.address.toNat :=
    fun r hr => hle _ (List.mem_map_of_mem hr)
  have hstop_ge : ∀ r ∈ file.dataRecords, r.stop ≤ high.stop :=
    fun r hr => hge _ (List.mem_map_of_mem hr)
  have hbound : low.address.toNat ≤ high.stop :=
    Nat.le_trans (Nat.le_add_right ..) (hstop_ge low hlow)
  refine ⟨low.address.toNat, high.stop, hfirst, hstop, low.address.toNat_lt, hbound,
    (h high hhigh).2.stop_le (h high hhigh).1, fun r hr => ⟨hfirst_le r hr, ?_⟩⟩
  rw [(h r hr).2.sound.length_data, Nat.add_sub_cancel' hbound]
  exact hstop_ge r hr

/-- The image of the addresses from `first` up to `stop`, as the records leave them. -/
def imageOver (file : HexFile) (first stop : Nat) : Image :=
  ⟨first.toUInt16, (layOut file.dataRecords first (stop - first)).bytes.toArray⟩

namespace Span

variable {file : HexFile} {first stop : Nat}

theorem bounds (h : file.Span first stop) {r : Record} (hr : r ∈ file.dataRecords) {address : Nat}
    (hsome : (r.byteAt? address).isSome = true) : first ≤ address ∧ address < stop := by
  obtain ⟨hlow, hhigh⟩ := Record.isSome_byteAt?_iff.1 hsome
  obtain ⟨hfirst, hstop⟩ := h.within r hr
  have hle := h.first_le
  omega

theorem toNat_origin (h : file.Span first stop) :
    (file.imageOver first stop).origin.toNat = first :=
  UInt16.toNat_ofNat_of_lt' h.first_lt

theorem length_bytes (h : file.Span first stop) :
    (file.imageOver first stop).bytes.length = stop - first := by
  rw [imageOver, Image.bytes, List.toList_toArray, Overlay.length_bytes, size_layOut h.within]

theorem fits (h : file.Span first stop) : (file.imageOver first stop).Fits := by
  have hle := h.first_le
  have hstop := h.stop_le
  rw [Image.Fits, h.toNat_origin, h.length_bytes]
  omega

theorem toNat_stop (h : file.Span first stop) : (file.imageOver first stop).stop.toNat = stop := by
  have hle := h.first_le
  rw [h.fits.stop_eq, h.toNat_origin, h.length_bytes]
  omega

theorem image_eq (h : file.Span first stop) :
    file.image = ⟨(layOut file.dataRecords first (stop - first)).notices first stop,
      .ok (file.imageOver first stop)⟩ := by
  rw [image, h.lowest?_eq, h.stop?_eq]
  simp only [Image.ofBytes_of_fits h.fits, imageOver]

theorem byteAt?_image (h : file.Span first stop) {address : Nat} (hlow : first ≤ address)
    (hhigh : address < stop) : (file.imageOver first stop).byteAt? address =
      some ((lastByteAt? file.dataRecords address).getD 0) := by
  have hsize : address - first < (layOut file.dataRecords first (stop - first)).cells.size := by
    rw [size_layOut h.within]
    omega
  rw [Image.byteAt?, h.toNat_origin, if_pos hlow, imageOver, Image.bytes, List.toList_toArray,
    Overlay.getElem?_bytes hsize, byteAt?_layOut h.within, Nat.add_sub_cancel' hlow]

end Span

/-! ## Bytes that are not written -/

theorem writersAt_eq_zero_iff {records : List Record} {address : Nat} :
    writersAt records address = 0 ↔ lastByteAt? records address = none := by
  simp [writersAt, lastByteAt?, List.countP_eq_zero]

theorem Overlay.unset_eq_countP (overlay : Overlay) :
    overlay.unset = (List.range overlay.cells.size).countP fun i => (overlay.byteAt? i).isNone := by
  have hcells : overlay.cells.toList = (List.range overlay.cells.size).map overlay.byteAt? := by
    refine List.ext_getElem (by simp) fun i hi _ => ?_
    rw [Array.length_toList] at hi
    simp [byteAt?, hi]
  rw [unset, ← Array.count_toList, hcells, List.count_eq_countP, List.countP_map]
  refine List.countP_congr fun i _ => ?_
  simp

theorem unset_layOut_eq_countP {records : List Record} {origin size : Nat}
    (h : ∀ r ∈ records, r.Within origin size) :
    (layOut records origin size).unset =
      (List.range' origin size).countP fun address => writersAt records address == 0 := by
  rw [Overlay.unset_eq_countP, size_layOut h, List.range'_eq_map_range, List.countP_map]
  refine List.countP_congr fun i _ => ?_
  simp [byteAt?_layOut h, writersAt_eq_zero_iff]

/-- The notices of an overlay end with that of a gap, and no other tells of one. -/
theorem Overlay.exists_notices_eq (overlay : Overlay) (first stop : Nat) :
    ∃ others, (∀ count low high, Notice.gap count low high ∉ others) ∧
      overlay.notices first stop = others ++ if 0 < overlay.unset then
        [.gap overlay.unset first.toUInt16 (stop - 1).toUInt16] else [] := by
  refine ⟨_, fun count low high hmem => ?_, rfl⟩
  cases List.mem_singleton.1 (List.mem_ite_nil_right.1 hmem).2

/-! ## Images -/

theorem exists_span_of_image {lines : List String} {file : HexFile} {image : Image}
    (hfile : ofLines lines = .ok file) (himage : file.image.result = .ok image) :
    ∃ first stop, file.Span first stop ∧ image = file.imageOver first stop := by
  have hne : file.dataRecords ≠ [] := by
    intro hnil
    have hnone : file.lowest? = none := by rw [lowest?, hnil, List.map_nil, List.min?_nil]
    rw [HexFile.image, hnone] at himage
    cases himage
  obtain ⟨first, stop, hspan⟩ := exists_span (admitted_of_ofLines hfile) hne
  rw [hspan.image_eq] at himage
  exact ⟨first, stop, hspan, (Except.ok.inj himage).symm⟩

/-- **The last record wins.** All data of an accepted file lie within its image. At each address of
the image stands what the last of the data records to write there writes, or zero if none does. The
notice of a gap is given just when there are such addresses, once, and with their number. -/
theorem image_last_writes (lines : List String) (file : HexFile) (image : Image)
    (hfile : ofLines lines = .ok file) (himage : file.image.result = .ok image) :
    let first := image.origin.toNat
    let stop := first + image.bytes.length
    let unset := (List.range' first image.bytes.length).countP fun address =>
      writersAt file.dataRecords address == 0
    (∀ r ∈ file.dataRecords, ∀ address byte, r.byteAt? address = some byte →
      first ≤ address ∧ address < stop) ∧
    (∀ address, first ≤ address → address < stop →
      image.byteAt? address = some ((lastByteAt? file.dataRecords address).getD 0)) ∧
    ∃ others, (∀ count low high, Notice.gap count low high ∉ others) ∧
      file.image.notices =
        others ++ if 0 < unset then [.gap unset image.origin image.last] else [] := by
  obtain ⟨low, high, hspan, rfl⟩ := exists_span_of_image hfile himage
  intro first stop unset
  have hfirst : first = low := hspan.toNat_origin
  have hstop : stop = high := hspan.fits.stop_eq.symm.trans hspan.toNat_stop
  refine ⟨fun r hr address byte hbyte => ?_, fun address hlow hhigh => ?_, ?_⟩
  · have hbounds := hspan.bounds hr (Option.isSome_of_eq_some hbyte)
    exact ⟨hfirst ▸ hbounds.1, hstop ▸ hbounds.2⟩
  · exact hspan.byteAt?_image (hfirst ▸ hlow) (hstop ▸ hhigh)
  · have hunset : unset = (layOut file.dataRecords low (high - low)).unset := by
      simp only [unset, first, hspan.length_bytes, hspan.toNat_origin,
        unset_layOut_eq_countP hspan.within]
    rw [hspan.image_eq, hunset, Image.last, hspan.toNat_stop]
    exact Overlay.exists_notices_eq ..

/-- One byte is written twice, and one never. -/
theorem image_last_writes_overlapping :
    let lines := [":0260000001029B", ":02600100030496", ":01600400AAF1", ":00000001FF"]
    let image : Image := ⟨0x6000, #[0x01, 0x03, 0x04, 0x00, 0xAA]⟩
    let file : HexFile := ⟨#[⟨2, 0x6000, 0x00, [0x01, 0x02], 0x9B⟩,
      ⟨2, 0x6001, 0x00, [0x03, 0x04], 0x96⟩, ⟨1, 0x6004, 0x00, [0xAA], 0xF1⟩, .ending], true⟩
    ofLines lines = .ok file ∧ file.image.result = .ok image ∧
      image.byteAt? 0x6001 = some 0x03 ∧ image.byteAt? 0x6003 = some 0x00 ∧
      ∃ others, (∀ count low high, Notice.gap count low high ∉ others) ∧
        file.image.notices = others ++ [.gap 1 0x6000 0x6004] := by
  intro lines image file
  have hfile : ofLines lines = .ok file := by rfl
  have himage : file.image.result = .ok image := by decide +kernel
  obtain ⟨-, hbyte, others, hothers, hgap⟩ := image_last_writes lines file image hfile himage
  have hwritten : lastByteAt? file.dataRecords 0x6001 = some 0x03 := by decide +kernel
  have hunwritten : lastByteAt? file.dataRecords 0x6003 = none := by decide +kernel
  have hunset : ((List.range' image.origin.toNat image.bytes.length).countP fun address =>
      writersAt file.dataRecords address == 0) = 1 := by decide +kernel
  have htwice := hbyte 0x6001 (by decide) (by decide)
  have hnever := hbyte 0x6003 (by decide) (by decide)
  rw [hwritten] at htwice
  rw [hunwritten] at hnever
  rw [hunset, if_pos Nat.one_pos] at hgap
  exact ⟨hfile, himage, htwice, hnever, others, hothers, hgap⟩

end HexFile

end GromListing
