import GromListing.HexFile.CheckedMerge
import GromListing.Proofs.HexFile.Merge

/-!
# Merging stays in range

* `writeRecord?_eq_some_iff`: a record can be written just when its data lie within the range.
* `layOut?_eq_some_iff`: so records can be laid out just when the data of all of them do, and they are
  then laid out as they are without checks.
* `image_in_range`: this holds of the data records of every accepted file, so no check fails when
  they are merged, and the file has an image.
-/

set_option autoImplicit false

namespace GromListing

namespace HexFile

theorem difference?_eq_some_iff {a b d : Nat} : difference? a b = some d ↔ b ≤ a ∧ d = a - b := by
  rw [difference?, Option.ite_none_right_eq_some, Option.some.injEq, eq_comm (a := d)]

namespace Overlay

variable {overlay next : Overlay} {origin : Nat} {r : Record}

/-! ## One record -/

theorem write?_eq_some_iff {index : Nat} {bytes : List UInt8} :
    overlay.write? index bytes = some next ↔
      index + bytes.length ≤ overlay.cells.size ∧ next = overlay.write index bytes := by
  rw [write?, Option.ite_none_right_eq_some, Option.some.injEq, eq_comm (a := next)]

theorem writeRecord?_eq_some_iff : writeRecord? origin overlay r = some next ↔
    r.Within origin overlay.cells.size ∧
      next = overlay.write (r.address.toNat - origin) r.data := by
  simp only [writeRecord?, Option.bind_eq_bind, Option.bind_eq_some_iff, difference?_eq_some_iff,
    write?_eq_some_iff, Record.Within]
  constructor
  · rintro ⟨_, ⟨hlow, rfl⟩, hhigh, hnext⟩
    exact ⟨⟨hlow, by omega⟩, hnext⟩
  · rintro ⟨⟨hlow, hhigh⟩, hnext⟩
    exact ⟨_, ⟨hlow, rfl⟩, by omega, hnext⟩

/-! ## All records -/

theorem foldlM_writeRecord?_eq_some_iff {records : List Record} :
    records.foldlM (writeRecord? origin) overlay = some next ↔
      (∀ r ∈ records, r.Within origin overlay.cells.size) ∧
        next = records.foldl
          (fun overlay r => overlay.write (r.address.toNat - origin) r.data) overlay := by
  induction records generalizing overlay with
  | nil => simp [eq_comm]
  | cons r records ih =>
    rw [List.foldlM_cons, List.forall_mem_cons, Option.bind_eq_bind, Option.bind_eq_some_iff,
      List.foldl_cons]
    constructor
    · rintro ⟨written, hr, hrest⟩
      obtain ⟨hwithin, rfl⟩ := writeRecord?_eq_some_iff.1 hr
      rw [ih, (Wrote.record hwithin).size_eq] at hrest
      exact ⟨⟨hwithin, hrest.1⟩, hrest.2⟩
    · rintro ⟨⟨hwithin, hrest⟩, hnext⟩
      refine ⟨_, writeRecord?_eq_some_iff.2 ⟨hwithin, rfl⟩, ih.2 ⟨?_, hnext⟩⟩
      rwa [(Wrote.record hwithin).size_eq]

theorem notices?_eq_some {first stop : Nat} (h : 0 < overlay.unset → 1 ≤ stop) :
    overlay.notices? first stop = some (overlay.notices first stop) := by
  rw [notices?, notices]
  by_cases hgap : 0 < overlay.unset
  · simp only [if_pos hgap, difference?, if_pos (h hgap)]
    rfl
  · simp only [if_neg hgap, List.append_nil]
    rfl

end Overlay

theorem layOut?_eq_some_iff {records : List Record} {origin size : Nat} {overlay : Overlay} :
    layOut? records origin size = some overlay ↔
      (∀ r ∈ records, r.Within origin size) ∧ overlay = layOut records origin size := by
  have hsize : (Overlay.blank size).cells.size = size := Array.size_replicate
  rw [layOut?, Overlay.foldlM_writeRecord?_eq_some_iff, hsize, layOut]

namespace Span

variable {file : HexFile} {first stop : Nat}

theorem one_le_stop (h : file.Span first stop)
    (hgap : 0 < (layOut file.dataRecords first (stop - first)).unset) : 1 ≤ stop := by
  have hcount : (layOut file.dataRecords first (stop - first)).unset ≤
      (layOut file.dataRecords first (stop - first)).cells.size := Array.count_le_size
  rw [size_layOut h.within] at hcount
  omega

theorem image?_eq (h : file.Span first stop) : file.image? = some file.image := by
  have hsize : difference? stop first = some (stop - first) :=
    difference?_eq_some_iff.2 ⟨h.first_le, rfl⟩
  have hoverlay : layOut? file.dataRecords first (stop - first) =
      some (layOut file.dataRecords first (stop - first)) := layOut?_eq_some_iff.2 ⟨h.within, rfl⟩
  have hnotices := @Overlay.notices?_eq_some _ first stop h.one_le_stop
  rw [image?, image, h.lowest?_eq, h.stop?_eq]
  simp only [Option.bind_eq_bind, hsize, hoverlay, hnotices, Option.bind_some]
  rfl

end Span

/-- **Merging stays in range.** An accepted file with a data record has an image, which ends within
the address space. Its first address is not behind that of any data record, nor behind its end; each
record is written where all of its data have room; and a gap is only told of where there is a last
address. So merging with all of this checked does the same. -/
theorem image_in_range (lines : List String) (file : HexFile) (hfile : ofLines lines = .ok file)
    (hne : file.dataRecords ≠ []) :
    ∃ first stop image, file.lowest? = some first ∧ file.stop? = some stop ∧ first ≤ stop ∧
      (∀ r ∈ file.dataRecords, first ≤ r.address.toNat) ∧
      (∀ before r after, file.dataRecords = before ++ r :: after →
        r.address.toNat - first + r.data.length ≤
          (layOut before first (stop - first)).cells.size) ∧
      (∀ count low high, Notice.gap count low high ∈ file.image.notices →
        1 ≤ stop ∧ high.toNat = stop - 1) ∧
      file.image? = some file.image ∧ file.image.result = .ok image ∧
      image.origin.toNat = first ∧ image.stop.toNat = stop ∧ stop ≤ 0x10000 := by
  obtain ⟨first, stop, hspan⟩ := exists_span (admitted_of_ofLines hfile) hne
  refine ⟨first, stop, _, hspan.lowest?_eq, hspan.stop?_eq, hspan.first_le,
    fun r hr => (hspan.within r hr).1, fun before r after hsplit => ?_,
    fun count low high hgap => ?_, hspan.image?_eq, congrArg Logged.result hspan.image_eq,
    hspan.toNat_origin, hspan.toNat_stop, hspan.stop_le⟩
  · have hwithin : ∀ s ∈ before ++ r :: after, s.Within first (stop - first) :=
      hsplit ▸ hspan.within
    obtain ⟨hbefore, hrest⟩ := List.forall_mem_append.1 hwithin
    obtain ⟨hlow, hhigh⟩ := hrest r List.mem_cons_self
    rw [size_layOut hbefore]
    omega
  · obtain ⟨others, hothers, hnotices⟩ :=
      (layOut file.dataRecords first (stop - first)).exists_notices_eq first stop
    rw [hspan.image_eq, hnotices, List.mem_append] at hgap
    obtain ⟨hunset, hmem⟩ :=
      List.mem_ite_nil_right.1 (hgap.resolve_left (hothers count low high))
    have hone := hspan.one_le_stop hunset
    have hlast : stop - 1 < UInt16.size :=
      Nat.lt_of_lt_of_le (Nat.sub_lt hone Nat.one_pos) hspan.stop_le
    cases List.mem_singleton.1 hmem
    exact ⟨hone, UInt16.toNat_ofNat_of_lt' hlast⟩

/-- Records up to the last address there is, one of them without data, and a gap between them. -/
theorem image_in_range_top :
    let lines := [":01FFFF0012EF", ":00FFFD0004", ":01FFFC0005FF", ":00000001FF"]
    let image : Image := ⟨0xFFFC, #[0x05, 0x00, 0x00, 0x12]⟩
    let file : HexFile := ⟨#[⟨1, 0xFFFF, 0x00, [0x12], 0xEF⟩, ⟨0, 0xFFFD, 0x00, [], 0x04⟩,
      ⟨1, 0xFFFC, 0x00, [0x05], 0xFF⟩, .ending], true⟩
    ofLines lines = .ok file ∧ file.dataRecords ≠ [] ∧ file.lowest? = some 0xFFFC ∧
      file.image? = some file.image ∧ file.image = ⟨[.gap 2 0xFFFC 0xFFFF], .ok image⟩ ∧
      image.stop.toNat ≤ 0x10000 := by
  intro lines image file
  have hfile : ofLines lines = .ok file := by rfl
  have hne : file.dataRecords ≠ [] := by decide +kernel
  have hnotices : file.image.notices = [.gap 2 0xFFFC 0xFFFF] := by decide +kernel
  have hresult : file.image.result = .ok image := by decide +kernel
  have hlowest : file.lowest? = some 0xFFFC := by decide +kernel
  obtain ⟨first, stop, image', -, -, -, -, -, -, hchecked, himage, -, hstop, hle⟩ :=
    image_in_range lines file hfile hne
  obtain rfl := Except.ok.inj (hresult.symm.trans himage)
  have heq : file.image = ⟨[.gap 2 0xFFFC 0xFFFF], .ok image⟩ := by
    rw [← hnotices, ← hresult]
  exact ⟨hfile, hne, hlowest, hchecked, heq, hstop ▸ hle⟩

end HexFile

end GromListing
