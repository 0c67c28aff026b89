import GromListing.Proofs.HexFile.Overlay
import GromListing.Proofs.HexFile.Transcript
import GromListing.Proofs.Image.Range

/-!
# Hex files and raw images agree

* `Tiles`: records that hold the bytes of a run, each byte in one of them. It does not depend on the
  order of the records (`Tiles.perm`), and holds of those of consecutive chunks (`tiles_ofChunks`).
* `image_of_tiles`: a file with such records has the image of the run, and nothing is warned of.
* `image_of_transcript`: so the lines that bytes are written in, however cut, ordered and spelled,
  are read as the image that the bytes have when they are loaded as they are.
-/

set_option autoImplicit false

namespace GromListing

namespace HexFile

/-! ## Records of a run -/

/-- The records hold the bytes of the run that begins at `origin`, and each byte once. -/
structure Tiles (records : List Record) (origin : Nat) (bytes : List UInt8) : Prop where
  isData : ∀ r ∈ records, r.isData = true
  sound : ∀ r ∈ records, r.Sound
  data_ne_nil : ∀ r ∈ records, r.data ≠ []
  byteAt?_eq : ∀ r ∈ records, ∀ address byte, r.byteAt? address = some byte →
    origin ≤ address ∧ bytes[address - origin]? = some byte
  covers : ∀ i < bytes.length, ∃ r ∈ records, (r.byteAt? (origin + i)).isSome = true
  length_eq : (records.flatMap (·.data)).length = bytes.length

namespace Tiles

variable {records : List Record} {origin : Nat} {bytes : List UInt8}

theorem perm {records' : List Record} (h : Tiles records origin bytes)
    (hp : records'.Perm records) : Tiles records' origin bytes where
  isData r hr := h.isData r (hp.mem_iff.1 hr)
  sound r hr := h.sound r (hp.mem_iff.1 hr)
  data_ne_nil r hr := h.data_ne_nil r (hp.mem_iff.1 hr)
  byteAt?_eq r hr := h.byteAt?_eq r (hp.mem_iff.1 hr)
  covers i hi :=
    have ⟨r, hr, hsome⟩ := h.covers i hi
    ⟨r, hp.mem_iff.2 hr, hsome⟩
  length_eq := (hp.flatMap_right _).length_eq.trans h.length_eq

theorem nil (origin : Nat) : Tiles [] origin [] where
  isData := List.forall_mem_nil _
  sound := List.forall_mem_nil _
  data_ne_nil := List.forall_mem_nil _
  byteAt?_eq := List.forall_mem_nil _
  covers i hi := absurd hi (Nat.not_lt_zero i)
  length_eq := rfl

theorem cons {r : Record} (hdata : r.isData = true) (hs : r.Sound) (hne : r.data ≠ [])
    (h : Tiles records (r.address.toNat + r.data.length) bytes) :
    Tiles (r :: records) r.address.toNat (r.data ++ bytes) where
  isData := List.forall_mem_cons.2 ⟨hdata, h.isData⟩
  sound := List.forall_mem_cons.2 ⟨hs, h.sound⟩
  data_ne_nil := List.forall_mem_cons.2 ⟨hne, h.data_ne_nil⟩
  byteAt?_eq := by
    refine List.forall_mem_cons.2
      ⟨fun address byte hbyte => ?_, fun s hmem address byte hbyte => ?_⟩
    · obtain ⟨hlow, hhigh⟩ := Record.isSome_byteAt?_iff.1 (Option.isSome_of_eq_some hbyte)
      rw [Record.byteAt?, if_pos hlow] at hbyte
      rw [List.getElem?_append_left (by omega)]
      exact ⟨hlow, hbyte⟩
    · obtain ⟨hlow, hget⟩ := h.byteAt?_eq s hmem address byte hbyte
      rw [List.getElem?_append_right (by omega), Nat.sub_sub]
      exact ⟨by omega, hget⟩
  covers i hi := by
    rw [List.length_append] at hi
    by_cases hr : i < r.data.length
    · exact ⟨r, List.mem_cons_self, Record.isSome_byteAt?_iff.2 (by omega)⟩
    · obtain ⟨s, hmem, hsome⟩ := h.covers (i - r.data.length) (by omega)
      rw [show r.address.toNat + r.data.length + (i - r.data.length) = r.address.toNat + i by omega]
        at hsome
      exact ⟨s, List.mem_cons_of_mem r hmem, hsome⟩
  length_eq := by
    rw [List.flatMap_cons, List.length_append, h.length_eq, List.length_append]

end Tiles

/-! ## Chunks -/

theorem Record.sound_ofData (address : UInt16) {data : List UInt8} (h : data.length ≤ 255) :
    (ofData address data).Sound where
  length_data :=
    have hlt : data.length < 0x100 := Nat.lt_succ_of_le h
    (UInt8.toNat_ofNat_of_lt' hlt).symm
  checksum_eq := rfl

theorem tiles_ofChunks {address : Nat} {chunks : List (List UInt8)}
    (hsize : ∀ chunk ∈ chunks, 1 ≤ chunk.length ∧ chunk.length ≤ 255)
    (hfit : address + chunks.flatten.length ≤ 0x10000) :
    Tiles (Record.ofChunks address chunks) address chunks.flatten := by
  induction chunks generalizing address with
  | nil => exact .nil address
  | cons chunk rest ih =>
    obtain ⟨⟨hpos, hmax⟩, hsize⟩ := List.forall_mem_cons.1 hsize
    rw [List.flatten_cons, List.length_append] at hfit
    -- the chunk is not empty, so it begins below the top and its address is not cut off
    have hlt : address < 0x10000 := by omega
    have haddress : (Record.ofData address.toUInt16 chunk).address.toNat = address :=
      UInt16.toNat_ofNat_of_lt' hlt
    have hrest : Tiles (Record.ofChunks (address + chunk.length) rest) (address + chunk.length)
        rest.flatten := ih hsize (by omega)
    have htiles := Tiles.cons (r := Record.ofData address.toUInt16 chunk) rfl
      (Record.sound_ofData _ hmax) (List.length_pos_iff.1 hpos) (haddress.symm ▸ hrest)
    rw [haddress] at htiles
    exact htiles

/-! ## The image -/

namespace Tiles

variable {records : List Record} {origin : Nat} {bytes : List UInt8}

theorem within (h : Tiles records origin bytes) {r : Record} (hr : r ∈ records) :
    r.Within origin bytes.length := by
  -- the bounds are those of the record's first and last byte
  have hpos : 0 < r.data.length := List.length_pos_iff.2 (h.data_ne_nil r hr)
  have hbound : ∀ address, r.address.toNat ≤ address → address < r.address.toNat + r.data.length →
      origin ≤ address ∧ address - origin < bytes.length := by
    intro address hlow hhigh
    obtain ⟨byte, hbyte⟩ :=
      Option.isSome_iff_exists.1 (Record.isSome_byteAt?_iff.2 ⟨hlow, hhigh⟩)
    obtain ⟨hle, hget⟩ := h.byteAt?_eq r hr address byte hbyte
    exact ⟨hle, (List.getElem?_eq_some_iff.1 hget).1⟩
  have hfirst := hbound r.address.toNat (by omega) (by omega)
  have hlast := hbound (r.address.toNat + r.data.length - 1) (by omega) (by omega)
  exact ⟨hfirst.1, by omega⟩

theorem stop_eq (h : Tiles records origin bytes) {r : Record} (hr : r ∈ records) :
    r.stop = r.address.toNat + r.data.length := by
  rw [Record.stop, (h.sound r hr).length_data]

theorem lastByteAt?_eq (h : Tiles records origin bytes) {i : Nat} (hi : i < bytes.length) :
    lastByteAt? records (origin + i) = bytes[i]? := by
  obtain ⟨r, hr, hsome⟩ := h.covers i hi
  have hlast : (lastByteAt? records (origin + i)).isSome = true :=
    List.findSome?_isSome_iff.2 ⟨r, List.mem_reverse.2 hr, hsome⟩
  obtain ⟨byte, hbyte⟩ := Option.isSome_iff_exists.1 hlast
  obtain ⟨s, hs, hwritten⟩ := List.exists_of_findSome?_eq_some hbyte
  have hget := (h.byteAt?_eq s (List.mem_reverse.1 hs) (origin + i) byte hwritten).2
  rw [hbyte, ← hget, Nat.add_sub_cancel_left]

theorem min?_address (h : Tiles records origin bytes) (hne : bytes ≠ []) :
    (records.map (·.address.toNat)).min? = some origin := by
  refine List.min?_eq_some_iff.2 ⟨?_, ?_⟩
  · obtain ⟨r, hr, hsome⟩ := h.covers 0 (List.length_pos_iff.2 hne)
    have hle := (Record.isSome_byteAt?_iff.1 hsome).1
    have hge := (h.within hr).1
    exact List.mem_map.2 ⟨r, hr, by omega⟩
  · exact List.forall_mem_map.2 fun r hr => (h.within hr).1

theorem max?_stop (h : Tiles records origin bytes) (hne : bytes ≠ []) :
    (records.map (·.stop)).max? = some (origin + bytes.length) := by
  have hpos : 0 < bytes.length := List.length_pos_iff.2 hne
  refine List.max?_eq_some_iff.2 ⟨?_, ?_⟩
  · obtain ⟨r, hr, hsome⟩ := h.covers (bytes.length - 1) (by omega)
    have hlt := (Record.isSome_byteAt?_iff.1 hsome).2
    have hle := (h.within hr).2
    exact List.mem_map.2 ⟨r, hr, by rw [h.stop_eq hr]; omega⟩
  · refine List.forall_mem_map.2 fun r hr => ?_
    rw [h.stop_eq hr]
    exact (h.within hr).2

theorem unset_layOut (h : Tiles records origin bytes) :
    (layOut records origin bytes.length).unset = 0 := by
  refine Overlay.unset_eq_zero_iff.2 fun i hi => ?_
  rw [size_layOut fun r => h.within] at hi
  rw [byteAt?_layOut (fun r => h.within), h.lastByteAt?_eq hi, List.getElem?_eq_getElem hi]
  rfl

theorem overwritten_layOut (h : Tiles records origin bytes) :
    (layOut records origin bytes.length).overwritten = 0 := by
  -- as many bytes are written as there are, and none stays unset
  have hbalance := balance_layOut fun r (hr : r ∈ records) => h.within hr
  rw [h.unset_layOut, h.length_eq] at hbalance
  omega

theorem bytes_layOut (h : Tiles records origin bytes) :
    (layOut records origin bytes.length).bytes = bytes := by
  have hsize : (layOut records origin bytes.length).cells.size = bytes.length :=
    size_layOut fun r => h.within
  refine List.ext_getElem? fun i => ?_
  by_cases hi : i < bytes.length
  · rw [Overlay.getElem?_bytes (hsize.symm ▸ hi), byteAt?_layOut (fun r => h.within),
      h.lastByteAt?_eq hi, List.getElem?_eq_getElem hi]
    rfl
  · rw [List.getElem?_eq_none (by rw [Overlay.length_bytes, hsize]; omega),
      List.getElem?_eq_none (by omega)]

end Tiles

theorem image_of_tiles {file : HexFile} {origin : UInt16} {bytes : List UInt8}
    (h : Tiles file.dataRecords origin.toNat bytes) (hne : bytes ≠ [])
    (hfit : origin.toNat + bytes.length ≤ 0x10000) :
    file.image = ⟨[], .ok ⟨origin, bytes.toArray⟩⟩ := by
  have horigin : origin.toNat.toUInt16 = origin := UInt16.ofNat_toNat
  rw [image, lowest?, h.min?_address hne, stop?, h.max?_stop hne]
  simp only [Nat.add_sub_cancel_left, Overlay.notices, h.unset_layOut, h.overwritten_layOut,
    h.bytes_layOut, horigin, Nat.lt_irrefl, if_false, List.append_nil,
    Image.ofBytes_of_fits (show Image.Fits ⟨origin, bytes.toArray⟩ from hfit)]

/-! ## Transcripts -/

/-- **A hex file and a raw image of the same bytes agree.** -/
theorem image_of_transcript (origin : UInt16) (bytes : List UInt8) (chunks : List (List UInt8))
    (records : List Record) (lines : List String) (hne : bytes ≠ [])
    (hfit : origin.toNat + bytes.length ≤ 0x10000) (hchunks : chunks.flatten = bytes)
    (hsize : ∀ chunk ∈ chunks, 1 ≤ chunk.length ∧ chunk.length ≤ 255)
    (horder : records.Perm (Record.ofChunks origin.toNat chunks))
    (hlines : Transcript (records ++ [Record.ending]) lines) :
    ∃ image, Image.ofBytes origin bytes = .ok image ∧ image.origin = origin ∧
      image.bytes = bytes ∧
      ∃ file, ofLines lines = .ok file ∧ file.image = ⟨[], .ok image⟩ := by
  subst hchunks
  have htiles := (tiles_ofChunks hsize hfit).perm horder
  have hstop : ∀ r ∈ records, r.stop ≤ 0x10000 := fun r hr => by
    rw [htiles.stop_eq hr]
    exact (htiles.within hr).2.trans hfit
  refine ⟨⟨origin, chunks.flatten.toArray⟩, Image.ofBytes_of_fits hfit, rfl, rfl,
    ⟨records.toArray.push Record.ending, true⟩,
    ofLines_of_transcript hlines htiles.sound htiles.isData hstop, ?_⟩
  refine image_of_tiles ?_ hne hfit
  rw [dataRecords_push_ending htiles.isData]
  exact htiles

theorem image_of_transcript_reordered :
    ∃ image, Image.ofBytes 0x6000 [0xDE, 0xAD, 0x0B] = .ok image ∧ image.origin = 0x6000 ∧
      image.bytes = [0xDE, 0xAD, 0x0B] ∧
      ∃ file, ofLines [":016002000b92", "; the first two bytes", ":02600000dEAd13", ":00000001FF"] =
        .ok file ∧ file.image = ⟨[], .ok image⟩ := by
  have hremark : HoldsNoRecord "; the first two bytes" := by
    intro before after h
    have hmem : ':' ∈ before ++ ':' :: after := by simp
    rw [← h] at hmem
    exact absurd hmem (by decide)
  refine image_of_transcript 0x6000 [0xDE, 0xAD, 0x0B] [[0xDE, 0xAD], [0x0B]]
    [.ofData 0x6002 [0x0B], .ofData 0x6000 [0xDE, 0xAD]] _ (by decide) (by decide) rfl (by decide)
    (by decide) ?_
  exact .record ⟨"016002000b92".toList, by decide, by decide⟩ (.other hremark
    (.record ⟨"02600000dEAd13".toList, by decide, by decide⟩
      (.record ⟨"00000001FF".toList, by decide, by decide⟩ .nil)))

end HexFile

end GromListing
