import GromListing.HexFile.Conformance
import GromListing.Proofs.HexFile.Acceptance

/-!
# Transcripts are accepted

* `addLines_of_readable`: lines that can be read add the records that they hold, one after another,
  and the lines between them add nothing.
* `foldlM_add_complete`: data records that end within the address space may all be added to a new
  file, and an end record behind them.
* `ofLines_of_transcript`: so the transcript of such records and the ending is read as the file of
  exactly these records.
-/

set_option autoImplicit false

namespace GromListing

namespace HexFile

/-! ## Lines -/

theorem recordsOf_cons (line : String) (lines : List String) :
    recordsOf (line :: lines) = (Reading.ofLine line).record?.toList ++ recordsOf lines := by
  unfold recordsOf
  rw [List.filterMap_cons]
  cases (Reading.ofLine line).record? <;> rfl

theorem addLines_of_readable {lines : List String} {file last : HexFile} (number : Nat)
    (hread : ∀ line ∈ lines, Reading.ofLine line ≠ .malformed)
    (h : (recordsOf lines).foldlM add file = .ok last) : file.addLines number lines = .ok last := by
  -- the number of the line is counted on, but only an error would show it
  induction lines generalizing file number with
  | nil => exact congrArg Except.ok (Except.ok.inj h)
  | cons line lines ih =>
    rw [List.forall_mem_cons] at hread
    rw [recordsOf_cons] at h
    unfold addLines addLine
    cases hline : Reading.ofLine line with
    | blank =>
      rw [hline] at h
      exact ih (number + 1) hread.2 h
    | malformed => exact absurd hline hread.1
    | record r =>
      rw [hline] at h
      change ((r :: recordsOf lines).foldlM add file) = .ok last at h
      rw [List.foldlM_cons] at h
      cases hadd : file.add r with
      | error why =>
        rw [hadd] at h
        cases h
      | ok next =>
        rw [hadd] at h
        simp only [hadd, Except.mapError]
        exact ih (number + 1) hread.2 h

theorem recordsOf_of_transcript {records : List Record} {lines : List String}
    (ht : Transcript records lines) (hs : ∀ r ∈ records, r.Sound) :
    recordsOf lines = records ∧ ∀ line ∈ lines, Reading.ofLine line ≠ .malformed := by
  induction ht with
  | nil => exact ⟨rfl, List.forall_mem_nil _⟩
  | record hw _ ih =>
    rw [List.forall_mem_cons] at hs
    obtain ⟨hrecords, hread⟩ := ih hs.2
    have hline := Reading.ofLine_of_writtenAs hs.1 hw
    rw [recordsOf_cons, hline, hrecords, List.forall_mem_cons, hline]
    exact ⟨rfl, nofun, hread⟩
  | other hn _ ih =>
    obtain ⟨hrecords, hread⟩ := ih hs
    have hline := Reading.ofLine_of_holdsNoRecord hn
    rw [recordsOf_cons, hline, hrecords, List.forall_mem_cons, hline]
    exact ⟨rfl, nofun, hread⟩

/-! ## Records -/

theorem add_data {file : HexFile} {r : Record} (hopen : file.ended = false)
    (hdata : r.isData = true) (hstop : r.stop ≤ 0x10000) :
    file.add r = .ok ⟨file.records.push r, false⟩ := by
  have hkind : r.kind = Record.dataKind := eq_of_beq hdata
  have hend : (r.kind == Record.endKind) = false := by
    rw [hkind]
    rfl
  exact add_eq_ok_iff.2 ⟨⟨hopen, .inr ⟨hdata, hstop⟩⟩, by rw [hend]⟩

theorem foldlM_add_data {records : List Record}
    (hdata : ∀ r ∈ records, r.isData = true ∧ r.stop ≤ 0x10000) {file : HexFile}
    (hopen : file.ended = false) :
    records.foldlM add file = .ok ⟨file.records ++ records.toArray, false⟩ := by
  induction records generalizing file with
  | nil =>
    rw [List.foldlM_nil, Array.append_empty, ← hopen]
    rfl
  | cons r records ih =>
    rw [List.forall_mem_cons] at hdata
    rw [List.foldlM_cons, add_data hopen hdata.1.1 hdata.1.2]
    refine (ih hdata.2 rfl).trans ?_
    rw [List.push_append_toArray]

theorem foldlM_add_complete {data : List Record} {last : Record}
    (hdata : ∀ r ∈ data, r.isData = true ∧ r.stop ≤ 0x10000) (hend : last.kind = Record.endKind) :
    (data ++ [last]).foldlM add empty = .ok ⟨data.toArray.push last, true⟩ := by
  have hlast : add ⟨data.toArray, false⟩ last = .ok ⟨data.toArray.push last, true⟩ :=
    add_eq_ok_iff.2 ⟨⟨rfl, .inl hend⟩, by rw [hend]; rfl⟩
  rw [List.foldlM_append, foldlM_add_data hdata rfl, empty, Array.empty_append]
  change List.foldlM add ⟨data.toArray, false⟩ [last] = _
  rw [List.foldlM_cons, hlast]
  rfl

/-! ## Files -/

theorem sound_ending : Record.ending.Sound := ⟨rfl, rfl⟩

theorem ofLines_of_transcript {records : List Record} {lines : List String}
    (ht : Transcript (records ++ [Record.ending]) lines) (hs : ∀ r ∈ records, r.Sound)
    (hdata : ∀ r ∈ records, r.isData = true) (hstop : ∀ r ∈ records, r.stop ≤ 0x10000) :
    ofLines lines = .ok ⟨records.toArray.push Record.ending, true⟩ := by
  have hsound : ∀ r ∈ records ++ [Record.ending], r.Sound := by
    intro r hr
    rcases List.mem_append.1 hr with hr | hr
    · exact hs r hr
    · rw [List.mem_singleton.1 hr]
      exact sound_ending
  obtain ⟨hrecords, hread⟩ := recordsOf_of_transcript ht hsound
  have hadd : (records ++ [Record.ending]).foldlM add empty =
      .ok ⟨records.toArray.push Record.ending, true⟩ :=
    foldlM_add_complete (fun r hr => ⟨hdata r hr, hstop r hr⟩) rfl
  rw [← hrecords] at hadd
  rw [ofLines, addLines_of_readable 1 hread hadd]
  rfl

theorem dataRecords_push_ending {records : List Record}
    (hdata : ∀ r ∈ records, r.isData = true) :
    dataRecords ⟨records.toArray.push Record.ending, true⟩ = records := by
  have hend : Record.ending.isData = false := by decide
  simp [dataRecords, hend, List.filter_eq_self.2 hdata]

end HexFile

end GromListing
