import GromListing.HexFile.Basic
import GromListing.Proofs.HexFile.Reading

/-!
# Accepted files

A file grows by one record after another:

* `store_eq`, `add_eq_ok_iff`: the one thing that adding a record can do, and when it does it.
* `Filed.add`, `addLines_induction`: so after any number of lines a file holds data records, and one
  end record behind them if it has ended (`filed_of_ofLines`). The records added are those that
  lines read as, so their size and checksum are right (`sound_of_ofLine`).
* `admitted_of_ofLines`: in particular each data record of an accepted file ends within the address
  space and has as many bytes as it says.
-/

set_option autoImplicit false

namespace GromListing

namespace HexFile

namespace Reading

theorem sound_of_ofBytes {bytes : List UInt8} {r : Record} (h : ofBytes bytes = .record r) :
    r.Sound := by
  unfold ofBytes at h
  split at h
  · extract_lets stored record at h
    split at h
    · rename_i hchecked
      obtain rfl := Reading.record.inj h
      exact ⟨hchecked.1, hchecked.2⟩
    · cases h
  · cases h

theorem sound_of_ofLine {line : String} {r : Record} (h : ofLine line = .record r) : r.Sound := by
  unfold ofLine at h
  split at h
  · exact sound_of_ofBytes h
  · cases h

end Reading

/-! ## One record -/

variable {file next last : HexFile} {r : Record}

theorem refusal?_eq_none_iff :
    file.refusal? r = none ↔ file.ended = false ∧
      (r.kind = Record.endKind ∨ r.isData = true ∧ r.stop ≤ 0x10000) := by
  have hkinds : Record.dataKind ≠ Record.endKind := by decide
  rw [Record.isData, beq_iff_eq, refusal?]
  cases file.ended with
  | true => simp
  | false =>
    by_cases hend : r.kind = Record.endKind
    · simp [hend]
    · by_cases hdata : r.kind = Record.dataKind <;> simp [hend, hdata, hkinds]

/-- A record is stored behind the others, and ends the file if it is an end record; a record that is
refused changes nothing. -/
theorem store_eq (file : HexFile) (r : Record) : store r file = match file.refusal? r with
    | some why => .error why file
    | none => .ok () ⟨file.records.push r, r.kind == Record.endKind⟩ := by
  obtain ⟨records, ended⟩ := file
  cases ended with
  | true => rfl
  | false =>
    by_cases hend : r.kind = Record.endKind
    · simp only [store, refusal?, hend, if_true]
      rfl
    · have hopen : (r.kind == Record.endKind) = false := beq_eq_false_iff_ne.2 hend
      by_cases hdata : r.kind = Record.dataKind
      · by_cases hstop : 0x10000 < r.stop
        · simp only [store, refusal?, hdata, hstop, if_true]
          rfl
        · simp only [store, refusal?, hdata, hstop, if_true, if_false]
          rfl
      · simp only [store, refusal?, hend, hdata, hopen, if_false]
        rfl

theorem add_eq (file : HexFile) (r : Record) : file.add r = match file.refusal? r with
    | some why => .error why
    | none => .ok ⟨file.records.push r, r.kind == Record.endKind⟩ := by
  rw [add, store_eq]
  cases file.refusal? r <;> rfl

/-- A record is added behind the others, if the file is still open and it is an end record or a data
record within the address space. -/
theorem add_eq_ok_iff :
    file.add r = .ok next ↔ (file.ended = false ∧
      (r.kind = Record.endKind ∨ r.isData = true ∧ r.stop ≤ 0x10000)) ∧
      next = ⟨file.records.push r, r.kind == Record.endKind⟩ := by
  rw [← refusal?_eq_none_iff, add_eq]
  cases file.refusal? r with
  | none => simp [eq_comm]
  | some why => simp

/-! ## All lines -/

theorem addLine_eq_ok {line : String} (h : file.addLine line = .ok next) :
    next = file ∨ ∃ r : Record, r.Sound ∧ file.add r = .ok next := by
  unfold addLine at h
  split at h
  · exact .inl (Except.ok.inj h).symm
  · cases h
  · rename_i r hr
    refine .inr ⟨r, Reading.sound_of_ofLine hr, ?_⟩
    cases hadd : file.add r with
    | ok added =>
      rw [hadd] at h
      cases h
      rfl
    | error why =>
      rw [hadd] at h
      cases h

theorem addLines_induction {motive : HexFile → Prop}
    (step : ∀ {file next : HexFile} {r : Record}, motive file → r.Sound → file.add r = .ok next →
      motive next)
    {lines : List String} {number : Nat} (h : file.addLines number lines = .ok last)
    (start : motive file) : motive last := by
  induction lines generalizing file number with
  | nil => exact Except.ok.inj h ▸ start
  | cons line lines ih =>
    unfold addLines at h
    split at h
    · rename_i next hline
      refine ih h ?_
      rcases addLine_eq_ok hline with rfl | ⟨r, hs, hadd⟩
      · exact start
      · exact step start hs hadd
    · cases h

theorem ofLines_eq_ok_iff {lines : List String} :
    ofLines lines = .ok file ↔ empty.addLines 1 lines = .ok file ∧ file.ended = true := by
  unfold ofLines
  cases empty.addLines 1 lines with
  | error fault => simp
  | ok read =>
    by_cases hended : read.ended = true
    · simp only [hended, if_true, Except.ok.injEq, iff_self_and]
      rintro rfl
      exact hended
    · simp only [hended, if_false, reduceCtorEq, Except.ok.injEq, false_iff, not_and]
      rintro rfl
      exact hended

/-! ## Files on their way -/

/-- The record has the size of its data and, if it is a data record, is within the address space. -/
structure Record.Admitted (r : Record) : Prop where
  sound : r.Sound
  stop_le : r.isData = true → r.stop ≤ 0x10000

/-- The file has data records and, if it has ended, one end record behind them. -/
inductive Filed : HexFile → Prop
  | opened {data : List Record} : (∀ r ∈ data, r.isData = true ∧ r.Admitted) →
      Filed ⟨data.toArray, false⟩
  | closed {data : List Record} {last : Record} : (∀ r ∈ data, r.isData = true ∧ r.Admitted) →
      last.kind = Record.endKind → last.Sound → Filed ⟨data.toArray.push last, true⟩

namespace Filed

theorem empty : Filed empty := opened (List.forall_mem_nil _)

/-- Nothing is added to a file that has ended, so the records so far are all data records. -/
theorem add (h : Filed file) (hs : r.Sound) (hadd : file.add r = .ok next) : Filed next := by
  obtain ⟨⟨hopen, hkind⟩, rfl⟩ := add_eq_ok_iff.1 hadd
  cases h with
  | closed => cases hopen
  | @opened data hall =>
    rcases hkind with hend | ⟨hdata, hstop⟩
    · rw [hend]
      exact closed hall hend hs
    · have hkind : (r.kind == Record.endKind) = false := by
        rw [eq_of_beq hdata]
        rfl
      rw [hkind, List.push_toArray]
      refine opened fun s hs' => ?_
      rcases List.mem_append.1 hs' with hmem | hmem
      · exact hall s hmem
      · rw [List.mem_singleton.1 hmem]
        exact ⟨hdata, hs, fun _ => hstop⟩

theorem admitted (h : Filed file) : ∀ r ∈ file.dataRecords, r.isData = true ∧ r.Admitted := by
  intro r hr
  obtain ⟨hmem, hdata⟩ := List.mem_filter.1 hr
  cases h with
  | opened hall => exact hall r hmem
  | closed hall hend _ =>
    rw [Array.toList_push] at hmem
    rcases List.mem_append.1 hmem with hmem | hmem
    · exact hall r hmem
    · -- no record is of both kinds
      rw [List.mem_singleton.1 hmem, Record.isData, hend] at hdata
      cases hdata

end Filed

theorem filed_of_ofLines {lines : List String} (h : ofLines lines = .ok file) : file.Filed :=
  addLines_induction (fun hfile hs hadd => hfile.add hs hadd) (ofLines_eq_ok_iff.1 h).1 .empty

theorem admitted_of_ofLines {lines : List String} (h : ofLines lines = .ok file) :
    ∀ r ∈ file.dataRecords, r.isData = true ∧ r.Admitted := (filed_of_ofLines h).admitted

end HexFile

end GromListing
