import GromListing.HexFile.Conformance
import GromListing.Proofs.HexFile.Acceptance

/-!
# A file while records are added

* `Filed.consistent`: what an open file and one that has ended have in common.
* `store_eq_error_iff`, `store_eq_ok_iff`: one attempt to add a record, in which cases it fails, and
  what it leaves behind either way.
* `attempts_consistent`: so a file stays consistent under any number of attempts.
-/

set_option autoImplicit false

namespace GromListing

namespace HexFile

variable {file next left : HexFile} {r : Record} {why : Refusal}

/-! ## Files on their way are consistent -/

theorem Filed.consistent (h : file.Filed) : file.Consistent := by
  have hkinds : Record.dataKind ≠ Record.endKind := by decide
  cases h with
  | @opened data hall =>
    have hkind : ∀ r ∈ data, r.kind = Record.dataKind := fun r hr => eq_of_beq (hall r hr).1
    refine ⟨?_, ?_, ?_, ?_, ?_⟩
    · constructor
      · intro hended
        cases hended
      · rintro ⟨last, hlast, hend⟩
        exact absurd ((hkind last (List.mem_of_getLast? hlast)).symm.trans hend) hkinds
    · exact fun r hr => hkind r (List.dropLast_subset data hr)
    · exact fun r hr => .inl (hkind r (List.mem_of_getLast? hr))
    · exact fun r hr _ => (hall r hr).2.stop_le (hall r hr).1
    · exact fun r hr => (hall r hr).2.sound.length_data
  | @closed data last hall hend hs =>
    have hlist : (data.toArray.push last).toList = data ++ [last] := by simp
    refine ⟨?_, ?_, ?_, ?_, ?_⟩
    · simp [hend]
    · intro r hr
      rw [hlist, List.dropLast_concat] at hr
      exact eq_of_beq (hall r hr).1
    · intro r hr
      rw [hlist, List.getLast?_concat, Option.some.injEq] at hr
      exact .inr (hr ▸ hend)
    · intro r hr hdata
      rw [hlist] at hr
      rcases List.mem_append.1 hr with hr | hr
      · exact (hall r hr).2.stop_le (hall r hr).1
      · rw [List.mem_singleton.1 hr, hend] at hdata
        exact absurd hdata.symm hkinds
    · intro r hr
      rw [hlist] at hr
      rcases List.mem_append.1 hr with hr | hr
      · exact (hall r hr).2.sound.length_data
      · rw [List.mem_singleton.1 hr]
        exact hs.length_data

/-! ## One attempt -/

theorem store_eq_error_iff :
    store r file = .error why left ↔ file.refusal? r = some why ∧ left = file := by
  rw [store_eq]
  cases file.refusal? r with
  | none => simp
  | some why' => simp [eq_comm]

theorem store_eq_ok_iff : store r file = .ok () next ↔ file.add r = .ok next := by
  rw [store_eq, add_eq]
  cases file.refusal? r with
  | none => simp
  | some why => simp

theorem exists_refusal_iff : (∃ why, file.refusal? r = some why) ↔
    file.ended = true ∨ (r.kind ≠ Record.dataKind ∧ r.kind ≠ Record.endKind) ∨
      (r.kind = Record.dataKind ∧ 0x10000 < r.stop) := by
  rw [← Option.isSome_iff_exists, ← Option.ne_none_iff_isSome, ne_eq, refusal?_eq_none_iff,
    Record.isData, beq_iff_eq, ← Nat.not_lt]
  cases file.ended with
  | true => simp
  | false =>
    have hkinds : Record.dataKind ≠ Record.endKind := by decide
    by_cases hend : r.kind = Record.endKind
    · simp [hend, hkinds.symm]
    · by_cases hdata : r.kind = Record.dataKind <;> simp [hend, hdata, hkinds]

/-! ## Any number of attempts -/

theorem Filed.attempt (h : file.Filed) (hs : r.Sound) : (file.attempt r).Filed := by
  unfold HexFile.attempt
  split
  · rename_i next hstore
    exact h.add hs (store_eq_ok_iff.1 hstore)
  · rename_i why left hstore
    rw [(store_eq_error_iff.1 hstore).2]
    exact h

theorem Filed.attempts {records : List Record} (h : file.Filed) (hs : ∀ r ∈ records, r.Sound) :
    (records.foldl HexFile.attempt file).Filed := by
  induction records generalizing file with
  | nil => exact h
  | cons r records ih =>
    rw [List.forall_mem_cons] at hs
    exact ih (h.attempt hs.1) hs.2

/-- **A file stays consistent whatever is added to it.** After any records that were read have been
added or refused, the file is consistent. A further record is refused just when the file has ended,
the record is of neither kind, or it is a data record that leaves the address space. If it is
refused, records and ending are as before; else it stands behind the records before it. -/
theorem attempts_consistent (records : List Record)
    (hread : ∀ r ∈ records, ∃ line, Reading.ofLine line = .record r) :
    let file := records.foldl attempt empty
    file.Consistent ∧ ∀ r : Record,
      ((∃ why left, store r file = .error why left) ↔
        file.ended = true ∨ (r.kind ≠ Record.dataKind ∧ r.kind ≠ Record.endKind) ∨
          (r.kind = Record.dataKind ∧ 0x10000 < r.stop)) ∧
      (∀ why left, store r file = .error why left → left = file) ∧
      ∀ next, store r file = .ok () next → next.records = file.records.push r := by
  intro file
  have hsound : ∀ r ∈ records, r.Sound := by
    intro r hr
    obtain ⟨line, hline⟩ := hread r hr
    exact Reading.sound_of_ofLine hline
  have hfiled : file.Filed := Filed.empty.attempts hsound
  refine ⟨hfiled.consistent, fun r => ⟨?_, ?_, ?_⟩⟩
  · rw [← exists_refusal_iff]
    constructor
    · rintro ⟨why, left, hstore⟩
      exact ⟨why, (store_eq_error_iff.1 hstore).1⟩
    · rintro ⟨why, hwhy⟩
      exact ⟨why, file, store_eq_error_iff.2 ⟨hwhy, rfl⟩⟩
  · exact fun why left hstore => (store_eq_error_iff.1 hstore).2
  · intro next hstore
    obtain ⟨-, rfl⟩ := add_eq_ok_iff.1 (store_eq_ok_iff.1 hstore)
    rfl

/-- A data record, a record of another kind, the end record, and a data record too late. -/
theorem attempts_consistent_late :
    let data : Record := ⟨3, 0x6000, 0x00, [0x00, 0x04, 0x2A], 0x6F⟩
    let extended : Record := ⟨2, 0x0000, 0x02, [0x10, 0x00], 0xEC⟩
    let records := [data, extended, .ending, data]
    let file : HexFile := ⟨#[data, .ending], true⟩
    (∀ r ∈ records, ∃ line, Reading.ofLine line = .record r) ∧
      records.foldl attempt empty = file ∧ file.Consistent ∧
      ∃ why left, store data file = .error why left ∧ left = file := by
  intro data extended records file
  have hread : ∀ r ∈ records, ∃ line, Reading.ofLine line = .record r := by
    have hdata : Reading.ofLine ":0360000000042A6F" = .record data := by rfl
    have hextended : Reading.ofLine ":020000021000EC" = .record extended := by rfl
    have hending : Reading.ofLine ":00000001FF" = .record .ending := by rfl
    simp only [records, List.forall_mem_cons]
    exact ⟨⟨_, hdata⟩, ⟨_, hextended⟩, ⟨_, hending⟩, ⟨_, hdata⟩, List.forall_mem_nil _⟩
  have hfile : records.foldl attempt empty = file := by decide +kernel
  obtain ⟨hconsistent, hadd⟩ := attempts_consistent records hread
  rw [hfile] at hconsistent hadd
  obtain ⟨hfails, hleft, -⟩ := hadd data
  obtain ⟨why, left, hstore⟩ := hfails.2 (.inl rfl)
  exact ⟨hread, hfile, hconsistent, why, left, hstore, hleft why left hstore⟩

end HexFile

end GromListing
