import GromListing.Proofs.HexFile.Transcript

/-!
# Which files are accepted, and which line is blamed

* `holding`: the file of some records, as adding them one by one leaves it (`addLines_holding`).
* `addLine_holding_eq_error_iff`: a line is turned down just when it is wrong behind these records.
* `faultless_iff`: so lines are all taken just when none is wrong behind those before it, and else
  reading stops at the first that is (`addLines_append`).
* `ofLines_verdict`: what comes out for any list of lines.
-/

set_option autoImplicit false

namespace GromListing

namespace HexFile

/-- The file of these records, which has ended if one of them ends a file. -/
def holding (records : List Record) : HexFile :=
  ⟨records.toArray, records.any (·.kind == Record.endKind)⟩

variable {file next last : HexFile} {before : List Record} {r : Record} {line : String}
  {lines : List String} {number : Nat}

theorem ended_holding_iff :
    (holding before).ended = true ↔ ∃ e ∈ before, e.kind = Record.endKind := by
  simp [holding]

theorem ended_holding_eq_false_iff :
    (holding before).ended = false ↔ ∀ e ∈ before, e.kind ≠ Record.endKind := by
  rw [← Bool.not_eq_true, ended_holding_iff]
  simp

/-! ## One line -/

theorem add_holding (h : (holding before).add r = .ok next) : next = holding (before ++ [r]) := by
  obtain ⟨⟨hopen, -⟩, rfl⟩ := add_eq_ok_iff.1 h
  have hany : before.any (·.kind == Record.endKind) = false := hopen
  simp [holding, List.any_append, hany]

theorem addLine_holding (h : (holding before).addLine line = .ok next) :
    next = holding (before ++ (Reading.ofLine line).record?.toList) := by
  unfold addLine at h
  cases hline : Reading.ofLine line with
  | blank =>
    rw [hline] at h
    simpa [Reading.record?] using (Except.ok.inj h).symm
  | malformed =>
    rw [hline] at h
    cases h
  | record r =>
    rw [hline] at h
    cases hadd : (holding before).add r with
    | ok added =>
      simp only [hadd, Except.mapError, Except.ok.injEq] at h
      subst h
      exact add_holding hadd
    | error why => simp [hadd, Except.mapError] at h

theorem refusal?_holding_iff {cause : LineFault} (hline : Reading.ofLine line = .record r) :
    (∃ why, (holding before).refusal? r = some why ∧ cause = .refused why) ↔
      Wrong before line cause := by
  constructor
  · rintro ⟨why, hwhy, rfl⟩
    unfold refusal? at hwhy
    split at hwhy
    · rename_i hended
      obtain ⟨e, he, hend⟩ := ended_holding_iff.1 hended
      cases hwhy
      exact .afterEnd hline he hend
    · rename_i hopen
      have hopen := ended_holding_eq_false_iff.1 (Bool.eq_false_iff.2 hopen)
      split at hwhy
      · cases hwhy
      · rename_i hend
        split at hwhy
        · rename_i hdata
          split at hwhy
          · rename_i hstop
            cases hwhy
            exact .pastTop hline hopen hdata hstop
          · cases hwhy
        · rename_i hdata
          cases hwhy
          exact .unsupportedKind hline hopen hdata hend
  · have hkinds : Record.dataKind ≠ Record.endKind := by decide
    intro h
    cases h with
    | malformed h => simp [hline] at h
    | afterEnd _ he hend =>
      exact ⟨.afterEnd, by rw [refusal?, if_pos (ended_holding_iff.2 ⟨_, he, hend⟩)], rfl⟩
    | unsupportedKind h hopen hdata hend =>
      obtain rfl := Reading.record.inj (hline.symm.trans h)
      refine ⟨.unsupportedKind r.kind, ?_, rfl⟩
      simp [refusal?, ended_holding_eq_false_iff.2 hopen, hdata, hend]
    | pastTop h hopen hdata hstop =>
      obtain rfl := Reading.record.inj (hline.symm.trans h)
      refine ⟨.pastTop r.address, ?_, rfl⟩
      simp [refusal?, ended_holding_eq_false_iff.2 hopen, hdata, hkinds, hstop]

theorem addLine_holding_eq_error_iff {cause : LineFault} :
    (holding before).addLine line = .error cause ↔ Wrong before line cause := by
  unfold addLine
  cases hline : Reading.ofLine line with
  | blank =>
    refine ⟨nofun, fun h => ?_⟩
    cases h <;> simp_all
  | malformed =>
    refine ⟨fun h => ?_, fun h => ?_⟩
    · cases h
      exact .malformed hline
    · cases h <;> simp_all
  | record r =>
    rw [← refusal?_holding_iff hline]
    simp only [add_eq]
    cases (holding before).refusal? r with
    | none => simp [Except.mapError]
    | some why => simp [Except.mapError, eq_comm]

/-! ## All lines -/

theorem addLines_append (before after : List String) :
    file.addLines number (before ++ after) =
      match file.addLines number before with
      | .ok next => next.addLines (number + before.length) after
      | .error fault => .error fault := by
  induction before generalizing file number with
  | nil => rfl
  | cons line before ih =>
    rw [List.cons_append, addLines, addLines]
    cases file.addLine line with
    | error cause => rfl
    | ok next =>
      simp only [ih, List.length_cons]
      rw [show number + 1 + before.length = number + (before.length + 1) by omega]

theorem addLines_holding (h : (holding before).addLines number lines = .ok next) :
    next = holding (before ++ recordsOf lines) := by
  induction lines generalizing before number with
  | nil =>
    rw [recordsOf, List.filterMap_nil, List.append_nil]
    exact (Except.ok.inj h).symm
  | cons line lines ih =>
    unfold addLines at h
    split at h
    · rename_i read hline
      rw [addLine_holding hline] at h
      rw [recordsOf_cons, ← List.append_assoc]
      exact ih h
    · cases h

theorem eq_holding_of_addLines (h : empty.addLines number lines = .ok next) :
    next = holding (recordsOf lines) := by
  have h : (holding []).addLines number lines = .ok next := h
  exact addLines_holding h

theorem exists_of_addLines_eq_error {fault : Fault}
    (h : file.addLines number lines = .error fault) :
    ∃ before line after next cause, lines = before ++ line :: after ∧
      file.addLines number before = .ok next ∧ next.addLine line = .error cause := by
  induction lines generalizing file number with
  | nil => cases h
  | cons line lines ih =>
    cases hline : file.addLine line with
    | error cause => exact ⟨[], line, lines, file, cause, rfl, rfl, hline⟩
    | ok read =>
      rw [addLines, hline] at h
      obtain ⟨before, other, after, next, cause, rfl, hbefore, hother⟩ := ih h
      refine ⟨line :: before, other, after, next, cause, rfl, ?_, hother⟩
      rw [addLines, hline]
      exact hbefore

theorem faultless_iff : Faultless lines ↔ ∃ file, empty.addLines 1 lines = .ok file := by
  constructor
  · intro h
    cases hread : empty.addLines 1 lines with
    | ok file => exact ⟨file, rfl⟩
    | error fault =>
      obtain ⟨before, line, after, next, cause, rfl, hbefore, hline⟩ :=
        exists_of_addLines_eq_error hread
      obtain rfl := eq_holding_of_addLines hbefore
      exact absurd (addLine_holding_eq_error_iff.1 hline) (h before line after rfl cause)
  · rintro ⟨file, hfile⟩ before line after rfl cause hwrong
    rw [addLines_append] at hfile
    cases hbefore : empty.addLines 1 before with
    | error fault =>
      rw [hbefore] at hfile
      cases hfile
    | ok next =>
      obtain rfl := eq_holding_of_addLines hbefore
      simp only [hbefore, addLines, addLine_holding_eq_error_iff.2 hwrong] at hfile
      cases hfile

theorem addLines_of_wrong {before after : List String} {cause : LineFault} (h : Faultless before)
    (hwrong : Wrong (recordsOf before) line cause) :
    empty.addLines 1 (before ++ line :: after) = .error (.hexLine (before.length + 1) cause) := by
  obtain ⟨next, hbefore⟩ := faultless_iff.1 h
  obtain rfl := eq_holding_of_addLines hbefore
  simp only [addLines_append, hbefore, addLines, addLine_holding_eq_error_iff.2 hwrong,
    Nat.add_comm 1]

/-! ## Files -/

theorem faultless_readable (h : Faultless lines) :
    ∀ line ∈ lines, Reading.ofLine line ≠ .malformed := by
  intro line hline hmalformed
  obtain ⟨before, after, rfl⟩ := List.append_of_mem hline
  exact h before line after rfl .malformed (.malformed hmalformed)

theorem Filed.complete {data : List Record} {ended : Bool} (h : Filed ⟨data.toArray, ended⟩)
    (hended : ended = true) : Complete data := by
  cases hended
  generalize hfile : (⟨data.toArray, true⟩ : HexFile) = file at h
  cases h with
  | opened => cases hfile
  | @closed before last hall hend hs =>
    have hdata : data = before ++ [last] := by
      have hrecords := congrArg (fun file => file.records.toList) hfile
      simpa using hrecords
    exact ⟨before, last, hdata,
      fun r hr => ⟨eq_of_beq (hall r hr).1, (hall r hr).2.stop_le (hall r hr).1⟩, hend⟩

theorem ofLines_eq_ok_iff_complete : ofLines lines = .ok file ↔
    (∀ line ∈ lines, Reading.ofLine line ≠ .malformed) ∧ Complete (recordsOf lines) ∧
      file = ⟨(recordsOf lines).toArray, true⟩ := by
  constructor
  · intro h
    obtain ⟨hread, hended⟩ := ofLines_eq_ok_iff.1 h
    have hfile := eq_holding_of_addLines hread
    have hfiled := filed_of_ofLines h
    subst hfile
    refine ⟨faultless_readable (faultless_iff.2 ⟨_, hread⟩), hfiled.complete hended, ?_⟩
    rw [← hended]
    rfl
  · rintro ⟨hread, ⟨data, last, hrecords, hdata, hend⟩, rfl⟩
    have hadd := foldlM_add_complete (fun r hr => ⟨beq_iff_eq.2 (hdata r hr).1, (hdata r hr).2⟩)
      hend
    rw [← hrecords] at hadd
    refine ofLines_eq_ok_iff.2 ⟨?_, rfl⟩
    rw [addLines_of_readable 1 hread hadd, hrecords, List.push_toArray]

/-- **A hex file is accepted just when it is well formed, and else the first bad line is blamed.**
Lines are a file when all of them can be read and their records are data records within the address
space and then one end record; the file has exactly these records. If a line is wrong behind those
before it, and none of those is, then the error tells its number and what is wrong, whatever stands
behind it. If no line is wrong, all that can be missing is the end record. -/
theorem ofLines_verdict (lines : List String) :
    (∀ file, ofLines lines = .ok file ↔
      (∀ line ∈ lines, Reading.ofLine line ≠ .malformed) ∧ Complete (recordsOf lines) ∧
        file = ⟨(recordsOf lines).toArray, true⟩) ∧
    (∀ before line after cause, lines = before ++ line :: after → Faultless before →
      Wrong (recordsOf before) line cause →
      (∀ others, ofLines (before ++ line :: others) =
        .error (.hexLine (before.length + 1) cause)) ∧
      (Fault.hexLine (before.length + 1) cause).report = ⟨.hexFormat, none,
        Text.red "Hex Error" ++ ", line " ++ toString (before.length + 1) ++ ": " ++
          cause.message⟩) ∧
    (Faultless lines → (∀ file, ofLines lines ≠ .ok file) →
      ofLines lines = .error .endRecordMissing ∧
        Fault.endRecordMissing.report.kind = .general) := by
  refine ⟨fun file => ofLines_eq_ok_iff_complete, fun before line after cause _ h hwrong => ?_,
    fun h hnone => ?_⟩
  · refine ⟨fun others => ?_, rfl⟩
    rw [ofLines, addLines_of_wrong h hwrong]
  · obtain ⟨file, hfile⟩ := faultless_iff.1 h
    have hopen : file.ended ≠ true := fun hended =>
      hnone file (ofLines_eq_ok_iff.2 ⟨hfile, hended⟩)
    refine ⟨?_, rfl⟩
    rw [ofLines, hfile]
    exact if_neg hopen

/-- Another record behind the end record, which closes a file that has a line without a record. -/
theorem ofLines_verdict_late :
    let before := [":0360000000042A6F", "no record", ":00000001FF"]
    let line := ":0360000000042A6F"
    let data : Record := ⟨3, 0x6000, 0x00, [0x00, 0x04, 0x2A], 0x6F⟩
    ofLines before = .ok ⟨#[data, .ending], true⟩ ∧ Complete (recordsOf before) ∧
      Faultless before ∧ Wrong (recordsOf before) line (.refused .afterEnd) ∧
      ∀ others, ofLines (before ++ line :: others) = .error (.hexLine 4 (.refused .afterEnd)) := by
  intro before line data
  have hfile : ofLines before = .ok ⟨#[data, .ending], true⟩ := by rfl
  have hline : Reading.ofLine ":0360000000042A6F" = .record data := by rfl
  have hfaultless : Faultless before := faultless_iff.2 ⟨_, (ofLines_eq_ok_iff.1 hfile).1⟩
  obtain ⟨haccepted, -, -⟩ := ofLines_verdict before
  obtain ⟨-, hcomplete, hrecords⟩ := (haccepted _).1 hfile
  have hend : Record.ending ∈ recordsOf before := by
    have hlist := congrArg (fun file => file.records.toList) hrecords
    have hlist : [data, .ending] = recordsOf before := hlist
    rw [← hlist]
    exact List.mem_cons_of_mem data List.mem_cons_self
  have hwrong : Wrong (recordsOf before) line (.refused .afterEnd) := .afterEnd hline hend rfl
  obtain ⟨-, hblamed, -⟩ := ofLines_verdict (before ++ line :: [])
  obtain ⟨hall, -⟩ := hblamed before line [] _ rfl hfaultless hwrong
  exact ⟨hfile, hcomplete, hfaultless, hwrong, hall⟩

end HexFile

end GromListing
