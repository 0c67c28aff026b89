import GromListing.Proofs.Listing.Coverage

/-!
# What a sweep tells of

A sweep tells when it comes to bytes that no instruction begins with, and lists these as data:

* `tailSteps`: the steps of such bytes. The notice comes with the first of them and has their number
  in it three times.
* `Sweep.exists_steps_eq`: the steps of a sweep are those of instructions, with which nothing is told,
  and those of the bytes behind them up to the end of the range.
* `sweep_resync`: so a sweep that lists data gives one notice, with the first line of data, and what
  the notice says is so. A sweep that lists none gives no notice.
-/

set_option autoImplicit false

namespace GromListing.Listing

/-- The step of a line with which nothing is told. -/
def Step.silent (line : Line) : Step := ⟨line, none⟩

/-- The notice that the `count` bytes from `addr` on are too few for the instruction there. -/
def resyncNotice (addr : UInt16) (count : Nat) : Notice := .resync ⟨addr, count + 1, count⟩ count

/-- The steps of bytes that are too few for an instruction, the first of them at `addr`. -/
def tailSteps (addr : Nat) : List UInt8 → List Step
  | [] => []
  | first :: rest =>
    ⟨.data (UInt16.ofNat addr) first, some (resyncNotice (UInt16.ofNat addr) (rest.length + 1))⟩ ::
      (dataLines (addr + 1) rest).map .silent

theorem map_line_silent (lines : List Line) : (lines.map Step.silent).map (·.line) = lines := by
  rw [List.map_map]
  exact List.map_id lines

theorem notice_of_mem_silent {lines : List Line} {step : Step}
    (h : step ∈ lines.map Step.silent) : step.notice = none := by
  obtain ⟨line, -, rfl⟩ := List.mem_map.1 h
  rfl

theorem map_line_tailSteps (addr : Nat) (bytes : List UInt8) :
    (tailSteps addr bytes).map (·.line) = dataLines addr bytes := by
  cases bytes with
  | nil => rfl
  | cons first rest => rw [tailSteps, List.map_cons, map_line_silent, dataLines]

theorem map_line_append_tailSteps (code : List Line) (addr : Nat) (bytes : List UInt8) :
    (code.map Step.silent ++ tailSteps addr bytes).map (·.line) = code ++ dataLines addr bytes := by
  rw [List.map_append, map_line_silent, map_line_tailSteps]

/-! ## All steps -/

namespace Sweep

theorem exists_steps_eq (s : Sweep) (h : s.Inside) (ht : s.inTail = false) :
    ∃ (insts : List Instruction) (addr : Nat), s.position ≤ addr ∧
      s.steps = (insts.map Line.code).map .silent ++ tailSteps addr (s.image.range addr s.stop) := by
  cases hd : Instruction.decode s.addr s.left with
  | ok inst =>
    obtain ⟨insts, addr, hle, hsteps⟩ :=
      exists_steps_eq (s.advance inst.size) (h.advance inst.size) ht
    refine ⟨inst :: insts, addr, Nat.le_trans (Nat.le_add_right ..) hle, ?_⟩
    rw [steps_of_some (h.next_of_ok ht hd), hsteps]
    rfl
  | error cause =>
    -- the bytes that are left are the whole tail
    refine ⟨[], s.position, Nat.le_refl _, ?_⟩
    change s.steps = tailSteps s.position s.left
    obtain ⟨-, rfl⟩ := Instruction.truncation_of_decode hd
    cases hl : s.left with
    | nil => rw [steps_of_none (h.next_of_left_nil hl), tailSteps]
    | cons first rest =>
      have hrest : (s.advance 1).enterTail.left = rest := h.left_advance_one hl
      rw [steps_of_some (h.next_of_error ht hl hd), steps_of_tail _ (h.advance 1).enterTail rfl,
        hrest, hl]
      rfl
termination_by s.stop - s.position
decreasing_by exact next_lt (h.next_of_ok ht hd)

end Sweep

theorem exists_sweep_eq {image : Image} (h : image.Fits) (start : UInt16) (stop : UInt32) :
    ∃ (insts : List Instruction) (addr : Nat), image.origin.toNat ≤ addr ∧
      sweep image start stop = (insts.map Line.code).map .silent ++
        tailSteps addr (image.range addr (min stop.toNat image.stop.toNat)) := by
  obtain ⟨insts, addr, hle, hsteps⟩ :=
    (Sweep.start image start stop).exists_steps_eq (Sweep.start_inside h start stop) rfl
  exact ⟨insts, addr, Nat.le_trans (Nat.le_max_right ..) hle, hsteps⟩

theorem countP_isData_append_dataLines (insts : List Instruction) (addr : Nat)
    (bytes : List UInt8) :
    (insts.map Line.code ++ dataLines addr bytes).countP (·.isData) = bytes.length := by
  have hcode : (insts.map Line.code).countP (·.isData) = 0 :=
    List.countP_eq_zero.2 fun line hline => by
      rw [isData_of_mem_code hline]
      exact Bool.false_ne_true
  have hdata : (dataLines addr bytes).countP (·.isData) = (dataLines addr bytes).length :=
    List.countP_eq_length.2 fun line hline => (isData_of_mem_dataLines hline).1
  rw [List.countP_append, hcode, hdata, length_dataLines, Nat.zero_add]

/-- **What a sweep tells of is so.** Without data lines it gives no notice. Otherwise it gives one,
with the first of them and for its address: as many bytes are there as there are data lines, one more
is needed for an instruction, and so many are listed as data. -/
theorem sweep_resync (image : Image) (h : image.Fits) (start : UInt16) (stop : UInt32) :
    let steps := sweep image start stop
    let count := (steps.map (·.line)).countP (·.isData)
    (count = 0 → ∀ step ∈ steps, step.notice = none) ∧
    (0 < count → ∃ before first after, steps = before ++ first :: after ∧
      (∀ step ∈ before, step.line.isData = false ∧ step.notice = none) ∧
      first.line.isData = true ∧ (∀ step ∈ after, step.notice = none) ∧
      ∃ notice, first.notice = some notice ∧
        notice = .resync ⟨first.line.addr, count + 1, count⟩ count ∧
        notice.text = Text.red "WARNING" ++ ": " ++ (Text.red "Truncated Instruction" ++ " byte " ++
          toString (count + 1) ++ " needed but only " ++ toString count ++ " supplied" ++
          " (instruction at >" ++ Hex.word first.line.addr ++ ")" ++ "; listing remaining " ++
          toString count ++ " bytes as data") ++ "\r") := by
  intro steps count
  obtain ⟨insts, addr, -, hsteps⟩ := exists_sweep_eq h start stop
  generalize image.range addr (min stop.toNat image.stop.toNat) = tail at hsteps
  have hcount : count = tail.length := by
    rw [← countP_isData_append_dataLines insts addr tail, ← map_line_append_tailSteps, ← hsteps]
  have hsteps : steps = (insts.map Line.code).map .silent ++ tailSteps addr tail := hsteps
  rw [hcount, hsteps]
  cases tail with
  | nil =>
    refine ⟨fun _ step hstep => ?_, fun hpos => absurd hpos (Nat.lt_irrefl 0)⟩
    rw [tailSteps, List.append_nil] at hstep
    exact notice_of_mem_silent hstep
  | cons first rest =>
    refine ⟨fun hzero => absurd hzero (Nat.succ_ne_zero _), fun _ => ?_⟩
    refine ⟨_, _, _, rfl, fun step hstep => ⟨?_, notice_of_mem_silent hstep⟩, rfl,
      fun step hstep => notice_of_mem_silent hstep, _, rfl, rfl, rfl⟩
    obtain ⟨line, hline, rfl⟩ := List.mem_map.1 hstep
    exact isData_of_mem_code hline

/-- A return and a branch cut short: one notice, with the first of the two bytes of the branch. -/
theorem sweep_resync_truncated :
    let image : Image := ⟨0x6000, #[0x00, 0x05, 0x12]⟩
    let steps := sweep image 0x6000 0x6003
    image.Fits ∧ 0 < (steps.map (·.line)).countP (·.isData) ∧
      ∃ before first after, steps = before ++ first :: after ∧ first.line.isData = true ∧
        first.notice = some (.resync ⟨first.line.addr, 3, 2⟩ 2) ∧
        (∀ step ∈ before, step.notice = none) ∧ ∀ step ∈ after, step.notice = none := by
  intro image steps
  have h : image.Fits := by decide
  have hcount : (steps.map (·.line)).countP (·.isData) = 2 := by decide +kernel
  obtain ⟨-, hsome⟩ := sweep_resync image h 0x6000 0x6003
  obtain ⟨before, first, after, hsteps, hbefore, hdata, hafter, notice, hnotice, rfl, -⟩ :=
    hsome (hcount ▸ Nat.two_pos)
  rw [hcount] at hnotice
  exact ⟨h, hcount ▸ Nat.two_pos, before, first, after, hsteps, hdata, hnotice,
    fun step hstep => (hbefore step hstep).2, hafter⟩

end GromListing.Listing
