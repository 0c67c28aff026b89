import GromListing.Proofs.Listing.Sweep

/-!
# A listing accounts for every byte

* `Placed addr lines`: each line stands right behind the bytes of the lines before it, and shows
  what its own bytes decode to there. Plain lines are placed (`placed_plainLines`), and what is
  placed has no more lines than bytes (`Placed.length_le`).
* `flatMap_bytes_plainLines`: the bytes of the lines, put together, are the bytes listed.
* `plainLines_split`: instructions come first, and fewer than thirteen bytes of data last.
* `sweep_coverage`: all of this for a sweep.
-/

set_option autoImplicit false

namespace GromListing.Listing

/-- The lines stand one behind the other, the first of them at `addr`. Each has bytes, and an
instruction is what its own bytes decode to. -/
def Placed : Nat → List Line → Prop
  | _, [] => True
  | addr, line :: rest =>
    line.addr = UInt16.ofNat addr ∧ line.bytes ≠ [] ∧
      (∀ inst, line = .code inst → Instruction.decode line.addr inst.bytes = .ok inst) ∧
      Placed (addr + line.bytes.length) rest

theorem placed_dataLines (addr : Nat) (bytes : List UInt8) : Placed addr (dataLines addr bytes) := by
  induction bytes generalizing addr with
  | nil => trivial
  | cons byte rest ih => exact ⟨rfl, List.cons_ne_nil byte [], nofun, ih (addr + 1)⟩

theorem placed_plainLines (addr : Nat) (bytes : List UInt8) :
    Placed addr (plainLines addr bytes) := by
  fun_induction plainLines addr bytes with
  | case1 => trivial
  | case2 addr first rest inst hd hpos ih =>
    have hw := (Instruction.exists_append_of_decode hd).1
    refine ⟨hw.addr_eq, List.length_pos_iff.1 hpos, fun _ he => ?_, ih⟩
    cases he
    simpa [Line.addr, hw.addr_eq] using hw.decode_append []
  | case3 addr first rest => exact placed_dataLines addr (first :: rest)

namespace Placed

variable {addr : Nat} {lines before after : List Line} {line : Line}

theorem append_right (h : Placed addr (before ++ after)) :
    Placed (addr + (before.flatMap Line.bytes).length) after := by
  induction before generalizing addr with
  | nil => exact h
  | cons line before ih =>
    have hrest := ih h.2.2.2
    simpa only [List.flatMap_cons, List.length_append, Nat.add_assoc] using hrest

theorem length_le (h : Placed addr lines) : lines.length ≤ (lines.flatMap Line.bytes).length := by
  induction lines generalizing addr with
  | nil => exact Nat.le_refl 0
  | cons line lines ih =>
    have hline : 0 < line.bytes.length := List.length_pos_iff.2 h.2.1
    have hrest := ih h.2.2.2
    simp only [List.length_cons, List.flatMap_cons, List.length_append]
    omega

end Placed

theorem flatMap_bytes_dataLines (addr : Nat) (bytes : List UInt8) :
    (dataLines addr bytes).flatMap Line.bytes = bytes := by
  induction bytes generalizing addr with
  | nil => rfl
  | cons byte rest ih => simp [dataLines, Line.bytes, ih]

theorem flatMap_bytes_plainLines (addr : Nat) (bytes : List UInt8) :
    (plainLines addr bytes).flatMap Line.bytes = bytes := by
  fun_induction plainLines addr bytes with
  | case1 => rfl
  | case2 addr first rest inst hd _ ih =>
    have hbytes := Instruction.bytes_eq_of_decode hd
    rw [List.flatMap_cons, ih, Line.bytes, hbytes, List.take_append_drop]
  | case3 addr first rest => exact flatMap_bytes_dataLines addr (first :: rest)

theorem length_dataLines (addr : Nat) (bytes : List UInt8) :
    (dataLines addr bytes).length = bytes.length := by
  induction bytes generalizing addr with
  | nil => rfl
  | cons byte rest ih => simp [dataLines, ih]

theorem isData_of_mem_dataLines {addr : Nat} {bytes : List UInt8} {line : Line}
    (h : line ∈ dataLines addr bytes) : line.isData = true ∧ line.bytes.length = 1 := by
  induction bytes generalizing addr with
  | nil => cases h
  | cons byte rest ih =>
    cases h with
    | head => exact ⟨rfl, rfl⟩
    | tail _ h => exact ih h

theorem isData_of_mem_code {insts : List Instruction} {line : Line}
    (h : line ∈ insts.map Line.code) : line.isData = false := by
  obtain ⟨inst, -, rfl⟩ := List.mem_map.1 h
  rfl

theorem plainLines_split (addr : Nat) (bytes : List UInt8) :
    ∃ (insts : List Instruction) (stop : Nat) (tail : List UInt8),
      plainLines addr bytes = insts.map .code ++ dataLines stop tail ∧
        tail.length < Instruction.maxSize := by
  fun_induction plainLines addr bytes with
  | case1 addr => exact ⟨[], addr, [], rfl, by decide⟩
  | case2 addr first rest inst hd _ ih =>
    obtain ⟨insts, stop, tail, he, hl⟩ := ih
    exact ⟨inst :: insts, stop, tail, by rw [he]; rfl, hl⟩
  | case3 addr first rest cause hd =>
    exact ⟨[], addr, first :: rest, rfl, (Instruction.truncation_of_decode hd).1⟩

theorem addr_prefix_text (line : Line) : (Hex.word line.addr).toList <+: line.text.toList := by
  simp only [Line.text, String.toList_append, List.append_assoc]
  exact List.prefix_append ..

/-- **A sweep loses nothing.** It has at most one line for each address of its range, and its lines
show exactly the bytes there, in order. Each line begins with its address, which is the first of the
range plus the bytes before it; each instruction is what the line's bytes decode to by themselves.
Data come last, one byte a line, twelve at most. -/
theorem sweep_coverage (image : Image) (h : image.Fits) (start : UInt16) (stop : UInt32) :
    let lo := max start.toNat image.origin.toNat
    let hi := min stop.toNat image.stop.toNat
    let lines := (sweep image start stop).map (·.line)
    lines.length ≤ hi - lo ∧
      lines.flatMap Line.bytes = image.range lo hi ∧ (image.range lo hi).length = hi - lo ∧
      (∀ before line after, lines = before ++ line :: after →
        line.bytes ≠ [] ∧ ∃ addr : UInt16,
          addr.toNat = lo + (before.flatMap Line.bytes).length ∧
          (Hex.word addr).toList <+: line.text.toList ∧
          (line.isData = false →
            Instruction.decodeLine addr line.bytes = .ok (line.text, line.bytes.length))) ∧
      ∃ code data, lines = code ++ data ∧ (∀ line ∈ code, line.isData = false) ∧
        (∀ line ∈ data, line.isData = true ∧ line.bytes.length = 1) ∧ data.length ≤ 12 := by
  intro lo hi lines
  have hin := Sweep.start_inside h start stop
  have hlines : lines = plainLines lo (image.range lo hi) := sweep_line_eq h start stop
  have hbytes : lines.flatMap Line.bytes = image.range lo hi := by
    rw [hlines, flatMap_bytes_plainLines]
  have hlen : (image.range lo hi).length = hi - lo := hin.length_left
  have hplaced : Placed lo lines := hlines ▸ placed_plainLines lo _
  refine ⟨?_, hbytes, hlen, fun before line after he => ?_, ?_⟩
  · rw [← hlen, ← hbytes]
    exact hplaced.length_le
  · obtain ⟨haddr, hne, hcode, -⟩ := (he ▸ hplaced).append_right
    -- the line has a byte, so its address is one of the image
    have hroom : lo + (before.flatMap Line.bytes).length < 0x10000 := by
      have hfits : image.origin.toNat + image.bytes.length ≤ 0x10000 := h
      have hstop : hi ≤ image.origin.toNat + image.bytes.length := hin.stop_le
      have hsum := congrArg List.length (he ▸ hbytes)
      simp only [List.flatMap_append, List.flatMap_cons, List.length_append, hlen] at hsum
      have := List.length_pos_iff.2 hne
      omega
    refine ⟨hne, line.addr, ?_, addr_prefix_text line, fun hdata => ?_⟩
    · rw [haddr, UInt16.toNat_ofNat']
      exact Nat.mod_eq_of_lt hroom
    · cases line with
      | code inst =>
        rw [Instruction.decodeLine, Line.bytes, hcode inst rfl]
        rfl
      | data addr byte => cases hdata
  · obtain ⟨insts, at_, tail, he, hl⟩ := plainLines_split lo (image.range lo hi)
    refine ⟨insts.map .code, dataLines at_ tail, hlines.trans he, ?_, ?_, ?_⟩
    · intro line hm
      obtain ⟨inst, -, rfl⟩ := List.mem_map.1 hm
      rfl
    · exact fun line hm => isData_of_mem_dataLines hm
    · rw [length_dataLines]
      exact Nat.le_of_lt_succ hl

/-- A range that ends inside the image, in the middle of an instruction. -/
theorem sweep_coverage_truncated :
    let image : Image := ⟨0x6000, #[0x00, 0xBE, 0x00, 0x05, 0xBF, 0xA4, 0x00, 0x12]⟩
    image.Fits ∧
      ((sweep image 0 0x6006).map (·.line)).flatMap Line.bytes =
        [0x00, 0xBE, 0x00, 0x05, 0xBF, 0xA4] ∧
      ((sweep image 0 0x6006).map (·.line)).length ≤ 6 := by
  intro image
  have h : image.Fits := by decide
  obtain ⟨hlen, hbytes, -⟩ := sweep_coverage image h 0 0x6006
  exact ⟨h, hbytes.trans (by decide), Nat.le_trans hlen (by decide)⟩

end GromListing.Listing
