import GromListing.Proofs.Listing.Coverage

/-!
# A longer range extends the listing

Two sweeps that start at one address, and one of which stops earlier, decode the same instructions
until the shorter one comes to an instruction that its end cuts off:

* `exists_plainLines_append`: with more bytes behind them, bytes have the same instructions; only
  what was listed as data, if anything was, is listed anew.
* `exists_plainLines_cons`: bytes have a first line, and it stands at their address.
* `sweep_extension`: both for sweeps of an image. The data of the shorter sweep begin where the
  longer one decodes on, or lists data itself.
-/

set_option autoImplicit false

namespace GromListing.Listing

/-- The lines that show instructions. -/
def decoded (lines : List Line) : List Line := lines.filter fun line => !line.isData

theorem decoded_append (before after : List Line) :
    decoded (before ++ after) = decoded before ++ decoded after := List.filter_append ..

theorem decoded_code (insts : List Instruction) :
    decoded (insts.map Line.code) = insts.map Line.code := by
  refine List.filter_eq_self.2 fun line hline => ?_
  rw [isData_of_mem_code hline]
  rfl

theorem decoded_dataLines (addr : Nat) (bytes : List UInt8) :
    decoded (dataLines addr bytes) = [] := by
  refine List.filter_eq_nil_iff.2 fun line hline => ?_
  rw [(isData_of_mem_dataLines hline).1]
  exact Bool.false_ne_true

/-- The first line of data behind instructions is that of the first byte behind them. -/
theorem exists_cons_of_find?_isData {insts : List Instruction} {addr : Nat} {bytes : List UInt8}
    {line : Line}
    (h : (insts.map Line.code ++ dataLines addr bytes).find? (·.isData) = some line) :
    ∃ first rest, bytes = first :: rest ∧ line.addr = UInt16.ofNat addr := by
  have hcode : (insts.map Line.code).find? (·.isData) = none :=
    List.find?_eq_none.2 fun line hline => by
      rw [isData_of_mem_code hline]
      exact Bool.false_ne_true
  rw [List.find?_append, hcode, Option.none_or] at h
  cases bytes with
  | nil => cases h
  | cons first rest =>
    cases h
    exact ⟨first, rest, rfl, rfl⟩

/-! ## Plain sweeps -/

theorem exists_plainLines_append (addr : Nat) (bytes more : List UInt8) :
    ∃ (insts : List Instruction) (stop : Nat) (tail : List UInt8),
      plainLines addr bytes = insts.map .code ++ dataLines stop tail ∧
        plainLines addr (bytes ++ more) = insts.map .code ++ plainLines stop (tail ++ more) := by
  fun_induction plainLines addr bytes with
  | case1 addr => exact ⟨[], addr, [], rfl, rfl⟩
  | case2 addr first rest inst hd _ ih =>
    obtain ⟨insts, stop, tail, hshort, hlong⟩ := ih
    -- the instruction is whole, so bytes behind it do not change it
    obtain ⟨hwhole, behind, hbytes⟩ := Instruction.exists_append_of_decode hd
    have hdrop : (first :: rest).drop inst.size = behind := by
      rw [hbytes, Instruction.size, List.drop_left]
    rw [hdrop] at hshort hlong
    have hlong' : plainLines addr (first :: rest ++ more) =
        .code inst :: plainLines (addr + inst.size) (behind ++ more) := by
      rw [hbytes, List.append_assoc, plainLines_of_ok (hwhole.decode_append _), Instruction.size,
        List.drop_left]
    refine ⟨inst :: insts, stop, tail, ?_, ?_⟩
    · rw [hdrop, hshort]
      rfl
    · rw [hlong', hlong]
      rfl
  | case3 addr first rest => exact ⟨[], addr, first :: rest, rfl, rfl⟩

theorem exists_plainLines_cons (addr : Nat) (first : UInt8) (rest : List UInt8) :
    ∃ line lines, plainLines addr (first :: rest) = line :: lines ∧
      line.addr = UInt16.ofNat addr := by
  have hplaced := placed_plainLines addr (first :: rest)
  have hbytes := flatMap_bytes_plainLines addr (first :: rest)
  cases hlines : plainLines addr (first :: rest) with
  | nil =>
    rw [hlines] at hbytes
    cases hbytes
  | cons line lines => exact ⟨line, lines, rfl, (hlines ▸ hplaced).1⟩

/-! ## Sweeps -/

theorem exists_range_append (image : Image) (first : Nat) {stop₁ stop₂ : Nat} (h : stop₁ ≤ stop₂) :
    image.range first stop₁ <+: image.range first stop₂ := by
  by_cases hfirst : first ≤ stop₁
  · rw [← Image.range_append image hfirst h]
    exact List.prefix_append ..
  · rw [Image.range_of_le image (by omega)]
    exact List.nil_prefix

/-- **A longer range only extends the listing.** Of two sweeps with the same start, the one that
stops later has all instructions of the other one, in the same order and before all others. If the
other one lists data, the longer one goes on with a line at the address of the first of them. -/
theorem sweep_extension (image : Image) (h : image.Fits) (start : UInt16) (stop₁ stop₂ : UInt32)
    (hle : stop₁ ≤ stop₂) :
    let lines₁ := (sweep image start stop₁).map (·.line)
    let lines₂ := (sweep image start stop₂).map (·.line)
    decoded lines₁ <+: decoded lines₂ ∧
      ∀ line, lines₁.find? (·.isData) = some line →
        ∃ next rest, lines₂ = decoded lines₁ ++ next :: rest ∧ next.addr = line.addr := by
  intro lines₁ lines₂
  have hstop : min stop₁.toNat image.stop.toNat ≤ min stop₂.toNat image.stop.toNat := by
    have := UInt32.le_iff_toNat_le.1 hle
    omega
  obtain ⟨more, hmore⟩ := exists_range_append image (max start.toNat image.origin.toNat) hstop
  obtain ⟨insts, addr, tail, hshort, hlong⟩ := exists_plainLines_append
    (max start.toNat image.origin.toNat)
    (image.range (max start.toNat image.origin.toNat) (min stop₁.toNat image.stop.toNat)) more
  rw [hmore] at hlong
  have hlines₁ : lines₁ = insts.map .code ++ dataLines addr tail :=
    (sweep_line_eq h start stop₁).trans hshort
  have hlines₂ : lines₂ = insts.map .code ++ plainLines addr (tail ++ more) :=
    (sweep_line_eq h start stop₂).trans hlong
  have hdecoded : decoded lines₁ = insts.map .code := by
    rw [hlines₁, decoded_append, decoded_code, decoded_dataLines, List.append_nil]
  refine ⟨?_, fun line hline => ?_⟩
  · rw [hdecoded, hlines₂, decoded_append, decoded_code]
    exact List.prefix_append ..
  · rw [hlines₁] at hline
    obtain ⟨first, rest, rfl, hat⟩ := exists_cons_of_find?_isData hline
    obtain ⟨next, others, hnext, haddr⟩ := exists_plainLines_cons addr first (rest ++ more)
    refine ⟨next, others, ?_, haddr.trans hat.symm⟩
    rw [hdecoded, hlines₂, List.cons_append, hnext]

/-- A branch that the shorter range cuts off and the longer one does not. -/
theorem sweep_extension_branch :
    let image : Image := ⟨0x6000, #[0x00, 0x05, 0x12, 0x34]⟩
    let lines₁ := (sweep image 0x6000 0x6003).map (·.line)
    let lines₂ := (sweep image 0x6000 0x6004).map (·.line)
    image.Fits ∧ (0x6003 : UInt32) ≤ 0x6004 ∧ decoded lines₁ <+: decoded lines₂ ∧
      lines₁.find? (·.isData) = some (.data 0x6001 0x05) ∧
      ∃ next rest, lines₂ = decoded lines₁ ++ next :: rest ∧ next.addr = 0x6001 := by
  intro image lines₁ lines₂
  have h : image.Fits := by decide
  have hle : (0x6003 : UInt32) ≤ 0x6004 := by decide
  obtain ⟨hlines, hnext⟩ := sweep_extension image h 0x6000 0x6003 0x6004 hle
  have hdata : lines₁.find? (·.isData) = some (.data 0x6001 0x05) := by decide +kernel
  exact ⟨h, hle, hlines, hdata, hnext _ hdata⟩

end GromListing.Listing
