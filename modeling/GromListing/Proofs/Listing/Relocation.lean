import GromListing.Proofs.Instruction.Branch
import GromListing.Proofs.Instruction.Relocation
import GromListing.Proofs.Listing.Sweep

/-!
# Listings of the same bytes at two origins

`sweep_relocate`: line by line, a listing moves with its image. `Line.Relocated` says what a line
keeps and what becomes of a branch; `relocated_code` is the step, for one instruction at two
addresses, and `forall₂_plainLines` the run, over all bytes.
-/

set_option autoImplicit false

namespace GromListing.Listing

/-- A line of a listing at `o₁`, and the same line of one at `o₂`. They are as far apart as the
origins, and show the same but for the target of a branch. -/
structure Line.Relocated (o₁ o₂ : UInt16) (l₁ l₂ : Line) : Prop where
  bytes_eq : l₁.bytes = l₂.bytes
  isData_eq : l₁.isData = l₂.isData
  distance : (l₂.addr.toNat : Int) - l₁.addr.toNat = o₂.toNat - o₁.toNat
  body_eq : (∀ inst, l₁ = .code inst → ¬inst.IsPageBranch) → l₁.body = l₂.body
  branch : ∀ i₁, l₁ = .code i₁ → i₁.IsPageBranch →
    ∃ i₂ t₁ t₂, l₂ = .code i₂ ∧ i₁.row = i₂.row ∧ i₁.BranchesTo t₁ ∧ i₂.BranchesTo t₂ ∧
      Instruction.pageOffset t₁ = Instruction.pageOffset t₂

variable {o₁ o₂ : UInt16} {n₁ n₂ : Nat}

theorem distance_ofNat (hn : n₁ + o₂.toNat = n₂ + o₁.toNat) (h₁ : n₁ < 0x10000)
    (h₂ : n₂ < 0x10000) :
    ((UInt16.ofNat n₂).toNat : Int) - (UInt16.ofNat n₁).toNat = o₂.toNat - o₁.toNat := by
  rw [UInt16.toNat_ofNat_of_lt' h₁, UInt16.toNat_ofNat_of_lt' h₂]
  omega

theorem relocated_code {bytes : List UInt8} {i₁ i₂ : Instruction}
    (hn : n₁ + o₂.toNat = n₂ + o₁.toNat) (hlt₁ : n₁ < 0x10000) (hlt₂ : n₂ < 0x10000)
    (h₁ : Instruction.decode (UInt16.ofNat n₁) bytes = .ok i₁)
    (h₂ : Instruction.decode (UInt16.ofNat n₂) bytes = .ok i₂) :
    Line.Relocated o₁ o₂ (.code i₁) (.code i₂) := by
  obtain ⟨i, hi, hrow, hword, hbytes, hoperands⟩ := Instruction.decode_relocate h₁ (UInt16.ofNat n₂)
  obtain rfl : i₂ = i := Except.ok.inj (h₂.symm.trans hi)
  have haddr₁ := (Instruction.exists_append_of_decode h₁).1.addr_eq
  have haddr₂ := (Instruction.exists_append_of_decode h₂).1.addr_eq
  refine ⟨hbytes.symm, rfl, ?_, fun hne => ?_, ?_⟩
  · rw [Line.addr, Line.addr, haddr₁, haddr₂]
    exact distance_ofNat hn hlt₁ hlt₂
  · have hformat := mt (Instruction.isPageBranch_iff h₁).2 (hne i₁ rfl)
    simp only [Line.body, Instruction.body, Instruction.mnemonic, hrow, hword, hoperands hformat]
  · rintro _ ⟨⟩ hb₁
    have hb₂ : i₂.IsPageBranch := by
      rw [Instruction.IsPageBranch, hrow]
      exact hb₁
    obtain ⟨t₁, ht₁⟩ := Instruction.branchesTo_of_decode h₁ hb₁
    obtain ⟨t₂, ht₂⟩ := Instruction.branchesTo_of_decode h₂ hb₂
    refine ⟨i₂, t₁, t₂, rfl, hrow.symm, ht₁, ht₂, ?_⟩
    obtain ⟨hi, lo, he, ho₁⟩ := ht₁.offset_eq
    obtain ⟨hi', lo', he', ho₂⟩ := ht₂.offset_eq
    obtain ⟨⟩ := he'.symm.trans (hbytes.trans he)
    rw [ho₁, ho₂]

theorem relocated_data (hn : n₁ + o₂.toNat = n₂ + o₁.toNat) (h₁ : n₁ < 0x10000)
    (h₂ : n₂ < 0x10000) (byte : UInt8) :
    Line.Relocated o₁ o₂ (.data (UInt16.ofNat n₁) byte) (.data (UInt16.ofNat n₂) byte) where
  bytes_eq := rfl
  isData_eq := rfl
  distance := distance_ofNat hn h₁ h₂
  body_eq _ := rfl
  branch := nofun

theorem forall₂_dataLines (bytes : List UInt8) (hn : n₁ + o₂.toNat = n₂ + o₁.toNat)
    (h₁ : n₁ + bytes.length ≤ 0x10000) (h₂ : n₂ + bytes.length ≤ 0x10000) :
    List.Forall₂ (Line.Relocated o₁ o₂) (dataLines n₁ bytes) (dataLines n₂ bytes) := by
  induction bytes generalizing n₁ n₂ with
  | nil => exact .nil
  | cons byte rest ih =>
    rw [List.length_cons] at h₁ h₂
    refine .cons (relocated_data hn (by omega) (by omega) byte) (ih ?_ ?_ ?_) <;> omega

/-- An instruction at one origin is one at the other, so both listings are of one shape. -/
theorem forall₂_plainLines (n₁ n₂ : Nat) (bytes : List UInt8)
    (hn : n₁ + o₂.toNat = n₂ + o₁.toNat) (h₁ : n₁ + bytes.length ≤ 0x10000)
    (h₂ : n₂ + bytes.length ≤ 0x10000) :
    List.Forall₂ (Line.Relocated o₁ o₂) (plainLines n₁ bytes) (plainLines n₂ bytes) := by
  cases hd₁ : Instruction.decode (UInt16.ofNat n₁) bytes with
  | ok i₁ =>
    obtain ⟨i₂, hd₂, -, -, hbytes, -⟩ := Instruction.decode_relocate hd₁ (UInt16.ofNat n₂)
    have hpos := Instruction.size_pos_of_decode hd₁
    have hsize : i₂.size = i₁.size := congrArg List.length hbytes
    have hle : i₁.size ≤ bytes.length := by
      obtain ⟨-, tail, rfl⟩ := Instruction.exists_append_of_decode hd₁
      exact List.length_append ▸ Nat.le_add_right ..
    rw [plainLines_of_ok hd₁, plainLines_of_ok hd₂, hsize]
    refine .cons (relocated_code hn (by omega) (by omega) hd₁ hd₂) ?_
    have hlen : (bytes.drop i₁.size).length = bytes.length - i₁.size := List.length_drop
    exact forall₂_plainLines (n₁ + i₁.size) (n₂ + i₁.size) (bytes.drop i₁.size) (by omega)
      (by omega) (by omega)
  | error t =>
    obtain ⟨t₂, hd₂⟩ : ∃ t₂, Instruction.decode (UInt16.ofNat n₂) bytes = .error t₂ := by
      cases hd₂ : Instruction.decode (UInt16.ofNat n₂) bytes with
      | error t₂ => exact ⟨t₂, rfl⟩
      | ok i₂ =>
        obtain ⟨i₁, hd, -⟩ := Instruction.decode_relocate hd₂ (UInt16.ofNat n₁)
        rw [hd₁] at hd
        cases hd
    rw [plainLines_of_error hd₁, plainLines_of_error hd₂]
    exact forall₂_dataLines bytes hn h₁ h₂
termination_by bytes.length
decreasing_by
  rw [List.length_drop]
  omega

/-- **A listing moves with its image.** The same bytes at two origins have listings of as many
lines, and the lines in the same place have the same bytes, are data or not alike, and lie as far
apart as the origins. After the address they show the same text, save that a branch shows a target
in its own page, at the place in the page that its bytes hold. -/
theorem sweep_relocate (bytes : List UInt8) (o₁ o₂ : UInt16)
    (h₁ : o₁.toNat + bytes.length ≤ 0x10000) (h₂ : o₂.toNat + bytes.length ≤ 0x10000) :
    let lines (origin : UInt16) : List Line :=
      let image : Image := ⟨origin, bytes.toArray⟩
      (sweep image origin image.stop).map (·.line)
    (lines o₁).length = (lines o₂).length ∧
      ∀ (i : Nat) (l₁ l₂ : Line), (lines o₁)[i]? = some l₁ → (lines o₂)[i]? = some l₂ →
        Line.Relocated o₁ o₂ l₁ l₂ := by
  intro lines
  have hlines : ∀ origin : UInt16, origin.toNat + bytes.length ≤ 0x10000 →
      lines origin = plainLines origin.toNat bytes := by
    intro origin h
    have hfits : Image.Fits ⟨origin, bytes.toArray⟩ := h
    simp only [lines]
    rw [sweep_line_eq hfits, Nat.max_self, Nat.min_self, hfits.range_whole]
    rfl
  have hall : List.Forall₂ (Line.Relocated o₁ o₂) (lines o₁) (lines o₂) := by
    rw [hlines o₁ h₁, hlines o₂ h₂]
    exact forall₂_plainLines _ _ bytes (Nat.add_comm ..) h₁ h₂
  refine ⟨hall.length_eq, fun i l₁ l₂ hl₁ hl₂ => ?_⟩
  obtain ⟨hi₁, rfl⟩ := List.getElem?_eq_some_iff.1 hl₁
  obtain ⟨hi₂, rfl⟩ := List.getElem?_eq_some_iff.1 hl₂
  exact hall.get hi₁ hi₂

/-- A branch and half a store, in the first page and across the end of the fourth. -/
theorem sweep_relocate_branch :
    let bytes : List UInt8 := [0x40, 0x34, 0xBF, 0xA4]
    let branch (addr target : UInt16) : Line :=
      .code ⟨addr, Opcode.lookup 0x40, false, [.immediate (.word target)], [0x40, 0x34]⟩
    let lines (origin : UInt16) : List Line :=
      let image : Image := ⟨origin, bytes.toArray⟩
      (sweep image origin image.stop).map (·.line)
    (0x0000 : UInt16).toNat + bytes.length ≤ 0x10000 ∧
      (0x7FFE : UInt16).toNat + bytes.length ≤ 0x10000 ∧
      lines 0x0000 = [branch 0x0000 0x0034, .data 0x0002 0xBF, .data 0x0003 0xA4] ∧
      lines 0x7FFE = [branch 0x7FFE 0x6034, .data 0x8000 0xBF, .data 0x8001 0xA4] ∧
      (branch 0x7FFE 0x6034).text = "7FFE  BR     >6034" ∧
      Line.Relocated 0x0000 0x7FFE (branch 0x0000 0x0034) (branch 0x7FFE 0x6034) ∧
      Line.Relocated 0x0000 0x7FFE (.data 0x0002 0xBF) (.data 0x8000 0xBF) := by
  intro bytes branch lines
  have hlow : lines 0x0000 = [branch 0x0000 0x0034, .data 0x0002 0xBF, .data 0x0003 0xA4] := by
    decide +kernel
  have hhigh : lines 0x7FFE = [branch 0x7FFE 0x6034, .data 0x8000 0xBF, .data 0x8001 0xA4] := by
    decide +kernel
  obtain ⟨-, hlines⟩ := sweep_relocate bytes 0x0000 0x7FFE (by decide) (by decide)
  refine ⟨by decide, by decide, hlow, hhigh, by decide, ?_, ?_⟩
  · exact hlines 0 _ _ (congrArg (·[0]?) hlow) (congrArg (·[0]?) hhigh)
  · exact hlines 1 _ _ (congrArg (·[1]?) hlow) (congrArg (·[1]?) hhigh)

end GromListing.Listing
