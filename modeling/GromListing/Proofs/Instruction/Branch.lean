import GromListing.Instruction.Branch
import GromListing.Proofs.Instruction.PrefixCode

/-!
# Where a branch goes

* `toNat_pageBase`, `toNat_pageOffset`: an address is the base of its page plus its place there.
* `branchesTo_of_decode`: what is decoded as `BR` or `BS` goes to the place that its two bytes hold,
  in the page that it is in itself.
-/

set_option autoImplicit false

namespace GromListing

/-! ## Pages -/

theorem toNat_pageBase (addr : UInt16) : (pageBase addr).toNat = 8192 * (addr.toNat / 8192) := by
  have hlt := addr.toNat_lt
  have hand : (pageBase addr).toNat = addr.toNat &&& 0xE000 := UInt16.toNat_and ..
  have hhigh : (addr.toNat &&& 0xE000) / 2 ^ 13 = addr.toNat / 8192 % 2 ^ 3 := by
    rw [Nat.and_div_two_pow]
    exact Nat.and_two_pow_sub_one_eq_mod _ 3
  have hlow : (addr.toNat &&& 0xE000) % 2 ^ 13 = 0 := by
    rw [Nat.and_mod_two_pow]
    exact Nat.and_zero _
  omega

namespace Instruction

theorem toNat_pageOffset (addr : UInt16) : (pageOffset addr).toNat = addr.toNat % 8192 := by
  rw [pageOffset, UInt16.toNat_and]
  exact Nat.and_two_pow_sub_one_eq_mod _ 13

/-- The sum of a page's base and a place in a page stays below the next page. -/
theorem toNat_pageBase_add (addr : UInt16) (hi lo : UInt8) :
    (pageBase addr + Word.ofBytes (hi &&& 0x1F) lo).toNat =
      (pageBase addr).toNat + (Word.ofBytes hi lo).toNat % 8192 := by
  have hlt := addr.toNat_lt
  rw [UInt16.toNat_add, Word.toNat_displacement, toNat_pageBase]
  omega

/-! ## Decoding -/

variable {addr : UInt16} {bytes : List UInt8} {inst : Instruction}

theorem format_eq_branch_iff : ∀ row ∈ Opcode.rows,
    row.format = .branch ↔ row.name = "BR" ∨ row.name = "BS" := by
  decide

theorem isPageBranch_iff (h : decode addr bytes = .ok inst) :
    inst.IsPageBranch ↔ inst.row.format = .branch :=
  (format_eq_branch_iff inst.row (row_mem_of_decode h)).symm

theorem decode_branch (h : decode addr bytes = .ok inst) (hb : inst.row.format = .branch) :
    ∃ hi lo, inst.addr = addr ∧ inst.word = false ∧ inst.bytes = [hi, lo] ∧
      inst.operands = [.immediate (.word (pageBase addr + Word.ofBytes (hi &&& 0x1F) lo))] := by
  cases bytes with
  | nil => cases h
  | cons hi rest =>
    simp only [decode, Reader.peek, Cursor.start] at h
    cases hroutine : (Opcode.lookup hi).format.routine (.start addr, ⟨addr, [], hi :: rest⟩) with
    | error t s =>
      rw [hroutine] at h
      cases h
    | ok _ s =>
      rw [hroutine] at h
      cases h
      simp only at hb
      rw [hb] at hroutine
      cases rest with
      | nil => cases hroutine
      | cons lo rest =>
        cases hroutine
        refine ⟨hi, lo, rfl, rfl, rfl, ?_⟩
        rw [← Word.displacement_eq]
        rfl

/-- **A branch goes to its page**, to the place that its bytes hold. -/
theorem branchesTo_of_decode (h : decode addr bytes = .ok inst) (hb : inst.IsPageBranch) :
    ∃ target, inst.BranchesTo target := by
  obtain ⟨hi, lo, haddr, hword, hbytes, hoperands⟩ :=
    decode_branch h ((isPageBranch_iff h).1 hb)
  have hsum := toNat_pageBase_add addr hi lo
  have hbase := toNat_pageBase addr
  have hoffset := toNat_pageOffset (pageBase addr + Word.ofBytes (hi &&& 0x1F) lo)
  refine ⟨_, ?_, hoperands, ⟨hi, lo, hbytes, ?_⟩, ?_, ?_⟩
  · simp [body, mnemonic, hword, hoperands, Operand.text, Literal.text]
  · apply UInt16.toNat_inj.1
    rw [hoffset, toNat_pageOffset]
    omega
  · apply UInt16.toNat_inj.1
    rw [toNat_pageBase, haddr]
    omega
  · rw [haddr]
    omega

end Instruction

end GromListing
