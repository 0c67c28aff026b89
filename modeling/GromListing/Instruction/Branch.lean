import GromListing.Instruction.Basic

/-!
# Branches inside a page

`BR` and `BS` hold the low thirteen bits of their target; the page is that of the instruction.
-/

set_option autoImplicit false

namespace GromListing.Instruction

/-- The instruction is `BR` or `BS`. -/
def IsPageBranch (inst : Instruction) : Prop := inst.row.name = "BR" ∨ inst.row.name = "BS"

/-- The place of an address in its 8K page: its low thirteen bits. -/
def pageOffset (addr : UInt16) : UInt16 := addr &&& 0x1FFF

/-- The branch goes to `target`, which its line shows and nothing else. The target has the low
thirteen bits of the instruction's two bytes, and lies in the page of the instruction; it is the
plain sum of the page's base and these bits, with nothing lost at the top. -/
structure BranchesTo (inst : Instruction) (target : UInt16) : Prop where
  body_eq : inst.body = columns inst.row.name (">" ++ Hex.word target)
  operands_eq : inst.operands = [.immediate (.word target)]
  offset_eq : ∃ hi lo, inst.bytes = [hi, lo] ∧ pageOffset target = pageOffset (Word.ofBytes hi lo)
  page_eq : pageBase target = pageBase inst.addr
  no_overflow : target.toNat = (pageBase inst.addr).toNat + (pageOffset target).toNat

end GromListing.Instruction
