import GromListing.Instruction.Basic

/-!
# Complete encodings

The bytes of one whole instruction, and of the beginning of one.
-/

set_option autoImplicit false

namespace GromListing.Instruction

/-- The bytes are exactly those of one instruction, wherever it stands. -/
def IsEncoding (bytes : List UInt8) : Prop :=
  ∀ addr, ∃ inst, decode addr bytes = .ok inst ∧ inst.size = bytes.length

/-- The bytes begin an instruction and do not finish it. -/
def IsPartial (bytes : List UInt8) : Prop :=
  ∃ more, more ≠ [] ∧ IsEncoding (bytes ++ more)

end GromListing.Instruction
