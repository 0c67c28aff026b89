import GromListing.Listing.Line
import GromListing.Proofs.Instruction.PrefixCode

/-!
# The plain sweep

The lines of a run of bytes, by the shortest description: decode from all the bytes that are left,
step over what the instruction takes, and list what is left as data once that fails.
-/

set_option autoImplicit false

namespace GromListing.Listing

/-- Every byte as data, the first of them at `addr`. -/
def dataLines (addr : Nat) : List UInt8 → List Line
  | [] => []
  | byte :: rest => .data (UInt16.ofNat addr) byte :: dataLines (addr + 1) rest

/-- The lines of `bytes`, the first of which is at `addr`. -/
def plainLines (addr : Nat) (bytes : List UInt8) : List Line :=
  match bytes with
  | [] => []
  | first :: rest =>
    match h : Instruction.decode (UInt16.ofNat addr) (first :: rest) with
    | .ok inst =>
      have := Instruction.size_pos_of_decode h
      .code inst :: plainLines (addr + inst.size) ((first :: rest).drop inst.size)
    | .error _ => dataLines addr (first :: rest)
termination_by bytes.length
decreasing_by
  simp only [List.length_drop, List.length_cons]
  omega

theorem plainLines_of_ok {addr : Nat} {bytes : List UInt8} {inst : Instruction}
    (h : Instruction.decode (UInt16.ofNat addr) bytes = .ok inst) :
    plainLines addr bytes = .code inst :: plainLines (addr + inst.size) (bytes.drop inst.size) := by
  cases bytes with
  | nil => cases h
  | cons first rest =>
    rw [plainLines]
    split <;> simp_all

theorem plainLines_of_error {addr : Nat} {bytes : List UInt8} {cause : Truncation}
    (h : Instruction.decode (UInt16.ofNat addr) bytes = .error cause) :
    plainLines addr bytes = dataLines addr bytes := by
  cases bytes with
  | nil => rw [plainLines, dataLines]
  | cons first rest =>
    rw [plainLines]
    split <;> simp_all

end GromListing.Listing
