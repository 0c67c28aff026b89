import GromListing.Image.Basic
import GromListing.Listing.Line
import GromListing.Notice
import GromListing.Proofs.Instruction.PrefixCode

/-!
# Sweep

Lists an image from one address to another: decode an instruction, step over it, and so on. An
instruction that would run past the end of the range ends the decoding, and its bytes and all that
follow are listed one by one as data.
-/

set_option autoImplicit false

namespace GromListing.Listing

/-- A line, and the notice that its production gave. -/
structure Step where
  line : Line
  notice : Option Notice
  deriving DecidableEq

/-- A sweep on its way. Positions are numbers, as the one after the last address is no word. -/
structure Sweep where
  image : Image
  position : Nat
  /-- The address to stop before. -/
  stop : Nat
  /-- Whether an instruction was truncated, so that every byte is data from there on. -/
  inTail : Bool
  deriving DecidableEq

namespace Sweep

/-- The sweep over the part of an image from `start` up to `stop`. -/
def start (image : Image) (start : UInt16) (stop : UInt32) : Sweep :=
  ⟨image, max start.toNat image.origin.toNat, min stop.toNat image.stop.toNat, false⟩

def addr (s : Sweep) : UInt16 := UInt16.ofNat s.position

/-- The bytes that the next line is made from: as many as the longest instruction can have, if the
range has so many left. -/
def window (s : Sweep) : List UInt8 :=
  s.image.slice s.addr (UInt32.ofNat (min s.stop (s.position + Instruction.maxSize)))

def advance (s : Sweep) (size : Nat) : Sweep := { s with position := s.position + size }

def enterTail (s : Sweep) : Sweep := { s with inTail := true }

/-- What is said of an instruction at `addr` with this opcode, if there is anything to say. -/
def unknownNotice? (addr : UInt16) (opcode : UInt8) : Option Notice :=
  if (Opcode.lookup opcode).format = .unknown then some (.unknownOpcode opcode addr) else none

/-- The next line, and the sweep after it. In an image that fits the address space the window has
bytes as long as the range has. -/
def next (s : Sweep) : Option (Step × Sweep) :=
  if s.stop ≤ s.position then none
  else
    match s.window with
    | [] => none
    | first :: rest =>
      if s.inTail then some (⟨.data s.addr first, none⟩, s.advance 1)
      else
        match Instruction.decode s.addr (first :: rest) with
        | .ok inst => some (⟨.code inst, unknownNotice? s.addr first⟩, s.advance inst.size)
        | .error cause =>
          some (⟨.data s.addr first, some (.resync cause (s.stop - s.position))⟩,
            (s.advance 1).enterTail)

/-- There is never anything to say, as every opcode is in the table. -/
theorem unknownNotice?_eq_none (addr : UInt16) (opcode : UInt8) :
    unknownNotice? addr opcode = none :=
  if_neg (Opcode.format_lookup_ne_unknown opcode)

theorem next_lt {s s' : Sweep} {step : Step} (h : s.next = some (step, s')) :
    s'.stop - s'.position < s.stop - s.position := by
  unfold next at h
  split at h
  · cases h
  · split at h
    · cases h
    · split at h
      · cases h
        simp only [advance]
        omega
      · split at h
        · rename_i hd
          have := Instruction.size_pos_of_decode hd
          cases h
          simp only [advance]
          omega
        · cases h
          simp only [advance, enterTail]
          omega

def steps (s : Sweep) : List Step :=
  match h : s.next with
  | none => []
  | some (step, s') =>
    have := next_lt h
    step :: s'.steps
termination_by s.stop - s.position

theorem steps_of_none {s : Sweep} (h : s.next = none) : s.steps = [] := by
  rw [steps]
  split
  · rfl
  · simp_all

theorem steps_of_some {s s' : Sweep} {step : Step} (h : s.next = some (step, s')) :
    s.steps = step :: s'.steps := by
  rw [steps]
  split <;> simp_all

end Sweep

/-- The steps over the part of an image from `start` up to `stop`. -/
def sweep (image : Image) (start : UInt16) (stop : UInt32) : List Step :=
  (Sweep.start image start stop).steps

end GromListing.Listing
