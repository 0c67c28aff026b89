import GromListing.Instruction.Routine
import GromListing.Opcode.Table

/-!
# Instructions

The instruction at the head of a run of bytes, and the text that a listing shows for it: address,
mnemonic in a column of its own, operands. An instruction on words has a `D` before its mnemonic.
-/

set_option autoImplicit false

namespace GromListing

structure Instruction where
  addr : UInt16
  /-- The row of the opcode table that the opcode belongs to. -/
  row : Opcode.Row
  word : Bool
  /-- The operands in listing order. -/
  operands : List Operand
  /-- All its bytes, opcode first. -/
  bytes : List UInt8
  deriving DecidableEq

namespace Instruction

/-- A mnemonic in its column, and the operand text after it. The blank between them is always
there. -/
def columns (mnemonic operands : String) : String :=
  Text.padRight 6 mnemonic ++ " " ++ operands

/-- The most bytes that an instruction can have: a block move between indexed operands with full
addresses, its count in memory too. -/
def maxSize : Nat := 13

def size (inst : Instruction) : Nat := inst.bytes.length

/-- The table's mnemonic, marked when the instruction works on words. -/
def mnemonic (inst : Instruction) : String := (if inst.word then "D" else "") ++ inst.row.name

/-- The text without the address. -/
def body (inst : Instruction) : String :=
  columns inst.mnemonic (",".intercalate (inst.operands.map Operand.text))

def text (inst : Instruction) : String := Hex.word inst.addr ++ "  " ++ inst.body

/-- The instruction at `addr` whose opcode is the first of `bytes`; bytes after its end are not
looked at. -/
def decode (addr : UInt16) (bytes : List UInt8) : Except Truncation Instruction :=
  match Reader.peek (.start addr bytes) with
  | .error t _ => .error t
  | .ok op c =>
    let row := Opcode.lookup op
    match row.format.routine (.start addr, c) with
    | .error t _ => .error t
    | .ok _ (context, c) => .ok ⟨context.addr, row, context.word, context.operands, c.taken⟩

/-- The text and the size of the instruction at the head of `bytes`. -/
def decodeLine (addr : UInt16) (bytes : List UInt8) : Except Truncation (String × Nat) :=
  (decode addr bytes).map fun inst => (inst.text, inst.size)

end Instruction

end GromListing
