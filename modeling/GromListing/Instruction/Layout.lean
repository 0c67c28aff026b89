import GromListing.Instruction.Routine

/-!
# Instruction layouts

An instruction is its opcode byte and then the fields that its format and the flag bits of that
byte ask for. Fields are stored in the order in which they are read; a dual instruction stores its
destination first and lists it last, every other format lists its fields as stored. This is the
layout that the routines go through, told for all formats alike.
-/

set_option autoImplicit false

namespace GromListing

/-- One stored operand of an instruction. -/
inductive Field
  | literal (width : Literal.Width)
  /-- The low byte of an offset in the instruction's page, whose high bits the opcode holds. -/
  | branchTarget (high : UInt8)
  | general
  /-- The source or destination of a block move. -/
  | moveEnd (cpu indexed : Bool)
  /-- A video register, named by the low three bits of a byte. -/
  | vdpRegister
  deriving DecidableEq

/-- Takes the bytes of a field. -/
def Field.read : Field → Reader Operand
  | .literal width => return .immediate (← Reader.literal width)
  | .branchTarget high => do
    let low ← Reader.byte
    return .immediate (.word (pageBase (← Reader.base) + Word.ofBytes high low))
  | .general => Operand.readGeneral
  | .moveEnd cpu indexed => Operand.readMoveEnd cpu indexed
  | .vdpRegister => return .vdpRegister ((← Reader.byte) &&& 0x07)

namespace Format

/-- The fields after an opcode of this format, as stored. -/
def fields (format : Format) (op : UInt8) : List Field :=
  match format with
  | .reserved | .inherent | .fmt | .unknown => []
  | .immediateByte => [.literal .byte]
  | .immediateWord => [.literal .word]
  | .branch => [.branchTarget (op &&& 0x1F)]
  | .single => [.general]
  | .dual =>
    [.general,
      if hasBit 0x02 op then .literal (if hasBit 0x01 op then .word else .byte) else .general]
  | .move =>
    [if hasBit 0x01 op then .literal .word else .general,
      if hasBit 0x08 op then .vdpRegister else .moveEnd (hasBit 0x10 op) false,
      .moveEnd (hasBit 0x02 op) (hasBit 0x04 op)]

/-- Whether an instruction works on words; only dual and single ones can. -/
def isWord (format : Format) (op : UInt8) : Bool :=
  match format with
  | .dual | .single => hasBit 0x01 op
  | _ => false

/-- The operands in listing order, from those in stored order. All that can be shown of an
unknown instruction is its opcode. -/
def arrange (format : Format) (op : UInt8) (operands : List Operand) : List Operand :=
  match format with
  | .dual => operands.reverse
  | .unknown => [.immediate (.byte op)]
  | _ => operands

end Format

end GromListing
