import GromListing.Opcode.Basic
import GromListing.Operand.Decode

/-!
# Decoding routines

A routine decodes the instructions of one format. It begins at the opcode, takes this and all that
follows of the instruction, and writes down what it finds on the way. A routine that runs out of
bytes leaves behind what it has written and taken until then.

The flag bits are `IW` of a dual or single opcode `1xxxxxIW` (immediate source, word operation) and
`GRVCN` of a block move `001GRVCN`: destination in CPU memory, destination a video register, source
indexed, source in CPU memory, count a literal.
-/

set_option autoImplicit false

namespace GromListing

/-- The base of the 8K page of GROM that holds an address. -/
def pageBase (addr : UInt16) : UInt16 := addr &&& 0xE000

/-- What is known of an instruction while it is decoded. -/
structure Context where
  addr : UInt16
  /-- The base of the page that holds the instruction. -/
  page : UInt16
  word : Bool
  /-- The operands in listing order. -/
  operands : List Operand
  deriving DecidableEq

/-- At first no more is known of an instruction than where it is. -/
def Context.start (addr : UInt16) : Context := ⟨addr, pageBase addr, false, []⟩

/-- A computation that reads an instruction and writes down what it finds. If it fails, what it has
written stays written, as what it has taken stays taken. -/
abbrev Decoder := EStateM Truncation (Context × Cursor)

namespace Decoder

variable {α : Type}

/-- Reads on; the context stays as it is. -/
def read (reader : Reader α) : Decoder α := fun (context, c) =>
  match reader c with
  | .ok a c => .ok a (context, c)
  | .error t c => .error t (context, c)

def context : Decoder Context := return (← get).1

def setWord (word : Bool) : Decoder Unit := modify fun (context, c) => ({ context with word }, c)

/-- Writes down the next operand. -/
def record (o : Operand) : Decoder Unit :=
  modify fun (context, c) => ({ context with operands := context.operands ++ [o] }, c)

/-! ## Routines -/

/-- Takes an opcode that stands alone. -/
def opcodeOnly : Decoder Unit := do
  let _ ← read Reader.byte

/-- All that can be shown of an unknown instruction is its opcode. -/
def unknown : Decoder Unit := do
  let op ← read Reader.byte
  record (.immediate (.byte op))

def immediate (width : Literal.Width) : Decoder Unit := do
  let _ ← read Reader.byte
  let value ← read (Reader.literal width)
  record (.immediate value)

/-- The opcode's low bits and the byte after it are an offset in the instruction's page. -/
def branch : Decoder Unit := do
  let displacement := (← read Reader.word) &&& 0x1FFF
  record (.immediate (.word ((← context).page + displacement)))

def single : Decoder Unit := do
  let op ← read Reader.byte
  setWord (hasBit 0x01 op)
  record (← read Operand.readGeneral)

/-- The source of a dual instruction: a literal of the width that it works on, with `I`. -/
def dualSource (op : UInt8) : Decoder Operand :=
  if hasBit 0x02 op then do
    let width := if (← context).word then .word else .byte
    return .immediate (← read (Reader.literal width))
  else read Operand.readGeneral

/-- The destination is stored first and listed last. -/
def dual : Decoder Unit := do
  let op ← read Reader.byte
  setWord (hasBit 0x01 op)
  let destination ← read Operand.readGeneral
  let source ← dualSource op
  record source
  record destination

/-- The count of a block move: a literal, with `N`. -/
def moveCount (op : UInt8) : Decoder Operand :=
  if hasBit 0x01 op then return .immediate (.word (← read Reader.word))
  else read Operand.readGeneral

/-- The destination of a block move. With `R` it is a video register, whatever `G` says. -/
def moveDestination (op : UInt8) : Decoder Operand :=
  if hasBit 0x08 op then return .vdpRegister ((← read Reader.byte) &&& 0x07)
  else read (Operand.readMoveEnd (hasBit 0x10 op) false)

/-- Only a source in GROM looks at `V`. -/
def move : Decoder Unit := do
  let op ← read Reader.byte
  let count ← moveCount op
  let destination ← moveDestination op
  let source ← read (Operand.readMoveEnd (hasBit 0x02 op) (hasBit 0x04 op))
  record count
  record destination
  record source

end Decoder

/-- The routine of a format. -/
def Format.routine : Format → Decoder Unit
  | .reserved | .inherent | .fmt => .opcodeOnly
  | .dual => .dual
  | .immediateByte => .immediate .byte
  | .immediateWord => .immediate .word
  | .branch => .branch
  | .single => .single
  | .move => .move
  | .unknown => .unknown

/-- What decoding one instruction has come to: how far it read, what it found until then, and the
fault that stopped it, if one did. -/
structure Decoding where
  cursor : Cursor
  word : Bool
  operands : List Operand
  fault : Option Truncation
  deriving DecidableEq

/-- What the routine of this format leaves behind, from the opcode on. -/
def Format.decode (format : Format) (c : Cursor) : Decoding :=
  match format.routine (.start c.base, c) with
  | .ok _ (context, c) => ⟨c, context.word, context.operands, none⟩
  | .error t (context, c) => ⟨c, context.word, context.operands, some t⟩

end GromListing
