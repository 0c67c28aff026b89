import GromListing.Text.Hex
import GromListing.Text.Style

/-!
# Opcode tables

A table is a list of rows, each of which names the instruction of a range of opcode bytes and the
format of its operands. The first row that covers a byte decides, so specific rows stand before
the catch-all rows of their range.
-/

set_option autoImplicit false

namespace GromListing

inductive Format
  /-- An opcode without a meaning of its own; no operands. -/
  | reserved
  /-- Two operands, the destination first. -/
  | dual
  | immediateByte
  | immediateWord
  | inherent
  /-- A branch inside the instruction's own page of GROM. -/
  | branch
  | single
  /-- A block move of a count from a source to a destination. -/
  | move
  /-- The screen formatter; what follows it is a language of its own and is not decoded. -/
  | fmt
  /-- A byte that no row of the table covers. -/
  | unknown
  deriving DecidableEq

/-- The number a format goes by in tables. -/
def Format.id : Format → Int
  | .reserved => 0
  | .dual => 1
  | .immediateByte => 2
  | .immediateWord => 2
  | .inherent => 3
  | .branch => 4
  | .single => 5
  | .move => 6
  | .fmt => 7
  | .unknown => -1

namespace Opcode

/-- The opcodes from `low` to `high`, both included. -/
structure Row where
  name : String
  low : UInt8
  high : UInt8
  format : Format
  deriving DecidableEq

/-- A row whose `low` exceeds its `high` covers nothing. -/
def Row.covers (row : Row) (op : UInt8) : Bool := row.low ≤ op && op ≤ row.high

def Row.text (row : Row) : String :=
  Hex.byte row.low ++ "-" ++ Hex.byte row.high ++ " " ++ row.name ++ " (" ++
    toString row.format.id ++ ")"

def unknownRow : Row := ⟨"????", 0x00, 0xFF, .unknown⟩

/-- The first row that covers the opcode. -/
def scan (table : List Row) (op : UInt8) : Row :=
  (table.find? (·.covers op)).getD unknownRow

end Opcode

end GromListing
