import GromListing.Opcode.Basic

/-!
# The opcodes of GPL

The instruction table of the graphics programming language. `XGPL` rows take the bytes that are
left over in their part of the opcode space, so every byte has a row.
-/

set_option autoImplicit false

namespace GromListing.Opcode

/-- Every instruction, in the order in which rows are tried. -/
def table : List Row := [
  ⟨"RTN", 0x00, 0x00, .inherent⟩,
  ⟨"RTNC", 0x01, 0x01, .inherent⟩,
  ⟨"RAND", 0x02, 0x02, .immediateByte⟩,
  ⟨"SCAN", 0x03, 0x03, .inherent⟩,
  ⟨"BACK", 0x04, 0x04, .immediateByte⟩,
  ⟨"B", 0x05, 0x05, .immediateWord⟩,
  ⟨"CALL", 0x06, 0x06, .immediateWord⟩,
  ⟨"ALL", 0x07, 0x07, .immediateByte⟩,
  ⟨"FMT", 0x08, 0x08, .fmt⟩,
  ⟨"H", 0x09, 0x09, .inherent⟩,
  ⟨"GT", 0x0A, 0x0A, .inherent⟩,
  ⟨"EXIT", 0x0B, 0x0B, .inherent⟩,
  ⟨"CARRY", 0x0C, 0x0C, .inherent⟩,
  ⟨"OVF", 0x0D, 0x0D, .inherent⟩,
  ⟨"PARSE", 0x0E, 0x0E, .immediateByte⟩,
  ⟨"XML", 0x0F, 0x0F, .immediateByte⟩,
  ⟨"CONT", 0x10, 0x10, .inherent⟩,
  ⟨"EXEC", 0x11, 0x11, .inherent⟩,
  ⟨"RTNB", 0x12, 0x12, .inherent⟩,
  ⟨"XGPL", 0x00, 0x1F, .reserved⟩,
  ⟨"MOVE", 0x20, 0x3F, .move⟩,
  ⟨"BR", 0x40, 0x5F, .branch⟩,
  ⟨"BS", 0x60, 0x7F, .branch⟩,
  ⟨"ABS", 0x80, 0x81, .single⟩,
  ⟨"NEG", 0x82, 0x83, .single⟩,
  ⟨"INV", 0x84, 0x85, .single⟩,
  ⟨"CLR", 0x86, 0x87, .single⟩,
  ⟨"FETCH", 0x88, 0x89, .single⟩,
  ⟨"CASE", 0x8A, 0x8B, .single⟩,
  ⟨"PUSH", 0x8C, 0x8D, .single⟩,
  ⟨"CZ", 0x8E, 0x8F, .single⟩,
  ⟨"INC", 0x90, 0x91, .single⟩,
  ⟨"DEC", 0x92, 0x93, .single⟩,
  ⟨"INCT", 0x94, 0x95, .single⟩,
  ⟨"DECT", 0x96, 0x97, .single⟩,
  ⟨"XGPL", 0x80, 0x9F, .reserved⟩,
  ⟨"ADD", 0xA0, 0xA3, .dual⟩,
  ⟨"SUB", 0xA4, 0xA7, .dual⟩,
  ⟨"MUL", 0xA8, 0xAB, .dual⟩,
  ⟨"DIV", 0xAC, 0xAF, .dual⟩,
  ⟨"AND", 0xB0, 0xB3, .dual⟩,
  ⟨"OR", 0xB4, 0xB7, .dual⟩,
  ⟨"XOR", 0xB8, 0xBB, .dual⟩,
  ⟨"ST", 0xBC, 0xBF, .dual⟩,
  ⟨"EX", 0xC0, 0xC3, .dual⟩,
  ⟨"CH", 0xC4, 0xC7, .dual⟩,
  ⟨"CHE", 0xC8, 0xCB, .dual⟩,
  ⟨"CGT", 0xCC, 0xCF, .dual⟩,
  ⟨"CGE", 0xD0, 0xD3, .dual⟩,
  ⟨"CEQ", 0xD4, 0xD7, .dual⟩,
  ⟨"CLOG", 0xD8, 0xDB, .dual⟩,
  ⟨"SRA", 0xDC, 0xDF, .dual⟩,
  ⟨"SLL", 0xE0, 0xE3, .dual⟩,
  ⟨"SRL", 0xE4, 0xE7, .dual⟩,
  ⟨"SRC", 0xE8, 0xEB, .dual⟩,
  ⟨"COINC", 0xEC, 0xEF, .dual⟩,
  ⟨"IO", 0xF4, 0xF7, .dual⟩,
  ⟨"SWGR", 0xF8, 0xFB, .dual⟩,
  ⟨"XGPL", 0xA0, 0xFF, .reserved⟩
]

/-- The row of an opcode byte. -/
def lookup (op : UInt8) : Row := scan table op

/-- All rows that an opcode byte can have. -/
def rows : List Row := unknownRow :: table

theorem lookup_mem_rows (op : UInt8) : lookup op ∈ rows := by
  unfold lookup scan
  cases h : table.find? (·.covers op) with
  | none => exact List.mem_cons_self
  | some row => exact List.mem_cons_of_mem _ (List.mem_of_find?_eq_some h)

/-- The table is total. -/
theorem format_lookup_ne_unknown (op : UInt8) : (lookup op).format ≠ .unknown := by
  have hall : ∀ n : Fin 256, (lookup (UInt8.ofFin n)).format ≠ .unknown := by decide +kernel
  exact hall op.toFin

end GromListing.Opcode
