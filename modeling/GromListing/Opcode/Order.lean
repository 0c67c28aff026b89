import GromListing.Opcode.Basic

/-!
# The order of rows

When two rows of a table are about the same byte, and when the catch-all rows of a table stand behind
all others that they share a byte with.
-/

set_option autoImplicit false

namespace GromListing.Opcode

/-- Some byte is covered by both rows. -/
def Row.Meets (r s : Row) : Prop := ∃ op, r.covers op = true ∧ s.covers op = true

/-- No catch-all row stands before a row of another format that it meets. -/
def CatchAllsLast (table : List Row) : Prop :=
  table.Pairwise fun earlier later =>
    earlier.format = .reserved → later.format ≠ .reserved → ¬earlier.Meets later

/-- The first row that covers the opcode, and `fallback` if none does. -/
def scanOr (fallback : Row) (table : List Row) (op : UInt8) : Row :=
  match table with
  | [] => fallback
  | row :: rest => if row.covers op then row else scanOr fallback rest op

/-- The table leaves the opcode to the fallback, whatever row that is. -/
def FallsBack (table : List Row) (op : UInt8) : Prop :=
  ∀ fallback, scanOr fallback table op = fallback

end GromListing.Opcode
