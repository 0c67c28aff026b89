import GromListing.Listing.Line

/-!
# Columns of a line with its bytes

Where the mnemonic stands in a line that shows its bytes. A line's text is cut behind the address,
and the bytes go between the two parts.
-/

set_option autoImplicit false

namespace GromListing.Listing.Line

/-- The bytes as pairs of digits, with one blank between two of them. -/
def pairs (line : Line) : String := " ".intercalate (line.bytes.map Hex.byte)

/-- The text behind the address. -/
def rest (line : Line) : String := "  " ++ line.body

/-- In the line with its bytes, the field of the mnemonic begins at this column, counted from
zero. -/
def BodyAt (line : Line) (column : Nat) : Prop :=
  (line.render true).toList.drop column = line.body.toList

instance (line : Line) (column : Nat) : Decidable (line.BodyAt column) :=
  inferInstanceAs (Decidable (_ = _))

end GromListing.Listing.Line
