/-!
# Columns and colours

The two decorations of the program's output: text padded to a column, and terminal colours.
-/

set_option autoImplicit false

namespace GromListing.Text

/-- Pads with spaces on the right to `width` characters; longer text is kept whole. -/
def padRight (width : Nat) (s : String) : String :=
  s ++ String.ofList (List.replicate (width - s.length) ' ')

/-- Wraps text in the escape sequence of a terminal colour and the reset after it. -/
private def coloured (code : String) (s : String) : String :=
  "\x1b[" ++ code ++ "m" ++ s ++ "\x1b[0m"

/-- Text that reports a failure. -/
def red (s : String) : String := coloured "91" s

/-- Text that reports progress. -/
def blue (s : String) : String := coloured "94" s

end GromListing.Text
