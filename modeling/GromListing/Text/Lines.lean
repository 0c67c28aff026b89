/-!
# Lines of a text

A line ends at a line feed, and a carriage return right before that line feed belongs to the line
end. The last line needs no line feed, but then keeps a carriage return of its own; a text that
ends with a line feed has no further, empty line.
-/

set_option autoImplicit false

namespace GromListing.Text

def chomp (line : List Char) : List Char :=
  if line.getLast? = some '\r' then line.dropLast else line

/-- The lines of a text, without their ends. -/
def lines (text : String) : List String :=
  let pieces := text.toList.splitOn '\n'
  let last := pieces.getLastD []
  (pieces.dropLast.map chomp ++ if last.isEmpty then [] else [last]).map String.ofList

end GromListing.Text
