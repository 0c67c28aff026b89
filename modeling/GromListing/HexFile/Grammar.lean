import GromListing.HexFile.Written
import GromListing.Text.Pattern

/-!
# Where a record is in a line

The pattern that a record is found by, how its groups are read, and what a line has to be for it to
have certain bytes. This is what the reading of lines is compared with.
-/

set_option autoImplicit false

namespace GromListing.HexFile

open Text (Pattern)

/-! ## The pattern of a record -/

def digitPattern : Pattern := .one fun c => (Hex.value? c).isSome

/-- Two digits. -/
def bytePattern : Pattern := .seq digitPattern digitPattern

/-- The digits of data, and those of a checksum behind them. -/
def tailPattern : Pattern := .seq (.group (.many bytePattern)) (.group bytePattern)

/-- The digits of a record: its size, its address, its kind, its data and its checksum. -/
def bodyPattern : Pattern :=
  .seq (.group bytePattern)
    (.seq (.group (.seq bytePattern bytePattern)) (.seq (.group bytePattern) tailPattern))

/-- Any character but the end of a line. -/
def dotPattern : Pattern := .one (· != '\n')

/-- A record behind a colon in the first line, as far to its end as possible. -/
def recordPattern : Pattern := .seq (.many dotPattern) (.seq (.one (· == ':')) bodyPattern)

/-- What the groups of the pattern are read as, each by itself. -/
def Reading.ofGroups (groups : List (List Char)) : Reading :=
  match groups.map fun group => bytesOf (digitRun group) with
  | [[size], [hi, lo], [kind], stored, [checksum]] =>
    let record : Record :=
      ⟨size, Word.ofBytes hi lo, kind, if size = 0 then [] else stored, checksum⟩
    if record.data.length = size.toNat ∧ record.checksum = record.properChecksum then
      .record record
    else .malformed
  | _ => .malformed

/-! ## The bytes of a line -/

/-- How many digits the text begins with. -/
def digitsAt (text : List Char) : Nat := (text.takeWhile fun c => (Hex.value? c).isSome).length

/-- The bytes are those behind the last colon in the first line of the text that ten digits follow:
as many as there are pairs of digits, with one odd digit behind them at the most. -/
inductive Holds (line : String) (bytes : List UInt8) : Prop
  | mk {before digits rest : List Char}
    (line_eq : line.toList.takeWhile (· != '\n') = before ++ ':' :: (digits ++ rest))
    (spells : Hex.Spells digits bytes) (odd : digitsAt rest ≤ 1)
    (enough : 10 ≤ digitsAt (digits ++ rest))
    (last : ∀ between after, digits ++ rest = between ++ ':' :: after → digitsAt after < 10) :
    Holds line bytes

end GromListing.HexFile
