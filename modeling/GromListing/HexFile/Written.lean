import GromListing.HexFile.Record
import Mathlib.Algebra.Ring.Nat

/-!
# Writing records

How a record is spelled in a line: the relation that `Reading.ofLine` inverts. Digits may be of
either case, each by itself. A transcript has its records in order, one to a line, and may have
lines without a record anywhere.
-/

set_option autoImplicit false

namespace GromListing

namespace Hex

/-- A character is the digit of `n`, in either case. -/
def IsDigit (n : Nat) (c : Char) : Prop := c = digit n ∨ c = (digit n).toLower

/-- The characters spell the bytes, two digits each. -/
inductive Spells : List Char → List UInt8 → Prop
  | nil : Spells [] []
  | cons {hi lo : Char} {text : List Char} {byte : UInt8} {bytes : List UInt8} :
    IsDigit (byte.toNat / 16) hi → IsDigit (byte.toNat % 16) lo → Spells text bytes →
      Spells (hi :: lo :: text) (byte :: bytes)

instance (n : Nat) (c : Char) : Decidable (IsDigit n c) :=
  inferInstanceAs (Decidable (_ ∨ _))

instance decidableSpells : (text : List Char) → (bytes : List UInt8) → Decidable (Spells text bytes)
  | [], [] => .isTrue .nil
  | [], _ :: _ => .isFalse nofun
  | _ :: _, [] => .isFalse nofun
  | [_], _ :: _ => .isFalse nofun
  | hi :: lo :: text, byte :: bytes =>
    have := decidableSpells text bytes
    decidable_of_iff
      (IsDigit (byte.toNat / 16) hi ∧ IsDigit (byte.toNat % 16) lo ∧ Spells text bytes)
      ⟨fun ⟨hhi, hlo, h⟩ => .cons hhi hlo h, fun | .cons hhi hlo h => ⟨hhi, hlo, h⟩⟩

end Hex

namespace HexFile.Record

/-- The bytes of a record without its checksum. -/
def body (r : Record) : List UInt8 :=
  [r.size, (r.address >>> 8).toUInt8, r.address.toUInt8, r.kind] ++ r.data

/-- The line is a colon and the digits of the record, and nothing else. -/
def WrittenAs (r : Record) (line : String) : Prop :=
  ∃ text, line.toList = ':' :: text ∧ Hex.Spells text (r.body ++ [r.checksum])

/-- The data record of bytes at an address, with its proper checksum. -/
def ofData (address : UInt16) (data : List UInt8) : Record :=
  let r : Record := ⟨data.length.toUInt8, address, dataKind, data, 0⟩
  { r with checksum := r.properChecksum }

/-- The record that ends a file. -/
def ending : Record :=
  let r : Record := ⟨0, 0, endKind, [], 0⟩
  { r with checksum := r.properChecksum }

/-- The data records of chunks that lie one behind the other, the first of them at `address`. -/
def ofChunks (address : Nat) : List (List UInt8) → List Record
  | [] => []
  | chunk :: rest => ofData address.toUInt16 chunk :: ofChunks (address + chunk.length) rest

end HexFile.Record

namespace HexFile

/-- The bytes add up to a multiple of 256, as all bytes of a record do. -/
def SumsToZero (bytes : List UInt8) : Prop := (bytes.map (·.toNat)).sum % 256 = 0

instance (bytes : List UInt8) : Decidable (SumsToZero bytes) := Nat.decEq ..

/-- No colon in the first line of the text has ten digits behind it. -/
def HoldsNoRecord (line : String) : Prop :=
  ∀ before after, line.toList.takeWhile (· != '\n') = before ++ ':' :: after →
    (after.takeWhile fun c => (Hex.value? c).isSome).length < 10

/-- The lines spell the records, with lines between them that hold none. -/
inductive Transcript : List Record → List String → Prop
  | nil : Transcript [] []
  | record {r : Record} {line : String} {records : List Record} {lines : List String} :
    r.WrittenAs line → Transcript records lines → Transcript (r :: records) (line :: lines)
  | other {line : String} {records : List Record} {lines : List String} :
    HoldsNoRecord line → Transcript records lines → Transcript records (line :: lines)

end HexFile

end GromListing
