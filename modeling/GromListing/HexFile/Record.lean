import GromListing.Text.Hex
import GromListing.Word

/-!
# Hex records

A record stands in a line as a colon and pairs of hexadecimal digits: size, address (two bytes),
kind, data, checksum. All its bytes add up to zero modulo 256.

What surrounds a record is ignored. Of the colons in the first line of the text, the last one that
ten digits follow begins the record, and the record takes as many pairs of digits as there are.
-/

set_option autoImplicit false

namespace GromListing.HexFile

structure Record where
  size : UInt8
  address : UInt16
  kind : UInt8
  data : List UInt8
  checksum : UInt8
  deriving DecidableEq

inductive Reading
  | blank
  /-- A record of the wrong size or with the wrong checksum. -/
  | malformed
  | record (record : Record)
  deriving DecidableEq

namespace Record

def dataKind : UInt8 := 0

def endKind : UInt8 := 1

def isData (r : Record) : Bool := r.kind == dataKind

/-- The address after the record's last byte, which may lie outside the address space. -/
def stop (r : Record) : Nat := r.address.toNat + r.size.toNat

/-- The value that completes the sum of the other bytes to a multiple of 256. The sum wraps; one that
is kept in 16 bits and checked for overflow would not come to an end where they are too few. -/
def properChecksum (r : Record) : UInt8 :=
  -(r.data.foldl (· + ·) (r.size + (r.address >>> 8).toUInt8 + r.address.toUInt8 + r.kind))

end Record

namespace Reading

/-- The values of the digits at the head of the text. -/
def digitRun : List Char → List Nat
  | [] => []
  | c :: rest =>
    match Hex.value? c with
    | some value => value :: digitRun rest
    | none => []

/-- The digits of the record in a line: all that follow the last colon with ten of them. -/
def digits? : List Char → Option (List Nat)
  | [] => none
  | c :: rest =>
    match digits? rest with
    | some values => some values
    | none =>
      let values := digitRun rest
      if c = ':' ∧ 10 ≤ values.length then some values else none

/-- The bytes that pairs of digits spell; an odd last digit is dropped. -/
def bytesOf : List Nat → List UInt8
  | hi :: lo :: rest => UInt8.ofNat (16 * hi + lo) :: bytesOf rest
  | _ => []

/-- The record that bytes spell. A record of size zero has no data, whatever follows its kind. -/
def ofBytes : List UInt8 → Reading
  | size :: hi :: lo :: kind :: rest =>
    let stored := rest.dropLast
    let record : Record :=
      ⟨size, Word.ofBytes hi lo, kind, if size = 0 then [] else stored, rest.getLastD 0⟩
    if record.data.length = size.toNat ∧ record.checksum = record.properChecksum then
      .record record
    else .malformed
  | _ => .blank

/-- Reads a line. Text after a line feed is not looked at. -/
def ofLine (line : String) : Reading :=
  match digits? (line.toList.takeWhile (· != '\n')) with
  | some values => ofBytes (bytesOf values)
  | none => .blank

end Reading

end GromListing.HexFile
