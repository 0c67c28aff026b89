import GromListing.HexFile.Basic

/-!
# Conforming files

What lines and records a hex file may have, said of all of them together. This is what reading line
by line, and adding record by record, are compared with.
-/

set_option autoImplicit false

namespace GromListing.HexFile

/-! ## Lines -/

/-- The record that was read, if one was. -/
def Reading.record? : Reading → Option Record
  | .record r => some r
  | _ => none

/-- The records that the lines hold, in order. -/
def recordsOf (lines : List String) : List Record :=
  lines.filterMap fun line => (Reading.ofLine line).record?

/-- Data records that end within the address space, and one end record behind them. -/
def Complete (records : List Record) : Prop :=
  ∃ data last, records = data ++ [last] ∧
    (∀ r ∈ data, r.kind = Record.dataKind ∧ r.stop ≤ 0x10000) ∧ last.kind = Record.endKind

/-- What is wrong with a line when the lines before it hold the records `before`. Whatever record
stands behind an end record, this is what is wrong with it. -/
inductive Wrong (before : List Record) (line : String) : LineFault → Prop
  | malformed : Reading.ofLine line = .malformed → Wrong before line .malformed
  | afterEnd {r e : Record} : Reading.ofLine line = .record r → e ∈ before →
      e.kind = Record.endKind → Wrong before line (.refused .afterEnd)
  | unsupportedKind {r : Record} : Reading.ofLine line = .record r →
      (∀ e ∈ before, e.kind ≠ Record.endKind) → r.kind ≠ Record.dataKind →
      r.kind ≠ Record.endKind → Wrong before line (.refused (.unsupportedKind r.kind))
  | pastTop {r : Record} : Reading.ofLine line = .record r →
      (∀ e ∈ before, e.kind ≠ Record.endKind) → r.kind = Record.dataKind → 0x10000 < r.stop →
      Wrong before line (.refused (.pastTop r.address))

/-- No line is wrong behind those before it. -/
def Faultless (lines : List String) : Prop :=
  ∀ before line after, lines = before ++ line :: after →
    ∀ cause, ¬Wrong (recordsOf before) line cause

/-! ## Records -/

/-- The file that is left by an attempt to add a record, successful or not. -/
def attempt (file : HexFile) (r : Record) : HexFile :=
  match store r file with
  | .ok _ next => next
  | .error _ left => left

/-- The file knows whether its last record ends it. Only that one may, all others are data records;
these end within the address space, and every record has as many bytes as it says. -/
structure Consistent (file : HexFile) : Prop where
  ended_iff : file.ended = true ↔
    ∃ last, file.records.toList.getLast? = some last ∧ last.kind = Record.endKind
  followed : ∀ r ∈ file.records.toList.dropLast, r.kind = Record.dataKind
  last : ∀ r, file.records.toList.getLast? = some r →
    r.kind = Record.dataKind ∨ r.kind = Record.endKind
  stop_le : ∀ r ∈ file.records.toList, r.kind = Record.dataKind → r.stop ≤ 0x10000
  length_data : ∀ r ∈ file.records.toList, r.data.length = r.size.toNat

end GromListing.HexFile
