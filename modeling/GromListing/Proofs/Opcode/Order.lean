import GromListing.Opcode.Order
import GromListing.Opcode.Table

/-!
# Catch-all rows shadow nothing

* `scan_eq_scanOr`: a scan is the search for the first row that covers a byte, with the unknown row
  to fall back to.
* `scanOr_cases`: such a search finds a row that no row before it covers the byte of, or falls back.
* `CatchAllsLast.format_of_reserved`: in a table with its catch-all rows last, the row found is one
  of these only if all rows that cover the byte are.
* `scanOr_append`, `scanOr_swap`: rows that do not meet may change places.
* `scan_ordered`: what all this says of a scan. The table of GPL is one of those it is about
  (`catchAllsLast_table`).
-/

set_option autoImplicit false

namespace GromListing.Opcode

variable {table before after : List Row} {row r s fallback : Row} {op : UInt8}

/-! ## Rows that meet -/

theorem Row.covers_iff : row.covers op = true ↔ row.low ≤ op ∧ op ≤ row.high := by
  rw [Row.covers, Bool.and_eq_true, decide_eq_true_iff, decide_eq_true_iff]

theorem Row.meets_iff : r.Meets s ↔
    r.low ≤ r.high ∧ r.low ≤ s.high ∧ s.low ≤ r.high ∧ s.low ≤ s.high := by
  simp only [Row.Meets, Row.covers_iff]
  constructor
  · rintro ⟨op, ⟨hr₁, hr₂⟩, hs₁, hs₂⟩
    exact ⟨UInt8.le_trans hr₁ hr₂, UInt8.le_trans hr₁ hs₂, UInt8.le_trans hs₁ hr₂,
      UInt8.le_trans hs₁ hs₂⟩
  · rintro ⟨hr, hrs, hsr, hs⟩
    -- the byte where the later of the two begins
    rcases UInt8.le_total r.low s.low with hle | hle
    · exact ⟨s.low, ⟨hle, hsr⟩, UInt8.le_refl _, hs⟩
    · exact ⟨r.low, ⟨UInt8.le_refl _, hr⟩, hle, hrs⟩

instance (r s : Row) : Decidable (r.Meets s) := decidable_of_iff _ Row.meets_iff.symm

instance (table : List Row) : Decidable (CatchAllsLast table) :=
  inferInstanceAs (Decidable (List.Pairwise _ table))

theorem catchAllsLast_table : CatchAllsLast Opcode.table := by decide +kernel

/-! ## Scans -/

theorem scan_eq_scanOr (table : List Row) (op : UInt8) :
    scan table op = scanOr unknownRow table op := by
  induction table with
  | nil => rfl
  | cons row rest ih =>
    rw [scan, List.find?_cons, scanOr]
    cases row.covers op with
    | true => rfl
    | false => exact ih

theorem scanOr_append (fallback : Row) (before rest : List Row) (op : UInt8) :
    scanOr fallback (before ++ rest) op = scanOr (scanOr fallback rest op) before op := by
  induction before with
  | nil => rfl
  | cons row before ih => rw [List.cons_append, scanOr, scanOr, ih]

/-- The row found is the first that covers the opcode; or there is none, and the scan falls back. -/
theorem scanOr_cases (table : List Row) (op : UInt8) :
    (∃ before row after, table = before ++ row :: after ∧
      (∀ r ∈ before, ¬r.covers op = true) ∧ row.covers op = true ∧
      ∀ fallback, scanOr fallback table op = row) ∨
    ((∀ row ∈ table, ¬row.covers op = true) ∧ FallsBack table op) := by
  induction table with
  | nil => exact .inr ⟨List.forall_mem_nil _, fun _ => rfl⟩
  | cons first rest ih =>
    by_cases hfirst : first.covers op = true
    · exact .inl ⟨[], first, rest, rfl, List.forall_mem_nil _, hfirst,
        fun fallback => if_pos hfirst⟩
    · have hskip (fallback : Row) :
          scanOr fallback (first :: rest) op = scanOr fallback rest op := if_neg hfirst
      rcases ih with ⟨before, row, after, rfl, hbefore, hcovers, hfound⟩ | ⟨hnone, hback⟩
      · exact .inl ⟨first :: before, row, after, rfl, List.forall_mem_cons.2 ⟨hfirst, hbefore⟩,
          hcovers, fun fallback => (hskip fallback).trans (hfound fallback)⟩
      · exact .inr ⟨List.forall_mem_cons.2 ⟨hfirst, hnone⟩,
          fun fallback => (hskip fallback).trans (hback fallback)⟩

theorem scan_of_fallsBack (h : FallsBack table op) : scan table op = unknownRow :=
  (scan_eq_scanOr table op).trans (h unknownRow)

theorem fallsBack_iff : FallsBack table op ↔ ∀ row ∈ table, ¬row.covers op = true := by
  rcases scanOr_cases table op with ⟨before, row, after, rfl, -, hcovers, hfound⟩ | ⟨hnone, hback⟩
  · refine iff_of_false (fun hback => ?_) fun hnone => ?_
    · have hne : (⟨"", 0, 0, .reserved⟩ : Row) ≠ unknownRow := by decide
      -- one row cannot be every fallback
      exact hne (((hback _).symm.trans (hfound _)).trans ((hfound _).symm.trans (hback _)))
    · exact hnone row (by simp) hcovers
  · exact iff_of_true hback hnone

theorem scan_mem (h : ∃ row ∈ table, row.covers op = true) :
    scan table op ∈ table ∧ (scan table op).covers op = true := by
  rcases scanOr_cases table op with ⟨before, row, after, rfl, -, hcovers, hfound⟩ | ⟨hnone, -⟩
  · rw [scan_eq_scanOr, hfound]
    exact ⟨by simp, hcovers⟩
  · obtain ⟨row, hrow, hcovers⟩ := h
    exact absurd hcovers (hnone row hrow)

/-- If the first row that covers an opcode is a catch-all, so is every other one that covers it. -/
theorem CatchAllsLast.format_of_reserved (h : CatchAllsLast (before ++ row :: after))
    (hbefore : ∀ r ∈ before, ¬r.covers op = true) (hrow : row.covers op = true)
    (hformat : row.format = .reserved) :
    ∀ r ∈ before ++ row :: after, r.covers op = true → r.format = .reserved := by
  intro r hr hcovers
  obtain ⟨-, hpairs, -⟩ := List.pairwise_append.1 h
  rcases List.mem_append.1 hr with hr | hr
  · exact absurd hcovers (hbefore r hr)
  · rcases List.mem_cons.1 hr with rfl | hr
    · exact hformat
    · have hlater := List.rel_of_pairwise_cons hpairs hr hformat
      exact Decidable.byContradiction fun hne => hlater hne ⟨op, hrow, hcovers⟩

theorem CatchAllsLast.format_scan_iff (h : CatchAllsLast table) (op : UInt8) :
    (scan table op).format = .reserved ↔
      (∃ row ∈ table, row.format = .reserved ∧ row.covers op = true) ∧
        ∀ row ∈ table, row.covers op = true → row.format = .reserved := by
  rcases scanOr_cases table op with
    ⟨before, row, after, rfl, hbefore, hcovers, hfound⟩ | ⟨hnone, hback⟩
  · have hmem : row ∈ before ++ row :: after := by simp
    rw [scan_eq_scanOr, hfound]
    exact ⟨fun hformat => ⟨⟨row, hmem, hformat, hcovers⟩,
      h.format_of_reserved hbefore hcovers hformat⟩, fun hall => hall.2 row hmem hcovers⟩
  · rw [scan_of_fallsBack hback]
    refine iff_of_false nofun fun hall => ?_
    obtain ⟨⟨row, hrow, -, hcovers⟩, -⟩ := hall
    exact hnone row hrow hcovers

theorem scanOr_swap (h : ¬r.Meets s) (fallback : Row) (before after : List Row) (op : UInt8) :
    scanOr fallback (before ++ r :: s :: after) op =
      scanOr fallback (before ++ s :: r :: after) op := by
  rw [scanOr_append, scanOr_append]
  congr 1
  simp only [scanOr]
  split
  · rename_i hr
    have hs : ¬s.covers op = true := fun hs => h ⟨op, hr, hs⟩
    rw [if_neg hs]
  · rfl

/-- **Catch-all rows never shadow specific ones.** A scan is the search for the first row that covers
an opcode, with the unknown row to fall back to. Where no catch-all row stands before a row of
another format that it meets, it finds a row of another format if one covers the opcode, and a
catch-all row just if one covers it and no other row does; it falls back just if no row covers the
opcode, and finds a row of the table that does else. In any table, two rows next to each other that
do not meet may change places. -/
theorem scan_ordered :
    (∀ table op, scan table op = scanOr unknownRow table op) ∧
    (∀ table, CatchAllsLast table → ∀ op,
      ((∃ row ∈ table, row.format ≠ .reserved ∧ row.covers op = true) →
        scan table op ∈ table ∧ (scan table op).covers op = true ∧
          (scan table op).format ≠ .reserved) ∧
      ((scan table op).format = .reserved ↔
        (∃ row ∈ table, row.format = .reserved ∧ row.covers op = true) ∧
          ¬∃ row ∈ table, row.format ≠ .reserved ∧ row.covers op = true) ∧
      (FallsBack table op ↔ ¬∃ row ∈ table, row.covers op = true) ∧
      (FallsBack table op → scan table op = unknownRow) ∧
      (¬FallsBack table op → scan table op ∈ table ∧ (scan table op).covers op = true)) ∧
    ∀ before r s after, ¬r.Meets s → ∀ op,
      scan (before ++ r :: s :: after) op = scan (before ++ s :: r :: after) op := by
  refine ⟨scan_eq_scanOr, fun table htable op => ?_, fun before r s after hmeets op => ?_⟩
  · have hback : FallsBack table op ↔ ¬∃ row ∈ table, row.covers op = true := by
      simp only [fallsBack_iff, not_exists, not_and]
    have hreserved := htable.format_scan_iff op
    refine ⟨fun hspecific => ?_, ?_, hback, scan_of_fallsBack, fun hfound => ?_⟩
    · obtain ⟨row, hrow, hformat, hcovers⟩ := hspecific
      obtain ⟨hmem, hscan⟩ := scan_mem ⟨row, hrow, hcovers⟩
      exact ⟨hmem, hscan, fun h => hformat ((hreserved.1 h).2 row hrow hcovers)⟩
    · rw [hreserved]
      refine and_congr_right fun _ => ⟨?_, fun hnone row hrow hcovers => ?_⟩
      · rintro hall ⟨row, hrow, hformat, hcovers⟩
        exact hformat (hall row hrow hcovers)
      · exact Decidable.byContradiction fun hformat => hnone ⟨row, hrow, hformat, hcovers⟩
    · exact scan_mem (Classical.not_not.1 (mt hback.2 hfound))
  · rw [scan_eq_scanOr, scan_eq_scanOr]
    exact scanOr_swap hmeets unknownRow before after op

/-- A branch and a byte without a meaning of its own in the table of GPL; a byte that two rows, the
second of which covers nothing, leave to the unknown row; and these two rows the other way round. -/
theorem scan_ordered_table :
    (scan Opcode.table 0x05).format ≠ .reserved ∧
    (scan Opcode.table 0x14 ∈ Opcode.table ∧ (scan Opcode.table 0x14).format = .reserved) ∧
    scan [⟨"RTN", 0x00, 0x00, .inherent⟩, ⟨"XGPL", 0x1F, 0x00, .reserved⟩] 0x01 = unknownRow ∧
    scan [⟨"RTN", 0x00, 0x00, .inherent⟩, ⟨"XGPL", 0x1F, 0x00, .reserved⟩] 0x00 =
      scan [⟨"XGPL", 0x1F, 0x00, .reserved⟩, ⟨"RTN", 0x00, 0x00, .inherent⟩] 0x00 := by
  obtain ⟨-, hordered, hswap⟩ := scan_ordered
  refine ⟨?_, ?_, ?_, hswap [] _ _ [] (by decide) 0x00⟩
  · obtain ⟨hspecific, -⟩ := hordered Opcode.table catchAllsLast_table 0x05
    exact (hspecific (by decide +kernel)).2.2
  · obtain ⟨-, hreserved, hback, -, hfound⟩ := hordered Opcode.table catchAllsLast_table 0x14
    have hcovered : ∃ row ∈ Opcode.table, row.covers 0x14 = true := by decide +kernel
    exact ⟨(hfound fun h => hback.1 h hcovered).1, hreserved.2 (by decide +kernel)⟩
  · obtain ⟨-, -, hback, hunknown, -⟩ := hordered
      [⟨"RTN", 0x00, 0x00, .inherent⟩, ⟨"XGPL", 0x1F, 0x00, .reserved⟩] (by decide) 0x01
    exact hunknown (hback.2 (by decide))

end GromListing.Opcode
