import GromListing.Proofs.HexFile.Merge
import Mathlib.Algebra.BigOperators.Group.Finset.Piecewise
import Mathlib.Algebra.Order.BigOperators.Group.Finset
import Mathlib.Order.Interval.Finset.Nat

/-!
# Overlapping records

* `sum_writersAt`: added up over the addresses of a range, the records that write there are as many
  as the bytes of all records.
* `overwritten_layOut_eq_sum`: so what an overlay counts as overwritten are, at each address, the
  records beyond the first.
* `image_overlap`: an image tells of an overlap just when some address is written twice. The number
  that it gives is that of these addresses just when none of them is written a third time, and
  larger otherwise (`exists_overlap_counted_twice`).
-/

set_option autoImplicit false

namespace GromListing

namespace HexFile

open Finset (Ico range)

/-! ## Counting by addresses -/

section LayOut

variable {records : List Record} {origin size : Nat}

theorem Record.card_written {r : Record} (h : r.Within origin size) :
    Finset.card {address ∈ Ico origin (origin + size) | (r.byteAt? address).isSome = true} =
      r.data.length := by
  have hwritten : {address ∈ Ico origin (origin + size) | (r.byteAt? address).isSome = true} =
      Ico r.address.toNat (r.address.toNat + r.data.length) := by
    obtain ⟨hlow, hhigh⟩ := h
    ext address
    rw [Finset.mem_filter, Record.isSome_byteAt?_iff, Finset.mem_Ico, Finset.mem_Ico]
    omega
  rw [hwritten, Nat.card_Ico, Nat.add_sub_cancel_left]

theorem sum_writersAt (h : ∀ r ∈ records, r.Within origin size) :
    ∑ address ∈ Ico origin (origin + size), writersAt records address =
      (records.flatMap (·.data)).length := by
  induction records with
  | nil => exact Finset.sum_const_zero
  | cons r records ih =>
    rw [List.forall_mem_cons] at h
    have hcons : ∀ address, writersAt (r :: records) address =
        writersAt records address + if (r.byteAt? address).isSome = true then 1 else 0 :=
      fun address => List.countP_cons
    simp only [hcons, Finset.sum_add_distrib, ih h.2, ← Finset.card_filter,
      Record.card_written h.1, List.flatMap_cons, List.length_append, Nat.add_comm]

theorem unset_layOut_eq_card (h : ∀ r ∈ records, r.Within origin size) :
    (layOut records origin size).unset =
      Finset.card {address ∈ Ico origin (origin + size) | writersAt records address = 0} := by
  rw [unset_layOut_eq_countP h, Nat.Ico_eq_range', Nat.add_sub_cancel_left, Finset.card_def,
    Finset.filter_val, ← Multiset.countP_eq_card_filter, Multiset.coe_countP]
  refine List.countP_congr fun address _ => ?_
  rw [beq_iff_eq, decide_eq_true_iff]

theorem overwritten_layOut_eq_sum (h : ∀ r ∈ records, r.Within origin size) :
    (layOut records origin size).overwritten =
      ∑ address ∈ Ico origin (origin + size), (writersAt records address - 1) := by
  have hpoint : ∀ writers : Nat, writers - 1 + 1 = writers + if writers = 0 then 1 else 0 := by
    intro writers
    split <;> omega
  have hsum :=
    calc ∑ address ∈ Ico origin (origin + size), (writersAt records address - 1) + size
      _ = ∑ address ∈ Ico origin (origin + size), (writersAt records address - 1 + 1) := by
        rw [Finset.sum_add_distrib, ← Finset.card_eq_sum_ones, Nat.card_Ico,
          Nat.add_sub_cancel_left]
      _ = (records.flatMap (·.data)).length + (layOut records origin size).unset := by
        simp only [hpoint, Finset.sum_add_distrib, sum_writersAt h, unset_layOut_eq_card h,
          Finset.card_filter]
  have hbalance := balance_layOut h
  omega

end LayOut

/-! ## Addresses written twice -/

/-- The addresses that two records write, or more. -/
def writtenTwice (records : List Record) : Finset Nat :=
  {address ∈ range 0x10000 | 2 ≤ writersAt records address}

/-- How many records write at an address beyond the first, added up over all addresses. -/
def rewrites (records : List Record) : Nat :=
  ∑ address ∈ range 0x10000, (writersAt records address - 1)

section Rewrites

variable {records : List Record}

theorem ite_two_le_le_sub_one (writers : Nat) : (if 2 ≤ writers then 1 else 0) ≤ writers - 1 := by
  split <;> omega

theorem card_writtenTwice_eq_sum : (writtenTwice records).card =
    ∑ address ∈ range 0x10000, if 2 ≤ writersAt records address then 1 else 0 :=
  Finset.card_filter ..

theorem card_writtenTwice_le : (writtenTwice records).card ≤ rewrites records := by
  rw [card_writtenTwice_eq_sum]
  exact Finset.sum_le_sum fun address _ => ite_two_le_le_sub_one _

theorem rewrites_eq_card_iff : rewrites records = (writtenTwice records).card ↔
    ∀ address < 0x10000, writersAt records address ≤ 2 := by
  rw [card_writtenTwice_eq_sum, rewrites, eq_comm,
    Finset.sum_eq_sum_iff_of_le fun address _ => ite_two_le_le_sub_one _]
  refine forall_congr' fun address => ?_
  rw [Finset.mem_range]
  refine imp_congr_right fun _ => ?_
  split <;> omega

theorem rewrites_pos_iff : 0 < rewrites records ↔ (writtenTwice records).Nonempty := by
  rw [Nat.pos_iff_ne_zero, Finset.nonempty_iff_ne_empty, rewrites, writtenTwice, ne_eq, ne_eq,
    Finset.sum_eq_zero_iff, Finset.filter_eq_empty_iff, not_iff_not]
  refine forall_congr' fun address => imp_congr_right fun _ => ?_
  omega

end Rewrites

namespace Span

variable {file : HexFile} {first stop : Nat}

theorem bounds_of_writersAt (h : file.Span first stop) {address : Nat}
    (hwritten : writersAt file.dataRecords address ≠ 0) : first ≤ address ∧ address < stop := by
  obtain ⟨r, hr, hsome⟩ := List.countP_pos_iff.1 (Nat.pos_of_ne_zero hwritten)
  exact h.bounds hr hsome

theorem overwritten_eq_rewrites (h : file.Span first stop) :
    (layOut file.dataRecords first (stop - first)).overwritten = rewrites file.dataRecords := by
  have hstop := h.stop_le
  rw [overwritten_layOut_eq_sum h.within, Nat.add_sub_cancel' h.first_le, rewrites]
  refine Finset.sum_subset (fun address hmem => ?_) fun address _ hout => ?_
  · rw [Finset.mem_Ico] at hmem
    exact Finset.mem_range.2 (by omega)
  · -- nothing is written outside of the span
    rw [Finset.mem_Ico] at hout
    by_cases hwritten : writersAt file.dataRecords address = 0
    · rw [hwritten, Nat.zero_sub]
    · exact absurd (h.bounds_of_writersAt hwritten) hout

end Span

/-- The notices of an overlay begin with that of an overlap, and no other tells of one. -/
theorem Overlay.exists_notices_eq_overlap (overlay : Overlay) (first stop : Nat) :
    ∃ others, (∀ count, Notice.overlap count ∉ others) ∧ overlay.notices first stop =
      (if 0 < overlay.overwritten then [.overlap overlay.overwritten] else []) ++ others := by
  refine ⟨_, fun count hmem => ?_, rfl⟩
  cases List.mem_singleton.1 (List.mem_ite_nil_right.1 hmem).2

/-- **An overlap is counted by writes.** The notice of an overlap is given just when an address is
written by two data records, once, and before all others. Its number is how often a record writes
where an earlier one has written. That is the number of addresses written more than once just when
no address is written by three records, and more than that otherwise. -/
theorem image_overlap (lines : List String) (file : HexFile) (hfile : ofLines lines = .ok file)
    (hne : file.dataRecords ≠ []) :
    let twice := writtenTwice file.dataRecords
    ∃ first stop, file.lowest? = some first ∧ file.stop? = some stop ∧
      let overwritten := (layOut file.dataRecords first (stop - first)).overwritten
      (∀ address, address ∈ twice ↔ 2 ≤ writersAt file.dataRecords address) ∧
      overwritten = rewrites file.dataRecords ∧
      (overwritten = twice.card ↔ ∀ address, writersAt file.dataRecords address ≤ 2) ∧
      twice.card ≤ overwritten ∧ (0 < overwritten ↔ twice.Nonempty) ∧
      ∃ others, (∀ count, Notice.overlap count ∉ others) ∧
        file.image.notices = (if 0 < overwritten then [.overlap overwritten] else []) ++ others := by
  intro twice
  obtain ⟨first, stop, hspan⟩ := exists_span (admitted_of_ofLines hfile) hne
  have hbelow : ∀ address, writersAt file.dataRecords address ≠ 0 → address < 0x10000 := by
    intro address hwritten
    have hstop := hspan.stop_le
    have hbounds := hspan.bounds_of_writersAt hwritten
    omega
  refine ⟨first, stop, hspan.lowest?_eq, hspan.stop?_eq, ?_⟩
  intro overwritten
  have hcount : overwritten = rewrites file.dataRecords := hspan.overwritten_eq_rewrites
  refine ⟨fun address => ?_, hcount, ?_, hcount ▸ card_writtenTwice_le, ?_, ?_⟩
  · rw [show address ∈ twice ↔ _ from Finset.mem_filter, Finset.mem_range]
    exact ⟨And.right, fun htwice => ⟨hbelow address (by omega), htwice⟩⟩
  · rw [hcount, rewrites_eq_card_iff]
    refine forall_congr' fun address => ⟨fun h => ?_, fun h _ => h⟩
    by_cases hwritten : writersAt file.dataRecords address = 0
    · omega
    · exact h (hbelow address hwritten)
  · rw [hcount, rewrites_pos_iff]
  · rw [hspan.image_eq]
    exact Overlay.exists_notices_eq_overlap ..

/-- Two records that share one address. -/
theorem image_overlap_shared :
    let lines := [":0260000001029B", ":02600100030496", ":00000001FF"]
    let file : HexFile := ⟨#[⟨2, 0x6000, 0x00, [0x01, 0x02], 0x9B⟩,
      ⟨2, 0x6001, 0x00, [0x03, 0x04], 0x96⟩, .ending], true⟩
    ofLines lines = .ok file ∧ file.dataRecords ≠ [] ∧ 0x6001 ∈ writtenTwice file.dataRecords ∧
      (writtenTwice file.dataRecords).card = 1 ∧
      ∃ others, (∀ count, Notice.overlap count ∉ others) ∧
        file.image.notices = [.overlap 1] ++ others := by
  intro lines file
  have hfile : ofLines lines = .ok file := by rfl
  have hne : file.dataRecords ≠ [] := by decide +kernel
  have hlowest : file.lowest? = some 0x6000 := by decide +kernel
  have hstop : file.stop? = some 0x6003 := by decide +kernel
  have hoverwritten : (layOut file.dataRecords 0x6000 (0x6003 - 0x6000)).overwritten = 1 := by
    decide +kernel
  have htwo : file.dataRecords.length = 2 := by decide +kernel
  obtain ⟨first, stop, hfirst, hlast, hmem, -, hcard, -, -, hnotices⟩ :=
    image_overlap lines file hfile hne
  obtain rfl : 0x6000 = first := Option.some.inj (hlowest.symm.trans hfirst)
  obtain rfl : 0x6003 = stop := Option.some.inj (hstop.symm.trans hlast)
  rw [hoverwritten] at hcard hnotices
  exact ⟨hfile, hne, (hmem 0x6001).2 (by decide +kernel),
    (hcard.2 fun address => htwo ▸ List.countP_le_length).symm, hnotices⟩

/-- A third record on an address is counted again, though the address is the same. -/
theorem exists_overlap_counted_twice :
    ¬∀ (lines : List String) (file : HexFile) (first stop : Nat), ofLines lines = .ok file →
      file.lowest? = some first → file.stop? = some stop →
      (layOut file.dataRecords first (stop - first)).overwritten =
        (writtenTwice file.dataRecords).card := by
  intro h
  let lines := [":01600000019E", ":01600000029D", ":01600000039C", ":00000001FF"]
  let file : HexFile := ⟨#[⟨1, 0x6000, 0x00, [0x01], 0x9E⟩, ⟨1, 0x6000, 0x00, [0x02], 0x9D⟩,
    ⟨1, 0x6000, 0x00, [0x03], 0x9C⟩, .ending], true⟩
  have hfile : ofLines lines = .ok file := by rfl
  have hlowest : file.lowest? = some 0x6000 := by decide +kernel
  have hstop : file.stop? = some 0x6001 := by decide +kernel
  have hoverwritten : (layOut file.dataRecords 0x6000 (0x6001 - 0x6000)).overwritten = 2 := by
    decide +kernel
  have hcard := h lines file 0x6000 0x6001 hfile hlowest hstop
  have hsub : writtenTwice file.dataRecords ⊆ {0x6000} := by
    intro address hmem
    obtain ⟨first, stop, hspan⟩ := exists_span (admitted_of_ofLines hfile) (by decide +kernel)
    obtain rfl : 0x6000 = first := Option.some.inj (hlowest.symm.trans hspan.lowest?_eq)
    obtain rfl : 0x6001 = stop := Option.some.inj (hstop.symm.trans hspan.stop?_eq)
    have htwice := (Finset.mem_filter.1 hmem).2
    have hwritten : writersAt file.dataRecords address ≠ 0 := by omega
    have hbounds := hspan.bounds_of_writersAt hwritten
    exact Finset.mem_singleton.2 (by omega)
  have hone := Finset.card_le_card hsub
  rw [← hcard, hoverwritten, Finset.card_singleton] at hone
  exact absurd hone (by decide)

end HexFile

end GromListing
