import GromListing.HexFile.Coverage
import GromListing.HexFile.Merge

/-!
# What records leave behind

* `Wrote`: what a run of writes does to an overlay. It holds of a single byte within the range
  (`Wrote.put`) and of a run that follows another (`Wrote.trans`), so of the bytes of a record
  (`Wrote.write`) and of all records within the range (`wrote_layOut`).
* `byteAt?_layOut`: at each address stands what the last of the records to write there wrote.
* `balance_layOut`: each byte written either falls on one written before or leaves one byte less
  unset.
-/

set_option autoImplicit false

namespace GromListing

namespace HexFile

namespace Overlay

/-- The byte last written at an index, if one was. -/
def byteAt? (overlay : Overlay) (index : Nat) : Option UInt8 := overlay.cells[index]?.join

/-- Between the two overlays, `count` bytes were written. What was written last at an index is given
by `written`. -/
structure Wrote (written : Nat → Option UInt8) (count : Nat) (before after : Overlay) : Prop where
  size_eq : after.cells.size = before.cells.size
  byteAt?_eq : ∀ index, after.byteAt? index = (written index).or (before.byteAt? index)
  balance : after.overwritten + before.unset = before.overwritten + after.unset + count

/-! ## Bytes -/

theorem cells_put (overlay : Overlay) (index : Nat) (byte : UInt8) :
    (overlay.put index byte).cells = overlay.cells.setIfInBounds index (some byte) := by
  rw [put]
  split <;> rfl

theorem overwritten_put (overlay : Overlay) (index : Nat) (byte : UInt8) :
    (overlay.put index byte).overwritten =
      overlay.overwritten + if (overlay.byteAt? index).isSome then 1 else 0 := by
  rw [put, byteAt?]
  split <;> rfl

theorem unset_put {overlay : Overlay} {index : Nat} (h : index < overlay.cells.size)
    (byte : UInt8) : overlay.unset =
      (overlay.put index byte).unset + if (overlay.byteAt? index).isSome then 0 else 1 := by
  have hcell : overlay.byteAt? index = overlay.cells[index] := by
    rw [byteAt?, Array.getElem?_eq_getElem h, Option.join_some]
  rw [unset, unset, cells_put, Array.setIfInBounds_def, dif_pos h, Array.count_set, hcell]
  cases hbyte : overlay.cells[index] with
  | none =>
    have hpos : 0 < overlay.cells.count none :=
      Array.count_pos_iff.2 (hbyte ▸ Array.getElem_mem h)
    simp
    omega
  | some old => simp

namespace Wrote

theorem refl (overlay : Overlay) : Wrote (fun _ => none) 0 overlay overlay :=
  ⟨rfl, fun _ => rfl, rfl⟩

theorem trans {first second : Nat → Option UInt8} {m n : Nat} {o₁ o₂ o₃ : Overlay}
    (h₁ : Wrote first m o₁ o₂) (h₂ : Wrote second n o₂ o₃) :
    Wrote (fun index => (second index).or (first index)) (m + n) o₁ o₃ where
  size_eq := h₂.size_eq.trans h₁.size_eq
  byteAt?_eq index := by rw [h₂.byteAt?_eq, h₁.byteAt?_eq, Option.or_assoc]
  balance := by
    have hm := h₁.balance
    have hn := h₂.balance
    omega

/-- The same, with what was written said in other words. -/
theorem congr {written written' : Nat → Option UInt8} {count count' : Nat}
    {before after : Overlay} (h : Wrote written count before after)
    (hwritten : ∀ index, written index = written' index) (hcount : count = count') :
    Wrote written' count' before after := by
  subst hcount
  exact funext hwritten ▸ h

theorem put {overlay : Overlay} {index : Nat} (h : index < overlay.cells.size) (byte : UInt8) :
    Wrote (fun i => if i = index then some byte else none) 1 overlay (overlay.put index byte) where
  size_eq := by rw [cells_put, Array.size_setIfInBounds]
  byteAt?_eq i := by
    rw [byteAt?, cells_put, Array.getElem?_setIfInBounds, if_pos h]
    by_cases hi : i = index
    · rw [if_pos hi, if_pos hi.symm]
      rfl
    · rw [if_neg hi, if_neg (Ne.symm hi)]
      rfl
  balance := by
    rw [overwritten_put, unset_put h byte]
    split <;> omega

theorem write {overlay : Overlay} {index : Nat} {bytes : List UInt8}
    (h : index + bytes.length ≤ overlay.cells.size) :
    Wrote (fun i => if index ≤ i then bytes[i - index]? else none) bytes.length overlay
      (overlay.write index bytes) := by
  induction bytes generalizing overlay index with
  | nil =>
    refine (refl overlay).congr (fun i => ?_) rfl
    rw [List.getElem?_nil, ite_self]
  | cons byte rest ih =>
    rw [List.length_cons] at h
    have hput := put (show index < overlay.cells.size by omega) byte
    have hrest := @ih (overlay.put index byte) (index + 1) (by rw [hput.size_eq]; omega)
    refine (hput.trans hrest).congr (fun i => ?_) (by rw [List.length_cons, Nat.add_comm])
    rcases Nat.lt_trichotomy i index with hlt | rfl | hgt
    · rw [if_neg (by omega), if_neg (by omega), if_neg (by omega)]
      rfl
    · rw [if_neg (by omega), if_pos rfl, if_pos (Nat.le_refl i), Nat.sub_self]
      rfl
    · rw [if_pos (by omega), if_neg (by omega), if_pos (by omega), Option.or_none,
        show i - index = i - (index + 1) + 1 by omega, List.getElem?_cons_succ]

end Wrote

/-! ## What is read off -/

theorem unset_eq_zero_iff {overlay : Overlay} :
    overlay.unset = 0 ↔ ∀ i < overlay.cells.size, (overlay.byteAt? i).isSome = true := by
  rw [unset, Array.count_eq_zero, Array.mem_iff_getElem]
  constructor
  · intro h i hi
    rw [byteAt?, Array.getElem?_eq_getElem hi, Option.join_some]
    exact Option.isSome_iff_ne_none.2 fun hnone => h ⟨i, hi, hnone⟩
  · rintro h ⟨i, hi, hnone⟩
    have hsome := h i hi
    rw [byteAt?, Array.getElem?_eq_getElem hi, Option.join_some, hnone] at hsome
    cases hsome

theorem length_bytes (overlay : Overlay) : overlay.bytes.length = overlay.cells.size := by
  rw [bytes, List.length_map, Array.length_toList]

theorem getElem?_bytes {overlay : Overlay} {i : Nat} (h : i < overlay.cells.size) :
    overlay.bytes[i]? = some ((overlay.byteAt? i).getD 0) := by
  rw [bytes, List.getElem?_map, Array.getElem?_toList, byteAt?, Array.getElem?_eq_getElem h]
  rfl

end Overlay

/-! ## Records -/

theorem Record.isSome_byteAt?_iff {r : Record} {address : Nat} :
    (r.byteAt? address).isSome = true ↔
      r.address.toNat ≤ address ∧ address < r.address.toNat + r.data.length := by
  rw [byteAt?]
  split
  · rw [isSome_getElem?]
    omega
  · simp only [Option.isSome_none, Bool.false_eq_true, false_iff]
    omega

/-- The record's data lie within the range of `size` addresses from `origin`. -/
def Record.Within (r : Record) (origin size : Nat) : Prop :=
  origin ≤ r.address.toNat ∧ r.address.toNat + r.data.length ≤ origin + size

theorem lastByteAt?_cons (r : Record) (records : List Record) (address : Nat) :
    lastByteAt? (r :: records) address = (lastByteAt? records address).or (r.byteAt? address) := by
  rw [lastByteAt?, List.reverse_cons, List.findSome?_append, List.findSome?_singleton,
    lastByteAt?]

theorem Overlay.Wrote.record {overlay : Overlay} {r : Record} {origin : Nat}
    (h : r.Within origin overlay.cells.size) :
    Wrote (fun i => r.byteAt? (origin + i)) r.data.length overlay
      (overlay.write (r.address.toNat - origin) r.data) := by
  obtain ⟨hlow, hhigh⟩ := h
  refine (write (by omega)).congr (fun i => ?_) rfl
  rw [Record.byteAt?]
  by_cases hi : r.address.toNat ≤ origin + i
  · rw [if_pos hi, if_pos (by omega),
      show i - (r.address.toNat - origin) = origin + i - r.address.toNat by omega]
  · rw [if_neg hi, if_neg (by omega)]

theorem Overlay.Wrote.records {records : List Record} {origin : Nat} {overlay : Overlay}
    (h : ∀ r ∈ records, r.Within origin overlay.cells.size) :
    Wrote (fun i => lastByteAt? records (origin + i)) (records.flatMap (·.data)).length overlay
      (records.foldl (fun overlay r => overlay.write (r.address.toNat - origin) r.data)
        overlay) := by
  induction records generalizing overlay with
  | nil => exact refl overlay
  | cons r records ih =>
    rw [List.forall_mem_cons] at h
    have hr := record h.1
    refine (hr.trans (ih (hr.size_eq ▸ h.2))).congr (fun i => ?_) ?_
    · rw [lastByteAt?_cons]
    · rw [List.flatMap_cons, List.length_append]

section LayOut

variable {records : List Record} {origin size : Nat}

theorem wrote_layOut (h : ∀ r ∈ records, r.Within origin size) :
    Overlay.Wrote (fun i => lastByteAt? records (origin + i)) (records.flatMap (·.data)).length
      (.blank size) (layOut records origin size) :=
  .records (Array.size_replicate.symm ▸ h)

theorem size_layOut (h : ∀ r ∈ records, r.Within origin size) :
    (layOut records origin size).cells.size = size :=
  (wrote_layOut h).size_eq.trans Array.size_replicate

theorem byteAt?_layOut (h : ∀ r ∈ records, r.Within origin size) (index : Nat) :
    (layOut records origin size).byteAt? index = lastByteAt? records (origin + index) := by
  have hblank : (Overlay.blank size).byteAt? index = none := by
    rw [Overlay.byteAt?, Overlay.blank, Array.getElem?_replicate]
    split <;> rfl
  rw [(wrote_layOut h).byteAt?_eq, hblank, Option.or_none]

theorem balance_layOut (h : ∀ r ∈ records, r.Within origin size) :
    (layOut records origin size).overwritten + size =
      (layOut records origin size).unset + (records.flatMap (·.data)).length := by
  have hblank : (Overlay.blank size).unset = size := by
    rw [Overlay.unset, Overlay.blank, Array.count_replicate_self]
  have hbalance := (wrote_layOut h).balance
  rw [hblank] at hbalance
  simpa [Overlay.blank] using hbalance

end LayOut

end HexFile

end GromListing
