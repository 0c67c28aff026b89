import GromListing.Listing.Plain
import GromListing.Listing.Sweep
import GromListing.Proofs.Image.Range

/-!
# The sweep and its bytes

A sweep looks at its image through a window of thirteen bytes. What it lists is settled by the bytes
that it has not listed yet, `Sweep.left`, alone:

* `next_of_left_nil`, `next_of_tail`, `next_of_ok`, `next_of_error`: one step, by those bytes, for a
  sweep inside an image that fits the address space (`Inside`).
* `steps_of_tail`, `steps_line_eq`: all steps, in the tail and before it.
* `sweep_eq_plainLines`: the lines are those of the plain sweep, which decodes from all the bytes
  that are left and knows nothing of the image.
-/

set_option autoImplicit false

namespace GromListing.Listing

namespace Sweep

/-- The bytes of the range that are not listed yet. -/
def left (s : Sweep) : List UInt8 := s.image.range s.position s.stop

/-- The sweep is inside an image that fits the address space. -/
structure Inside (s : Sweep) : Prop where
  fits : s.image.Fits
  origin_le : s.image.origin.toNat ≤ s.position
  stop_le : s.stop ≤ s.image.origin.toNat + s.image.bytes.length

theorem start_inside {image : Image} (h : image.Fits) (start : UInt16) (stop : UInt32) :
    (Sweep.start image start stop).Inside where
  fits := h
  origin_le := Nat.le_max_right ..
  stop_le := h.stop_eq ▸ Nat.min_le_right ..

variable {s : Sweep} {first : UInt8} {rest : List UInt8}

theorem Inside.advance (h : s.Inside) (size : Nat) : (s.advance size).Inside where
  fits := h.fits
  origin_le := Nat.le_trans h.origin_le (Nat.le_add_right ..)
  stop_le := h.stop_le

theorem Inside.enterTail (h : s.Inside) : s.enterTail.Inside := ⟨h.fits, h.origin_le, h.stop_le⟩

theorem Inside.length_left (h : s.Inside) : s.left.length = s.stop - s.position :=
  Image.length_range h.origin_le h.stop_le

theorem Inside.left_advance (h : s.Inside) (size : Nat) :
    (s.advance size).left = s.left.drop size :=
  (Image.drop_range h.origin_le s.stop size).symm

theorem Inside.left_advance_one (h : s.Inside) (hl : s.left = first :: rest) :
    (s.advance 1).left = rest := by
  simp [h.left_advance, hl]

theorem Inside.window_eq (h : s.Inside) (hlt : s.position < s.stop) :
    s.window = s.left.take Instruction.maxSize := by
  have h₁ : s.image.origin.toNat + s.image.bytes.length ≤ 0x10000 := h.fits
  have h₂ := h.stop_le
  have haddr : s.addr.toNat = s.position := by
    rw [addr, UInt16.toNat_ofNat']
    exact Nat.mod_eq_of_lt (by omega)
  have hstop : (UInt32.ofNat (min s.stop (s.position + Instruction.maxSize))).toNat =
      min s.stop (s.position + Instruction.maxSize) := by
    rw [UInt32.toNat_ofNat']
    exact Nat.mod_eq_of_lt (by omega)
  rw [window, left, Image.slice_eq_range, haddr, hstop, Image.take_range h.origin_le]

/-! ## One step -/

theorem Inside.next_of_left_nil (h : s.Inside) (hl : s.left = []) : s.next = none := by
  have hlen := h.length_left
  rw [hl, List.length_nil] at hlen
  rw [next, if_pos (by omega)]

theorem Inside.window_cons (h : s.Inside) (hl : s.left = first :: rest) :
    ¬s.stop ≤ s.position ∧ s.window = first :: rest.take 12 := by
  have hlen := h.length_left
  rw [hl, List.length_cons] at hlen
  refine ⟨by omega, ?_⟩
  rw [h.window_eq (by omega), hl]
  rfl

theorem Inside.next_of_tail (h : s.Inside) (ht : s.inTail = true) (hl : s.left = first :: rest) :
    s.next = some (⟨.data s.addr first, none⟩, s.advance 1) := by
  obtain ⟨hlt, hw⟩ := h.window_cons hl
  rw [next, if_neg hlt, hw]
  simp only [ht, if_true]

theorem decode_window (hl : s.left = first :: rest) :
    Instruction.decode s.addr (first :: rest.take 12) = Instruction.decode s.addr s.left := by
  rw [← Instruction.decode_take_maxSize s.addr s.left, hl]
  rfl

theorem Inside.next_of_ok {inst : Instruction} (h : s.Inside) (ht : s.inTail = false)
    (hd : Instruction.decode s.addr s.left = .ok inst) :
    s.next = some (⟨.code inst, none⟩, s.advance inst.size) := by
  cases hl : s.left with
  | nil =>
    rw [hl] at hd
    cases hd
  | cons first rest =>
    obtain ⟨hlt, hw⟩ := h.window_cons hl
    have hd' := (decode_window hl).trans hd
    rw [next, if_neg hlt, hw]
    simp only [ht, hd', Bool.false_eq_true, if_false, unknownNotice?_eq_none]

theorem Inside.next_of_error {cause : Truncation} (h : s.Inside) (ht : s.inTail = false)
    (hl : s.left = first :: rest) (hd : Instruction.decode s.addr s.left = .error cause) :
    s.next = some (⟨.data s.addr first, some (.resync cause s.left.length)⟩,
      (s.advance 1).enterTail) := by
  obtain ⟨hlt, hw⟩ := h.window_cons hl
  have hd' := (decode_window hl).trans hd
  rw [next, if_neg hlt, hw, h.length_left]
  simp only [ht, hd', Bool.false_eq_true, if_false]

/-! ## All steps -/

theorem steps_of_tail (s : Sweep) (h : s.Inside) (ht : s.inTail = true) :
    s.steps = (dataLines s.position s.left).map fun line => ⟨line, none⟩ := by
  cases hl : s.left with
  | nil => simp [steps_of_none (h.next_of_left_nil hl), dataLines]
  | cons first rest =>
    have ih := steps_of_tail (s.advance 1) (h.advance 1) ht
    rw [h.left_advance_one hl] at ih
    rw [steps_of_some (h.next_of_tail ht hl), ih, dataLines, List.map_cons]
    rfl
termination_by s.stop - s.position
decreasing_by exact next_lt (h.next_of_tail ht hl)

/-- **The lines of a sweep are the plain lines of the bytes that are left.** -/
theorem steps_line_eq (s : Sweep) (h : s.Inside) (ht : s.inTail = false) :
    s.steps.map (·.line) = plainLines s.position s.left := by
  cases hd : Instruction.decode s.addr s.left with
  | ok inst =>
    have ih := steps_line_eq (s.advance inst.size) (h.advance inst.size) ht
    rw [h.left_advance] at ih
    rw [steps_of_some (h.next_of_ok ht hd), List.map_cons, ih, plainLines_of_ok hd]
    rfl
  | error cause =>
    rw [plainLines_of_error hd]
    cases hl : s.left with
    | nil => simp [steps_of_none (h.next_of_left_nil hl), dataLines]
    | cons first rest =>
      have hrest : (s.advance 1).enterTail.left = rest := h.left_advance_one hl
      rw [steps_of_some (h.next_of_error ht hl hd), List.map_cons,
        steps_of_tail _ (h.advance 1).enterTail rfl, List.map_map, hrest, dataLines]
      simp [advance, enterTail, addr, Function.comp_def]
termination_by s.stop - s.position
decreasing_by exact next_lt (h.next_of_ok ht hd)

end Sweep

theorem sweep_line_eq {image : Image} (h : image.Fits) (start : UInt16) (stop : UInt32) :
    (sweep image start stop).map (·.line) =
      plainLines (max start.toNat image.origin.toNat)
        (image.range (max start.toNat image.origin.toNat) (min stop.toNat image.stop.toNat)) :=
  Sweep.steps_line_eq _ (Sweep.start_inside h start stop) rfl

/-- **The windowed sweep is the plain one.** It lists what the plain sweep does that is given the
first address of the range and the bytes in it. So two images with the same bytes in their ranges
have the same lines, whatever else they hold. -/
theorem sweep_eq_plainLines (image : Image) (h : image.Fits) (start : UInt16) (stop : UInt32) :
    let lo := max start.toNat image.origin.toNat
    let hi := min stop.toNat image.stop.toNat
    (sweep image start stop).map (·.line) = plainLines lo (image.range lo hi) ∧
      ∀ (image' : Image) (start' : UInt16) (stop' : UInt32), image'.Fits →
        max start'.toNat image'.origin.toNat = lo →
        image'.range lo (min stop'.toNat image'.stop.toNat) = image.range lo hi →
        (sweep image' start' stop').map (·.line) = (sweep image start stop).map (·.line) := by
  intro lo hi
  refine ⟨sweep_line_eq h start stop, fun image' start' stop' h' hlo hrange => ?_⟩
  rw [sweep_line_eq h, sweep_line_eq h', hlo, hrange]

/-- A branch cut short by the end of the range, and one cut short by the end of the image. -/
theorem sweep_eq_plainLines_truncated :
    let image : Image := ⟨0x6000, #[0xFF, 0x00, 0x05, 0x12, 0x34]⟩
    let image' : Image := ⟨0x6001, #[0x00, 0x05, 0x12]⟩
    image.Fits ∧ image'.Fits ∧
      (sweep image 0x6001 0x6004).map (·.line) = plainLines 0x6001 [0x00, 0x05, 0x12] ∧
      (sweep image' 0 0x10000).map (·.line) = (sweep image 0x6001 0x6004).map (·.line) := by
  intro image image'
  have h : image.Fits := by decide
  have h' : image'.Fits := by decide
  have hlo : max (0x6001 : UInt16).toNat image.origin.toNat = 0x6001 := by decide
  have hrange : image.range 0x6001 (min (0x6004 : UInt32).toNat image.stop.toNat) =
      [0x00, 0x05, 0x12] := by decide
  obtain ⟨hplain, hother⟩ := sweep_eq_plainLines image h 0x6001 0x6004
  rw [hlo] at hplain hother
  rw [hrange] at hplain hother
  exact ⟨h, h', hplain, hother image' 0 0x10000 h' (by decide) (by decide)⟩

end GromListing.Listing
