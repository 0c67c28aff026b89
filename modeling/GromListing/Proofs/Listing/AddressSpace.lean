import GromListing.Image.Load
import GromListing.Listing.Sweep
import GromListing.Proofs.Image.Extent
import Mathlib.Logic.Relation

/-!
# Images in the address space

* `Sweep.next_inside`: a step is made before the end of the range, and does not move it.
* `Sweep.addr_eq_of_run`: so at every step of a sweep its position is an address.
* `ofBytes_address_space`: which bytes have an image, where it ends, and that its sweeps never leave
  the address space. Sizes are counted in 32 bits, so bytes enough to fill these once over have an
  image too, whether sums are checked for overflow or not (`exists_image_past_top`).
-/

set_option autoImplicit false

namespace GromListing.Listing

namespace Sweep

/-- One sweep is the other after one more step. -/
def Follows (s t : Sweep) : Prop := ∃ step, s.next = some (step, t)

variable {s t : Sweep} {image : Image}

theorem next_inside (h : s.Follows t) : s.position < s.stop ∧ t.stop = s.stop := by
  obtain ⟨step, h⟩ := h
  unfold next at h
  split at h
  · cases h
  · rename_i hlt
    refine ⟨Nat.lt_of_not_le hlt, ?_⟩
    split at h
    · cases h
    · split at h
      · cases h
        rfl
      · split at h
        · cases h
          rfl
        · cases h
          rfl

theorem stop_eq_of_run (h : Relation.ReflTransGen Follows s t) : t.stop = s.stop := by
  induction h with
  | refl => rfl
  | tail _ hstep ih => exact (next_inside hstep).2.trans ih

theorem addr_eq_of_run {start : UInt16} {limit : UInt32} (hfit : image.stop.toNat ≤ 0x10000)
    (h : Relation.ReflTransGen Follows (Sweep.start image start limit) s) (hstep : s.Follows t) :
    s.position < 0x10000 ∧ s.addr.toNat = s.position := by
  have hstop : s.stop = min limit.toNat image.stop.toNat := stop_eq_of_run h
  have hlt : s.position < 0x10000 := by
    have hinside := (next_inside hstep).1
    omega
  exact ⟨hlt, UInt16.toNat_ofNat_of_lt' hlt⟩

end Sweep

/-- **An image fits the address space, and so do its sweeps.** Bytes have an image just when they
end within the address space, as 32 bits count their end, and a raw file is read as that image. The
image ends there and has the addresses from its origin on; at each step that a sweep over it makes
the position is an address. Where 32 bits suffice, the end is the plain sum. A build that checks its
sums makes the same of the bytes, or nothing at all, just when the origin and the size as 32 bits
count it need more bits than these. -/
theorem ofBytes_address_space (origin : UInt16) (bytes : List UInt8) :
    let stop := (origin.toNat + bytes.length) % UInt32.size
    (origin.toNat + bytes.length < UInt32.size → stop = origin.toNat + bytes.length) ∧
    (Image.ofBytes? origin bytes =
      if origin.toNat + bytes.length % UInt32.size < UInt32.size then
        some (Image.ofBytes origin bytes)
      else none) ∧
    ((∃ image, Image.ofBytes origin bytes = .ok image) ↔ stop ≤ 0x10000) ∧
    (∀ name, FileName.isHex name = false →
      (Image.load name origin (.ok bytes)).result = Image.ofBytes origin bytes) ∧
    ∀ image, Image.ofBytes origin bytes = .ok image →
      image.origin = origin ∧ image.bytes = bytes ∧ image.stop.toNat = stop ∧
      (∀ addr, image.contains addr = true ↔ origin.toNat ≤ addr.toNat ∧ addr.toNat < stop) ∧
      ∀ start limit s t, Relation.ReflTransGen Sweep.Follows (Sweep.start image start limit) s →
        s.Follows t → s.position < 0x10000 ∧ s.addr.toNat = s.position := by
  intro stop
  refine ⟨Nat.mod_eq_of_lt, Image.ofBytes?_eq origin bytes, ?_, fun name hname => ?_,
    fun image himage => ?_⟩
  · constructor
    · rintro ⟨image, himage⟩
      exact (Image.ofBytes_eq_ok_iff.1 himage).1
    · exact fun hstop => ⟨_, Image.ofBytes_eq_ok_iff.2 ⟨hstop, rfl⟩⟩
  · simp [Image.load, hname, Logged.ofExcept]
  · obtain ⟨hfit, rfl⟩ := Image.ofBytes_eq_ok_iff.1 himage
    have hstop : (Extent.mk origin bytes.length).stop.toNat = stop := Extent.toNat_stop _
    refine ⟨rfl, rfl, hstop, fun addr => ?_, fun start limit s t hrun hstep => ?_⟩
    · rw [← hstop]
      exact Extent.contains_iff
    · exact Sweep.addr_eq_of_run (hstop ▸ hfit) hrun hstep

/-- A branch cut off by the top of the address space, whose bytes become data up to the last. -/
theorem ofBytes_address_space_top :
    let image : Image := ⟨0xFFFE, #[0x05, 0x12]⟩
    let first := Sweep.start image 0xFFFE 0x10000
    let second := (first.advance 1).enterTail
    Image.ofBytes 0xFFFE [0x05, 0x12] = .ok image ∧
    Image.ofBytes? 0xFFFE [0x05, 0x12] = some (.ok image) ∧
    (Image.load "top.bin" 0xFFFE (.ok [0x05, 0x12])).result = .ok image ∧
    image.stop.toNat = 0x10000 ∧ image.contains 0xFFFF = true ∧
    first.Follows second ∧ second.Follows (second.advance 1) ∧ second.addr.toNat = 0xFFFF := by
  intro image first second
  have himage : Image.ofBytes 0xFFFE [0x05, 0x12] = .ok image := rfl
  have hfirst : first.Follows second :=
    ⟨⟨.data 0xFFFE 0x05, some (.resync ⟨0xFFFE, 3, 2⟩ 2)⟩, by decide⟩
  have hsecond : second.Follows (second.advance 1) :=
    ⟨⟨.data 0xFFFF 0x12, none⟩, by decide⟩
  obtain ⟨-, hchecked, -, hload, himages⟩ := ofBytes_address_space 0xFFFE [0x05, 0x12]
  obtain ⟨-, -, hstop, hcontains, hsweep⟩ := himages image himage
  have hrun : Relation.ReflTransGen Sweep.Follows first second := .single hfirst
  refine ⟨himage, hchecked.trans (if_pos (by decide)), (hload "top.bin" (by decide)).trans himage,
    hstop.trans (by decide), ?_, hfirst, hsecond, (hsweep _ _ _ _ hrun hsecond).2⟩
  exact (hcontains 0xFFFF).2 ⟨by decide, by decide⟩

/-- Of `UInt32.size` bytes, 32 bits count none, so these have an image that ends where it begins. -/
theorem exists_image_past_top :
    ∃ (origin : UInt16) (bytes : List UInt8) (image : Image),
      ¬origin.toNat + bytes.length ≤ 0x10000 ∧ Image.ofBytes origin bytes = .ok image ∧
      Image.ofBytes? origin bytes = some (.ok image) ∧ image.stop.toNat = origin.toNat := by
  obtain ⟨bytes, hlength⟩ : ∃ bytes : List UInt8, bytes.length = UInt32.size :=
    ⟨List.replicate UInt32.size 0x00, List.length_replicate ..⟩
  have horigin : (0x6000 : UInt16).toNat = 0x6000 := by decide
  have hsize : bytes.length % UInt32.size = 0 := by rw [hlength, Nat.mod_self]
  have hstop : (Extent.mk 0x6000 bytes.length).stop.toNat = 0x6000 := by
    rw [Extent.toNat_stop, Nat.add_mod, hsize, horigin]
    decide
  have himage : Image.ofBytes 0x6000 bytes = .ok ⟨0x6000, bytes.toArray⟩ := by
    refine Image.ofBytes_eq_ok_iff.2 ⟨?_, rfl⟩
    rw [← Extent.toNat_stop ⟨0x6000, bytes.length⟩, hstop]
    decide
  refine ⟨0x6000, bytes, _, ?_, himage, ?_, hstop⟩
  · rw [hlength, horigin]
    decide
  · rw [Image.ofBytes?_eq, hsize, horigin, if_pos (by decide), himage]

end GromListing.Listing
