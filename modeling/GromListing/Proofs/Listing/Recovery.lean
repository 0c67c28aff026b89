import GromListing.Proofs.Instruction.Segmentation
import GromListing.Proofs.Listing.Sweep

/-!
# A sweep recovers the program

`sweep_recovery`: whatever encodings are put one behind the other, and whatever beginning of one
more behind them, a sweep lists just these, each encoding as an instruction and each byte of the
beginning as data. There is no other way to take the bytes apart (`Instruction.Segmentation`), so no
length can be off without the sweep noticing.
-/

set_option autoImplicit false

namespace GromListing.Listing

open Instruction (IsEncoding IsPartial Segmentation)

/-- What a line shows: whether its bytes are data, and which they are. -/
def Line.content (line : Line) : Bool × List UInt8 := (line.isData, line.bytes)

theorem map_content_dataLines (addr : Nat) (bytes : List UInt8) :
    (dataLines addr bytes).map Line.content = bytes.map fun byte => (true, [byte]) := by
  induction bytes generalizing addr with
  | nil => rfl
  | cons byte rest ih => simp [dataLines, Line.content, Line.isData, Line.bytes, ih]

theorem map_content_plainLines (addr : Nat) (es : List (List UInt8)) (p : List UInt8)
    (hes : ∀ e ∈ es, IsEncoding e) (hp : IsPartial p) :
    (plainLines addr (es.flatten ++ p)).map Line.content =
      es.map (fun e => (false, e)) ++ p.map fun byte => (true, [byte]) := by
  induction es generalizing addr with
  | nil =>
    obtain ⟨t, ht⟩ := (Instruction.isPartial_iff (UInt16.ofNat addr) p).1 hp
    simp [plainLines_of_error ht, map_content_dataLines]
  | cons e es ih =>
    obtain ⟨inst, rfl, -, hd⟩ := Instruction.decode_encoding_append (hes e List.mem_cons_self)
      (UInt16.ofNat addr) (es.flatten ++ p)
    rw [List.flatten_cons, List.append_assoc, plainLines_of_ok hd, List.map_cons, Instruction.size,
      List.drop_left, ih _ fun e he => hes e (List.mem_cons_of_mem _ he)]
    rfl

/-- **A sweep recovers every program.** Whether bytes are an encoding does not depend on the
address; every run of bytes falls into encodings and a beginning of one more in exactly one way; and
the sweep of an image with these bytes lists the encodings as instructions and the rest as data. -/
theorem sweep_recovery :
    (∀ (a b : UInt16) (e : List UInt8),
      (∃ inst, Instruction.decode a e = .ok inst ∧ inst.size = e.length) ↔
        ∃ inst, Instruction.decode b e = .ok inst ∧ inst.size = e.length) ∧
    (∀ bytes : List UInt8, ∃! d : List (List UInt8) × List UInt8,
      bytes = d.1.flatten ++ d.2 ∧ (∀ e ∈ d.1, IsEncoding e) ∧ IsPartial d.2) ∧
    ∀ (origin : UInt16) (es : List (List UInt8)) (p : List UInt8),
      (∀ e ∈ es, IsEncoding e) → IsPartial p →
      origin.toNat + (es.flatten ++ p).length ≤ 0x10000 →
      let image : Image := ⟨origin, (es.flatten ++ p).toArray⟩
      ((sweep image origin image.stop).map fun step => (step.line.isData, step.line.bytes)) =
        es.map (fun e => (false, e)) ++ p.map fun byte => (true, [byte]) := by
  refine ⟨fun a b e => ?_, fun bytes => ?_, fun origin es p hes hp hroom => ?_⟩
  · rw [← Instruction.isEncoding_iff a, Instruction.isEncoding_iff b]
  · obtain ⟨es, p, h⟩ := Instruction.exists_segmentation bytes
    refine ⟨(es, p), ⟨h.bytes_eq, h.encodings, h.remainder⟩, ?_⟩
    rintro ⟨es', p'⟩ ⟨hb, hes, hp⟩
    obtain ⟨rfl, rfl⟩ := h.unique ⟨hb, hes, hp⟩
    rfl
  · intro image
    have hfits : image.Fits := hroom
    have hlines : (sweep image origin image.stop).map (·.line) =
        plainLines origin.toNat (es.flatten ++ p) := by
      rw [sweep_line_eq hfits, Nat.max_self, Nat.min_self, hfits.range_whole]
      rfl
    rw [← map_content_plainLines origin.toNat es p hes hp, ← hlines, List.map_map]
    rfl

/-- The longest block move there is, a return, and half a store. -/
theorem sweep_recovery_move :
    let move : List UInt8 :=
      [0x32, 0xCF, 0x80, 0x00, 0x01, 0xCF, 0xA0, 0x00, 0x02, 0xEF, 0x10, 0x00, 0x03]
    let image : Image := ⟨0x6000, (move ++ [0x00, 0xBF, 0xA4]).toArray⟩
    ((sweep image 0x6000 image.stop).map fun step => (step.line.isData, step.line.bytes)) =
      [(false, move), (false, [0x00]), (true, [0xBF]), (true, [0xA4])] := by
  intro move image
  have hmove : IsEncoding move := (Instruction.isEncoding_iff 0 move).2 ⟨_, rfl, rfl⟩
  have hreturn : IsEncoding [0x00] := (Instruction.isEncoding_iff 0 _).2 ⟨_, rfl, rfl⟩
  have hstore : IsPartial [0xBF, 0xA4] := (Instruction.isPartial_iff 0 _).2 ⟨_, rfl⟩
  exact sweep_recovery.2.2 0x6000 [move, [0x00]] [0xBF, 0xA4] (by simp [hmove, hreturn]) hstore
    (by decide)

end GromListing.Listing
