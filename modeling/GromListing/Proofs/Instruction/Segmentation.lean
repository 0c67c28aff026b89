import GromListing.Proofs.Instruction.Relocation

/-!
# Bytes fall into instructions in one way

A run of bytes is a sequence of whole encodings and a beginning of one more, which may be empty:

* `isPartial_iff`: the bytes that begin an encoding and do not finish it are those that fail to
  decode.
* `exists_segmentation`, `Segmentation.unique`: every run of bytes has such a decomposition, and
  only one, since no encoding begins another (`decode_encoding_append`).
-/

set_option autoImplicit false

namespace GromListing.Instruction

variable {bytes e e' rest rest' p p' : List UInt8} {es es' : List (List UInt8)}

/-- An encoding decodes to an instruction with its bytes, whatever follows it. -/
theorem decode_encoding_append (h : IsEncoding e) (addr : UInt16) (rest : List UInt8) :
    ∃ inst, inst.bytes = e ∧ Whole addr inst ∧ decode addr (e ++ rest) = .ok inst := by
  obtain ⟨inst, hd, hs⟩ := h addr
  obtain ⟨hw, tail, rfl⟩ := exists_append_of_decode hd
  have htail : tail = [] := by
    simpa [size] using hs
  subst htail
  exact ⟨inst, by simp, hw, by simpa using hw.decode_append rest⟩

theorem Whole.isEncoding {addr : UInt16} {inst : Instruction} (h : Whole addr inst) :
    IsEncoding inst.bytes := by
  have hself : decode addr inst.bytes = .ok inst := by simpa using h.decode_append []
  exact (isEncoding_iff addr _).2 ⟨inst, hself, rfl⟩

theorem IsEncoding.append_inj (h : IsEncoding e) (h' : IsEncoding e')
    (he : e ++ rest = e' ++ rest') : e = e' ∧ rest = rest' := by
  obtain ⟨inst, hb, -, hd⟩ := decode_encoding_append h 0 rest
  obtain ⟨inst', hb', -, hd'⟩ := decode_encoding_append h' 0 rest'
  rw [he, hd'] at hd
  cases hd
  have hee : e = e' := hb.symm.trans hb'
  subst hee
  exact ⟨rfl, List.append_cancel_left he⟩

theorem isPartial_iff (addr : UInt16) (bytes : List UInt8) :
    IsPartial bytes ↔ ∃ t, decode addr bytes = .error t := by
  constructor
  · rintro ⟨more, hne, h⟩
    obtain ⟨inst, hb, hw, -⟩ := decode_encoding_append h addr []
    have hlen : bytes.length < inst.size := by
      have := List.length_pos_iff.2 hne
      rw [size, hb, List.length_append]
      omega
    have ht := hw.decode_take bytes.length hlen
    rw [hb, List.take_left] at ht
    exact ⟨_, ht⟩
  · rintro ⟨t, ht⟩
    -- thirteen more bytes decode to something, which has to reach past those that did not
    rcases decode_cases addr (bytes ++ List.replicate maxSize 0) with ⟨inst, tail, hb, hw⟩ | ⟨hl, -⟩
    · rcases List.append_eq_append_iff.1 hb with ⟨more, hmore, -⟩ | ⟨tail', htail', -⟩
      · refine ⟨more, ?_, hmore ▸ hw.isEncoding⟩
        rintro rfl
        have hself := hw.decode_append []
        simp [hmore, ht] at hself
      · rw [htail', hw.decode_append] at ht
        cases ht
    · simp only [List.length_append, List.length_replicate] at hl
      omega

/-- The bytes are encodings one after another, and a beginning of one more. -/
structure Segmentation (bytes : List UInt8) (es : List (List UInt8)) (p : List UInt8) : Prop where
  bytes_eq : bytes = es.flatten ++ p
  encodings : ∀ e ∈ es, IsEncoding e
  remainder : IsPartial p

theorem exists_segmentation (bytes : List UInt8) : ∃ es p, Segmentation bytes es p := by
  cases hd : decode 0 bytes with
  | ok inst =>
    obtain ⟨hw, tail, hb⟩ := exists_append_of_decode hd
    obtain ⟨es, p, h⟩ := exists_segmentation tail
    refine ⟨inst.bytes :: es, p, ?_, ?_, h.remainder⟩
    · simp [hb, h.bytes_eq]
    · rintro e (_ | ⟨_, he⟩)
      · exact hw.isEncoding
      · exact h.encodings e he
  | error t => exact ⟨[], bytes, rfl, nofun, (isPartial_iff 0 bytes).2 ⟨t, hd⟩⟩
termination_by bytes.length
decreasing_by
  have hpos : 0 < inst.bytes.length := hw.size_pos
  rw [hb, List.length_append]
  omega

theorem IsPartial.ne_append (hp : IsPartial p) (h : IsEncoding e) : p ≠ e ++ rest := by
  rintro rfl
  obtain ⟨t, ht⟩ := (isPartial_iff 0 _).1 hp
  obtain ⟨inst, -, -, hd⟩ := decode_encoding_append h 0 rest
  rw [hd] at ht
  cases ht

theorem Segmentation.unique (h : Segmentation bytes es p) (h' : Segmentation bytes es' p') :
    es = es' ∧ p = p' := by
  induction es generalizing bytes es' with
  | nil =>
    cases es' with
    | nil => exact ⟨rfl, h.bytes_eq.symm.trans h'.bytes_eq⟩
    | cons e' es' =>
      have he := h.bytes_eq.symm.trans h'.bytes_eq
      simp only [List.flatten_cons, List.append_assoc] at he
      exact absurd he (h.remainder.ne_append (h'.encodings e' List.mem_cons_self))
  | cons e es ih =>
    cases es' with
    | nil =>
      have he := h'.bytes_eq.symm.trans h.bytes_eq
      simp only [List.flatten_cons, List.append_assoc] at he
      exact absurd he (h'.remainder.ne_append (h.encodings e List.mem_cons_self))
    | cons e' es' =>
      have he := h.bytes_eq.symm.trans h'.bytes_eq
      simp only [List.flatten_cons, List.append_assoc] at he
      obtain ⟨rfl, hrest⟩ := (h.encodings e List.mem_cons_self).append_inj
        (h'.encodings e' List.mem_cons_self) he
      obtain ⟨rfl, rfl⟩ := ih ⟨rfl, fun e he => h.encodings e (List.mem_cons_of_mem _ he), h.remainder⟩
        ⟨hrest, fun e he => h'.encodings e (List.mem_cons_of_mem _ he), h'.remainder⟩
      exact ⟨rfl, rfl⟩

end GromListing.Instruction
