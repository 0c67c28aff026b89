import GromListing.Proofs.Instruction.Decoding

/-!
# Dual and single instructions

* `Dual.reads_fields_iff`: the fields that a dual opcode asks for are read in the forms that its bits
  `IW` tell (`Dual.source_iff` for the source), the destination first.
* `Single.reads_fields_iff`: a single opcode asks for one general address field.
* `decode_stream_order`: what either decodes to.
-/

set_option autoImplicit false

namespace GromListing

open Reader

variable {base : UInt16} {op : UInt8} {code : List UInt8} {operands : List Operand}

/-! ## Fields -/

theorem Dual.source_iff {o : Operand} :
    (if hasBit 0x02 op then Field.literal (if hasBit 0x01 op then .word else .byte)
      else .general).Form base o code ↔ SourceForm op o code := by
  constructor
  · intro h
    cases i : hasBit 0x02 op with
    | true =>
      rw [if_pos i] at h
      cases w : hasBit 0x01 op with
      | true =>
        rw [if_pos w] at h
        cases h with
        | word hi lo => exact .word i w hi lo
      | false =>
        rw [w, if_neg Bool.false_ne_true] at h
        cases h with
        | byte lo => exact .byte i w lo
    | false =>
      rw [i, if_neg Bool.false_ne_true] at h
      cases h with
      | general hform => exact .general i hform
  · intro h
    cases h with
    | byte i w lo =>
      rw [if_pos i, w, if_neg Bool.false_ne_true]
      exact .byte lo
    | word i w hi lo =>
      rw [if_pos i, if_pos w]
      exact .word hi lo
    | general i hform =>
      rw [i, if_neg Bool.false_ne_true]
      exact .general hform

theorem Dual.reads_fields_iff : Reads ((Format.dual.fields op).mapM Field.read) base code operands ↔
    Form op operands.reverse code := by
  simp only [Format.fields, reads_mapM_cons_iff Field.read_decides, reads_mapM_nil_iff,
    Field.reads_iff, source_iff]
  constructor
  · rintro ⟨code₁, _, destination, _, rfl, rfl, hdestination, code₂, _, source, _, rfl, rfl,
      hsource, rfl, rfl⟩
    rw [List.append_nil]
    cases hdestination with
    | general hform => exact .mk hform hsource
  · intro h
    generalize hlisted : operands.reverse = listed at h
    cases h with
    | @mk destination source code₁ code₂ hdestination hsource =>
      obtain rfl : operands = [destination, source] := List.reverse_eq_iff.1 hlisted
      exact ⟨code₁, code₂, destination, _, rfl, rfl, .general hdestination, code₂, [], source, [],
        (List.append_nil code₂).symm, rfl, hsource, rfl, rfl⟩

theorem Single.reads_fields_iff :
    Reads ((Format.single.fields op).mapM Field.read) base code operands ↔
      ∃ o, operands = [o] ∧ o.GeneralForm code := by
  simp only [Format.fields, reads_mapM_cons_iff Field.read_decides, reads_mapM_nil_iff,
    Field.reads_iff]
  constructor
  · rintro ⟨code, _, o, _, rfl, rfl, hfield, rfl, rfl⟩
    rw [List.append_nil]
    cases hfield with
    | general hform => exact ⟨o, rfl, hform⟩
  · rintro ⟨o, rfl, hform⟩
    exact ⟨code, [], o, [], (List.append_nil code).symm, rfl, .general hform, rfl, rfl⟩

/-! ## Whole instructions -/

/-- **Operands are stored destination first and listed source first.** A dual opcode with a
destination and a source behind it, the source in the form that `I` and `W` ask for, decodes to both
of them and takes exactly these bytes, whatever follows; a single opcode with one operand decodes to
that operand. Both are for words just when `W` is set. Nothing else decodes. -/
theorem decode_stream_order (addr : UInt16) :
    (∀ op operands code rest, Dual.Form op operands code →
      Format.dual.decode (.start addr (op :: (code ++ rest))) =
        ⟨⟨addr, op :: code, rest⟩, hasBit 0x01 op, operands, none⟩) ∧
    (∀ bytes, (Format.dual.decode (.start addr bytes)).fault = none →
      ∃ op operands code rest, bytes = op :: (code ++ rest) ∧ Dual.Form op operands code ∧
        Format.dual.decode (.start addr bytes) =
          ⟨⟨addr, op :: code, rest⟩, hasBit 0x01 op, operands, none⟩) ∧
    (∀ op o code rest, o.GeneralForm code →
      Format.single.decode (.start addr (op :: (code ++ rest))) =
        ⟨⟨addr, op :: code, rest⟩, hasBit 0x01 op, [o], none⟩) ∧
    ∀ bytes, (Format.single.decode (.start addr bytes)).fault = none →
      ∃ op o code rest, bytes = op :: (code ++ rest) ∧ o.GeneralForm code ∧
        Format.single.decode (.start addr bytes) =
          ⟨⟨addr, op :: code, rest⟩, hasBit 0x01 op, [o], none⟩ := by
  refine ⟨fun op operands code rest h => ?_, fun bytes h => ?_, fun op o code rest h => ?_,
    fun bytes h => ?_⟩
  · rw [← operands.reverse_reverse] at h ⊢
    exact Format.decode_of_reads (Dual.reads_fields_iff.2 h) rest
  · obtain ⟨op, code, rest, stored, rfl, hreads, hdecode⟩ := Format.exists_reads_of_decode h
    exact ⟨op, stored.reverse, code, rest, rfl, Dual.reads_fields_iff.1 hreads, hdecode⟩
  · exact Format.decode_of_reads (Single.reads_fields_iff.2 ⟨o, rfl, h⟩) rest
  · obtain ⟨op, code, rest, stored, rfl, hreads, hdecode⟩ := Format.exists_reads_of_decode h
    obtain ⟨o, rfl, hform⟩ := Single.reads_fields_iff.1 hreads
    exact ⟨op, o, code, rest, rfl, hform, hdecode⟩

/-- A word stored to indexed video memory, its literal behind the field of its destination; and a
byte of the scratchpad cleared. -/
theorem decode_stream_order_store :
    let video : Operand := .memory true false 0x0400 (some 0x7E)
    let pad : Operand := .memory false false 0x8310 none
    Dual.Form 0xBF [.immediate (.word 0x1234), video] [0xE4, 0x00, 0x7E, 0x12, 0x34] ∧
      Format.dual.decode (.start 0x6000 [0xBF, 0xE4, 0x00, 0x7E, 0x12, 0x34, 0xFF]) =
        ⟨⟨0x6000, [0xBF, 0xE4, 0x00, 0x7E, 0x12, 0x34], [0xFF]⟩, true,
          [.immediate (.word 0x1234), video], none⟩ ∧
      (∃ operands code rest, [0xBE, 0x00, 0x05, 0xFF] = 0xBE :: (code ++ rest) ∧
        Dual.Form 0xBE operands code) ∧
      Format.single.decode (.start 0x6000 [0x86, 0x10, 0xFF]) =
        ⟨⟨0x6000, [0x86, 0x10], [0xFF]⟩, false, [pad], none⟩ ∧
      ∃ (o : Operand) (code rest : List UInt8),
        [0x87, 0xA0, 0x00] = 0x87 :: (code ++ rest) ∧ o.GeneralForm code := by
  intro video pad
  obtain ⟨hdual, hdualShape, hsingle, hsingleShape⟩ := decode_stream_order 0x6000
  have hform : Dual.Form 0xBF [.immediate (.word 0x1234), video] [0xE4, 0x00, 0x7E, 0x12, 0x34] :=
    .mk (.offset true false 4 0x00 (some 0x7E) (by decide)) (.word rfl rfl 0x12 0x34)
  have hpad : pad.GeneralForm [0x10] := .short 0x10 (by decide)
  refine ⟨hform, hdual _ _ _ [0xFF] hform, ?_, hsingle 0x86 pad _ [0xFF] hpad, ?_⟩
  · obtain ⟨op, operands, code, rest, hbytes, hcode, -⟩ :=
      hdualShape [0xBE, 0x00, 0x05, 0xFF] (by decide)
    obtain rfl : 0xBE = op := (List.cons.inj hbytes).1
    exact ⟨operands, code, rest, hbytes, hcode⟩
  · obtain ⟨op, o, code, rest, hbytes, hcode, -⟩ := hsingleShape [0x87, 0xA0, 0x00] (by decide)
    obtain rfl : 0x87 = op := (List.cons.inj hbytes).1
    exact ⟨o, code, rest, hbytes, hcode⟩

end GromListing
