import GromListing.Proofs.Instruction.Decoding

/-!
# Block moves

* `Move.reads_fields_iff`: the fields that a block move's opcode asks for are read in the forms that
  its bits `GRVCN` tell (`count_iff`, `destination_iff`, `source_iff`, one for each operand).
* `Move.agree_general`, `Move.agree_indexed`: a bit that another one overrides does not matter.
* `Move.decode_layout`: what a block move decodes to, and which bits do not matter.
-/

set_option autoImplicit false

namespace GromListing

open Reader

namespace Move

variable {base : UInt16} {op : UInt8} {code : List UInt8} {o : Operand}

/-! ## Single operands -/

theorem count_iff :
    (if hasBit 0x01 op then Field.literal .word else .general).Form base o code ↔
      CountForm op o code := by
  constructor
  · intro h
    cases n : hasBit 0x01 op with
    | true =>
      rw [if_pos n] at h
      cases h with
      | word hi lo => exact .literal n hi lo
    | false =>
      rw [n, if_neg Bool.false_ne_true] at h
      cases h with
      | general hform => exact .general n hform
  · intro h
    cases h with
    | literal n hi lo =>
      rw [if_pos n]
      exact .word hi lo
    | general n hform =>
      rw [n, if_neg Bool.false_ne_true]
      exact .general hform

theorem destination_iff :
    (if hasBit 0x08 op then Field.vdpRegister else .moveEnd (hasBit 0x10 op) false).Form
        base o code ↔ DestinationForm op o code := by
  constructor
  · intro h
    cases r : hasBit 0x08 op with
    | true =>
      rw [if_pos r] at h
      cases h with
      | vdpRegister b => exact .register r b
    | false =>
      rw [r, if_neg Bool.false_ne_true] at h
      cases g : hasBit 0x10 op with
      | true =>
        rw [g] at h
        cases h with
        | cpuEnd _ hform => exact .general r g hform
      | false =>
        rw [g] at h
        cases h with
        | gromEnd hform =>
          obtain ⟨hi, lo, rfl, rfl⟩ := Operand.gromForm_false_iff.1 hform
          exact .grom r g hi lo
  · intro h
    cases h with
    | register r b =>
      rw [if_pos r]
      exact .vdpRegister b
    | general r g hform =>
      rw [r, if_neg Bool.false_ne_true, g]
      exact .cpuEnd false hform
    | grom r g hi lo =>
      rw [r, if_neg Bool.false_ne_true, g]
      exact .gromEnd (.mk hi lo none)

theorem source_iff :
    (Field.moveEnd (hasBit 0x02 op) (hasBit 0x04 op)).Form base o code ↔
      SourceForm op o code := by
  constructor
  · intro h
    cases c : hasBit 0x02 op with
    | true =>
      rw [c] at h
      cases h with
      | cpuEnd _ hform => exact .general c hform
    | false =>
      rw [c] at h
      generalize v : hasBit 0x04 op = indexed at h
      cases h with
      | gromEnd hform =>
        cases hform with
        | mk hi lo index => exact .grom c hi lo index v
  · intro h
    cases h with
    | general c hform =>
      rw [c]
      exact .cpuEnd _ hform
    | grom c hi lo index v =>
      rw [c, v]
      exact .gromEnd (.mk hi lo index)

/-! ## Whole moves -/

theorem reads_fields_iff {operands : List Operand} :
    Reads ((Format.move.fields op).mapM Field.read) base code operands ↔
      Form op operands code := by
  simp only [Format.fields, reads_mapM_cons_iff Field.read_decides, reads_mapM_nil_iff,
    Field.reads_iff, count_iff, destination_iff, source_iff]
  constructor
  · rintro ⟨code₁, _, count, _, rfl, rfl, hcount, code₂, _, destination, _, rfl, rfl,
      hdestination, code₃, _, source, _, rfl, rfl, hsource, rfl, rfl⟩
    rw [List.append_nil, ← List.append_assoc]
    exact .mk hcount hdestination hsource
  · intro h
    cases h with
    | mk hcount hdestination hsource =>
      exact ⟨_, _, _, _, List.append_assoc .., rfl, hcount, _, _, _, _, rfl, rfl, hdestination,
        _, [], _, [], (List.append_nil _).symm, rfl, hsource, rfl, rfl⟩

/-! ## Bits that do not matter -/

variable {addr : UInt16} {bytes : List UInt8}

/-- A move to a video register asks for the same fields with `G` and without. -/
theorem agree_general (hr : hasBit 0x08 op = true) :
    (Format.move.decode (.start addr ((op ^^^ 0x10) :: bytes))).Agree
      (Format.move.decode (.start addr (op :: bytes))) := by
  have hread : (Format.move.fields (op ^^^ 0x10)).mapM Field.read =
      (Format.move.fields op).mapM Field.read := by
    simp (disch := decide) only [Format.fields, hasBit_xor, hr, if_true]
  exact Format.decode_agree hread rfl rfl addr bytes

/-- The field of a source in memory says itself whether there is an index, so it is read alike with
`V` and without. -/
theorem agree_indexed (hc : hasBit 0x02 op = true) :
    (Format.move.decode (.start addr ((op ^^^ 0x04) :: bytes))).Agree
      (Format.move.decode (.start addr (op :: bytes))) := by
  have hread : (Format.move.fields (op ^^^ 0x04)).mapM Field.read =
      (Format.move.fields op).mapM Field.read := by
    simp (disch := decide) only [Format.fields, hasBit_xor, hc, List.mapM_cons, Field.read,
      Operand.readMoveEnd, if_true]
  exact Format.decode_agree hread rfl rfl addr bytes

/-- **A block move is what `GRVCN` say.** An opcode with a count, a destination and a source behind
it, each in the form that the bits ask for, decodes to these operands and takes exactly these bytes,
whatever follows. Nothing else decodes. With `R` set, `G` does not matter, nor `V` with `C`. -/
theorem decode_layout (addr : UInt16) :
    (∀ op operands code rest, Form op operands code →
      Format.move.decode (.start addr (op :: (code ++ rest))) =
        ⟨⟨addr, op :: code, rest⟩, false, operands, none⟩) ∧
    (∀ bytes, (Format.move.decode (.start addr bytes)).fault = none →
      ∃ op operands code rest, bytes = op :: (code ++ rest) ∧ Form op operands code ∧
        Format.move.decode (.start addr bytes) =
          ⟨⟨addr, op :: code, rest⟩, false, operands, none⟩) ∧
    (∀ op bytes, hasBit 0x08 op = true →
      (Format.move.decode (.start addr ((op ^^^ 0x10) :: bytes))).Agree
        (Format.move.decode (.start addr (op :: bytes)))) ∧
    ∀ op bytes, hasBit 0x02 op = true →
      (Format.move.decode (.start addr ((op ^^^ 0x04) :: bytes))).Agree
        (Format.move.decode (.start addr (op :: bytes))) := by
  refine ⟨fun op operands code rest h => ?_, fun bytes h => ?_, fun _ _ => agree_general,
    fun _ _ => agree_indexed⟩
  · exact Format.decode_of_reads (reads_fields_iff.2 h) rest
  · obtain ⟨op, code, rest, operands, rfl, hreads, hdecode⟩ := Format.exists_reads_of_decode h
    exact ⟨op, operands, code, rest, rfl, reads_fields_iff.1 hreads, hdecode⟩

/-- Bytes of GROM with an index to a direct address, by `G`, `V` and `N`; and bytes of the
scratchpad to a video register, by `R`, `C` and `N`, where `G` and `V` do not matter. -/
theorem decode_layout_indexed :
    Form 0x35 [.immediate (.word 2), .memory false false 0x8310 none, .grom 0x6020 (some 0x4C)]
      [0x00, 0x02, 0x10, 0x60, 0x20, 0x4C] ∧
    Format.move.decode (.start 0x6000 [0x35, 0x00, 0x02, 0x10, 0x60, 0x20, 0x4C, 0xFF]) =
      ⟨⟨0x6000, [0x35, 0x00, 0x02, 0x10, 0x60, 0x20, 0x4C], [0xFF]⟩, false,
        [.immediate (.word 2), .memory false false 0x8310 none, .grom 0x6020 (some 0x4C)], none⟩ ∧
    (∃ operands code rest, [0x2B, 0x00, 0x08, 0xFF, 0x40] = 0x2B :: (code ++ rest) ∧
      Form 0x2B operands code) ∧
    (Format.move.decode (.start 0x6000 [0x3B, 0x00, 0x08, 0xFF, 0x40])).operands =
      [.immediate (.word 8), .vdpRegister 7, .memory false false 0x8340 none] ∧
    (Format.move.decode (.start 0x6000 [0x2F, 0x00, 0x08, 0xFF, 0x40])).operands =
      [.immediate (.word 8), .vdpRegister 7, .memory false false 0x8340 none] := by
  obtain ⟨hform, hshape, hgeneral, hindexed⟩ := decode_layout 0x6000
  have hmove : Form 0x35
      [.immediate (.word 2), .memory false false 0x8310 none, .grom 0x6020 (some 0x4C)]
      [0x00, 0x02, 0x10, 0x60, 0x20, 0x4C] :=
    .mk (.literal rfl 0x00 0x02) (.general rfl rfl (.short 0x10 (by decide)))
      (.grom rfl 0x60 0x20 (some 0x4C) rfl)
  refine ⟨hmove, hform _ _ _ [0xFF] hmove, ?_, ?_, ?_⟩
  · obtain ⟨op, operands, code, rest, hbytes, hcode, -⟩ :=
      hshape [0x2B, 0x00, 0x08, 0xFF, 0x40] (by decide)
    obtain rfl : 0x2B = op := (List.cons.inj hbytes).1
    exact ⟨operands, code, rest, hbytes, hcode⟩
  · exact (hgeneral 0x2B _ (by decide)).operands_eq.trans (by decide)
  · exact (hindexed 0x2B _ (by decide)).operands_eq.trans (by decide)

end Move

end GromListing
