import GromListing.Operand.Encoding
import GromListing.Proofs.Instruction.PrefixCode
import GromListing.Proofs.Reader.CodeWord
import Mathlib.Data.FinEnum

/-!
# Operand fields are read in their documented forms

* `eq_longByte`, `longByte_flags`: the first byte of a long field and its flags tell each other.
* `reads_readGeneral_cases_iff`: what is read behind that byte (`reads_readAddress_offset`,
  `reads_readAddress_extended`, `reads_readIndex_iff` for its parts).
* `reads_readGeneral_iff`, `reads_readGrom_iff`: so the code words of the two readers are the forms.
* `toNat_scratchpad_add`, `toNat_offsetBase_add`, `exists_generalForm`: what the forms reach.
* `readGeneral_documented`: what becomes of any bytes that are read as a general address field.
-/

set_option autoImplicit false

namespace GromListing

open Reader

namespace Operand

variable {base addr : UInt16} {code : List UInt8} {first : UInt8} {indexed : Bool}

/-! ## First bytes -/

theorem hasBit_long_eq_false_iff : ∀ b : UInt8, hasBit 0x80 b = false ↔ b.toNat < 128 := by
  decide +kernel

theorem toNat_low_lt : ∀ b : UInt8, (b &&& 0x0F).toNat < 16 := by decide +kernel

theorem eq_longByte : ∀ b : UInt8, hasBit 0x80 b = true →
    b = longByte (hasBit 0x40 b) (hasBit 0x20 b) (hasBit 0x10 b) (b &&& 0x0F) := by
  decide +kernel

theorem longByte_flags (indexed vdp indirect : Bool) : ∀ low : UInt8, low.toNat < 16 →
    let b := longByte indexed vdp indirect low
    hasBit 0x80 b = true ∧ hasBit 0x40 b = indexed ∧ hasBit 0x20 b = vdp ∧
      hasBit 0x10 b = indirect ∧ b &&& 0x0F = low := by
  cases indexed <;> cases vdp <;> cases indirect <;> decide +kernel

/-! ## Parts of a field -/

theorem reads_readIndex_iff {index : Option UInt8} :
    Reads (readIndex indexed) base code index ↔ indexed = index.isSome ∧ code = index.toList := by
  cases indexed with
  | false =>
    refine Iff.trans reads_pure_iff ?_
    cases index <;> simp
  | true =>
    refine Iff.trans (reads_map_iff .byte) ?_
    cases index <;> simp [reads_byte_iff]

theorem reads_readAddress_extended (hlow : first &&& 0x0F = 0x0F) :
    Reads (readAddress first) base code addr ↔
      ∃ high low, code = [high, low] ∧ addr = Word.ofBytes high low := by
  simp only [readAddress, hlow, if_true, bind_pure_comp]
  exact reads_word_iff

theorem reads_readAddress_offset (hlow : first &&& 0x0F ≠ 0x0F) :
    Reads (readAddress first) base code addr ↔
      ∃ low, code = [low] ∧ addr = offsetBase (hasBit 0x20 first) (hasBit 0x10 first) +
        Word.ofBytes (first &&& 0x0F) low := by
  have hread : readAddress first = (fun low =>
      offsetBase (hasBit 0x20 first) (hasBit 0x10 first) + Word.ofBytes (first &&& 0x0F) low) <$>
        byte := by
    rw [← bind_pure_comp, readAddress]
    simp only [if_neg hlow, offsetBase]
    cases hasBit 0x20 first <;> cases hasBit 0x10 first <;> simp [UInt16.add_comm]
  rw [hread, reads_map_iff .byte]
  simp only [reads_byte_iff]

/-! ## Whole fields -/

theorem reads_long_iff {o : Operand} :
    Reads (do
        let addr ← readAddress first
        let index ← readIndex (hasBit 0x40 first)
        return .memory (hasBit 0x20 first) (hasBit 0x10 first) addr index) base code o ↔
      ∃ code₁ addr index, code = code₁ ++ index.toList ∧ hasBit 0x40 first = index.isSome ∧
        Reads (readAddress first) base code₁ addr ∧
        o = .memory (hasBit 0x20 first) (hasBit 0x10 first) addr index := by
  simp only [bind_pure_comp]
  rw [reads_bind_iff (readAddress_decides first) fun _ => .map _ (readIndex_decides _)]
  simp only [reads_map_iff (readIndex_decides _), reads_readIndex_iff]
  constructor
  · rintro ⟨code₁, code₂, addr, rfl, haddr, index, ⟨hindex, rfl⟩, rfl⟩
    exact ⟨code₁, addr, index, rfl, hindex, haddr, rfl⟩
  · rintro ⟨code₁, addr, index, rfl, hindex, haddr, rfl⟩
    exact ⟨code₁, _, addr, rfl, haddr, index, ⟨hindex, rfl⟩, rfl⟩

/-- A field is its first byte, and what a long one has behind it. -/
theorem reads_readGeneral_cases_iff {o : Operand} : Reads readGeneral base code o ↔
    ∃ first rest, code = first :: rest ∧
      ((hasBit 0x80 first = false ∧ rest = [] ∧
          o = .memory false false (scratchpad + first.toUInt16) none) ∨
        (hasBit 0x80 first = true ∧ ∃ code₁ addr index, rest = code₁ ++ index.toList ∧
          hasBit 0x40 first = index.isSome ∧ Reads (readAddress first) base code₁ addr ∧
          o = .memory (hasBit 0x20 first) (hasBit 0x10 first) addr index)) := by
  have hlong (first : UInt8) : Decides (do
      let addr ← readAddress first
      let index ← readIndex (hasBit 0x40 first)
      return Operand.memory (hasBit 0x20 first) (hasBit 0x10 first) addr index) 3 :=
    .bind (readAddress_decides first) fun _ => .bind (readIndex_decides _) fun _ => .pure _
  unfold readGeneral
  rw [reads_byte_bind_iff fun first => .ite (hlong first) ((Decides.pure _).mono (Nat.zero_le 3))]
  refine exists_congr fun first => exists_congr fun rest => and_congr_right fun _ => ?_
  cases hfirst : hasBit 0x80 first with
  | true => simp only [if_true, reads_long_iff, true_and, Bool.true_eq_false, false_and, false_or]
  | false => simp only [Bool.false_eq_true, if_false, reads_pure_iff, true_and, false_and, or_false]

/-- What is read after the first byte of a long field makes a form of it. -/
theorem generalForm_of_reads {index : Option UInt8} (hlong : hasBit 0x80 first = true)
    (hindex : hasBit 0x40 first = index.isSome) (h : Reads (readAddress first) base code addr) :
    GeneralForm (.memory (hasBit 0x20 first) (hasBit 0x10 first) addr index)
      (first :: (code ++ index.toList)) := by
  have hfirst := eq_longByte first hlong
  rw [hindex] at hfirst
  by_cases hlow : first &&& 0x0F = 0x0F
  · obtain ⟨high, low, rfl, rfl⟩ := (reads_readAddress_extended hlow).1 h
    rw [hlow] at hfirst
    have hform := GeneralForm.extended (hasBit 0x20 first) (hasBit 0x10 first) high low index
    rwa [← hfirst] at hform
  · obtain ⟨low, rfl, rfl⟩ := (reads_readAddress_offset hlow).1 h
    have hsmall : (first &&& 0x0F).toNat < 15 := by
      have hlt := toNat_low_lt first
      have hne : (first &&& 0x0F).toNat ≠ 15 := fun he => hlow (UInt8.toNat_inj.1 he)
      omega
    have hform := GeneralForm.offset (hasBit 0x20 first) (hasBit 0x10 first) _ low index hsmall
    rwa [← hfirst] at hform

/-- An address behind the first byte of a long form, and an index if the form has one, are read as a
whole field. -/
theorem reads_of_longByte {vdp indirect : Bool} {low : UInt8} {index : Option UInt8}
    (hlow : low.toNat < 16)
    (h : Reads (readAddress (longByte index.isSome vdp indirect low)) base code addr) :
    Reads readGeneral base (longByte index.isSome vdp indirect low :: (code ++ index.toList))
      (.memory vdp indirect addr index) := by
  obtain ⟨hlong, hindexed, hvdp, hindirect, -⟩ :=
    longByte_flags index.isSome vdp indirect low hlow
  refine reads_readGeneral_cases_iff.2 ⟨_, _, rfl, .inr ⟨hlong, ?_⟩⟩
  exact ⟨code, addr, index, rfl, hindexed, h, by rw [hvdp, hindirect]⟩

/-- **A general address field is read in its documented forms** and in no other. -/
theorem reads_readGeneral_iff {o : Operand} :
    Reads readGeneral base code o ↔ GeneralForm o code := by
  constructor
  · intro h
    obtain ⟨first, rest, rfl, hrest⟩ := reads_readGeneral_cases_iff.1 h
    rcases hrest with ⟨hshort, rfl, rfl⟩ | ⟨hlong, code, addr, index, rfl, hindex, haddr, rfl⟩
    · exact .short first ((hasBit_long_eq_false_iff first).1 hshort)
    · exact generalForm_of_reads hlong hindex haddr
  · intro h
    cases h with
    | short offset small =>
      have hshort := (hasBit_long_eq_false_iff offset).2 small
      exact reads_readGeneral_cases_iff.2 ⟨offset, [], rfl, .inl ⟨hshort, rfl, rfl⟩⟩
    | offset vdp indirect high low index small =>
      have hlt : high.toNat < 16 := Nat.lt_succ_of_lt small
      obtain ⟨-, -, hvdp, hindirect, hlow⟩ := longByte_flags index.isSome vdp indirect high hlt
      have hne : longByte index.isSome vdp indirect high &&& 0x0F ≠ 0x0F := by
        rw [hlow]
        rintro rfl
        exact absurd small (by decide)
      have hread : Reads (readAddress _) base [low] _ :=
        (reads_readAddress_offset hne).2 ⟨low, rfl, rfl⟩
      rw [hvdp, hindirect, hlow] at hread
      exact reads_of_longByte hlt hread
    | extended vdp indirect high low index =>
      have hlt : (15 : UInt8).toNat < 16 := by decide
      obtain ⟨-, -, -, -, hlow⟩ := longByte_flags index.isSome vdp indirect 15 hlt
      exact reads_of_longByte hlt ((reads_readAddress_extended hlow).2 ⟨high, low, rfl, rfl⟩)

theorem reads_readGrom_iff {o : Operand} :
    Reads (readGrom indexed) base code o ↔ GromForm indexed o code := by
  unfold readGrom
  simp only [bind_pure_comp]
  rw [reads_bind_iff .word fun _ => .map _ (readIndex_decides indexed)]
  simp only [reads_map_iff (readIndex_decides indexed), reads_readIndex_iff, reads_word_iff]
  constructor
  · rintro ⟨_, _, _, rfl, ⟨hi, lo, rfl, rfl⟩, index, ⟨rfl, rfl⟩, rfl⟩
    exact .mk hi lo index
  · rintro ⟨hi, lo, index⟩
    exact ⟨[hi, lo], _, _, rfl, ⟨hi, lo, rfl, rfl⟩, index, ⟨rfl, rfl⟩, rfl⟩

theorem gromForm_false_iff {o : Operand} : GromForm false o code ↔
    ∃ hi lo, o = .grom (Word.ofBytes hi lo) none ∧ code = [hi, lo] := by
  constructor
  · intro h
    generalize hindexed : false = indexed at h
    cases h with
    | mk hi lo index =>
      obtain rfl := Option.not_isSome_iff_eq_none.1 (ne_true_of_eq_false hindexed.symm)
      exact ⟨hi, lo, rfl, rfl⟩
  · rintro ⟨hi, lo, rfl, rfl⟩
    exact .mk hi lo none

/-! ## What the forms reach -/

theorem toNat_scratchpad_add (offset : UInt8) :
    (scratchpad + offset.toUInt16).toNat = scratchpad.toNat + offset.toNat := by
  have hlt := offset.toNat_lt
  have hbase : scratchpad.toNat = 0x8300 := rfl
  rw [UInt16.toNat_add, UInt8.toNat_toUInt16, hbase]
  omega

theorem toNat_offsetBase_add (vdp indirect : Bool) {high : UInt8} (low : UInt8)
    (small : high.toNat < 15) : (offsetBase vdp indirect + Word.ofBytes high low).toNat =
      (offsetBase vdp indirect).toNat + (256 * high.toNat + low.toNat) := by
  have hlt := low.toNat_lt
  have hbase : (offsetBase vdp indirect).toNat ≤ 0x8300 := by
    cases vdp <;> cases indirect <;> decide
  rw [UInt16.toNat_add, Word.toNat_ofBytes]
  omega

/-- A full address names any place, so every memory operand has an extended form. -/
theorem exists_generalForm (vdp indirect : Bool) (addr : UInt16) (index : Option UInt8) :
    ∃ code, GeneralForm (.memory vdp indirect addr index) code := by
  have hform :=
    GeneralForm.extended vdp indirect (addr >>> 8).toUInt8 addr.toUInt8 index
  rw [Word.ofBytes_split] at hform
  exact ⟨_, hform⟩

/-- **A general address field is what is documented.** A form of an operand is read as this operand,
and just its bytes are taken, whatever is behind them. What is read from any bytes is a form of the
operand that was found, and reading fails just on a form that is not finished. Every memory operand
has a form, and the sums of scratchpad and offset stay within the address space. -/
theorem readGeneral_documented (base : UInt16) (taken : List UInt8) :
    (∀ o code rest, GeneralForm o code →
      readGeneral ⟨base, taken, code ++ rest⟩ = .ok o ⟨base, taken ++ code, rest⟩) ∧
    (∀ bytes o c, readGeneral ⟨base, taken, bytes⟩ = .ok o c →
      ∃ code rest, bytes = code ++ rest ∧ c = ⟨base, taken ++ code, rest⟩ ∧ GeneralForm o code) ∧
    (∀ bytes, (∃ t c, readGeneral ⟨base, taken, bytes⟩ = .error t c) ↔
      ∃ code o, GeneralForm o code ∧ bytes <+: code ∧ bytes ≠ code) ∧
    (∀ vdp indirect addr index, ∃ code, GeneralForm (.memory vdp indirect addr index) code) ∧
    (∀ offset : UInt8,
      (scratchpad + offset.toUInt16).toNat = scratchpad.toNat + offset.toNat) ∧
    ∀ vdp indirect high low, high.toNat < 15 →
      (offsetBase vdp indirect + Word.ofBytes high low).toNat =
        (offsetBase vdp indirect).toNat + (256 * high.toNat + low.toNat) := by
  refine ⟨fun o code rest h => ?_, fun bytes o c h => ?_, fun bytes => ?_, exists_generalForm,
    toNat_scratchpad_add, fun vdp indirect high low => toNat_offsetBase_add vdp indirect low⟩
  · exact (reads_readGeneral_iff.2 h).whole taken rest
  · obtain ⟨code, rest, hbytes, hc, hread⟩ := readGeneral_decides.reads_of_ok h
    exact ⟨code, rest, hbytes, hc, reads_readGeneral_iff.1 hread⟩
  · simp only [readGeneral_decides.error_iff, reads_readGeneral_iff]

/-- An indexed video operand in its longest form, whole and without its index byte, and the same
operand read back; and the highest address that an offset reaches. -/
theorem readGeneral_documented_indexed :
    let o : Operand := .memory true false 0x1234 (some 0x56)
    GeneralForm o [0xEF, 0x12, 0x34, 0x56] ∧
      readGeneral ⟨0x6000, [0x86], [0xEF, 0x12, 0x34, 0x56, 0xFF]⟩ =
        .ok o ⟨0x6000, [0x86, 0xEF, 0x12, 0x34, 0x56], [0xFF]⟩ ∧
      (∃ code rest, [0xEF, 0x12, 0x34, 0x56, 0xFF] = code ++ rest ∧ GeneralForm o code) ∧
      (∃ t c, readGeneral ⟨0x6000, [0x86], [0xEF, 0x12, 0x34]⟩ = .error t c) ∧
      (offsetBase false false + Word.ofBytes 14 0xFF).toNat = 0x8300 + 0x0EFF := by
  intro o
  obtain ⟨hwhole, hshape, hfails, -, -, hsum⟩ := readGeneral_documented 0x6000 [0x86]
  have hform : GeneralForm o [0xEF, 0x12, 0x34, 0x56] :=
    .extended true false 0x12 0x34 (some 0x56)
  have hread := hwhole o _ [0xFF] hform
  refine ⟨hform, hread, ?_, ?_, hsum false false 14 0xFF (by decide)⟩
  · obtain ⟨code, rest, hbytes, -, hcode⟩ := hshape _ o _ hread
    exact ⟨code, rest, hbytes, hcode⟩
  · exact (hfails _).2 ⟨_, o, hform, ⟨[0x56], rfl⟩, by decide⟩

end Operand

end GromListing
