import GromListing.HexFile.Grammar
import GromListing.Proofs.Text.Hex
import Mathlib.Data.List.TakeWhile

/-!
# Written records are read back

* `bytesOf_digitRun`: the digits of bytes, in whatever case and with an odd digit behind them or not,
  are read as these bytes. So a line that holds some bytes reads as they do (`ofLine_of_holds`), and
  in particular one that spells them and nothing else (`holds_of_spells`).
* `ofBytes_body_eq`: bytes are taken apart into the fields of a record, whose data are dropped if
  its size is zero; size and checksum are checked only then. A record of the right size and
  checksum (`Record.Sound`) passes as it is (`ofBytes_body`).
* `ofLine_of_writtenAs`: so a line in which such a record is written reads as that record; and
  `ofLine_of_holdsNoRecord`: a line in which no colon has ten digits behind it reads as blank.
-/

set_option autoImplicit false

namespace GromListing

namespace HexFile

/-- The record holds as much data as it says, and has the checksum that it should have. -/
structure Record.Sound (r : Record) : Prop where
  length_data : r.data.length = r.size.toNat
  checksum_eq : r.checksum = r.properChecksum

instance (r : Record) : Decidable r.Sound :=
  decidable_of_iff (r.data.length = r.size.toNat ∧ r.checksum = r.properChecksum)
    ⟨fun h => ⟨h.1, h.2⟩, fun h => ⟨h.length_data, h.checksum_eq⟩⟩

/-- The record as it is kept by a reading: without data if it says so. -/
def Record.kept (r : Record) : Record := { r with data := if r.size = 0 then [] else r.data }

theorem Record.kept_eq {r : Record} (h : r.size = 0 → r.data = []) : r.kept = r := by
  have hdata : (if r.size = 0 then [] else r.data) = r.data := by
    split
    · rename_i hsize
      exact (h hsize).symm
    · rfl
  rw [kept, hdata]

/-! ## Digits -/

theorem digitsAt_cons (c : Char) (rest : List Char) :
    digitsAt (c :: rest) = if (Hex.value? c).isSome then digitsAt rest + 1 else 0 := by
  rw [digitsAt, List.takeWhile_cons]
  split <;> rfl

theorem digitsAt_append {digits : List Char} (h : ∀ c ∈ digits, (Hex.value? c).isSome = true)
    (rest : List Char) : digitsAt (digits ++ rest) = digits.length + digitsAt rest := by
  rw [digitsAt, List.takeWhile_append_of_pos h, List.length_append]
  rfl

theorem isSome_value?_of_spells {text : List Char} {bytes : List UInt8}
    (h : Hex.Spells text bytes) : ∀ c ∈ text, (Hex.value? c).isSome = true := by
  induction h with
  | nil => exact List.forall_mem_nil _
  | @cons hi lo text byte bytes hhi hlo _ ih =>
    have hlt := byte.toNat_lt
    intro c hc
    rcases List.mem_cons.1 hc with rfl | hc
    · rw [Hex.value?_of_isDigit (by omega) hhi]
      rfl
    · rcases List.mem_cons.1 hc with rfl | hc
      · rw [Hex.value?_of_isDigit (by omega) hlo]
        rfl
      · exact ih c hc

theorem digitsAt_append_of_spells {text : List Char} {bytes : List UInt8}
    (h : Hex.Spells text bytes) (rest : List Char) :
    digitsAt (text ++ rest) = 2 * bytes.length + digitsAt rest := by
  rw [digitsAt_append (isSome_value?_of_spells h), h.length_eq]

namespace Reading

theorem length_digitRun (text : List Char) : (digitRun text).length = digitsAt text := by
  induction text with
  | nil => rfl
  | cons c rest ih =>
    rw [digitRun, digitsAt_cons, ← ih]
    cases Hex.value? c with
    | none => rfl
    | some v => rfl

theorem bytesOf_digitRun {text rest : List Char} {bytes : List UInt8} (h : Hex.Spells text bytes)
    (hodd : digitsAt rest ≤ 1) : bytesOf (digitRun (text ++ rest)) = bytes := by
  induction h with
  | nil =>
    rw [← length_digitRun] at hodd
    rw [List.nil_append]
    match digitRun rest, hodd with
    | [], _ | [_], _ => rfl
  | @cons hi lo text byte bytes hhi hlo _ ih =>
    have hlt := byte.toNat_lt
    have hbyte : UInt8.ofNat (16 * (byte.toNat / 16) + byte.toNat % 16) = byte := by
      rw [Nat.div_add_mod, UInt8.ofNat_toNat]
    simp only [List.cons_append, digitRun, Hex.value?_of_isDigit (by omega) hhi,
      Hex.value?_of_isDigit (by omega) hlo, bytesOf, hbyte, ih]

theorem digits?_eq_none {text : List Char}
    (h : ∀ before after, text = before ++ ':' :: after → digitsAt after < 10) :
    digits? text = none := by
  induction text with
  | nil => rfl
  | cons c rest ih =>
    have hrest := ih fun before after he => h (c :: before) after (he ▸ rfl)
    rw [digits?, hrest]
    simp only [length_digitRun, ite_eq_right_iff, reduceCtorEq, imp_false, not_and, Nat.not_le]
    rintro rfl
    exact h [] rest rfl

theorem digits?_append {text : List Char} {values : List Nat} (h : digits? text = some values)
    (before : List Char) : digits? (before ++ text) = some values := by
  induction before with
  | nil => exact h
  | cons c before ih => rw [List.cons_append, digits?, ih]

/-! ## Lines -/

theorem ofLine_of_holdsNoRecord {line : String} (h : HoldsNoRecord line) :
    ofLine line = .blank := by
  rw [ofLine, digits?_eq_none h]

theorem ofBytes_body_eq (r : Record) :
    ofBytes (r.body ++ [r.checksum]) = if r.kept.Sound then .record r.kept else .malformed := by
  have hsound : r.kept.Sound ↔
      r.kept.data.length = r.size.toNat ∧ r.checksum = r.kept.properChecksum :=
    ⟨fun h => ⟨h.length_data, h.checksum_eq⟩, fun h => ⟨h.1, h.2⟩⟩
  simp only [hsound]
  simp only [ofBytes, Record.body, List.cons_append, List.nil_append, Word.ofBytes_split,
    List.dropLast_concat, List.getLastD_concat]
  rfl

theorem ofBytes_body {r : Record} (h : r.Sound) :
    ofBytes (r.body ++ [r.checksum]) = .record r := by
  have hkept : r.kept = r := Record.kept_eq fun hsize =>
    List.length_eq_zero_iff.1 (h.length_data.trans (hsize ▸ rfl))
  rw [ofBytes_body_eq, hkept, if_pos h]

theorem ofLine_of_holds {line : String} {bytes : List UInt8} (h : Holds line bytes) :
    ofLine line = ofBytes bytes := by
  obtain @⟨before, digits, rest, hline, hs, hodd, hten, hlast⟩ := h
  have hcolon : digits? (':' :: (digits ++ rest)) = some (digitRun (digits ++ rest)) := by
    rw [digits?, digits?_eq_none hlast]
    simp only [length_digitRun, hten, and_self, if_true]
  rw [ofLine, hline, digits?_append hcolon]
  simp only [bytesOf_digitRun hs hodd]

theorem holds_of_spells {line : String} {text : List Char} {bytes : List UInt8}
    (hline : line.toList = ':' :: text) (hs : Hex.Spells text bytes) (hlen : 5 ≤ bytes.length) :
    Holds line bytes := by
  have hdigits := isSome_value?_of_spells hs
  have hfirst : (':' :: text).takeWhile (· != '\n') = ':' :: text := by
    refine List.takeWhile_eq_self_iff.2 fun c hc => ?_
    rcases List.mem_cons.1 hc with rfl | hc
    · rfl
    · refine bne_iff_ne.2 ?_
      rintro rfl
      exact absurd (hdigits _ hc) (by decide)
  have hcount := digitsAt_append_of_spells hs []
  refine @Holds.mk line bytes [] text [] ?_ hs (Nat.zero_le 1) (by omega) fun between after he => ?_
  · rw [hline, hfirst, List.append_nil, List.nil_append]
  · rw [List.append_nil] at he
    exact absurd (hdigits ':' (by simp [he])) (by decide)

theorem length_body_concat (r : Record) :
    (r.body ++ [r.checksum]).length = r.data.length + 5 := by
  simp only [Record.body, List.length_append, List.length_cons, List.length_nil]
  omega

/-- **A written record is read back.** -/
theorem ofLine_of_writtenAs {r : Record} {line : String} (h : r.Sound) (hw : r.WrittenAs line) :
    ofLine line = .record r := by
  obtain ⟨text, hline, hs⟩ := hw
  have hlen : 5 ≤ (r.body ++ [r.checksum]).length := by
    rw [length_body_concat]
    omega
  rw [ofLine_of_holds (holds_of_spells hline hs hlen), ofBytes_body h]

end Reading

end HexFile

end GromListing
