import GromListing.Operand.Basic
import GromListing.Proofs.Text.Hex

/-!
# The text of an operand tells the operand

* `toList_text_memory` and the lemmas beside it: the characters of a text, a sign for the kind of
  the operand first.
* `text_injective`: no two operands have the same text.
* `comma_not_mem_text`, `text_ne_empty`: so a list of operands joined by commas can be split again.
-/

set_option autoImplicit false

namespace GromListing

theorem Literal.text_injective : Function.Injective Literal.text := by
  intro v w h
  have hl := congrArg String.toList h
  have hlen := congrArg List.length hl
  cases v with
  | byte a =>
    cases w with
    | byte b =>
      simp only [text, Hex.toList_byte] at hl
      rw [Hex.byte_inj hl]
    | word b => simp [text, Hex.length_digits] at hlen
  | word a =>
    cases w with
    | byte b => simp [text, Hex.length_digits] at hlen
    | word b =>
      simp only [text, Hex.toList_word] at hl
      obtain ⟨rfl, -⟩ := Hex.word_append_inj (congrArg (· ++ []) hl)
      rfl

theorem Literal.mem_text {c : Char} {v : Literal} (h : c ∈ v.text.toList) :
    ∃ width n, c ∈ Hex.digits width n := by
  cases v with
  | byte b => exact ⟨2, b.toNat, by simpa [text] using h⟩
  | word w => exact ⟨4, w.toNat, by simpa [text] using h⟩

namespace Operand

/-! ## Characters of a text -/

theorem toList_indexText_some (offset : UInt8) : (indexText (some offset)).toList =
    '(' :: '@' :: '>' :: (Hex.digits 4 (scratchpad + offset.toUInt16).toNat ++ [')']) := by
  simp [indexText]

theorem toList_text_memory (vdp indirect : Bool) (addr : UInt16) (index : Option UInt8) :
    (text (.memory vdp indirect addr index)).toList =
      (if vdp then ['V'] else []) ++ (if indirect then '*' else '@') :: '>' ::
        (Hex.digits 4 addr.toNat ++ (indexText index).toList) := by
  cases vdp <;> cases indirect <;> simp [text]

theorem toList_text_grom (addr : UInt16) (index : Option UInt8) :
    (text (.grom addr index)).toList =
      'G' :: '@' :: '>' :: (Hex.digits 4 addr.toNat ++ (indexText index).toList) := by
  simp [text]

theorem toList_text_immediate (value : Literal) :
    (text (.immediate value)).toList = '>' :: value.text.toList := by
  simp [text]

theorem toList_text_vdpRegister (register : UInt8) :
    (text (.vdpRegister register)).toList = '#' :: Nat.toDigits 10 register.toNat := by
  simp [text, Nat.repr_eq_ofList_toDigits]

theorem text_ne_empty (o : Operand) : o.text.toList ≠ [] := by
  cases o with
  | memory vdp indirect addr index => rw [toList_text_memory]; simp
  | grom addr index => rw [toList_text_grom]; simp
  | immediate value => rw [toList_text_immediate]; simp
  | vdpRegister register => rw [toList_text_vdpRegister]; simp

theorem comma_not_mem_digits (width n : Nat) : ',' ∉ Hex.digits width n := fun h =>
  Hex.ne_of_mem_digits h (by decide) rfl

theorem comma_not_mem_indexText (index : Option UInt8) : ',' ∉ (indexText index).toList := by
  cases index with
  | none => simp [indexText]
  | some offset => simp [toList_indexText_some, comma_not_mem_digits]

theorem comma_not_mem_text (o : Operand) : ',' ∉ o.text.toList := by
  cases o with
  | memory vdp indirect addr index =>
    rw [toList_text_memory]
    cases vdp <;> cases indirect <;> simp [comma_not_mem_digits, comma_not_mem_indexText]
  | grom addr index =>
    simp [toList_text_grom, comma_not_mem_digits, comma_not_mem_indexText]
  | immediate value =>
    intro h
    obtain h | h := List.mem_cons.1 (toList_text_immediate value ▸ h)
    · cases h
    · obtain ⟨width, n, hd⟩ := Literal.mem_text h
      exact comma_not_mem_digits width n hd
  | vdpRegister register =>
    intro h
    obtain h | h := List.mem_cons.1 (toList_text_vdpRegister register ▸ h)
    · cases h
    · exact absurd (Nat.isDigit_of_mem_toDigits (by decide) (by decide) h) (by decide)

/-! ## Different operands, different texts -/

theorem indexText_injective : Function.Injective indexText := by
  intro x y h
  have hl := congrArg String.toList h
  cases x with
  | none =>
    cases y with
    | none => rfl
    | some offset =>
      rw [toList_indexText_some] at hl
      cases hl
  | some offset =>
    rw [toList_indexText_some] at hl
    cases y with
    | none => cases hl
    | some offset' =>
      rw [toList_indexText_some] at hl
      simp only [List.cons.injEq, true_and] at hl
      obtain ⟨he, -⟩ := Hex.word_append_inj hl
      rw [UInt16.add_right_inj, UInt8.toUInt16_inj] at he
      rw [he]

/-- An address and an index behind it can be told apart. -/
theorem digits_append_indexText_inj {addr addr' : UInt16} {index index' : Option UInt8}
    (h : Hex.digits 4 addr.toNat ++ (indexText index).toList =
      Hex.digits 4 addr'.toNat ++ (indexText index').toList) : addr = addr' ∧ index = index' := by
  obtain ⟨haddr, hindex⟩ := Hex.word_append_inj h
  exact ⟨haddr, indexText_injective (String.toList_inj.1 hindex)⟩

/-- **The text of an operand tells everything about it.** -/
theorem text_injective : Function.Injective text := by
  intro o p h
  have hl := congrArg String.toList h
  cases o with
  | memory vdp indirect addr index =>
    rw [toList_text_memory] at hl
    cases p with
    | memory vdp' indirect' addr' index' =>
      rw [toList_text_memory] at hl
      have hsigns : vdp = vdp' ∧ indirect = indirect' := by
        cases vdp <;> cases vdp' <;> cases indirect <;> cases indirect' <;> simp at hl ⊢
      obtain ⟨rfl, rfl⟩ := hsigns
      simp only [List.append_cancel_left_eq, List.cons.injEq, true_and] at hl
      obtain ⟨rfl, rfl⟩ := digits_append_indexText_inj hl
      rfl
    | grom => cases vdp <;> cases indirect <;> simp [toList_text_grom] at hl
    | immediate => cases vdp <;> cases indirect <;> simp [toList_text_immediate] at hl
    | vdpRegister => cases vdp <;> cases indirect <;> simp [toList_text_vdpRegister] at hl
  | grom addr index =>
    rw [toList_text_grom] at hl
    cases p with
    | memory vdp indirect => cases vdp <;> cases indirect <;> simp [toList_text_memory] at hl
    | grom addr' index' =>
      simp only [toList_text_grom, List.cons.injEq, true_and] at hl
      obtain ⟨rfl, rfl⟩ := digits_append_indexText_inj hl
      rfl
    | immediate => simp [toList_text_immediate] at hl
    | vdpRegister => simp [toList_text_vdpRegister] at hl
  | immediate value =>
    rw [toList_text_immediate] at hl
    cases p with
    | memory vdp indirect => cases vdp <;> cases indirect <;> simp [toList_text_memory] at hl
    | grom => simp [toList_text_grom] at hl
    | immediate value' =>
      simp only [toList_text_immediate, List.cons.injEq, true_and] at hl
      rw [Literal.text_injective (String.toList_inj.1 hl)]
    | vdpRegister => simp [toList_text_vdpRegister] at hl
  | vdpRegister register =>
    rw [toList_text_vdpRegister] at hl
    cases p with
    | memory vdp indirect => cases vdp <;> cases indirect <;> simp [toList_text_memory] at hl
    | grom => simp [toList_text_grom] at hl
    | immediate => simp [toList_text_immediate] at hl
    | vdpRegister register' =>
      simp only [toList_text_vdpRegister, List.cons.injEq, true_and] at hl
      have hnat := congrArg (Nat.ofDigitChars 10 · 0) hl
      simp only [Nat.ofDigitChars_ten_toDigits] at hnat
      rw [UInt8.toNat_inj.1 hnat]

end Operand

end GromListing
