import GromListing.Listing.Line
import GromListing.Proofs.Instruction.PrefixCode
import GromListing.Proofs.Operand.Text

/-!
# The text of a line tells the line

A line glues an address, a mark for words, a mnemonic, blanks and operands together, and still each
part can be made out:

* `Opcode.marked_name_ne`: no mnemonic is another one behind the mark for words, so the mark and
  the mnemonic can be told apart (`mnemonic_inj`).
* `columns_inj`: the first blank ends the mnemonic.
* `operandsText_inj`: the commas part the operands, whose texts have none.
* `text_inj`: equal texts have equal parts. `decode_text_inj` is this for what was decoded, and
  says that no data line looks like an instruction.
-/

set_option autoImplicit false

namespace GromListing

/-! ## Mnemonics -/

namespace Opcode

theorem blank_not_mem_name : ∀ row ∈ rows, ' ' ∉ row.name.toList := by decide

/-- Few mnemonics begin with the letter that marks words, -/
theorem mem_of_head?_name : ∀ row ∈ rows, row.name.toList.head? = some 'D' →
    row.name ∈ ["DIV", "DEC", "DECT"] := by
  decide

/-- and what they are without it is no mnemonic. -/
theorem marked_name_not_mem : ∀ row ∈ rows, "D" ++ row.name ∉ ["DIV", "DEC", "DECT"] := by
  decide

theorem marked_name_ne {row row' : Row} (h : row ∈ rows) (h' : row' ∈ rows) :
    "D" ++ row.name ≠ row'.name := by
  intro he
  have hhead : row'.name.toList.head? = some 'D' := by simp [← he]
  exact marked_name_not_mem row h (he ▸ mem_of_head?_name row' h' hhead)

theorem name_ne_byte : ∀ row ∈ rows, row.name ≠ "BYTE" := by decide

/-- The rows of reserved opcodes share a mnemonic, and their format with it. -/
theorem format_eq_of_name_eq :
    ∀ row ∈ rows, ∀ row' ∈ rows, row.name = row'.name → row.format = row'.format := by
  decide +kernel

end Opcode

namespace Instruction

variable {i j : Instruction}

theorem mnemonic_inj (hi : i.row ∈ Opcode.rows) (hj : j.row ∈ Opcode.rows)
    (h : i.mnemonic = j.mnemonic) : i.word = j.word ∧ i.row.name = j.row.name := by
  unfold mnemonic at h
  cases hw : i.word with
  | false =>
    cases hw' : j.word with
    | false => exact ⟨rfl, by simpa [hw, hw'] using h⟩
    | true =>
      have he : i.row.name = "D" ++ j.row.name := by simpa [hw, hw'] using h
      exact absurd he.symm (Opcode.marked_name_ne hj hi)
  | true =>
    cases hw' : j.word with
    | false =>
      have he : "D" ++ i.row.name = j.row.name := by simpa [hw, hw'] using h
      exact absurd he (Opcode.marked_name_ne hi hj)
    | true =>
      have he : "D" ++ i.row.name = "D" ++ j.row.name := by simpa [hw, hw'] using h
      refine ⟨rfl, String.toList_inj.1 ?_⟩
      simpa using congrArg String.toList he

theorem mnemonic_ne_byte (hi : i.row ∈ Opcode.rows) : i.mnemonic ≠ "BYTE" := by
  intro h
  unfold mnemonic at h
  cases hw : i.word with
  | false => exact Opcode.name_ne_byte i.row hi (by simpa [hw] using h)
  | true =>
    have he : "D" ++ i.row.name = "BYTE" := by simpa [hw] using h
    simpa using congrArg String.toList he

theorem blank_not_mem_mnemonic (hi : i.row ∈ Opcode.rows) : ' ' ∉ i.mnemonic.toList := by
  have hname := Opcode.blank_not_mem_name i.row hi
  unfold mnemonic
  cases i.word <;> simpa using hname

/-! ## Columns -/

theorem takeWhile_columns {m : String} (hm : ' ' ∉ m.toList) (o : String) :
    (columns m o).toList.takeWhile (· != ' ') = m.toList := by
  have hblank : ∀ n (rest : List Char),
      (List.replicate n ' ' ++ ' ' :: rest).takeWhile (· != ' ') = [] := by
    rintro (_ | n) rest <;> simp [List.replicate_succ]
  have hchars : ∀ c ∈ m.toList, (c != ' ') = true := by
    intro c hc
    exact bne_iff_ne.2 fun he => hm (he ▸ hc)
  simp only [columns, Text.padRight, String.toList_append, String.toList_ofList, List.append_assoc]
  rw [List.takeWhile_append_of_pos hchars]
  simpa using hblank (6 - m.length) o.toList

theorem columns_inj {m m' o o' : String} (hm : ' ' ∉ m.toList) (hm' : ' ' ∉ m'.toList)
    (h : columns m o = columns m' o') : m = m' ∧ o = o' := by
  have hmm : m = m' := by
    apply String.toList_inj.1
    rw [← takeWhile_columns hm o, h, takeWhile_columns hm' o']
  subst hmm
  have ho := congrArg String.toList h
  simp only [columns, String.toList_append, List.append_cancel_left_eq] at ho
  exact ⟨rfl, String.toList_inj.1 ho⟩

/-! ## Operands -/

theorem splitOn_operandsText {os : List Operand} (h : os ≠ []) :
    (",".intercalate (os.map Operand.text)).toList.splitOn ',' =
      os.map fun o => o.text.toList := by
  have hcomma : ∀ l ∈ os.map (fun o => o.text.toList), ',' ∉ l := by
    intro l hl
    obtain ⟨o, -, rfl⟩ := List.mem_map.1 hl
    exact o.comma_not_mem_text
  rw [String.toList_intercalate, List.map_map]
  exact List.splitOn_intercalate ',' hcomma (by simpa using h)

theorem operandsText_ne_empty {os : List Operand} (h : os ≠ []) :
    ",".intercalate (os.map Operand.text) ≠ "" := by
  intro he
  have hsplit := splitOn_operandsText h
  rw [he] at hsplit
  obtain ⟨o, os, rfl⟩ := List.exists_cons_of_ne_nil h
  exact o.text_ne_empty (List.cons.inj hsplit).1.symm

theorem operandsText_inj {os os' : List Operand}
    (h : ",".intercalate (os.map Operand.text) = ",".intercalate (os'.map Operand.text)) :
    os = os' := by
  by_cases hn : os = []
  · by_cases hn' : os' = []
    · rw [hn, hn']
    · subst hn
      exact absurd h.symm (operandsText_ne_empty hn')
  · by_cases hn' : os' = []
    · subst hn'
      exact absurd h (operandsText_ne_empty hn)
    · have hsplit := splitOn_operandsText hn
      rw [h, splitOn_operandsText hn'] at hsplit
      have hinj : ∀ o p : Operand, o.text.toList = p.text.toList → o = p := fun o p he =>
        Operand.text_injective (String.toList_inj.1 he)
      exact ((List.map_inj_right hinj).1 hsplit).symm

/-! ## Lines -/

theorem addressed_inj {a b : UInt16} {s t : String}
    (h : Hex.word a ++ "  " ++ s = Hex.word b ++ "  " ++ t) : a = b ∧ s = t := by
  have hl := congrArg String.toList h
  simp only [String.toList_append, Hex.toList_word, List.append_assoc] at hl
  obtain ⟨ha, hs⟩ := Hex.word_append_inj hl
  exact ⟨ha, String.toList_inj.1 (List.append_cancel_left hs)⟩

theorem text_inj (hi : i.row ∈ Opcode.rows) (hj : j.row ∈ Opcode.rows) (h : i.text = j.text) :
    i.addr = j.addr ∧ i.row.name = j.row.name ∧ i.row.format = j.row.format ∧
      i.word = j.word ∧ i.operands = j.operands := by
  obtain ⟨haddr, hbody⟩ := addressed_inj h
  obtain ⟨hmnemonic, hoperands⟩ :=
    columns_inj (blank_not_mem_mnemonic hi) (blank_not_mem_mnemonic hj) hbody
  obtain ⟨hword, hname⟩ := mnemonic_inj hi hj hmnemonic
  exact ⟨haddr, hname, Opcode.format_eq_of_name_eq _ hi _ hj hname, hword,
    operandsText_inj hoperands⟩

theorem text_ne_data (hi : i.row ∈ Opcode.rows) (addr : UInt16) (byte : UInt8) :
    i.text ≠ (Listing.Line.data addr byte).text := by
  intro h
  obtain ⟨-, hbody⟩ := addressed_inj h
  obtain ⟨hmnemonic, -⟩ := columns_inj (blank_not_mem_mnemonic hi) (by decide) hbody
  exact mnemonic_ne_byte hi hmnemonic

/-- **The text of a line is lossless.** Instructions that were decoded, at whatever addresses and
from whatever bytes, have the same text only if they have the same address, mnemonic, format, mark
and operands; and none has the text of a byte of data. -/
theorem decode_text_inj (a₁ a₂ : UInt16) (b₁ b₂ : List UInt8) (i₁ i₂ : Instruction)
    (h₁ : decode a₁ b₁ = .ok i₁) (h₂ : decode a₂ b₂ = .ok i₂) :
    (i₁.text = i₂.text →
      i₁.addr = i₂.addr ∧ i₁.row.name = i₂.row.name ∧ i₁.row.format = i₂.row.format ∧
        i₁.word = i₂.word ∧ i₁.operands = i₂.operands) ∧
    ∀ addr byte, i₁.text ≠ (Listing.Line.data addr byte).text :=
  ⟨text_inj (row_mem_of_decode h₁) (row_mem_of_decode h₂), text_ne_data (row_mem_of_decode h₁)⟩

/-- Two encodings of one increment have the same text, and so the same operands. -/
theorem decode_text_inj_increment :
    ∃ i₁ i₂, decode 0x6000 [0x90, 0x7F] = .ok i₁ ∧ decode 0x6000 [0x90, 0x80, 0x7F] = .ok i₂ ∧
      i₁.bytes ≠ i₂.bytes ∧ i₁.text = i₂.text ∧ i₁.operands = i₂.operands ∧
      i₁.text ≠ (Listing.Line.data 0x6000 0x90).text := by
  refine ⟨_, _, rfl, rfl, by decide, rfl, ?_⟩
  obtain ⟨hsame, hdata⟩ :=
    decode_text_inj 0x6000 0x6000 [0x90, 0x7F] [0x90, 0x80, 0x7F] _ _ rfl rfl
  obtain ⟨-, -, -, -, hoperands⟩ := hsame rfl
  exact ⟨hoperands, hdata 0x6000 0x90⟩

end Instruction

end GromListing
