import GromListing.Listing.Column
import GromListing.Proofs.Instruction.Decoding
import GromListing.Proofs.Listing.Coverage
import GromListing.Proofs.Text.Hex

/-!
# The column of bytes

* `render_true_eq`: a line with its bytes is its text, with the bytes put in behind the address.
* `bodyAt_iff`: where its mnemonic begins, by the number of its bytes (`length_pairs`).
* `size_of_mem_plainLines`: how many bytes a line has, and which lines have more than eight.
* `sweep_bytes_column`: all of this for the lines of a sweep. So mnemonics stand one below the other
  as long as no line has more than eight bytes, and not always (`exists_sweep_out_of_column`).
-/

set_option autoImplicit false

namespace GromListing

theorem Text.length_padRight (width : Nat) (s : String) :
    (padRight width s).length = max width s.length := by
  simp only [padRight, String.length_append, String.length_ofList, List.length_replicate]
  omega

theorem Hex.length_pairs (bytes : List UInt8) :
    (" ".intercalate (bytes.map byte)).length = 3 * bytes.length - 1 := by
  induction bytes with
  | nil => simp
  | cons first rest ih =>
    cases rest with
    | nil => simp [length_byte]
    | cons second rest =>
      rw [List.map_cons, List.map_cons, String.intercalate_cons_cons, ← List.map_cons,
        String.length_append, String.length_append, length_byte, ih]
      simp only [List.length_cons, show " ".length = 1 from rfl]
      omega

namespace Listing

namespace Line

theorem text_eq (line : Line) : line.text = Hex.word line.addr ++ line.rest :=
  String.append_assoc ..

theorem render_true_eq (line : Line) :
    line.render true =
      Hex.word line.addr ++ "  " ++ Text.padRight bytesWidth line.pairs ++ line.rest := by
  simp only [render, if_true, bytesText, pairs, rest, String.append_assoc]

theorem body_ne_nil (line : Line) : line.body.toList ≠ [] := by
  cases line <;> simp [body, Instruction.body, Instruction.columns]

/-- The mnemonic begins behind the address, its two blanks, the column of bytes, and two blanks
more. The column grows where the bytes do not fit into it. -/
theorem bodyAt_iff (line : Line) (column : Nat) :
    line.BodyAt column ↔ column = 8 + max bytesWidth (3 * line.bytes.length - 1) := by
  obtain ⟨front, hfront⟩ : ∃ front, front =
      Hex.word line.addr ++ "  " ++ Text.padRight bytesWidth line.pairs ++ "  " := ⟨_, rfl⟩
  have hlength : front.toList.length = 8 + max bytesWidth (3 * line.bytes.length - 1) := by
    simp only [hfront, String.length_toList, String.length_append, Hex.length_word,
      Text.length_padRight, pairs, Hex.length_pairs, show "  ".length = 2 from rfl]
    omega
  have hrender : (line.render true).toList = front.toList ++ line.body.toList := by
    rw [render_true_eq, rest, ← String.append_assoc, ← hfront, String.toList_append]
  have hbody := List.length_pos_iff.2 line.body_ne_nil
  rw [BodyAt, hrender, ← hlength]
  constructor
  · intro hdrop
    have hsum := congrArg List.length hdrop
    rw [List.length_drop, List.length_append] at hsum
    omega
  · rintro rfl
    exact List.drop_left

end Line

theorem size_of_mem_plainLines {addr : Nat} {bytes : List UInt8} {line : Line}
    (h : line ∈ plainLines addr bytes) :
    1 ≤ line.bytes.length ∧ line.bytes.length ≤ Instruction.maxSize ∧
      (8 < line.bytes.length → ∃ inst, line = .code inst ∧
        (inst.row.format = .dual ∧ line.bytes.length = 9 ∨ inst.row.format = .move)) := by
  obtain ⟨before, after, hlines⟩ := List.append_of_mem h
  obtain ⟨-, hne, hcode, -⟩ := (hlines ▸ placed_plainLines addr bytes).append_right
  refine ⟨List.length_pos_iff.2 hne, ?_⟩
  cases line with
  | code inst =>
    have hdecode := hcode inst rfl
    exact ⟨(Instruction.exists_append_of_decode hdecode).1.size_le,
      fun hsize => ⟨inst, rfl, Instruction.format_of_size hdecode hsize⟩⟩
  | data addr byte =>
    exact ⟨show 1 ≤ 13 by decide, fun hsize => absurd hsize (show ¬8 < 1 by decide)⟩

/-- **Where mnemonics stand in a listing with bytes.** Each line is its text with the bytes put in
behind the four digits of the address: as pairs of digits, parted by single blanks and filled up with
blanks to twenty-three characters. What follows them begins at column 31 in the lines of at most
eight bytes; with more bytes the line has no room for them, and it begins three columns later for
each byte from the ninth to the thirteenth. Such lines are block moves, and dual instructions with
nine bytes. -/
theorem sweep_bytes_column (image : Image) (h : image.Fits) (start : UInt16) (stop : UInt32) :
    ∀ line ∈ (sweep image start stop).map (·.line),
      line.text = Hex.word line.addr ++ line.rest ∧ (Hex.word line.addr).length = 4 ∧
      line.render true =
        Hex.word line.addr ++ "  " ++ Text.padRight 23 line.pairs ++ line.rest ∧
      line.pairs.length = 3 * line.bytes.length - 1 ∧
      1 ≤ line.bytes.length ∧ line.bytes.length ≤ 13 ∧
      (∀ column, line.BodyAt column ↔ column = 31 + 3 * (line.bytes.length - 8)) ∧
      (line.BodyAt 31 ↔ line.bytes.length ≤ 8) ∧
      (8 < line.bytes.length → ∃ inst, line = .code inst ∧
        (inst.row.format = .dual ∧ line.bytes.length = 9 ∨ inst.row.format = .move)) := by
  intro line hline
  rw [sweep_line_eq h] at hline
  obtain ⟨hpos, hle, hlong⟩ := size_of_mem_plainLines hline
  have hcolumn (column : Nat) :
      line.BodyAt column ↔ column = 31 + 3 * (line.bytes.length - 8) := by
    rw [Line.bodyAt_iff, Line.bytesWidth]
    omega
  refine ⟨line.text_eq, Hex.length_word _, line.render_true_eq, Hex.length_pairs _, hpos, hle,
    hcolumn, ?_, hlong⟩
  rw [hcolumn]
  omega

/-- A return, and a sum of two words in memory, both given by full addresses and indices. -/
theorem sweep_bytes_column_indexed :
    let image : Image := ⟨0x6000, #[0x00, 0xA1, 0xCF, 0x12, 0x34, 0x56, 0xCF, 0x12, 0x34, 0x57]⟩
    let short : Line := .code ⟨0x6000, Opcode.lookup 0x00, false, [], [0x00]⟩
    let long : Line := .code ⟨0x6001, Opcode.lookup 0xA1, true,
      [.memory false false 0x1234 (some 0x57), .memory false false 0x1234 (some 0x56)],
      [0xA1, 0xCF, 0x12, 0x34, 0x56, 0xCF, 0x12, 0x34, 0x57]⟩
    image.Fits ∧ (sweep image 0x6000 0x600A).map (·.line) = [short, long] ∧
      short.BodyAt 31 ∧ long.BodyAt 34 ∧ long.render true =
        "6001  A1 CF 12 34 56 CF 12 34 57  DADD   @>1234(@>8357),@>1234(@>8356)" := by
  intro image short long
  have h : image.Fits := by decide
  have hlines : (sweep image 0x6000 0x600A).map (·.line) = [short, long] := by decide +kernel
  have hcolumn := sweep_bytes_column image h 0x6000 0x600A
  rw [hlines] at hcolumn
  obtain ⟨-, -, -, -, -, -, -, hshort, -⟩ := hcolumn short List.mem_cons_self
  obtain ⟨-, -, -, -, -, -, hlong, -⟩ := hcolumn long (List.mem_cons_of_mem _ List.mem_cons_self)
  exact ⟨h, hlines, hshort.2 (by decide), (hlong 34).2 (by decide), by decide +kernel⟩

/-- Their mnemonics share no column. -/
theorem exists_sweep_out_of_column :
    ¬∀ (image : Image) (start : UInt16) (stop : UInt32), image.Fits →
      ∃ column, ∀ line ∈ (sweep image start stop).map (·.line), line.BodyAt column := by
  intro h
  let image : Image := ⟨0x6000, #[0x00, 0xA1, 0xCF, 0x12, 0x34, 0x56, 0xCF, 0x12, 0x34, 0x57]⟩
  obtain ⟨column, hcolumn⟩ := h image 0x6000 0x600A (by decide)
  have hsizes : ((sweep image 0x6000 0x600A).map (·.line)).map (·.bytes.length) = [1, 9] := by
    decide +kernel
  obtain ⟨short, rest, hlines, hshort, hrest⟩ := List.map_eq_cons_iff.1 hsizes
  obtain ⟨long, last, hlast, hlong, -⟩ := List.map_eq_cons_iff.1 hrest
  rw [hlines, hlast] at hcolumn
  have hearly := (short.bodyAt_iff column).1 (hcolumn short List.mem_cons_self)
  have hlate := (long.bodyAt_iff column).1 (hcolumn long (by simp))
  rw [hshort, Line.bytesWidth] at hearly
  rw [hlong, Line.bytesWidth] at hlate
  omega

end Listing

end GromListing
