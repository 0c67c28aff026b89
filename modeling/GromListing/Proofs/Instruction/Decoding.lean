import GromListing.Instruction.Forms
import GromListing.Proofs.Operand.Encoding

/-!
# How a decoding ends

* `Field.reads_iff`: each kind of field is read in its documented form.
* `Format.routine_cases`: a routine takes the opcode and a code word of the fields that it asks for,
  or, when the bytes are too few, all of them. It is known what it has written down either way.
* `Format.decode_agree`: two opcodes whose fields are read in the same way come to the same.
* `Format.decode_all_or_nothing`: so a routine reads a whole instruction, or leaves no operands and a
  lack of bytes.
* `Instruction.format_of_size`: the formats of long instructions.
-/

set_option autoImplicit false

namespace GromListing

open Reader

/-! ## Fields -/

/-- **Every field is read in its documented form.** -/
theorem Field.reads_iff {field : Field} {base : UInt16} {code : List UInt8} {o : Operand} :
    Reads field.read base code o ↔ field.Form base o code := by
  cases field with
  | literal width =>
    simp only [Field.read, bind_pure_comp, reads_map_iff (.literal width)]
    cases width with
    | byte =>
      simp only [reads_literal_byte_iff]
      constructor
      · rintro ⟨_, ⟨lo, rfl, rfl⟩, rfl⟩
        exact .byte lo
      · intro h
        cases h with
        | byte lo => exact ⟨_, ⟨lo, rfl, rfl⟩, rfl⟩
    | word =>
      simp only [reads_literal_word_iff]
      constructor
      · rintro ⟨_, ⟨hi, lo, rfl, rfl⟩, rfl⟩
        exact .word hi lo
      · intro h
        cases h with
        | word hi lo => exact ⟨_, ⟨hi, lo, rfl, rfl⟩, rfl⟩
  | branchTarget high =>
    simp only [Field.read, bind_pure_comp]
    rw [reads_byte_bind_iff fun _ => .map _ .base]
    simp only [reads_map_iff .base, reads_base_iff]
    constructor
    · rintro ⟨lo, _, rfl, _, ⟨rfl, rfl⟩, rfl⟩
      exact .branchTarget high lo
    · intro h
      cases h with
      | branchTarget _ lo => exact ⟨lo, [], rfl, base, ⟨rfl, rfl⟩, rfl⟩
  | general =>
    refine Operand.reads_readGeneral_iff.trans ⟨.general, fun h => ?_⟩
    cases h with
    | general hform => exact hform
  | moveEnd cpu indexed =>
    cases cpu with
    | true =>
      refine Operand.reads_readGeneral_iff.trans ⟨.cpuEnd indexed, fun h => ?_⟩
      cases h with
      | cpuEnd _ hform => exact hform
    | false =>
      refine Operand.reads_readGrom_iff.trans ⟨.gromEnd, fun h => ?_⟩
      cases h with
      | gromEnd hform => exact hform
  | vdpRegister =>
    have hlow : ∀ b : UInt8, b &&& 0x07 = b % 8 := by decide +kernel
    simp only [Field.read, bind_pure_comp, reads_map_iff .byte, reads_byte_iff, hlow]
    constructor
    · rintro ⟨b, rfl, rfl⟩
      exact .vdpRegister b
    · intro h
      cases h with
      | vdpRegister b => exact ⟨b, rfl, rfl⟩

/-! ## Decodings -/

/-- The two came to the same, but for their opcodes. -/
structure Decoding.Agree (d e : Decoding) : Prop where
  word_eq : d.word = e.word
  operands_eq : d.operands = e.operands
  fault_eq : d.fault = e.fault
  taken_eq : d.cursor.taken.tail = e.cursor.taken.tail
  rest_eq : d.cursor.rest = e.cursor.rest

namespace Format

variable {format : Format} {op op' : UInt8} {addr : UInt16} {bytes code : List UInt8}
  {operands : List Operand}

/-- A routine that has all its bytes takes them and no more, and writes down all there is to know. -/
theorem routine_of_reads (h : Reads ((format.fields op).mapM Field.read) addr code operands)
    (rest : List UInt8) : format.routine (.start addr, .start addr (op :: (code ++ rest))) =
      .ok () (⟨addr, pageBase addr, format.isWord op, format.arrange op operands⟩,
        ⟨addr, op :: code, rest⟩) := by
  rw [show Context.start addr = .start (Cursor.start addr (op :: (code ++ rest))).base from rfl,
    routine_eq]
  simp only [readLayout, Cursor.start, byte_cons]
  rw [h.whole]
  rfl

/-- A routine that lacks bytes has taken all there are. In the context it leaves nothing but the
flag for words. -/
theorem routine_of_short (h : ∀ taken, (format.fields op).mapM Field.read ⟨addr, taken, bytes⟩ =
      Cursor.short ⟨addr, taken, bytes⟩) :
    format.routine (.start addr, .start addr (op :: bytes)) =
      .error ⟨addr, bytes.length + 2, bytes.length + 1⟩
        (⟨addr, pageBase addr, format.isWord op, []⟩, ⟨addr, op :: bytes, []⟩) := by
  rw [show Context.start addr = .start (Cursor.start addr (op :: bytes)).base from rfl, routine_eq]
  simp only [readLayout, Cursor.start, byte_cons]
  rw [h]
  simp [Cursor.short, Cursor.drained, Cursor.shortage]

/-- No routine does anything without an opcode. -/
theorem routine_nil (format : Format) (addr : UInt16) :
    format.routine (.start addr, .start addr []) =
      .error ⟨addr, 1, 0⟩ (.start addr, .start addr []) := by
  cases format <;> rfl

theorem routine_cases (format : Format) (op : UInt8) (addr : UInt16) (bytes : List UInt8) :
    (∃ code rest operands, bytes = code ++ rest ∧ code.length ≤ 12 ∧
      Reads ((format.fields op).mapM Field.read) addr code operands ∧
      format.routine (.start addr, .start addr (op :: bytes)) =
        .ok () (⟨addr, pageBase addr, format.isWord op, format.arrange op operands⟩,
          ⟨addr, op :: code, rest⟩)) ∨
    (bytes.length < 12 ∧ format.routine (.start addr, .start addr (op :: bytes)) =
      .error ⟨addr, bytes.length + 2, bytes.length + 1⟩
        (⟨addr, pageBase addr, format.isWord op, []⟩, ⟨addr, op :: bytes, []⟩)) := by
  have hfields := length_fields_le format op
  have hdecides := (Decides.mapM Field.read_decides (format.fields op)).mono
    (show 4 * (format.fields op).length ≤ 12 by omega)
  rcases hdecides addr bytes with ⟨code, operands, rest, rfl, hlen, h⟩ | ⟨hlen, h⟩
  · exact .inl ⟨code, rest, operands, rfl, hlen, h, routine_of_reads h rest⟩
  · exact .inr ⟨hlen, routine_of_short h⟩

/-- What a routine reads to its end is an opcode and a code word of its fields. -/
theorem exists_reads_of_routine {known : Context} {c : Cursor}
    (h : format.routine (.start addr, .start addr bytes) = .ok () (known, c)) :
    ∃ op code rest operands, bytes = op :: (code ++ rest) ∧
      Reads ((format.fields op).mapM Field.read) addr code operands ∧
      known = ⟨addr, pageBase addr, format.isWord op, format.arrange op operands⟩ ∧
      c = ⟨addr, op :: code, rest⟩ := by
  cases bytes with
  | nil =>
    rw [routine_nil] at h
    cases h
  | cons op bytes =>
    rcases format.routine_cases op addr bytes with
      ⟨code, rest, operands, rfl, -, hreads, hroutine⟩ | ⟨-, hroutine⟩
    · rw [hroutine] at h
      cases h
      exact ⟨op, code, rest, operands, rfl, hreads, rfl, rfl⟩
    · rw [hroutine] at h
      cases h

theorem decode_of_ok {known : Context} {c : Cursor}
    (h : format.routine (.start addr, .start addr bytes) = .ok () (known, c)) :
    format.decode (.start addr bytes) = ⟨c, known.word, known.operands, none⟩ := by
  rw [Cursor.start] at h ⊢
  rw [decode, h]

theorem decode_of_error {t : Truncation} {known : Context} {c : Cursor}
    (h : format.routine (.start addr, .start addr bytes) = .error t (known, c)) :
    format.decode (.start addr bytes) = ⟨c, known.word, known.operands, some t⟩ := by
  rw [Cursor.start] at h ⊢
  rw [decode, h]

theorem decode_of_reads (h : Reads ((format.fields op).mapM Field.read) addr code operands)
    (rest : List UInt8) : format.decode (.start addr (op :: (code ++ rest))) =
      ⟨⟨addr, op :: code, rest⟩, format.isWord op, format.arrange op operands, none⟩ :=
  decode_of_ok (routine_of_reads h rest)

theorem decode_of_short (h : ∀ taken, (format.fields op).mapM Field.read ⟨addr, taken, bytes⟩ =
      Cursor.short ⟨addr, taken, bytes⟩) : format.decode (.start addr (op :: bytes)) =
      ⟨⟨addr, op :: bytes, []⟩, format.isWord op, [],
        some ⟨addr, bytes.length + 2, bytes.length + 1⟩⟩ :=
  decode_of_error (routine_of_short h)

/-- What decodes without a fault is an opcode and a code word of its fields. -/
theorem exists_reads_of_decode (h : (format.decode (.start addr bytes)).fault = none) :
    ∃ op code rest operands, bytes = op :: (code ++ rest) ∧
      Reads ((format.fields op).mapM Field.read) addr code operands ∧
      format.decode (.start addr bytes) =
        ⟨⟨addr, op :: code, rest⟩, format.isWord op, format.arrange op operands, none⟩ := by
  cases hroutine : format.routine (.start addr, .start addr bytes) with
  | error t s =>
    rw [decode_of_error hroutine] at h
    cases h
  | ok _ s =>
    obtain ⟨op, code, rest, operands, rfl, hreads, -⟩ := exists_reads_of_routine hroutine
    exact ⟨op, code, rest, operands, rfl, hreads, decode_of_reads hreads rest⟩

/-- **An opcode matters by how its fields are read**, by its flag for words, and by the order in
which it has the operands listed. -/
theorem decode_agree
    (hread : (format.fields op').mapM Field.read = (format.fields op).mapM Field.read)
    (hword : format.isWord op' = format.isWord op)
    (harrange : format.arrange op' = format.arrange op) (addr : UInt16) (bytes : List UInt8) :
    (format.decode (.start addr (op' :: bytes))).Agree
      (format.decode (.start addr (op :: bytes))) := by
  rcases Decides.mapM Field.read_decides (format.fields op) addr bytes with
    ⟨code, operands, rest, rfl, -, h⟩ | ⟨-, h⟩
  · have h' : Reads ((format.fields op').mapM Field.read) addr code operands := by rwa [hread]
    rw [decode_of_reads h, decode_of_reads h']
    exact ⟨hword, congrFun harrange operands, rfl, rfl, rfl⟩
  · rw [← hread] at h
    rw [decode_of_short h, decode_of_short (hread ▸ h)]
    exact ⟨hword, rfl, rfl, rfl, rfl⟩

theorem isWord_eq_true_iff : format.isWord op = true ↔
    (format = .dual ∨ format = .single) ∧ hasBit 0x01 op = true := by
  cases format <;> simp [isWord]

/-- **A routine reads a whole instruction, or all bytes for nothing.** Whatever the opcode, a routine
that succeeds takes one to thirteen of the bytes, from the first on. One that fails has taken all of
them, fewer than thirteen, and asks for one more. It has written down no operand, and the address and
the page are as before; all it has written is whether the instruction works on words, if the opcode
is there to tell. -/
theorem decode_all_or_nothing (format : Format) (addr : UInt16) (bytes : List UInt8) :
    (∃ known c, format.routine (.start addr, .start addr bytes) = .ok () (known, c) ∧
      c.taken <+: bytes ∧ 1 ≤ c.taken.length ∧ c.taken.length ≤ 13) ∨
    ∃ t known c, format.routine (.start addr, .start addr bytes) = .error t (known, c) ∧
      t.report = ⟨.truncated, some addr, Text.red "Truncated Instruction" ++ " byte " ++
        toString (bytes.length + 1) ++ " needed but only " ++ toString bytes.length ++
        " supplied"⟩ ∧
      c.taken = bytes ∧ bytes.length < 13 ∧ known.operands = [] ∧
      known.addr = (Context.start addr).addr ∧ known.page = (Context.start addr).page ∧
      (known.word = true ↔ (format = .dual ∨ format = .single) ∧
        ∃ op ∈ bytes.head?, hasBit 0x01 op = true) := by
  cases bytes with
  | nil =>
    refine .inr ⟨_, _, _, format.routine_nil addr, rfl, rfl, Nat.zero_lt_succ 12, rfl, rfl, rfl, ?_⟩
    simp [Context.start]
  | cons op bytes =>
    rcases format.routine_cases op addr bytes with
      ⟨code, rest, operands, rfl, hlen, -, hroutine⟩ | ⟨hlen, hroutine⟩
    · exact .inl ⟨_, _, hroutine, ⟨rest, rfl⟩, Nat.le_add_left 1 _, Nat.succ_le_succ hlen⟩
    · refine .inr ⟨_, _, _, hroutine, rfl, rfl, Nat.succ_lt_succ hlen, rfl, rfl, rfl, ?_⟩
      rw [isWord_eq_true_iff]
      simp

/-- A store of a word whose literal is cut: only its flag for words is left. -/
example : Format.dual.routine (.start 0x6000, .start 0x6000 [0xBF, 0x00, 0x12]) =
    .error ⟨0x6000, 4, 3⟩ (⟨0x6000, 0x6000, true, []⟩, ⟨0x6000, [0xBF, 0x00, 0x12], []⟩) :=
  rfl

end Format

/-! ## Sizes -/

namespace Instruction

variable {addr : UInt16} {bytes : List UInt8} {inst : Instruction}

theorem size_le_of_decode (h : decode addr bytes = .ok inst) :
    ∃ op, inst.size ≤ 1 + 4 * (inst.row.format.fields op).length := by
  cases bytes with
  | nil => cases h
  | cons op bytes =>
    cases hroutine : (Opcode.lookup op).format.routine (.start addr, .start addr (op :: bytes)) with
    | error t s =>
      simp only [decode, Reader.peek, Cursor.start] at h hroutine
      rw [hroutine] at h
      cases h
    | ok _ s =>
      obtain ⟨op', code, rest, operands, -, hreads, hknown, hc⟩ :=
        Format.exists_reads_of_routine hroutine
      have hcode := (Decides.mapM Field.read_decides _).length_le hreads
      simp only [decode, Reader.peek, Cursor.start] at h hroutine
      rw [hroutine] at h
      cases h
      refine ⟨op', ?_⟩
      simp only [size, hc, List.length_cons]
      omega

/-- More than eight bytes are a dual instruction with two full operands, or a block move. -/
theorem format_of_size (h : decode addr bytes = .ok inst) (hsize : 8 < inst.size) :
    inst.row.format = .dual ∧ inst.size = 9 ∨ inst.row.format = .move := by
  obtain ⟨op, hle⟩ := size_le_of_decode h
  cases hformat : inst.row.format with
  | move => exact .inr rfl
  | dual =>
    simp only [hformat, Format.fields, List.length_cons, List.length_nil] at hle
    exact .inl ⟨rfl, by omega⟩
  | _ =>
    simp only [hformat, Format.fields, List.length_cons, List.length_nil] at hle
    omega

end Instruction

end GromListing
