import GromListing.Instruction.Basic
import GromListing.Proofs.Instruction.Routine

/-!
# Instructions as a prefix code

How many bytes an instruction has is written nowhere: it comes out of the opcode's flag bits and of
the fields one after the other. Still the encodings are a prefix code, which thirteen bytes always
decide:

* `readStored_decides`: an opcode and its fields are a code word of at most thirteen bytes
  (`Field.read_decides` for each field, `length_fields_le` for their number).
* `decode_cases`: any bytes begin with a whole instruction (`Whole`), or are a proper beginning of
  one and fewer than thirteen.
* `decode_prefix_code`: both, as `decode` shows them.
-/

set_option autoImplicit false

namespace GromListing

open Reader (Decides Reads)

/-! ## Operand fields -/

namespace Operand

theorem readIndex_decides (indexed : Bool) : Decides (readIndex indexed) 1 :=
  .ite (.map some .byte) ((Decides.pure none).mono (Nat.zero_le 1))

theorem readAddress_decides (first : UInt8) : Decides (readAddress first) 2 := by
  unfold readAddress
  refine .bind (n := 1) .byte fun next => .ite (.bind .byte fun low => .pure _) (.ite ?_ ?_)
  · exact (Decides.pure _).mono (Nat.zero_le 1)
  · exact (Decides.pure _).mono (Nat.zero_le 1)

theorem readGeneral_decides : Decides readGeneral 4 := by
  unfold readGeneral
  refine .bind (n := 3) .byte fun first => .ite ?_ ?_
  · exact .bind (readAddress_decides first) fun _ => .bind (readIndex_decides _) fun _ => .pure _
  · exact (Decides.pure _).mono (Nat.zero_le 3)

theorem readGrom_decides (indexed : Bool) : Decides (readGrom indexed) 3 :=
  .bind .word fun _ => .bind (readIndex_decides indexed) fun _ => .pure _

theorem readMoveEnd_decides (cpu indexed : Bool) : Decides (readMoveEnd cpu indexed) 4 :=
  .ite readGeneral_decides ((readGrom_decides indexed).mono (by decide))

end Operand

/-! ## Stored instructions -/

theorem Field.read_decides (field : Field) : Decides field.read 4 := by
  cases field with
  | literal width =>
    exact (Decides.bind (.literal width) fun _ => .pure _).mono (by decide)
  | branchTarget high =>
    exact (Decides.bind .byte fun _ => .bind .base fun _ => .pure _).mono (by decide)
  | general => exact Operand.readGeneral_decides
  | moveEnd cpu indexed => exact Operand.readMoveEnd_decides cpu indexed
  | vdpRegister => exact (Decides.bind .byte fun _ => .pure _).mono (by decide)

namespace Format

theorem length_fields_le (format : Format) (op : UInt8) : (format.fields op).length ≤ 3 := by
  cases format <;> simp [fields]

def readStored (format : UInt8 → Format) : Reader (UInt8 × List Operand) := do
  let op ← Reader.byte
  let operands ← ((format op).fields op).mapM Field.read
  return (op, operands)

theorem readStored_decides (format : UInt8 → Format) : Decides (readStored format) 13 := by
  refine .bind (n := 12) .byte fun op => ?_
  have hfields := Decides.mapM Field.read_decides ((format op).fields op)
  have hlength := length_fields_le (format op) op
  exact (hfields.mono (by omega)).bind fun _ => .pure _

end Format

namespace Instruction

/-- The instruction of an opcode and its operands as stored. -/
def ofStored (addr : UInt16) (bytes : List UInt8) (stored : UInt8 × List Operand) : Instruction :=
  let row := Opcode.lookup stored.1
  ⟨addr, row, row.format.isWord stored.1, row.format.arrange stored.1 stored.2, bytes⟩

theorem decode_eq (addr : UInt16) (bytes : List UInt8) :
    decode addr bytes =
      match Format.readStored (fun op => (Opcode.lookup op).format) (.start addr bytes) with
      | .ok stored c => .ok (ofStored addr c.taken stored)
      | .error t _ => .error t := by
  cases bytes with
  | nil => rfl
  | cons op rest =>
    have hroutine := (Opcode.lookup op).format.routine_eq ⟨addr, [], op :: rest⟩
    simp only [decode, Reader.peek, Cursor.start, hroutine, Format.readLayout, Format.readStored,
      Reader.byte_cons, Reader.bind_apply]
    cases ((Opcode.lookup op).format.fields op).mapM Field.read ⟨addr, [] ++ [op], rest⟩ with
    | ok operands c => rfl
    | error t c => rfl

/-! ## Whole instructions -/

/-- The instruction is what its own bytes decode to, whatever follows them, and no proper beginning
of them decodes to anything. -/
structure Whole (addr : UInt16) (inst : Instruction) : Prop where
  addr_eq : inst.addr = addr
  size_pos : 0 < inst.size
  size_le : inst.size ≤ maxSize
  decode_append : ∀ tail, decode addr (inst.bytes ++ tail) = .ok inst
  decode_take : ∀ n < inst.size, decode addr (inst.bytes.take n) = .error ⟨addr, n + 1, n⟩

theorem Whole.of_reads {addr : UInt16} {code : List UInt8} {stored : UInt8 × List Operand}
    (h : Reads (Format.readStored fun op => (Opcode.lookup op).format) addr code stored)
    (hc : code.length ≤ maxSize) : Whole addr (ofStored addr code stored) where
  addr_eq := rfl
  size_pos := by
    -- an empty code word would be read from no bytes
    apply List.length_pos_iff.2
    rintro rfl
    have := h.whole [] []
    cases this
  size_le := hc
  decode_append tail := by
    rw [decode_eq, Cursor.start]
    simp only [ofStored]
    rw [h.whole [] tail]
    rfl
  decode_take n hn := by
    have hl : (code.take n).length = n := by
      rw [List.length_take]
      exact Nat.min_eq_left (Nat.le_of_lt hn)
    rw [decode_eq, Cursor.start]
    simp only [ofStored]
    rw [h.part [] n hn, ← Cursor.start, Cursor.short_start, hl]

/-- **Any bytes begin with a whole instruction, or are too few for one.** -/
theorem decode_cases (addr : UInt16) (bytes : List UInt8) :
    (∃ inst tail, bytes = inst.bytes ++ tail ∧ Whole addr inst) ∨
      (bytes.length < maxSize ∧
        decode addr bytes = .error ⟨addr, bytes.length + 1, bytes.length⟩) := by
  rcases Format.readStored_decides (fun op => (Opcode.lookup op).format) addr bytes with
    ⟨code, stored, tail, rfl, hc, h⟩ | ⟨hl, hs⟩
  · exact .inl ⟨ofStored addr code stored, tail, rfl, .of_reads h hc⟩
  · refine .inr ⟨hl, ?_⟩
    have := hs []
    rw [decode_eq, Cursor.start, this, ← Cursor.start, Cursor.short_start]

variable {addr : UInt16} {bytes : List UInt8} {inst : Instruction} {t : Truncation}

theorem exists_append_of_decode (h : decode addr bytes = .ok inst) :
    Whole addr inst ∧ ∃ tail, bytes = inst.bytes ++ tail := by
  rcases decode_cases addr bytes with ⟨inst', tail, rfl, hw⟩ | ⟨_, he⟩
  · rw [hw.decode_append] at h
    cases h
    exact ⟨hw, tail, rfl⟩
  · rw [he] at h
    cases h

theorem bytes_eq_of_decode (h : decode addr bytes = .ok inst) :
    inst.bytes = bytes.take inst.size := by
  obtain ⟨-, tail, rfl⟩ := exists_append_of_decode h
  exact List.take_left.symm

theorem size_pos_of_decode (h : decode addr bytes = .ok inst) : 0 < inst.size :=
  (exists_append_of_decode h).1.size_pos

theorem row_mem_of_decode (h : decode addr bytes = .ok inst) : inst.row ∈ Opcode.rows := by
  rw [decode_eq] at h
  split at h
  · cases h
    exact Opcode.lookup_mem_rows _
  · cases h

/-- A decoding fails only for want of bytes, and always for the first that is not there. -/
theorem truncation_of_decode (h : decode addr bytes = .error t) :
    bytes.length < maxSize ∧ t = ⟨addr, bytes.length + 1, bytes.length⟩ := by
  rcases decode_cases addr bytes with ⟨inst, tail, rfl, hw⟩ | ⟨hl, he⟩
  · rw [hw.decode_append] at h
    cases h
  · rw [he] at h
    cases h
    exact ⟨hl, rfl⟩

theorem decode_take_maxSize (addr : UInt16) (bytes : List UInt8) :
    decode addr (bytes.take maxSize) = decode addr bytes := by
  rcases decode_cases addr bytes with ⟨inst, tail, rfl, hw⟩ | ⟨hl, -⟩
  · rw [hw.decode_append, List.take_append, List.take_of_length_le hw.size_le, hw.decode_append]
  · rw [List.take_of_length_le (Nat.le_of_lt hl)]

/-- **Encodings are a complete prefix code.** What is decoded has one to thirteen bytes, those at
the front; it is decoded with any other bytes behind it, and not from fewer. Thirteen bytes are
always enough, and nothing but a lack of bytes makes a decoding fail. -/
theorem decode_prefix_code (addr : UInt16) (bytes : List UInt8) :
    (∀ inst, decode addr bytes = .ok inst →
      1 ≤ inst.size ∧ inst.size ≤ 13 ∧ inst.bytes = bytes.take inst.size ∧
      (∀ tail, decode addr (bytes.take inst.size ++ tail) = .ok inst) ∧
      ∀ k < inst.size, ∃ t, decode addr (bytes.take k) = .error t ∧
        t.report = ⟨.truncated, some addr, Text.red "Truncated Instruction" ++ " byte " ++
          toString (k + 1) ++ " needed but only " ++ toString k ++ " supplied"⟩) ∧
    (13 ≤ bytes.length → ∃ inst, decode addr bytes = .ok inst) ∧
    (∀ t, decode addr bytes = .error t →
      t = ⟨addr, bytes.length + 1, bytes.length⟩ ∧ t.report.kind = .truncated) := by
  refine ⟨fun inst h => ?_, fun hl => ?_, fun t h => ⟨(truncation_of_decode h).2, rfl⟩⟩
  · obtain ⟨hw, tail, rfl⟩ := exists_append_of_decode h
    have htake : (inst.bytes ++ tail).take inst.size = inst.bytes := List.take_left
    refine ⟨hw.size_pos, hw.size_le, htake.symm, fun tail => ?_, fun k hk => ?_⟩
    · rw [htake, hw.decode_append]
    · refine ⟨⟨addr, k + 1, k⟩, ?_, rfl⟩
      rw [List.take_append_of_le_length (Nat.le_of_lt hk), hw.decode_take k hk]
  · rcases decode_cases addr bytes with ⟨inst, tail, rfl, hw⟩ | ⟨hl', _⟩
    · exact ⟨inst, hw.decode_append tail⟩
    · exact absurd hl (Nat.not_le_of_lt hl')

/-- A store of three bytes, with one more behind it and with its last one missing. -/
theorem decode_prefix_code_store :
    ∃ inst, decode 0x6000 [0xBE, 0x00, 0x05, 0xFF] = .ok inst ∧ inst.bytes = [0xBE, 0x00, 0x05] ∧
      (∀ tail, decode 0x6000 ([0xBE, 0x00, 0x05] ++ tail) = .ok inst) ∧
      ∃ t, decode 0x6000 [0xBE, 0x00] = .error t ∧ t.report.kind = .truncated := by
  obtain ⟨hok, -, herror⟩ := decode_prefix_code 0x6000 [0xBE, 0x00, 0x05, 0xFF]
  refine ⟨_, rfl, ?_⟩
  obtain ⟨-, -, hbytes, htail, hpart⟩ := hok _ rfl
  obtain ⟨t, ht, hreport⟩ := hpart 2 (by decide)
  exact ⟨hbytes, htail, t, ht, congrArg Report.kind hreport⟩

end Instruction

end GromListing
