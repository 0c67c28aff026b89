import GromListing.Instruction.Encoding
import GromListing.Proofs.Instruction.PrefixCode
import GromListing.Proofs.Reader.Relocation

/-!
# Instructions at two addresses

`decode_relocate`: bytes that are an instruction at one address are one at every other, of the same
row and the same bytes. Its operands are the same too, unless it is a branch, whose target lies in
the page that the instruction is in. So the encodings of instructions do not depend on the address
(`isEncoding_iff`).
-/

set_option autoImplicit false

namespace GromListing

open Reader (Alike)

variable {b₁ b₂ : UInt16}

namespace Operand

theorem readIndex_alike (indexed : Bool) :
    Alike Eq b₁ b₂ (readIndex indexed) (readIndex indexed) := by
  unfold readIndex
  split
  · rw [← bind_pure_comp]
    exact Alike.byte.bind_eq fun _ => .pure rfl
  · exact .pure rfl

theorem readAddress_alike (first : UInt8) :
    Alike Eq b₁ b₂ (readAddress first) (readAddress first) := by
  unfold readAddress
  refine Alike.byte.bind_eq fun next => ?_
  simp only
  split
  · exact Alike.byte.bind_eq fun _ => .pure rfl
  · split <;> exact .pure rfl

theorem readGeneral_alike : Alike Eq b₁ b₂ readGeneral readGeneral := by
  unfold readGeneral
  refine Alike.byte.bind_eq fun first => ?_
  split
  · exact (readAddress_alike first).bind_eq fun _ => (readIndex_alike _).bind_eq fun _ => .pure rfl
  · exact .pure rfl

theorem readGrom_alike (indexed : Bool) :
    Alike Eq b₁ b₂ (readGrom indexed) (readGrom indexed) :=
  Alike.word.bind_eq fun _ => (readIndex_alike indexed).bind_eq fun _ => .pure rfl

theorem readMoveEnd_alike (cpu indexed : Bool) :
    Alike Eq b₁ b₂ (readMoveEnd cpu indexed) (readMoveEnd cpu indexed) := by
  unfold readMoveEnd
  split
  · exact readGeneral_alike
  · exact readGrom_alike indexed

end Operand

theorem Field.read_alike (field : Field) (h : ∀ high, field ≠ .branchTarget high) :
    Alike Eq b₁ b₂ field.read field.read := by
  cases field with
  | literal width => exact (Alike.literal width).bind_eq fun _ => .pure rfl
  | branchTarget high => exact absurd rfl (h high)
  | general => exact Operand.readGeneral_alike
  | moveEnd cpu indexed => exact Operand.readMoveEnd_alike cpu indexed
  | vdpRegister => exact Alike.byte.bind_eq fun _ => .pure rfl

/-- Targets of branches are found in the same bytes, whatever they are. -/
theorem Field.read_branchTarget_alike (high : UInt8) :
    Alike (fun _ _ => True) b₁ b₂ (branchTarget high).read (branchTarget high).read :=
  Alike.byte.bind_eq fun _ => Alike.base.bind fun _ _ _ => .pure trivial

theorem Format.eq_branch_of_mem_fields {format : Format} {op high : UInt8}
    (h : .branchTarget high ∈ format.fields op) : format = .branch := by
  cases format with
  | branch => rfl
  | dual =>
    simp only [fields] at h
    split at h <;> simp at h
  | move =>
    simp only [fields] at h
    split at h <;> split at h <;> simp at h
  | _ => simp [fields] at h

theorem Format.read_field_alike {format : Format} {op : UInt8} {field : Field}
    (h : field ∈ format.fields op) :
    Alike (fun o p => format ≠ .branch → o = p) b₁ b₂ field.read field.read := by
  by_cases hb : ∃ high, field = .branchTarget high
  · obtain ⟨high, rfl⟩ := hb
    have hformat := eq_branch_of_mem_fields h
    exact (Field.read_branchTarget_alike high).weaken fun _ _ _ hne => absurd hformat hne
  · exact (field.read_alike fun high he => hb ⟨high, he⟩).weaken fun _ _ he _ => he

theorem Format.readStored_alike (format : UInt8 → Format) :
    Alike (fun s t => s.1 = t.1 ∧ (format s.1 ≠ .branch → s.2 = t.2)) b₁ b₂
      (readStored format) (readStored format) := by
  refine Alike.byte.bind_eq fun op => ?_
  refine (Alike.mapM _ fun field hf => read_field_alike hf).bind fun os os' h => ?_
  refine .pure ⟨rfl, fun hne => ?_⟩
  exact List.forall₂_eq_eq_eq ▸ h.imp fun o p he => he hne

namespace Instruction

/-- **The same bytes are the same instruction at any address**, up to branch targets. -/
theorem decode_relocate {bytes : List UInt8} {i₁ : Instruction} (h : decode b₁ bytes = .ok i₁)
    (b₂ : UInt16) : ∃ i₂, decode b₂ bytes = .ok i₂ ∧ i₂.row = i₁.row ∧ i₂.word = i₁.word ∧
      i₂.bytes = i₁.bytes ∧ (i₁.row.format ≠ .branch → i₂.operands = i₁.operands) := by
  have hr : Alike _ b₁ b₂ (Format.readStored fun op => (Opcode.lookup op).format) _ :=
    Format.readStored_alike _
  rcases hr [] bytes with
    ⟨⟨op, os⟩, ⟨_, os'⟩, taken, rest, h₁, h₂, rfl, hos⟩ | ⟨t, u, c, d, h₁, -⟩
  · rw [decode_eq, Cursor.start, h₁] at h
    rw [decode_eq, Cursor.start, h₂]
    cases h
    refine ⟨_, rfl, rfl, rfl, rfl, fun hne => ?_⟩
    exact congrArg (Format.arrange _ op) (hos hne).symm
  · rw [decode_eq, Cursor.start, h₁] at h
    cases h

/-! ## Encodings -/

theorem isEncoding_iff (addr : UInt16) (bytes : List UInt8) :
    IsEncoding bytes ↔ ∃ inst, decode addr bytes = .ok inst ∧ inst.size = bytes.length := by
  constructor
  · exact fun h => h addr
  · rintro ⟨inst, hd, hs⟩ addr'
    obtain ⟨inst', hd', -, -, hb, -⟩ := decode_relocate hd addr'
    exact ⟨inst', hd', (congrArg List.length hb).trans hs⟩

end Instruction

end GromListing
