import GromListing.Instruction.Layout
import GromListing.Proofs.Reader.CodeWord

/-!
# Routines and layouts

A routine of a format goes through the layout of its instructions: it takes the opcode, writes down
whether the instruction works on words, takes the fields that the layout has after this opcode, and
writes down the operands.

* `Decoder.bind_apply` and the lemmas after it: what one step of a routine does to the context.
* `Format.routine_eq`: every routine, in a fresh context, is the reading of a layout. So a routine
  that fails has written down no operand, and has changed nothing in the context but the flag for
  words.
-/

set_option autoImplicit false

namespace GromListing

/-! ## Steps of a routine -/

namespace Decoder

variable {α β : Type}

theorem bind_apply (x : Decoder α) (f : α → Decoder β) (s : Context × Cursor) :
    (x >>= f) s = match x s with
      | .ok a s => f a s
      | .error t s => .error t s := by
  cases h : x s <;> simp [Bind.bind, EStateM.bind, h]

theorem read_apply (reader : Reader α) (known : Context) (c : Cursor) :
    read reader (known, c) = match reader c with
      | .ok a c => .ok a (known, c)
      | .error t c => .error t (known, c) := rfl

theorem setWord_apply (word : Bool) (known : Context) (c : Cursor) :
    setWord word (known, c) = .ok () ({ known with word }, c) := rfl

theorem context_apply (known : Context) (c : Cursor) :
    context (known, c) = .ok known (known, c) := rfl

/-- What is made of a value that has been read may be made of it in reading. -/
theorem read_bind_pure (reader : Reader α) (f : α → β) :
    (do return f (← read reader) : Decoder β) = read (do return f (← reader)) := by
  funext s
  rw [bind_apply, read_apply, read_apply, Reader.bind_apply]
  cases reader s.2 <;> rfl

/-! ## Single operands -/

theorem moveCount_eq (op : UInt8) :
    moveCount op = read (if hasBit 0x01 op then Field.literal .word else .general).read := by
  rw [moveCount]
  split
  · have hword : (Field.literal .word).read = do return .immediate (.word (← Reader.word)) := by
      simp only [Field.read, Reader.literal_word_eq, bind_pure_comp, Functor.map_map]
    rw [hword, ← read_bind_pure]
  · rfl

theorem moveDestination_eq (op : UInt8) :
    moveDestination op =
      read (if hasBit 0x08 op then Field.vdpRegister else .moveEnd (hasBit 0x10 op) false).read := by
  rw [moveDestination]
  split
  · exact read_bind_pure ..
  · rfl

theorem dualSource_apply {op : UInt8} {known : Context} (h : known.word = hasBit 0x01 op)
    (c : Cursor) : dualSource op (known, c) =
      read (if hasBit 0x02 op then Field.literal (if hasBit 0x01 op then .word else .byte)
        else .general).read (known, c) := by
  rw [dualSource]
  split
  · rw [bind_apply, context_apply]
    simp only [h]
    rw [read_bind_pure]
    rfl
  · rfl

end Decoder

/-! ## Whole routines -/

namespace Word

/-- The five low bits of the opcode and the byte after it. -/
theorem toNat_displacement (hi lo : UInt8) :
    (ofBytes (hi &&& 0x1F) lo).toNat = (ofBytes hi lo).toNat % 8192 := by
  have hlo := lo.toNat_lt
  have hand : (hi &&& 0x1F).toNat = hi.toNat % 2 ^ 5 := by
    rw [UInt8.toNat_and]
    exact Nat.and_two_pow_sub_one_eq_mod _ 5
  rw [toNat_ofBytes, toNat_ofBytes, hand]
  omega

theorem displacement_eq (hi lo : UInt8) : ofBytes hi lo &&& 0x1FFF = ofBytes (hi &&& 0x1F) lo := by
  apply UInt16.toNat_inj.1
  rw [toNat_displacement, UInt16.toNat_and]
  exact Nat.and_two_pow_sub_one_eq_mod _ 13

end Word

namespace Format

/-- What the layout of a format makes of the bytes at hand. -/
def readLayout (format : Format) (c : Cursor) :
    EStateM.Result Truncation (Context × Cursor) Unit :=
  let base := c.base
  match Reader.byte c with
  | .error t c => .error t (.start base, c)
  | .ok op c =>
    match (format.fields op).mapM Field.read c with
    | .error t c => .error t (⟨base, pageBase base, format.isWord op, []⟩, c)
    | .ok operands c =>
      .ok () (⟨base, pageBase base, format.isWord op, format.arrange op operands⟩, c)

variable (base : UInt16) (taken : List UInt8) (op : UInt8) (rest : List UInt8)

theorem routine_immediate {format : Format} {width : Literal.Width}
    (hroutine : format.routine = .immediate width) (hfields : format.fields op = [.literal width])
    (hword : format.isWord op = false) (harrange : ∀ o, format.arrange op [o] = [o]) :
    format.routine (.start base, ⟨base, taken, op :: rest⟩) =
      format.readLayout ⟨base, taken, op :: rest⟩ := by
  simp only [hroutine, Decoder.immediate, readLayout, Decoder.bind_apply, Decoder.read_apply,
    Reader.byte_cons, hfields, hword, List.mapM_cons, List.mapM_nil, Reader.bind_apply, Field.read]
  cases Reader.literal width ⟨base, taken ++ [op], rest⟩ with
  | error t c => rfl
  | ok value c =>
    simp only [Reader.pure_apply, harrange]
    rfl

theorem routine_branch : Format.branch.routine (.start base, ⟨base, taken, op :: rest⟩) =
    Format.branch.readLayout ⟨base, taken, op :: rest⟩ := by
  cases rest with
  | nil => rfl
  | cons lo rest =>
    have hroutine : Format.branch.routine (.start base, ⟨base, taken, op :: lo :: rest⟩) =
        .ok () (⟨base, pageBase base, false,
          [.immediate (.word (pageBase base + (Word.ofBytes op lo &&& 0x1FFF)))]⟩,
          ⟨base, taken ++ [op] ++ [lo], rest⟩) := rfl
    rw [hroutine, Word.displacement_eq]
    rfl

theorem routine_single : Format.single.routine (.start base, ⟨base, taken, op :: rest⟩) =
    Format.single.readLayout ⟨base, taken, op :: rest⟩ := by
  simp only [routine, Decoder.single, readLayout, Decoder.bind_apply, Decoder.read_apply,
    Reader.byte_cons, Decoder.setWord_apply, fields, List.mapM_cons, List.mapM_nil,
    Reader.bind_apply, Field.read]
  cases Operand.readGeneral ⟨base, taken ++ [op], rest⟩ <;> rfl

theorem routine_dual : Format.dual.routine (.start base, ⟨base, taken, op :: rest⟩) =
    Format.dual.readLayout ⟨base, taken, op :: rest⟩ := by
  have hdestination : Field.general.read = Operand.readGeneral := rfl
  simp only [routine, Decoder.dual, readLayout, Decoder.bind_apply, Decoder.read_apply,
    Reader.byte_cons, Decoder.setWord_apply, fields, List.mapM_cons, List.mapM_nil,
    Reader.bind_apply, hdestination]
  cases Operand.readGeneral ⟨base, taken ++ [op], rest⟩ with
  | error t c => rfl
  | ok destination c =>
    simp only
    rw [Decoder.dualSource_apply rfl, Decoder.read_apply]
    generalize (if hasBit 0x02 op then Field.literal (if hasBit 0x01 op then .word else .byte)
      else .general).read = source
    cases source c <;> rfl

theorem routine_move : Format.move.routine (.start base, ⟨base, taken, op :: rest⟩) =
    Format.move.readLayout ⟨base, taken, op :: rest⟩ := by
  have hsource : (Field.moveEnd (hasBit 0x02 op) (hasBit 0x04 op)).read =
      Operand.readMoveEnd (hasBit 0x02 op) (hasBit 0x04 op) := rfl
  simp only [routine, Decoder.move, readLayout, Decoder.bind_apply, Decoder.read_apply,
    Reader.byte_cons, Decoder.moveCount_eq, Decoder.moveDestination_eq, fields, List.mapM_cons,
    List.mapM_nil, Reader.bind_apply, hsource]
  generalize (if hasBit 0x01 op then Field.literal .word else .general).read = count
  generalize (if hasBit 0x08 op then Field.vdpRegister
    else .moveEnd (hasBit 0x10 op) false).read = destination
  generalize Operand.readMoveEnd (hasBit 0x02 op) (hasBit 0x04 op) = source
  cases count ⟨base, taken ++ [op], rest⟩ with
  | error t c => rfl
  | ok _ c =>
    simp only [Decoder.read_apply]
    cases destination c with
    | error t c => rfl
    | ok _ c =>
      simp only [Decoder.read_apply]
      cases source c <;> rfl

/-- **A routine reads the layout of its format.** In a fresh context it writes down what the layout
tells of the bytes at hand. -/
theorem routine_eq (format : Format) (c : Cursor) :
    format.routine (.start c.base, c) = format.readLayout c := by
  obtain ⟨base, taken, rest⟩ := c
  cases rest with
  | nil => cases format <;> rfl
  | cons op rest =>
    cases format with
    | dual => exact routine_dual base taken op rest
    | immediateByte => exact routine_immediate base taken op rest rfl rfl rfl fun _ => rfl
    | immediateWord => exact routine_immediate base taken op rest rfl rfl rfl fun _ => rfl
    | branch => exact routine_branch base taken op rest
    | single => exact routine_single base taken op rest
    | move => exact routine_move base taken op rest
    | reserved | inherent | fmt | unknown => rfl

end Format

end GromListing
