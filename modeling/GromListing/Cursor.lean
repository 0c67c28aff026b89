import GromListing.Fault
import GromListing.Literal

/-!
# Cursor

A read position inside the bytes of one instruction. A read takes the bytes it needs one after
another and fails at the first that is not there; what it took before that stays taken. So after
a failure nothing is left, and every later read fails in the same way.
-/

set_option autoImplicit false

namespace GromListing

/-- Bytes of an instruction whose opcode is at `base`: those taken so far, and those still there. -/
structure Cursor where
  base : UInt16
  taken : List UInt8
  rest : List UInt8
  deriving DecidableEq

namespace Cursor

/-- A cursor at the first of `bytes`. -/
def start (base : UInt16) (bytes : List UInt8) : Cursor := ⟨base, [], bytes⟩

/-- The fault of a read that needs one more byte than there is. -/
def shortage (c : Cursor) : Truncation :=
  ⟨c.base, c.taken.length + 1, c.taken.length + c.rest.length⟩

end Cursor

/-- A computation that reads from a cursor. -/
abbrev Reader := EStateM Truncation Cursor

namespace Reader

/-- The next byte, left where it is. -/
def peek : Reader UInt8 := fun c =>
  match c.rest with
  | [] => .error c.shortage c
  | b :: _ => .ok b c

/-- Takes one byte. -/
def byte : Reader UInt8 := fun c =>
  match c.rest with
  | [] => .error c.shortage c
  | b :: rest => .ok b { c with taken := c.taken ++ [b], rest := rest }

/-- Takes two bytes, the high one first. -/
def word : Reader UInt16 := do
  let hi ← byte
  let lo ← byte
  return Word.ofBytes hi lo

/-- Takes a literal of the given width. -/
def literal : Literal.Width → Reader Literal
  | .byte => do
    let lo ← byte
    return .ofBytes lo none
  | .word => do
    let hi ← byte
    let lo ← byte
    return .ofBytes lo (some hi)

/-- The address of the instruction that is being read. -/
def base : Reader UInt16 := fun c => .ok c.base c

theorem pure_apply {α : Type} (a : α) (c : Cursor) : (pure a : Reader α) c = .ok a c := rfl

/-- A computation goes on where the one before it stopped, unless that one failed. -/
theorem bind_apply {α β : Type} (x : Reader α) (f : α → Reader β) (c : Cursor) :
    (x >>= f) c = match x c with
      | .ok a c => f a c
      | .error t c => .error t c := by
  cases h : x c <;> simp [Bind.bind, EStateM.bind, h]

theorem byte_nil (base : UInt16) (taken : List UInt8) :
    byte ⟨base, taken, []⟩ = .error ⟨base, taken.length + 1, taken.length⟩ ⟨base, taken, []⟩ :=
  rfl

theorem byte_cons (base : UInt16) (taken : List UInt8) (b : UInt8) (rest : List UInt8) :
    byte ⟨base, taken, b :: rest⟩ = .ok b ⟨base, taken ++ [b], rest⟩ := rfl

end Reader

end GromListing
