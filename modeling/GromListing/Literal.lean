import GromListing.Text.Hex
import GromListing.Word

/-!
# Literals

A literal is one byte or one word. Its width is part of it: a word keeps four digits even where
its value would fit a byte.
-/

set_option autoImplicit false

namespace GromListing

/-- A value of one or two bytes. -/
inductive Literal
  | byte (value : UInt8)
  | word (value : UInt16)
  deriving DecidableEq

namespace Literal

inductive Width
  | byte
  | word
  deriving DecidableEq

/-- One means a byte; every other size means a word. -/
def Width.ofSize (size : UInt16) : Width := if size = 1 then .byte else .word

def Width.size : Width → Nat
  | .byte => 1
  | .word => 2

def width : Literal → Width
  | .byte _ => .byte
  | .word _ => .word

def toNat : Literal → Nat
  | .byte b => b.toNat
  | .word w => w.toNat

/-- A word if there is a high byte, else a byte. -/
def ofBytes (lo : UInt8) (hi : Option UInt8) : Literal :=
  match hi with
  | some hi => .word (Word.ofBytes hi lo)
  | none => .byte lo

/-- As many digits as the width asks for. -/
def text : Literal → String
  | .byte b => Hex.byte b
  | .word w => Hex.word w

end Literal

end GromListing
