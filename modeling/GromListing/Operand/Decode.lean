import GromListing.Cursor
import GromListing.Operand.Basic

/-!
# Operand fields

Most instructions name memory by a general address field:

    0AAAAAAA                      scratchpad, direct
    1XVInnnn LLLLLLLL             offset nnnnLLLLLLLL, where nnnn is below 15
    1XVI1111 HHHHHHHH LLLLLLLL    address HHHHHHHHLLLLLLLL

with `V` for video memory, `I` for a pointer, and one index byte at the end when `X` is set. An
offset counts from the scratchpad, save that of a direct video operand, which is the address
itself; the pointer of an indirect video operand is in the scratchpad.
-/

set_option autoImplicit false

namespace GromListing

namespace Operand

def readIndex (indexed : Bool) : Reader (Option UInt8) :=
  if indexed then some <$> Reader.byte else return none

/-- The address part of a long field with the first byte `first`. -/
def readAddress (first : UInt8) : Reader UInt16 := do
  let next ← Reader.byte
  let high := first &&& 0x0F
  if high = 0x0F then
    return Word.ofBytes next (← Reader.byte)
  else if hasBit 0x20 first && !hasBit 0x10 first then
    return Word.ofBytes high next
  else
    return Word.ofBytes high next + scratchpad

/-- A general address field: one byte in the short form, two to four in the long one. -/
def readGeneral : Reader Operand := do
  let first ← Reader.byte
  if hasBit 0x80 first then
    let addr ← readAddress first
    let index ← readIndex (hasBit 0x40 first)
    return .memory (hasBit 0x20 first) (hasBit 0x10 first) addr index
  else
    return .memory false false (scratchpad + first.toUInt16) none

def readGrom (indexed : Bool) : Reader Operand := do
  let addr ← Reader.word
  let index ← readIndex indexed
  return .grom addr index

/-- One end of a block move: CPU or video memory, or else GROM. Only GROM can be indexed here,
as a general address field says itself whether it is. -/
def readMoveEnd (cpu indexed : Bool) : Reader Operand :=
  if cpu then readGeneral else readGrom indexed

end Operand

end GromListing
