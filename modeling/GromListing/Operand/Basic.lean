import GromListing.Literal

/-!
# Operands

What an instruction works on, and how a listing writes it: `@>HHHH` for CPU memory and `*>HHHH`
for a pointer there, both behind a `V` for video memory, `G@>HHHH` for GROM, `>HH` or `>HHHH` for
a literal, `#n` for a video register. Memory and GROM operands may add the content of an index
byte, which is written as the scratchpad address that holds it.
-/

set_option autoImplicit false

namespace GromListing

/-- Where the scratchpad memory begins that CPU operands count from. -/
def scratchpad : UInt16 := 0x8300

inductive Operand
  /-- CPU or video memory, directly or through a pointer. -/
  | memory (vdp indirect : Bool) (addr : UInt16) (index : Option UInt8)
  | grom (addr : UInt16) (index : Option UInt8)
  | immediate (value : Literal)
  | vdpRegister (register : UInt8)
  deriving DecidableEq

namespace Operand

/-- The scratchpad address of an index byte, in parentheses. -/
def indexText : Option UInt8 → String
  | some offset => "(@>" ++ Hex.word (scratchpad + offset.toUInt16) ++ ")"
  | none => ""

def text : Operand → String
  | .memory vdp indirect addr index =>
    (if vdp then "V" else "") ++ (if indirect then "*" else "@") ++ ">" ++ Hex.word addr ++
      indexText index
  | .grom addr index => "G@>" ++ Hex.word addr ++ indexText index
  | .immediate value => ">" ++ value.text
  | .vdpRegister register => "#" ++ toString register.toNat

end Operand

end GromListing
