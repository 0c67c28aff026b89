import GromListing.Instruction.Layout
import GromListing.Operand.Encoding

/-!
# Forms of stored operands

The documented bytes of the fields of an instruction, and of what follows the opcode `1xxxxxIW` of a
dual instruction and the opcode `001GRVCN` of a block move, as relations between operands and bytes.
They say what an encoding is made of, where `Format.fields` says how one is gone through.
-/

set_option autoImplicit false

namespace GromListing

/-- The bytes are those of a field for the operand, in an instruction at `base`. -/
inductive Field.Form (base : UInt16) : Field → Operand → List UInt8 → Prop
  | byte (lo : UInt8) : Form base (.literal .byte) (.immediate (.byte lo)) [lo]
  | word (hi lo : UInt8) :
    Form base (.literal .word) (.immediate (.word (Word.ofBytes hi lo))) [hi, lo]
  | branchTarget (high lo : UInt8) :
    Form base (.branchTarget high) (.immediate (.word (pageBase base + Word.ofBytes high lo))) [lo]
  | general {o : Operand} {code : List UInt8} (h : o.GeneralForm code) : Form base .general o code
  | cpuEnd (indexed : Bool) {o : Operand} {code : List UInt8} (h : o.GeneralForm code) :
    Form base (.moveEnd true indexed) o code
  | gromEnd {indexed : Bool} {o : Operand} {code : List UInt8}
    (h : Operand.GromForm indexed o code) : Form base (.moveEnd false indexed) o code
  | vdpRegister (b : UInt8) : Form base .vdpRegister (.vdpRegister (b % 8)) [b]

/-! ## Dual instructions -/

namespace Dual

/-- `I`: the source is a literal, a word with `W` and a byte without. With no `I` the source is in
memory. -/
inductive SourceForm (op : UInt8) : Operand → List UInt8 → Prop
  | byte (i : hasBit 0x02 op = true) (w : hasBit 0x01 op = false) (lo : UInt8) :
    SourceForm op (.immediate (.byte lo)) [lo]
  | word (i : hasBit 0x02 op = true) (w : hasBit 0x01 op = true) (hi lo : UInt8) :
    SourceForm op (.immediate (.word (Word.ofBytes hi lo))) [hi, lo]
  | general (i : hasBit 0x02 op = false) {o : Operand} {code : List UInt8}
    (h : o.GeneralForm code) : SourceForm op o code

/-- The bytes after a dual opcode: the destination, which is listed last, and then the source. -/
inductive Form (op : UInt8) : List Operand → List UInt8 → Prop
  | mk {destination source : Operand} {code₁ code₂ : List UInt8}
    (hdestination : destination.GeneralForm code₁) (hsource : SourceForm op source code₂) :
    Form op [source, destination] (code₁ ++ code₂)

end Dual

/-! ## Block moves -/

namespace Move

/-- `N`: the count is a literal word. Without it the count is in memory. -/
inductive CountForm (op : UInt8) : Operand → List UInt8 → Prop
  | literal (n : hasBit 0x01 op = true) (hi lo : UInt8) :
    CountForm op (.immediate (.word (Word.ofBytes hi lo))) [hi, lo]
  | general (n : hasBit 0x01 op = false) {o : Operand} {code : List UInt8}
    (h : o.GeneralForm code) : CountForm op o code

/-- `R`: the destination is a video register, whatever `G` says. Else `G`: it is CPU or video
memory. With neither it is GROM, without an index. -/
inductive DestinationForm (op : UInt8) : Operand → List UInt8 → Prop
  | register (r : hasBit 0x08 op = true) (b : UInt8) :
    DestinationForm op (.vdpRegister (b % 8)) [b]
  | general (r : hasBit 0x08 op = false) (g : hasBit 0x10 op = true) {o : Operand}
    {code : List UInt8} (h : o.GeneralForm code) : DestinationForm op o code
  | grom (r : hasBit 0x08 op = false) (g : hasBit 0x10 op = false) (hi lo : UInt8) :
    DestinationForm op (.grom (Word.ofBytes hi lo) none) [hi, lo]

/-- `C`: the source is CPU or video memory. Else it is GROM, with an index if `V` says so. -/
inductive SourceForm (op : UInt8) : Operand → List UInt8 → Prop
  | general (c : hasBit 0x02 op = true) {o : Operand} {code : List UInt8}
    (h : o.GeneralForm code) : SourceForm op o code
  | grom (c : hasBit 0x02 op = false) (hi lo : UInt8) (index : Option UInt8)
    (v : hasBit 0x04 op = index.isSome) :
    SourceForm op (.grom (Word.ofBytes hi lo) index) (hi :: lo :: index.toList)

/-- The bytes after a block move's opcode: count, destination and source, in the order in which
they are listed too. -/
inductive Form (op : UInt8) : List Operand → List UInt8 → Prop
  | mk {count destination source : Operand} {code₁ code₂ code₃ : List UInt8}
    (hcount : CountForm op count code₁) (hdestination : DestinationForm op destination code₂)
    (hsource : SourceForm op source code₃) :
    Form op [count, destination, source] (code₁ ++ code₂ ++ code₃)

end Move

end GromListing
