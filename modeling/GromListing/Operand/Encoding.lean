import GromListing.Operand.Basic

/-!
# Encodings of operand fields

The documented forms of a general address field, as a relation between an operand and bytes. It
says how a field is built, where `Operand.readGeneral` says how one is taken apart. An operand may
have more than one form: any full address can also name what a shorter form reaches. A GROM address
has one form only, whose index byte is there if the instruction says so.
-/

set_option autoImplicit false

namespace GromListing.Operand

/-- The first byte `1XVInnnn` of a long field. -/
def longByte (indexed vdp indirect : Bool) (low : UInt8) : UInt8 :=
  UInt8.ofNat (128 + 64 * indexed.toNat + 32 * vdp.toNat + 16 * indirect.toNat + low.toNat)

/-- What an offset counts from: only a direct video operand counts from zero. -/
def offsetBase (vdp indirect : Bool) : UInt16 :=
  match vdp, indirect with
  | true, false => 0
  | _, _ => scratchpad

/-- The bytes are a general address field for the operand. -/
inductive GeneralForm : Operand → List UInt8 → Prop
  | short (offset : UInt8) (small : offset.toNat < 128) :
    GeneralForm (.memory false false (scratchpad + offset.toUInt16) none) [offset]
  | offset (vdp indirect : Bool) (high low : UInt8) (index : Option UInt8)
      (small : high.toNat < 15) :
    GeneralForm (.memory vdp indirect (offsetBase vdp indirect + Word.ofBytes high low) index)
      (longByte index.isSome vdp indirect high :: low :: index.toList)
  | extended (vdp indirect : Bool) (high low : UInt8) (index : Option UInt8) :
    GeneralForm (.memory vdp indirect (Word.ofBytes high low) index)
      (longByte index.isSome vdp indirect 15 :: high :: low :: index.toList)

/-- The bytes are a GROM address for the operand, with an index byte behind it if `indexed`. -/
inductive GromForm : Bool → Operand → List UInt8 → Prop
  | mk (hi lo : UInt8) (index : Option UInt8) :
    GromForm index.isSome (.grom (Word.ofBytes hi lo) index) (hi :: lo :: index.toList)

end GromListing.Operand
