/-!
# Bytes and words

A word is sixteen bits, stored high byte first. Some bytes carry flags in single bits.
-/

set_option autoImplicit false

namespace GromListing

/-- Whether the bit that `mask` holds is set in `b`. -/
def hasBit (mask b : UInt8) : Bool := b &&& mask != 0

/-- Bits outside a mask may be flipped. -/
theorem hasBit_xor {mask flip : UInt8} (h : flip &&& mask = 0) (b : UInt8) :
    hasBit mask (b ^^^ flip) = hasBit mask b := by
  have hnat : flip.toNat &&& mask.toNat = 0 := by
    rw [← UInt8.toNat_and, h]
    rfl
  have hand : (b ^^^ flip) &&& mask = b &&& mask := by
    apply UInt8.toNat_inj.1
    rw [UInt8.toNat_and, UInt8.toNat_xor, Nat.and_xor_distrib_right, hnat, Nat.xor_zero,
      UInt8.toNat_and]
  rw [hasBit, hasBit, hand]

namespace Word

/-- The word that two bytes spell. -/
def ofBytes (hi lo : UInt8) : UInt16 := UInt16.ofNat (256 * hi.toNat + lo.toNat)

theorem toNat_ofBytes (hi lo : UInt8) :
    (ofBytes hi lo).toNat = 256 * hi.toNat + lo.toNat := by
  have h₁ := hi.toNat_lt
  have h₂ := lo.toNat_lt
  simp only [ofBytes, UInt16.toNat_ofNat']
  omega

theorem toNat_high (w : UInt16) : (w >>> 8).toUInt8.toNat = w.toNat / 256 := by
  have hlt := w.toNat_lt
  rw [UInt16.toNat_toUInt8, UInt16.toNat_shiftRight]
  change w.toNat >>> 8 % 2 ^ 8 = _
  rw [Nat.shiftRight_eq_div_pow]
  omega

theorem high_ofBytes (hi lo : UInt8) : (ofBytes hi lo >>> 8).toUInt8 = hi := by
  have hlo := lo.toNat_lt
  apply UInt8.toNat_inj.1
  rw [toNat_high, toNat_ofBytes]
  omega

theorem low_ofBytes (hi lo : UInt8) : (ofBytes hi lo).toUInt8 = lo := by
  have hlo := lo.toNat_lt
  apply UInt8.toNat_inj.1
  rw [UInt16.toNat_toUInt8, toNat_ofBytes]
  omega

theorem ofBytes_split (w : UInt16) : ofBytes (w >>> 8).toUInt8 w.toUInt8 = w := by
  have hlo : w.toUInt8.toNat = w.toNat % 256 := UInt16.toNat_toUInt8 w
  apply UInt16.toNat_inj.1
  rw [toNat_ofBytes, toNat_high, hlo]
  omega

end Word

end GromListing
