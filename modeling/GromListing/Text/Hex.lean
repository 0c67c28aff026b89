/-!
# Hexadecimal text

Numbers are written in upper-case digits, two for a byte and four for a word, whatever their
value. A digit is read in either case, ASCII only.
-/

set_option autoImplicit false

namespace GromListing.Hex

/-- The upper-case digit of a value below sixteen. -/
def digit (n : Nat) : Char := Char.ofNat (if n < 10 then 48 + n else 55 + n)

/-- The low `width` digits of `n`, most significant first. -/
def digits : Nat → Nat → List Char
  | 0, _ => []
  | width + 1, n => digits width (n / 16) ++ [digit (n % 16)]

def byte (b : UInt8) : String := String.ofList (digits 2 b.toNat)

def word (w : UInt16) : String := String.ofList (digits 4 w.toNat)

/-- The value of a digit of either case. -/
def value? (c : Char) : Option Nat :=
  if 48 ≤ c.toNat ∧ c.toNat ≤ 57 then some (c.toNat - 48)
  else if 65 ≤ c.toNat ∧ c.toNat ≤ 70 then some (c.toNat - 55)
  else if 97 ≤ c.toNat ∧ c.toNat ≤ 102 then some (c.toNat - 87)
  else none

end GromListing.Hex
