import GromListing.Text.Hex

/-!
# Numbers of the command line

Digits of one radix, at least one of them, perhaps behind a single plus sign, with a value below a
given limit. Digits are ASCII; leading zeros are free.
-/

set_option autoImplicit false

namespace GromListing.Number

/-- The value of the digits, continuing from `value`. -/
def digits? (radix value : Nat) : List Char → Option Nat
  | [] => some value
  | c :: rest =>
    match Hex.value? c with
    | some d => if d < radix then digits? radix (radix * value + d) rest else none
    | none => none

/-- A number of the given radix below `limit`. -/
def unsigned? (radix limit : Nat) (text : List Char) : Option Nat :=
  let digits := match text with
    | '+' :: rest => rest
    | _ => text
  if digits.isEmpty then none else (digits? radix 0 digits).filter (· < limit)

/-- A decimal number, or a hexadecimal one behind `0x` or `0X`. -/
def decimalOrHex? (limit : Nat) (text : String) : Option Nat :=
  match text.toList with
  | '0' :: 'x' :: rest | '0' :: 'X' :: rest => unsigned? 16 limit rest
  | text => unsigned? 10 limit text

def decimal? (limit : Nat) (text : String) : Option Nat := unsigned? 10 limit text.toList

end GromListing.Number
