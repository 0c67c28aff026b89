import GromListing.HexFile.Written
import Mathlib.Algebra.Group.Nat.Defs

/-!
# Hexadecimal text can be read back

* `value?_digit`, `value?_of_isDigit`: a written digit of either case has the value it was written
  for. So digits that stand for two numbers of the same width differ if the numbers do
  (`digits_inj`, and `byte_inj`, `word_append_inj` for bytes and for words at the head of a text).
* `isDigit_of_value?`: and every character with a value is a digit written for it.
* `ne_of_mem_digits`: no other character is among the digits of a number.
* `Spells.of_value?`: two digits spell a byte; `Spells.exists_of_append`: the digits of some bytes are
  taken apart where the bytes are.
* `Spells.set`: another digit in the place of one spells other bytes, which differ in one of them.
-/

set_option autoImplicit false

namespace GromListing.Hex

theorem value?_digit : ∀ n < 16, value? (digit n) = some n := by decide

theorem value?_toLower_digit : ∀ n < 16, value? (digit n).toLower = some n := by decide

theorem value?_of_isDigit {n : Nat} {c : Char} (hn : n < 16) (h : IsDigit n c) :
    value? c = some n := by
  rcases h with rfl | rfl
  · exact value?_digit n hn
  · exact value?_toLower_digit n hn

theorem ofNat_toLower_digit : ∀ n < 16, 10 ≤ n → (digit n).toLower = Char.ofNat (87 + n) := by
  decide

theorem isDigit_of_value? {c : Char} {n : Nat} (h : value? c = some n) : n < 16 ∧ IsDigit n c := by
  have hc : c = Char.ofNat c.toNat := (Char.ofNat_toNat c).symm
  unfold value? at h
  split at h
  · obtain rfl := Option.some.inj h
    refine ⟨by omega, .inl ?_⟩
    rw [digit, if_pos (by omega), show 48 + (c.toNat - 48) = c.toNat by omega, ← hc]
  split at h
  · obtain rfl := Option.some.inj h
    refine ⟨by omega, .inl ?_⟩
    rw [digit, if_neg (by omega), show 55 + (c.toNat - 55) = c.toNat by omega, ← hc]
  split at h
  · obtain rfl := Option.some.inj h
    refine ⟨by omega, .inr ?_⟩
    rw [ofNat_toLower_digit _ (by omega) (by omega), show 87 + (c.toNat - 87) = c.toNat by omega,
      ← hc]
  · cases h

/-! ## Numbers of a fixed width -/

theorem length_digits (width n : Nat) : (digits width n).length = width := by
  induction width generalizing n with
  | zero => rfl
  | succ width ih => simp [digits, ih]

theorem digits_inj {width m n : Nat} (hm : m < 16 ^ width) (hn : n < 16 ^ width)
    (h : digits width m = digits width n) : m = n := by
  induction width generalizing m n with
  | zero => omega
  | succ width ih =>
    rw [Nat.pow_succ] at hm hn
    obtain ⟨hrest, hlast⟩ := List.append_inj' h rfl
    have hdiv : m / 16 = n / 16 := ih (by omega) (by omega) hrest
    have hmod : m % 16 = n % 16 := by
      have hvalue := congrArg value? (List.singleton_inj.1 hlast)
      rw [value?_digit _ (by omega), value?_digit _ (by omega)] at hvalue
      exact Option.some.inj hvalue
    omega

theorem ne_of_mem_digits {width n : Nat} {c d : Char} (h : c ∈ digits width n)
    (hd : value? d = none) : c ≠ d := by
  induction width generalizing n with
  | zero => cases h
  | succ width ih =>
    rcases List.mem_append.1 h with h | h
    · exact ih h
    · rintro rfl
      rw [List.mem_singleton.1 h, value?_digit _ (by omega)] at hd
      cases hd

/-! ## Bytes and words -/

@[simp]
theorem toList_byte (b : UInt8) : (byte b).toList = digits 2 b.toNat := String.toList_ofList

@[simp]
theorem toList_word (w : UInt16) : (word w).toList = digits 4 w.toNat := String.toList_ofList

theorem length_byte (b : UInt8) : (byte b).length = 2 := by
  rw [← String.length_toList, toList_byte, length_digits]

theorem length_word (w : UInt16) : (word w).length = 4 := by
  rw [← String.length_toList, toList_word, length_digits]

theorem byte_inj {a b : UInt8} (h : digits 2 a.toNat = digits 2 b.toNat) : a = b :=
  UInt8.toNat_inj.1 (digits_inj a.toNat_lt b.toNat_lt h)

theorem word_append_inj {a b : UInt16} {s t : List Char}
    (h : digits 4 a.toNat ++ s = digits 4 b.toNat ++ t) : a = b ∧ s = t := by
  have hlen : (digits 4 a.toNat).length = (digits 4 b.toNat).length := by
    rw [length_digits, length_digits]
  obtain ⟨hd, hs⟩ := List.append_inj h hlen
  exact ⟨UInt16.toNat_inj.1 (digits_inj a.toNat_lt b.toNat_lt hd), hs⟩

/-! ## Spelled bytes -/

/-- The byte of two digit values. -/
theorem toNat_ofNat_nibbles {hi lo : Nat} (hhi : hi < 16) (hlo : lo < 16) :
    (UInt8.ofNat (16 * hi + lo)).toNat = 16 * hi + lo := by
  rw [UInt8.toNat_ofNat']
  omega

/-- Two digits spell the byte of their values. -/
theorem Spells.of_value? {hi lo : Char} {m n : Nat} {text : List Char} {bytes : List UInt8}
    (hhi : value? hi = some m) (hlo : value? lo = some n) (h : Spells text bytes) :
    Spells (hi :: lo :: text) (UInt8.ofNat (16 * m + n) :: bytes) := by
  obtain ⟨hm, hhigh⟩ := isDigit_of_value? hhi
  obtain ⟨hn, hlow⟩ := isDigit_of_value? hlo
  have hbyte := toNat_ofNat_nibbles hm hn
  refine .cons ?_ ?_ h
  · rwa [hbyte, show (16 * m + n) / 16 = m by omega]
  · rwa [hbyte, show (16 * m + n) % 16 = n by omega]

theorem Spells.length_eq {text : List Char} {bytes : List UInt8} (h : Spells text bytes) :
    text.length = 2 * bytes.length := by
  induction h with
  | nil => rfl
  | cons hhi hlo _ ih =>
    rw [List.length_cons, List.length_cons, List.length_cons, ih]
    rfl

theorem Spells.exists_of_append {text : List Char} (bytes₁ : List UInt8) {bytes₂ : List UInt8}
    (h : Spells text (bytes₁ ++ bytes₂)) :
    ∃ text₁ text₂, text = text₁ ++ text₂ ∧ Spells text₁ bytes₁ ∧ Spells text₂ bytes₂ := by
  induction bytes₁ generalizing text with
  | nil => exact ⟨[], text, rfl, .nil, h⟩
  | cons byte bytes₁ ih =>
    obtain _ | ⟨hhi, hlo, hrest⟩ := h
    obtain ⟨text₁, text₂, rfl, h₁, h₂⟩ := ih hrest
    exact ⟨_, text₂, rfl, .cons hhi hlo h₁, h₂⟩

theorem Spells.set {text : List Char} {bytes : List UInt8} (h : Spells text bytes) {i n : Nat}
    {c d : Char} (hd : text[i]? = some d) (hc : value? c = some n) (hne : value? d ≠ some n) :
    ∃ before old new after, bytes = before ++ old :: after ∧ new ≠ old ∧
      Spells (text.set i c) (before ++ new :: after) := by
  have hn := (isDigit_of_value? hc).1
  induction h generalizing i with
  | nil => cases hd
  | @cons hi lo text byte bytes hhi hlo hrest ih =>
    have hlt := byte.toNat_lt
    have hhigh := value?_of_isDigit (show byte.toNat / 16 < 16 by omega) hhi
    have hlow := value?_of_isDigit (show byte.toNat % 16 < 16 by omega) hlo
    match i with
    | 0 =>
      obtain rfl : hi = d := Option.some.inj hd
      have hnew := toNat_ofNat_nibbles hn (show byte.toNat % 16 < 16 by omega)
      refine ⟨[], byte, UInt8.ofNat (16 * n + byte.toNat % 16), bytes, rfl, fun he => hne ?_,
        .of_value? hc hlow hrest⟩
      rw [hhigh, ← he, hnew]
      congr 1
      omega
    | 1 =>
      obtain rfl : lo = d := Option.some.inj hd
      have hnew := toNat_ofNat_nibbles (show byte.toNat / 16 < 16 by omega) hn
      refine ⟨[], byte, UInt8.ofNat (16 * (byte.toNat / 16) + n), bytes, rfl, fun he => hne ?_,
        .of_value? hhigh hc hrest⟩
      rw [hlow, ← he, hnew]
      congr 1
      omega
    | i + 2 =>
      obtain ⟨before, old, new, after, rfl, hdiff, hset⟩ := ih hd
      exact ⟨byte :: before, old, new, after, rfl, hdiff, .cons hhi hlo hset⟩

theorem Spells.zeros_prefix_iff {text : List Char} {byte : UInt8} {bytes : List UInt8}
    (h : Spells text (byte :: bytes)) : ['0', '0'] <+: text ↔ byte = 0 := by
  have hlt := byte.toNat_lt
  obtain _ | ⟨hhi, hlo, -⟩ := h
  rename_i hi lo text
  constructor
  · rintro ⟨rest, he⟩
    obtain ⟨rfl, hrest⟩ := List.cons.inj he
    obtain ⟨rfl, -⟩ := List.cons.inj hrest
    have h₁ := value?_of_isDigit (by omega) hhi
    have h₂ := value?_of_isDigit (by omega) hlo
    have hzero : value? '0' = some 0 := by decide
    rw [hzero, Option.some.injEq] at h₁ h₂
    apply UInt8.toNat_inj.1
    change byte.toNat = 0
    omega
  · rintro rfl
    have hdigit : ∀ d, IsDigit 0 d → d = '0' := fun d hd => hd.elim id id
    rw [hdigit hi hhi, hdigit lo hlo]
    exact List.prefix_append ['0', '0'] text

end GromListing.Hex
