import GromListing.Proofs.HexFile.Reading
import Mathlib.Data.List.Basic

/-!
# One wrong digit in a record

Another digit in the place of one makes one byte of a record another one, so its bytes no longer
add up to zero:

* `checksum_eq_iff`: a record has its proper checksum just when all its bytes add up to zero.
* `SumsToZero.eq_of_replace`: they do so with no other byte in the place of one of them.
* `ofLine_digit_changed`: so a reading notices a wrong digit, but for one case. A size that is
  misread as zero hides the data: they are dropped, and a record is left if they and the size add up
  to zero by themselves.
-/

set_option autoImplicit false

namespace GromListing

namespace HexFile

/-! ## Sums -/

theorem toNat_foldl_add (bytes : List UInt8) (first : UInt8) :
    (bytes.foldl (· + ·) first).toNat = (first.toNat + (bytes.map (·.toNat)).sum) % 256 := by
  induction bytes generalizing first with
  | nil => exact (Nat.mod_eq_of_lt first.toNat_lt).symm
  | cons byte rest ih =>
    rw [List.foldl_cons, ih, UInt8.toNat_add, List.map_cons, List.sum_cons]
    omega

theorem Record.checksum_eq_iff (r : Record) :
    r.checksum = r.properChecksum ↔ SumsToZero (r.body ++ [r.checksum]) := by
  have hlt := r.checksum.toNat_lt
  have hsize : UInt8.size = 256 := rfl
  rw [← UInt8.toNat_inj, properChecksum, UInt8.toNat_neg, toNat_foldl_add, hsize]
  simp only [SumsToZero, body, UInt8.toNat_add, List.map_append, List.map_cons, List.map_nil,
    List.sum_append, List.sum_cons, List.sum_nil]
  omega

theorem SumsToZero.eq_of_replace {before after : List UInt8} {old new : UInt8}
    (hold : SumsToZero (before ++ old :: after)) (hnew : SumsToZero (before ++ new :: after)) :
    new = old := by
  have h₁ := old.toNat_lt
  have h₂ := new.toNat_lt
  simp only [SumsToZero, List.map_append, List.map_cons, List.sum_append, List.sum_cons]
    at hold hnew
  apply UInt8.toNat_inj.1
  omega

/-! ## Bytes of a record -/

/-- Five bytes or more are those of a record, though perhaps of another size than it says. -/
theorem Record.exists_body_eq (size : UInt8) {rest : List UInt8} (h : 4 ≤ rest.length) :
    ∃ r : Record, size :: rest = r.body ++ [r.checksum] ∧ r.size = size ∧
      r.data.length + 4 = rest.length := by
  match rest, h with
  | hi :: lo :: kind :: byte :: rest, h =>
    obtain ⟨data, checksum, hdata⟩ : ∃ data checksum, byte :: rest = data ++ [checksum] :=
      (List.eq_nil_or_concat' (byte :: rest)).resolve_left (List.cons_ne_nil byte rest)
    refine ⟨⟨size, Word.ofBytes hi lo, kind, data, checksum⟩, ?_, rfl, ?_⟩
    · rw [body, Word.high_ofBytes, Word.low_ofBytes, List.append_assoc, ← hdata]
      rfl
    · have hlen := congrArg List.length hdata
      simp only [List.length_append, List.length_cons, List.length_nil] at hlen ⊢
      omega

namespace Reading

variable {r : Record}

theorem ofBytes_of_not_sumsToZero (h : r.size = 0 → r.data = [])
    (hsum : ¬SumsToZero (r.body ++ [r.checksum])) :
    ofBytes (r.body ++ [r.checksum]) = .malformed := by
  rw [ofBytes_body_eq, Record.kept_eq h, if_neg]
  exact fun hsound => hsum (r.checksum_eq_iff.1 hsound.checksum_eq)

/-- A wrong size: as the bytes no longer add up to zero, only a record that drops some can do so. -/
theorem ofBytes_size_changed (hsum : SumsToZero (r.body ++ [r.checksum])) {size : UInt8}
    (hne : size ≠ r.size) :
    let changed : Record := { r with size := size }
    ofBytes (changed.body ++ [changed.checksum]) =
      if size = 0 ∧ SumsToZero (r.size :: r.data) then .record { r with size := 0, data := [] }
      else .malformed := by
  intro changed
  by_cases hzero : size = 0
  · subst hzero
    have hkept : changed.kept = { r with size := 0, data := [] } := rfl
    have hsound : changed.kept.Sound ↔ SumsToZero (r.size :: r.data) := by
      have hrest : SumsToZero (changed.kept.body ++ [changed.kept.checksum]) ↔
          SumsToZero (r.size :: r.data) := by
        rw [hkept]
        simp only [SumsToZero, Record.body, List.map_append, List.map_cons, List.map_nil,
          List.sum_append, List.sum_cons, List.sum_nil, UInt8.toNat_zero] at hsum ⊢
        omega
      rw [← hrest, ← Record.checksum_eq_iff]
      exact ⟨fun h => h.checksum_eq, fun h => ⟨rfl, h⟩⟩
    simp only [ofBytes_body_eq, hsound, true_and]
    rfl
  · rw [if_neg fun h => hzero h.1]
    have hother : ¬SumsToZero (changed.body ++ [changed.checksum]) :=
      fun h => hne (@SumsToZero.eq_of_replace [] _ r.size size hsum h)
    exact ofBytes_of_not_sumsToZero (fun h => absurd h hzero) hother

/-- A wrong byte after the size: no byte is dropped that was not before, and so none is. -/
theorem ofBytes_rest_changed (hsize : r.data.length = r.size.toNat) {rest : List UInt8}
    (hlen : rest.length = r.data.length + 4) (hsum : ¬SumsToZero (r.size :: rest)) :
    ofBytes (r.size :: rest) = .malformed := by
  have hfour : 4 ≤ rest.length := by omega
  obtain ⟨changed, hbytes, hchanged, hdata⟩ := Record.exists_body_eq r.size hfour
  rw [hbytes] at hsum ⊢
  refine ofBytes_of_not_sumsToZero (fun h => List.length_eq_zero_iff.1 ?_) hsum
  have hzero : r.size.toNat = 0 := by rw [← hchanged, h, UInt8.toNat_zero]
  omega

/-! ## Lines -/

/-- **A wrong digit is noticed, unless it makes the size zero.** A record is written in a line, and
one of its digits is replaced by one of another value. What is read then is no record; but where the
size is made zero, and the true size and the data add up to zero, an empty record is. -/
theorem ofLine_digit_changed (r : Record) (line : String) (i : Nat) (old new : Char)
    (hsize : r.data.length = r.size.toNat) (hsum : SumsToZero (r.body ++ [r.checksum]))
    (hline : r.WrittenAs line) (hat : line.toList[i]? = some old)
    (hold : (Hex.value? old).isSome = true) (hnew : (Hex.value? new).isSome = true)
    (hne : Hex.value? new ≠ Hex.value? old) :
    let changed := String.ofList (line.toList.set i new)
    let hidden := r.size ≠ 0 ∧ [':', '0', '0'] <+: changed.toList ∧ SumsToZero (r.size :: r.data)
    (¬hidden → ofLine changed = .malformed) ∧
      (hidden → ofLine changed = .record { r with size := 0, data := [] }) := by
  intro changed hidden
  obtain ⟨text, htext, hs⟩ := hline
  obtain ⟨n, hn⟩ := Option.isSome_iff_exists.1 hnew
  rw [htext] at hat
  cases i with
  | zero =>
    -- the colon is no digit
    obtain rfl : ':' = old := Option.some.inj hat
    exact absurd hold (by decide)
  | succ i =>
    have hchanged : changed.toList = ':' :: text.set i new := by
      rw [String.toList_ofList, htext, List.set_cons_succ]
    obtain ⟨before, was, is, after, hbytes, hdiff, hset⟩ := hs.set hat hn (hn ▸ hne.symm)
    have hlen : (before ++ is :: after).length = r.data.length + 5 := by
      rw [← length_body_concat, hbytes, List.length_append, List.length_append]
      rfl
    rw [ofLine_of_holds (holds_of_spells hchanged hset (by omega))]
    cases before with
    | nil =>
      obtain ⟨rfl, rfl⟩ := List.cons.inj hbytes
      have hhidden : hidden ↔ is = 0 ∧ SumsToZero (r.size :: r.data) := by
        simp only [hidden, hchanged, List.cons_prefix_cons, hset.zeros_prefix_iff, true_and]
        exact ⟨And.right, fun h => ⟨fun hzero => hdiff (h.1.trans hzero.symm), h⟩⟩
      have hread := ofBytes_size_changed hsum hdiff
      exact ⟨fun h => hread.trans (if_neg (hhidden.not.1 h)),
        fun h => hread.trans (if_pos (hhidden.1 h))⟩
    | cons size before =>
      obtain ⟨rfl, -⟩ := List.cons.inj hbytes
      have hnot : ¬hidden := by
        simp only [hidden, hchanged, List.cons_prefix_cons, hset.zeros_prefix_iff, true_and]
        exact fun h => h.1 h.2.1
      have hread : ofBytes (r.size :: (before ++ is :: after)) = .malformed :=
        ofBytes_rest_changed hsize (by simpa using hlen) fun h =>
          hdiff ((hbytes ▸ hsum).eq_of_replace h)
      exact ⟨fun _ => hread, fun h => absurd h hnot⟩

/-- A wrong digit in a checksum, and one that makes a size zero. -/
theorem ofLine_digit_changed_checksum :
    (let r : Record := ⟨3, 0x6000, 0x00, [0x00, 0x04, 0x2A], 0x6F⟩
      let line := ":0360000000042A6F"
      r.data.length = r.size.toNat ∧ SumsToZero (r.body ++ [r.checksum]) ∧ r.WrittenAs line ∧
        line.toList[16]? = some 'F' ∧ ofLine line = .record r ∧
        ofLine (String.ofList (line.toList.set 16 'E')) = .malformed) ∧
    (let r : Record := ⟨1, 0x0000, 0x00, [0xFF], 0x00⟩
      let line := ":01000000FF00"
      r.data.length = r.size.toNat ∧ SumsToZero (r.body ++ [r.checksum]) ∧ r.WrittenAs line ∧
        line.toList[2]? = some '1' ∧ ofLine line = .record r ∧
        ofLine (String.ofList (line.toList.set 2 '0')) = .record ⟨0, 0x0000, 0x00, [], 0x00⟩) := by
  refine ⟨?_, ?_⟩
  · intro r line
    have hsum : SumsToZero (r.body ++ [r.checksum]) := by decide
    have hline : r.WrittenAs line := ⟨"0360000000042A6F".toList, by decide, by decide⟩
    have hread := ofLine_digit_changed r line 16 'F' 'E' rfl hsum hline (by decide) (by decide)
      (by decide) (by decide)
    exact ⟨rfl, hsum, hline, by decide, by decide, hread.1 (by decide)⟩
  · intro r line
    have hsum : SumsToZero (r.body ++ [r.checksum]) := by decide
    have hline : r.WrittenAs line := ⟨"01000000FF00".toList, by decide, by decide⟩
    have hread := ofLine_digit_changed r line 2 '1' '0' rfl hsum hline (by decide) (by decide)
      (by decide) (by decide)
    exact ⟨rfl, hsum, hline, by decide, by decide, hread.2 (by decide)⟩

/-- So a wrong digit is not always noticed. -/
theorem exists_digit_changed_record :
    ¬∀ (r : Record) (line : String) (i : Nat) (old new : Char),
      r.data.length = r.size.toNat → SumsToZero (r.body ++ [r.checksum]) → r.WrittenAs line →
      line.toList[i]? = some old → (Hex.value? old).isSome = true →
      (Hex.value? new).isSome = true → Hex.value? new ≠ Hex.value? old →
      ofLine (String.ofList (line.toList.set i new)) = .malformed := by
  intro h
  have hmalformed := h ⟨1, 0x0000, 0x00, [0xFF], 0x00⟩ ":01000000FF00" 2 '1' '0' rfl (by decide)
    ⟨"01000000FF00".toList, by decide, by decide⟩ (by decide) (by decide) (by decide) (by decide)
  exact absurd hmalformed (by decide)

end Reading

end HexFile

end GromListing
