import GromListing.Proofs.HexFile.Reading
import GromListing.Proofs.Text.Pattern

/-!
# What a search for a record finds

* `first?_eq_none_of_digitsAt_lt`, `exists_first?_bodyPattern`: the digits of a record are found where
  there are ten, and its groups are their bytes; the checksum is the last pair of them.
* `first?_recordPattern_eq_none`, `exists_first?_recordPattern`: so a record is found in a line that
  holds one, behind the last colon that ten digits follow.
-/

set_option autoImplicit false

namespace GromListing

namespace HexFile

open Text (Pattern)
open Text.Pattern

variable {text line digits rest : List Char} {bytes : List UInt8} {m : Match}

/-! ## The first line -/

/-- The end of a line ends its digits. -/
theorem digitsAt_firstLine (text : List Char) :
    digitsAt (text.takeWhile (· != '\n')) = digitsAt text := by
  induction text with
  | nil => rfl
  | cons c rest ih =>
    rw [List.takeWhile_cons]
    by_cases hc : c = '\n'
    · subst hc
      rfl
    · rw [if_pos (bne_iff_ne.2 hc), digitsAt_cons, digitsAt_cons, ih]

theorem exists_append_of_firstLine (before : List Char)
    (h : text.takeWhile (· != '\n') = before ++ rest) :
    ∃ behind, text = before ++ behind ∧ behind.takeWhile (· != '\n') = rest ∧
      ∀ c ∈ before, (c != '\n') = true := by
  induction before generalizing text with
  | nil => exact ⟨text, rfl, h, List.forall_mem_nil _⟩
  | cons c before ih =>
    cases text with
    | nil => cases h
    | cons d text =>
      rw [List.takeWhile_cons] at h
      split at h
      · rename_i hd
        obtain ⟨rfl, hline⟩ := List.cons.inj h
        obtain ⟨behind, rfl, hrest, hbefore⟩ := ih hline
        exact ⟨behind, rfl, hrest, List.forall_mem_cons.2 ⟨hd, hbefore⟩⟩
      · cases h

/-! ## The digits of a record -/

theorem le_digitsAt_of_takenFrom {size : Nat}
    (h : m.TakenFrom text (fun c => (Hex.value? c).isSome) size) : size ≤ digitsAt text := by
  rw [h.text_eq, digitsAt_append h.class_of_mem]
  exact Nat.le_trans h.size_le (Nat.le_add_right _ _)

theorem first?_eq_none_of_digitsAt_lt {p : Pattern} {size : Nat}
    (hp : p.Takes (fun c => (Hex.value? c).isSome) size) (h : digitsAt text < size) :
    p.first? text = none := by
  refine List.head?_eq_none_iff.2 (List.eq_nil_iff_forall_not_mem.2 fun m hm => ?_)
  exact absurd (le_digitsAt_of_takenFrom (hp text m hm)) (Nat.not_le_of_lt h)

theorem takes_bytePattern : bytePattern.Takes (fun c => (Hex.value? c).isSome) 2 :=
  .seq (.one _) (.one _)

theorem takes_bodyPattern : bodyPattern.Takes (fun c => (Hex.value? c).isSome) 10 :=
  .seq (.group takes_bytePattern) (.seq (.group (.seq takes_bytePattern takes_bytePattern))
    (.seq (.group takes_bytePattern)
      (.seq (.group (.many takes_bytePattern)) (.group takes_bytePattern))))

/-! ### Bytes that are there -/

theorem ways_bytePattern {b : UInt8} (h : Hex.Spells digits [b]) (rest : List Char) :
    bytePattern.ways (digits ++ rest) = [⟨[], digits, rest⟩] := by
  have hlt := b.toNat_lt
  obtain _ | ⟨hhi, hlo, hnil⟩ := h
  obtain _ | _ := hnil
  simp [bytePattern, digitPattern, ways, Match.followedBy, Hex.value?_of_isDigit _ hhi,
    Hex.value?_of_isDigit _ hlo, show b.toNat / 16 < 16 by omega, Nat.mod_lt]

theorem ways_wordPattern {hi lo : UInt8} (h : Hex.Spells digits [hi, lo]) (rest : List Char) :
    (seq bytePattern bytePattern).ways (digits ++ rest) = [⟨[], digits, rest⟩] := by
  obtain ⟨high, low, rfl, hhigh, hlow⟩ := Hex.Spells.exists_of_append [hi] h
  rw [List.append_assoc, ways_seq_of_ways (ways_bytePattern hhigh _), ways_bytePattern hlow]
  rfl

theorem ways_group {p : Pattern} (h : p.ways text = [⟨[], digits, rest⟩]) :
    (group p).ways text = [⟨[digits], digits, rest⟩] := by
  rw [ways, h]
  rfl

theorem forced_of_spells (h : Hex.Spells digits bytes) : Forced bytePattern.ways digits := by
  induction h with
  | nil => exact .nil
  | @cons hi lo text byte bytes hhi hlo _ ih =>
    exact .cons [hi, lo] (ways_bytePattern (.cons hhi hlo .nil))
      (List.cons_ne_nil hi [lo]) ih

/-- The data take all pairs of digits but the last, which is left to the checksum. -/
theorem first?_tailPattern {data sum : List Char} {stored : List UInt8} {checksum : UInt8}
    (hdata : Hex.Spells data stored) (hsum : Hex.Spells sum [checksum]) (hodd : digitsAt rest ≤ 1) :
    tailPattern.first? (data ++ (sum ++ rest)) = some ⟨[data, sum], data ++ sum, rest⟩ := by
  have hlt : rest.length < (sum ++ rest).length := by
    obtain _ | ⟨-, -, -⟩ := hsum
    simp only [List.length_append, List.length_cons]
    omega
  have hend : bytePattern.ways rest = [] :=
    List.head?_eq_none_iff.1 (first?_eq_none_of_digitsAt_lt takes_bytePattern (by omega))
  have hnone : (group bytePattern).first? rest = none := by
    rw [first?_group, first?, hend]
    rfl
  rw [tailPattern, first?_seq, ways, ways, List.findSome?_map]
  refine (forced_of_spells hdata).findSome?_rounds ?_
  rw [findSome?_rounds (ways_bytePattern hsum rest) hlt, rounds_of_ways_nil hend]
  -- with all pairs in the data there is none for the checksum
  simp only [List.findSome?_singleton, Function.comp_apply, Match.followedBy, Match.nothing,
    Match.kept, hnone, Option.map_none, Option.none_or]
  rw [first?, ways_group (ways_bytePattern hsum rest)]
  simp [Match.followedBy]

theorem exists_first?_bodyPattern {size hi lo kind checksum : UInt8} {stored : List UInt8}
    (h : Hex.Spells digits (size :: hi :: lo :: kind :: (stored ++ [checksum])))
    (hodd : digitsAt rest ≤ 1) : ∃ m, bodyPattern.first? (digits ++ rest) = some m ∧
      List.Forall₂ Hex.Spells m.groups [[size], [hi, lo], [kind], stored, [checksum]] := by
  obtain ⟨size, digits, rfl, hsize, h⟩ := h.exists_of_append [size]
  obtain ⟨address, digits, rfl, haddress, h⟩ := h.exists_of_append [hi, lo]
  obtain ⟨kind, digits, rfl, hkind, h⟩ := h.exists_of_append [kind]
  obtain ⟨data, sum, rfl, hdata, hsum⟩ := h.exists_of_append stored
  simp only [List.append_assoc]
  rw [bodyPattern, first?_seq_of_ways (ways_group (ways_bytePattern hsize _)),
    first?_seq_of_ways (ways_group (ways_wordPattern haddress _)),
    first?_seq_of_ways (ways_group (ways_bytePattern hkind _)),
    first?_tailPattern hdata hsum hodd]
  exact ⟨_, rfl, .cons hsize (.cons haddress (.cons hkind (.cons hdata (.cons hsum .nil))))⟩

/-! ## The colon of a record -/

theorem first?_colon_cons (text : List Char) :
    (seq (one (· == ':')) bodyPattern).first? (':' :: text) =
      (bodyPattern.first? text).map (Match.followedBy ⟨[], [':'], text⟩) := first?_seq_of_ways rfl

theorem first?_colon_eq_none (h : ∀ after, text = ':' :: after → digitsAt after < 10) :
    (seq (one (· == ':')) bodyPattern).first? text = none := by
  cases text with
  | nil => rfl
  | cons c after =>
    by_cases hc : c = ':'
    · subst hc
      rw [first?_colon_cons, first?_eq_none_of_digitsAt_lt takes_bodyPattern (h after rfl)]
      rfl
    · rw [first?_seq, ways, if_neg fun he => hc (eq_of_beq he)]
      rfl

/-- Behind no part of the first line is there a record, if no colon in it has ten digits behind it. -/
theorem first?_colon_eq_none_of_mem
    (h : ∀ before after, text.takeWhile (· != '\n') = before ++ ':' :: after →
      digitsAt after < 10) :
    ∀ m ∈ (many dotPattern).ways text,
      (seq (one (· == ':')) bodyPattern).first? m.rest = none := by
  intro m hm
  have htaken := (Takes.one (· != '\n')).many text m hm
  refine first?_colon_eq_none fun after hafter => ?_
  rw [← digitsAt_firstLine]
  refine h m.taken _ ?_
  rw [htaken.text_eq, List.takeWhile_append_of_pos htaken.class_of_mem, hafter]
  rfl

theorem forced_of_line (h : ∀ c ∈ line, (c != '\n') = true) : Forced dotPattern.ways line := by
  induction line with
  | nil => exact .nil
  | cons c line ih =>
    rw [List.forall_mem_cons] at h
    refine .cons [c] (fun rest => ?_) (List.cons_ne_nil c []) (ih h.2)
    exact if_pos h.1

/-! ## Records in a line -/

theorem first?_recordPattern_eq_none {line : String} (h : HoldsNoRecord line) :
    recordPattern.first? line.toList = none := by
  rw [recordPattern, first?_seq, List.findSome?_eq_none_iff]
  intro m hm
  rw [first?_colon_eq_none_of_mem h m hm]
  rfl

/-- The dots give back no more than up to the last colon behind which the digits of a record are. -/
theorem first?_recordPattern {before : List Char} (hbefore : ∀ c ∈ before, (c != '\n') = true)
    (hm : bodyPattern.first? text = some m)
    (hlast : ∀ between after, text.takeWhile (· != '\n') = between ++ ':' :: after →
      digitsAt after < 10) : recordPattern.first? (before ++ ':' :: text) =
      some ⟨m.groups, before ++ ':' :: m.taken, m.rest⟩ := by
  have hdot : dotPattern.ways (':' :: text) = [⟨[], [':'], text⟩] := rfl
  rw [recordPattern, first?_seq, ways]
  refine (forced_of_line hbefore).findSome?_rounds ?_
  rw [findSome?_rounds hdot (Nat.lt_succ_self _), List.findSome?_eq_none_iff.2, Option.none_or]
  · simp only [Match.nothing, Match.followedBy, List.append_nil]
    rw [first?_colon_cons, hm]
    rfl
  · intro n hn
    simp only [Match.followedBy]
    rw [first?_colon_eq_none_of_mem hlast n hn]
    rfl

theorem exists_first?_recordPattern {line : String} {size hi lo kind checksum : UInt8}
    {stored : List UInt8}
    (h : Holds line (size :: hi :: lo :: kind :: (stored ++ [checksum]))) :
    ∃ m, recordPattern.first? line.toList = some m ∧
      List.Forall₂ Hex.Spells m.groups [[size], [hi, lo], [kind], stored, [checksum]] := by
  obtain @⟨before, digits, rest, hline, hs, hodd, -, hlast⟩ := h
  obtain ⟨behind, htext, hbehind, hbefore⟩ := exists_append_of_firstLine before hline
  obtain ⟨text, rfl, hfirst, -⟩ := exists_append_of_firstLine [':'] hbehind
  obtain ⟨after, rfl, hafter, -⟩ := exists_append_of_firstLine digits hfirst
  rw [← hafter, digitsAt_firstLine] at hodd
  obtain ⟨m, hm, hgroups⟩ := exists_first?_bodyPattern hs hodd
  rw [htext]
  have hfind := first?_recordPattern hbefore hm fun between after h =>
    hlast between after (hfirst.symm.trans h)
  exact ⟨_, hfind, hgroups⟩

end HexFile

end GromListing
