import GromListing.Proofs.HexFile.Corruption
import GromListing.Proofs.HexFile.Search

/-!
# What a line is read as

* `holdsNoRecord_or_holds`: a line holds no record or the bytes of one, as a last colon with ten
  digits behind it is among its colons or is not (`exists_last_colon`), and all these digits but an
  odd one are those of bytes (`exists_spells`).
* `ofBytes_eq`: bytes are read as a record just if there are as many as their size says and all that
  are kept add up to zero.
* `Reading.ofLine_grammar`: so every line is read as the bytes that it holds are. They are those
  that the groups of `recordPattern` spell, where the pattern is found.
* `Reading.ofLine_eq_ofGroups`: in other words, a line is read as these groups are.
-/

set_option autoImplicit false

namespace GromListing

namespace HexFile

/-! ## The bytes of a line -/

theorem exists_last_colon (text : List Char) :
    (∀ before after, text = before ++ ':' :: after → digitsAt after < 10) ∨
      ∃ before after, text = before ++ ':' :: after ∧ 10 ≤ digitsAt after ∧
        ∀ between later, after = between ++ ':' :: later → digitsAt later < 10 := by
  induction text with
  | nil =>
    refine .inl fun before after h => absurd h.symm ?_
    exact List.append_ne_nil_of_right_ne_nil before (List.cons_ne_nil ':' after)
  | cons c rest ih =>
    -- the first colon counts only if none behind it does
    rcases ih with hnone | ⟨before, after, hrest, hten, hlast⟩
    · by_cases hc : c = ':' ∧ 10 ≤ digitsAt rest
      · exact .inr ⟨[], rest, hc.1 ▸ rfl, hc.2, hnone⟩
      · refine .inl fun before after h => ?_
        cases before with
        | nil =>
          obtain ⟨rfl, rfl⟩ := List.cons.inj h
          exact Nat.lt_of_not_le fun hten => hc ⟨rfl, hten⟩
        | cons d before => exact hnone before after (List.cons.inj h).2
    · exact .inr ⟨c :: before, after, hrest ▸ rfl, hten, hlast⟩

/-- The digits at the head of a text are those of bytes, all but an odd one. -/
theorem exists_spells : (text : List Char) → ∃ digits rest bytes,
    text = digits ++ rest ∧ Hex.Spells digits bytes ∧ digitsAt rest ≤ 1
  | [] => ⟨[], [], [], rfl, .nil, Nat.zero_le 1⟩
  | [c] => by
    refine ⟨[], [c], [], rfl, .nil, ?_⟩
    exact (List.takeWhile_sublist _).length_le
  | hi :: lo :: text => by
    obtain ⟨digits, rest, bytes, htext, hs, hodd⟩ := exists_spells text
    cases hhi : Hex.value? hi with
    | none =>
      refine ⟨[], hi :: lo :: text, [], rfl, .nil, ?_⟩
      rw [digitsAt_cons, hhi]
      exact Nat.zero_le 1
    | some high =>
      cases hlo : Hex.value? lo with
      | none =>
        refine ⟨[], hi :: lo :: text, [], rfl, .nil, ?_⟩
        rw [digitsAt_cons, digitsAt_cons, hhi, hlo]
        exact Nat.le_refl 1
      | some low =>
        exact ⟨hi :: lo :: digits, rest, _, htext ▸ rfl, .of_value? hhi hlo hs, hodd⟩

theorem holdsNoRecord_or_holds (line : String) : HoldsNoRecord line ∨
    ∃ size hi lo kind stored checksum,
      Holds line (size :: hi :: lo :: kind :: (stored ++ [checksum])) := by
  rcases exists_last_colon (line.toList.takeWhile (· != '\n')) with
    hnone | ⟨before, after, hline, hten, hlast⟩
  · exact .inl hnone
  · obtain ⟨digits, rest, bytes, rfl, hs, hodd⟩ := exists_spells after
    have hlen : 5 ≤ bytes.length := by
      rw [digitsAt_append_of_spells hs] at hten
      omega
    have hholds : Holds line bytes := ⟨hline, hs, hodd, hten, hlast⟩
    match bytes, hlen with
    | size :: bytes, hlen =>
      obtain ⟨r, hr, -, -⟩ := Record.exists_body_eq size (Nat.le_of_succ_le_succ hlen)
      exact .inr ⟨_, _, _, _, _, _, hr ▸ hholds⟩

namespace Reading

theorem ofBytes_eq (size hi lo kind checksum : UInt8) (stored : List UInt8) :
    let data := if size = 0 then [] else stored
    ofBytes (size :: hi :: lo :: kind :: (stored ++ [checksum])) =
      if (size = 0 ∨ stored.length = size.toNat) ∧
          SumsToZero (size :: hi :: lo :: kind :: (data ++ [checksum])) then
        .record ⟨size, Word.ofBytes hi lo, kind, data, checksum⟩
      else .malformed := by
  intro data
  let r : Record := ⟨size, Word.ofBytes hi lo, kind, stored, checksum⟩
  have hbytes (data : List UInt8) : Record.body { r with data := data } ++ [checksum] =
      size :: hi :: lo :: kind :: (data ++ [checksum]) := by
    simp only [r, Record.body, Word.high_ofBytes, Word.low_ofBytes, List.cons_append,
      List.nil_append]
  have hsize : data.length = size.toNat ↔ size = 0 ∨ stored.length = size.toNat := by
    by_cases hzero : size = 0
    · simp [data, hzero]
    · simp [data, hzero]
  have hsound : r.kept.Sound ↔ (size = 0 ∨ stored.length = size.toNat) ∧
      SumsToZero (size :: hi :: lo :: kind :: (data ++ [checksum])) := by
    rw [← hsize, ← hbytes data]
    exact ⟨fun h => ⟨h.length_data, r.kept.checksum_eq_iff.1 h.checksum_eq⟩,
      fun h => ⟨h.1, r.kept.checksum_eq_iff.2 h.2⟩⟩
  have hread := ofBytes_body_eq r
  simp only [hsound] at hread
  rw [← hbytes stored]
  exact hread

theorem map_bytesOf_digitRun {groups : List (List Char)} {fields : List (List UInt8)}
    (h : List.Forall₂ Hex.Spells groups fields) :
    groups.map (fun group => bytesOf (digitRun group)) = fields := by
  induction h with
  | nil => rfl
  | @cons group field _ _ hs _ ih =>
    have hgroup : bytesOf (digitRun (group ++ [])) = field := bytesOf_digitRun hs (Nat.zero_le 1)
    rw [List.append_nil] at hgroup
    rw [List.map_cons, hgroup, ih]

/-- **The groups of the pattern are all that is read of a line.** If the pattern is not found, the
line is blank. -/
theorem ofLine_eq_ofGroups (line : String) :
    ofLine line = (recordPattern.first? line.toList).elim .blank (ofGroups ·.groups) := by
  rcases holdsNoRecord_or_holds line with hnone | ⟨size, hi, lo, kind, stored, checksum, h⟩
  · rw [ofLine_of_holdsNoRecord hnone, first?_recordPattern_eq_none hnone]
    rfl
  · obtain ⟨m, hm, hgroups⟩ := exists_first?_recordPattern h
    rw [ofLine_of_holds h, hm]
    simp [ofGroups, map_bytesOf_digitRun hgroups, ofBytes]

/-- **A line is read as its bytes are.** If no colon in the first line of a text has ten digits
behind it, the text is blank. Otherwise the bytes are those behind the last colon that has, and they
are a record just if the size is right and the bytes of the record add up to zero. -/
theorem ofLine_grammar (line : String) :
    (HoldsNoRecord line → recordPattern.first? line.toList = none ∧ ofLine line = .blank) ∧
      (HoldsNoRecord line ∨ ∃ size hi lo kind stored checksum,
        Holds line (size :: hi :: lo :: kind :: (stored ++ [checksum]))) ∧
      ∀ size hi lo kind stored checksum,
        Holds line (size :: hi :: lo :: kind :: (stored ++ [checksum])) →
        let data := if size = 0 then [] else stored
        (∃ m, recordPattern.first? line.toList = some m ∧
          List.Forall₂ Hex.Spells m.groups [[size], [hi, lo], [kind], stored, [checksum]]) ∧
        ofLine line =
          if (size = 0 ∨ stored.length = size.toNat) ∧
              SumsToZero (size :: hi :: lo :: kind :: (data ++ [checksum])) then
            .record ⟨size, Word.ofBytes hi lo, kind, data, checksum⟩
          else .malformed := by
  refine ⟨fun h => ⟨first?_recordPattern_eq_none h, ofLine_of_holdsNoRecord h⟩,
    holdsNoRecord_or_holds line, fun size hi lo kind stored checksum h => ?_⟩
  intro data
  refine ⟨exists_first?_recordPattern h, ?_⟩
  rw [ofLine_of_holds h, ofBytes_eq]

/-- A record behind another, with an odd digit and another line behind it, and no record at all. -/
theorem ofLine_grammar_last :
    (Holds ":0100000000FF no :0360000000042a6F7\n:00000001FF"
        (0x03 :: 0x60 :: 0x00 :: 0x00 :: ([0x00, 0x04, 0x2A] ++ [0x6F])) ∧
      ofLine ":0100000000FF no :0360000000042a6F7\n:00000001FF" =
        .record ⟨3, 0x6000, 0x00, [0x00, 0x04, 0x2A], 0x6F⟩) ∧
    HoldsNoRecord "0000000000\n:00000001FF" ∧ ofLine "0000000000\n:00000001FF" = .blank := by
  have hs : Hex.Spells "0360000000042a6F".toList
      (0x03 :: 0x60 :: 0x00 :: 0x00 :: ([0x00, 0x04, 0x2A] ++ [0x6F])) := by decide
  have hcolon (before after : List Char) : ':' ∈ before ++ ':' :: after :=
    List.mem_append_right before List.mem_cons_self
  have hholds : Holds ":0100000000FF no :0360000000042a6F7\n:00000001FF"
      (0x03 :: 0x60 :: 0x00 :: 0x00 :: ([0x00, 0x04, 0x2A] ++ [0x6F])) := by
    refine @Holds.mk _ _ ":0100000000FF no ".toList _ ['7'] rfl hs (by decide) (by decide) ?_
    exact fun between after h => absurd (h ▸ hcolon between after) (by decide)
  have hnone : HoldsNoRecord "0000000000\n:00000001FF" := fun before after h =>
    absurd (h ▸ hcolon before after) (by decide)
  have hread := ((ofLine_grammar _).2.2 _ _ _ _ _ _ hholds).2
  exact ⟨⟨hholds, hread.trans (if_pos (by decide))⟩, hnone, ((ofLine_grammar _).1 hnone).2⟩

end Reading

end HexFile

end GromListing
