import GromListing.Text.Pattern
import Mathlib.Data.List.Basic

/-!
# What a search for a pattern finds

* `first?_seq`, `first?_seq_of_ways`: two patterns, one behind the other, by the ways of the first
  and what is found of the second.
* `findSome?_rounds`, `Forced.findSome?_rounds`: rounds that can be made in one way only go on as far
  as what follows them matches at all.
* `Takes`: each match takes characters of a class, and no fewer than so many of them
  (`Match.TakenFrom`); a pattern does so if its parts do.
-/

set_option autoImplicit false

namespace GromListing.Text.Pattern

variable {p q : Pattern} {text : List Char} {m : Match} {β : Type}

/-! ## Parts of a pattern -/

theorem first?_group (p : Pattern) (text : List Char) :
    (group p).first? text = (p.first? text).map Match.kept := List.head?_map ..

theorem first?_seq (p q : Pattern) (text : List Char) : (seq p q).first? text =
    (p.ways text).findSome? fun m => (q.first? m.rest).map m.followedBy := by
  simp only [first?, ways, List.head?_flatMap, List.head?_map]

theorem ways_seq_of_ways (h : p.ways text = [m]) :
    (seq p q).ways text = (q.ways m.rest).map m.followedBy := by
  rw [ways, h, List.flatMap_singleton]

theorem first?_seq_of_ways (h : p.ways text = [m]) :
    (seq p q).first? text = (q.first? m.rest).map m.followedBy := by
  rw [first?_seq, h, List.findSome?_singleton]

/-! ## Rounds -/

variable {ways : List Char → List Match}

theorem rounds_of_ways_nil (h : ways text = []) : rounds ways text = [.nothing text] := by
  rw [rounds, h]
  rfl

theorem findSome?_rounds (h : ways text = [m]) (hlt : m.rest.length < text.length)
    (k : Match → Option β) : (rounds ways text).findSome? k =
      ((rounds ways m.rest).findSome? fun n => k (m.followedBy n)).or (k (.nothing text)) := by
  rw [rounds, h, List.flatMap_singleton, dif_pos hlt, List.findSome?_append, List.findSome?_map,
    List.findSome?_singleton]
  rfl

/-- The text is one of rounds each of which can be made in one way only, whatever follows. -/
inductive Forced (ways : List Char → List Match) : List Char → Prop
  | nil : Forced ways []
  | cons (round : List Char) {text : List Char}
    (hround : ∀ rest, ways (round ++ rest) = [⟨[], round, rest⟩]) (hne : round ≠ [])
    (h : Forced ways text) : Forced ways (round ++ text)

/-- If what follows matches behind some text, it is not tried before the rounds have gone through
that text. -/
theorem Forced.findSome?_rounds {before : List Char} (hforced : Forced ways before)
    {k : Match → Option β} {b : β}
    (h : ((rounds ways text).findSome? fun m => k (Match.followedBy ⟨[], before, text⟩ m)) =
      some b) : (rounds ways (before ++ text)).findSome? k = some b := by
  induction hforced generalizing k with
  | nil => exact h
  | @cons round before hround hne _ ih =>
    have hlt : (before ++ text).length < (round ++ (before ++ text)).length := by
      have hpos := List.length_pos_iff.2 hne
      simp only [List.length_append]
      omega
    have hgo := ih (k := fun m => k (Match.followedBy ⟨[], round, before ++ text⟩ m))
    simp only [Match.followedBy, List.nil_append, List.append_assoc] at h hgo
    rw [List.append_assoc, Pattern.findSome?_rounds (hround _) hlt]
    simp only [Match.followedBy, List.nil_append]
    rw [hgo h, Option.some_or]

/-! ## What a match takes -/

variable {among : Char → Bool} {size size' : Nat}

/-- The match takes the beginning of the text, all of it of a class and at least so much. -/
structure Match.TakenFrom (m : Match) (text : List Char) (among : Char → Bool) (size : Nat) :
    Prop where
  text_eq : text = m.taken ++ m.rest
  class_of_mem : ∀ c ∈ m.taken, among c = true
  size_le : size ≤ m.taken.length

theorem Match.TakenFrom.followedBy {n : Match} (hm : m.TakenFrom text among size)
    (hn : n.TakenFrom m.rest among size') :
    (m.followedBy n).TakenFrom text among (size + size') where
  text_eq := by
    rw [hm.text_eq, hn.text_eq]
    exact (List.append_assoc ..).symm
  class_of_mem c hc := (List.mem_append.1 hc).elim (hm.class_of_mem c) (hn.class_of_mem c)
  size_le := by
    have h₁ := hm.size_le
    have h₂ := hn.size_le
    simp only [Match.followedBy, List.length_append]
    omega

def Takes (p : Pattern) (among : Char → Bool) (size : Nat) : Prop :=
  ∀ text, ∀ m ∈ p.ways text, m.TakenFrom text among size

namespace Takes

theorem one (among : Char → Bool) : (one among).Takes among 1 := by
  intro text m hm
  cases text with
  | nil => cases hm
  | cons c rest =>
    rw [Pattern.ways] at hm
    split at hm
    · rename_i hc
      obtain rfl := List.mem_singleton.1 hm
      exact ⟨rfl, fun d hd => List.mem_singleton.1 hd ▸ hc, Nat.le_refl 1⟩
    · cases hm

theorem seq (hp : p.Takes among size) (hq : q.Takes among size') :
    (seq p q).Takes among (size + size') := by
  intro text o ho
  obtain ⟨m, hm, ho⟩ := List.mem_flatMap.1 ho
  obtain ⟨n, hn, rfl⟩ := List.mem_map.1 ho
  exact (hp text m hm).followedBy (hq m.rest n hn)

theorem group (hp : p.Takes among size) : (group p).Takes among size := by
  intro text o ho
  obtain ⟨m, hm, rfl⟩ := List.mem_map.1 ho
  exact ⟨(hp text m hm).text_eq, (hp text m hm).class_of_mem, (hp text m hm).size_le⟩

theorem many (hp : p.Takes among size) : (many p).Takes among 0 := by
  intro text
  -- by the recursion of `rounds`: what a round leaves is shorter
  induction hlen : text.length using Nat.strongRecOn generalizing text with
  | ind length ih =>
    subst hlen
    intro o ho
    rw [Pattern.ways, rounds] at ho
    rcases List.mem_append.1 ho with ho | ho
    · obtain ⟨m, hm, ho⟩ := List.mem_flatMap.1 ho
      split at ho
      · rename_i hlt
        obtain ⟨n, hn, rfl⟩ := List.mem_map.1 ho
        have htaken := (hp text m hm).followedBy (ih m.rest.length hlt m.rest rfl n hn)
        exact ⟨htaken.text_eq, htaken.class_of_mem, Nat.zero_le _⟩
      · cases ho
    · obtain rfl := List.mem_singleton.1 ho
      exact ⟨rfl, List.forall_mem_nil _, Nat.zero_le _⟩

end Takes

end GromListing.Text.Pattern
