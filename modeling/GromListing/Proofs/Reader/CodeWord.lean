import GromListing.Proofs.Reader.PrefixCode

/-!
# Code words taken apart

A reader that decides has found what it found in a code word (`Decides.reads_of_ok`), and has failed
for want of the rest of one (`Decides.error_iff`). So the code words of a reader are known from those
of its parts: `reads_byte_iff` for one byte, `reads_bind_iff` for one reader and then another,
`reads_mapM_cons_iff` for a list of them.
-/

set_option autoImplicit false

namespace GromListing.Reader

variable {α β : Type} {base : UInt16} {code : List UInt8} {m n : Nat}

theorem Decides.reads_of_ok {r : Reader α} (hr : Decides r n) {a : α} {c : Cursor}
    {taken bytes : List UInt8} (h : r ⟨base, taken, bytes⟩ = .ok a c) :
    ∃ code tail, bytes = code ++ tail ∧ c = ⟨base, taken ++ code, tail⟩ ∧ Reads r base code a := by
  rcases hr base bytes with ⟨code, a', tail, rfl, -, hread⟩ | ⟨-, hshort⟩
  · rw [hread.whole] at h
    cases h
    exact ⟨code, tail, rfl, rfl, hread⟩
  · rw [hshort] at h
    cases h

theorem Reads.error_of_beginning {r : Reader α} {a : α} {bytes : List UInt8}
    (h : Reads r base code a) (hpre : bytes <+: code) (hne : bytes ≠ code)
    (taken : List UInt8) : r ⟨base, taken, bytes⟩ = Cursor.short ⟨base, taken, bytes⟩ := by
  have hlt : bytes.length < code.length :=
    Nat.lt_of_le_of_ne hpre.length_le fun he => hne (hpre.eq_of_length he)
  have hpart := h.part taken bytes.length hlt
  rwa [← List.prefix_iff_eq_take.1 hpre] at hpart

theorem Decides.length_le {r : Reader α} {a : α} (hr : Decides r n) (h : Reads r base code a) :
    code.length ≤ n := by
  have hwhole := h.whole [] []
  rw [List.append_nil] at hwhole
  rcases hr base code with ⟨code', a', tail, rfl, hle, hread⟩ | ⟨hlt, -⟩
  · -- both take their code word from the same bytes, so nothing is left behind the shorter one
    rw [hread.whole] at hwhole
    injection hwhole with _ hcursor
    obtain rfl : tail = [] := congrArg Cursor.rest hcursor
    rwa [List.append_nil]
  · exact Nat.le_of_lt hlt

/-- A reader that decides fails on the proper beginnings of its code words and on nothing else. -/
theorem Decides.error_iff {r : Reader α} (hr : Decides r n) {taken bytes : List UInt8} :
    (∃ t c, r ⟨base, taken, bytes⟩ = .error t c) ↔
      ∃ code a, Reads r base code a ∧ bytes <+: code ∧ bytes ≠ code := by
  constructor
  · rintro ⟨t, c, herror⟩
    have hnot {code tail : List UInt8} {a : α} (hread : Reads r base code a) :
        bytes ≠ code ++ tail := by
      rintro rfl
      rw [hread.whole] at herror
      cases herror
    -- with `n` more bytes there is a code word, which has to reach past those that failed
    rcases hr base (bytes ++ List.replicate n 0) with ⟨code, a, tail, hsplit, -, hread⟩ | ⟨hlt, -⟩
    · have hcode : code <+: bytes ++ List.replicate n 0 := hsplit ▸ List.prefix_append code tail
      rcases List.prefix_or_prefix_of_prefix hcode (List.prefix_append bytes _) with
        ⟨rest, hrest⟩ | hpre
      · exact absurd hrest.symm (hnot hread)
      · exact ⟨code, a, hread, hpre, fun he => hnot hread (he.trans (List.append_nil code).symm)⟩
    · rw [List.length_append, List.length_replicate] at hlt
      omega
  · rintro ⟨code, a, hread, hpre, hne⟩
    exact ⟨_, _, hread.error_of_beginning hpre hne taken⟩

/-! ## Single readers -/

theorem reads_pure_iff {a b : α} : Reads (pure a) base code b ↔ code = [] ∧ b = a := by
  constructor
  · intro h
    have hwhole := h.whole [] []
    rw [pure_apply] at hwhole
    cases hwhole
    exact ⟨rfl, rfl⟩
  · rintro ⟨rfl, rfl⟩
    exact .pure base b

theorem reads_byte_iff {b : UInt8} : Reads byte base code b ↔ code = [b] := by
  constructor
  · intro h
    have hwhole := h.whole [] []
    cases code with
    | nil => cases hwhole
    | cons first rest =>
      rw [List.append_nil, byte_cons] at hwhole
      cases hwhole
      rfl
  · rintro rfl
    exact .byte base b

theorem reads_base_iff {b : UInt16} : Reads Reader.base base code b ↔ code = [] ∧ b = base := by
  constructor
  · intro h
    have hwhole := h.whole [] []
    cases hwhole
    exact ⟨rfl, rfl⟩
  · rintro ⟨rfl, rfl⟩
    exact .base b

/-! ## Readers one after the other -/

theorem reads_bind_iff {x : Reader α} {f : α → Reader β} (hx : Decides x m)
    (hf : ∀ a, Decides (f a) n) {b : β} :
    Reads (x >>= f) base code b ↔
      ∃ code₁ code₂ a, code = code₁ ++ code₂ ∧ Reads x base code₁ a ∧
        Reads (f a) base code₂ b := by
  constructor
  · intro h
    have hwhole := h.whole [] []
    rw [List.append_nil, List.nil_append, bind_apply] at hwhole
    cases hc : x ⟨base, [], code⟩ with
    | error t c =>
      rw [hc] at hwhole
      cases hwhole
    | ok a c =>
      rw [hc] at hwhole
      obtain ⟨code₁, rest, rfl, rfl, hread₁⟩ := hx.reads_of_ok hc
      obtain ⟨code₂, tail, rfl, hend, hread₂⟩ := (hf a).reads_of_ok hwhole
      -- all was taken, so the second code word is all that the first one left
      obtain rfl : [] = tail := congrArg Cursor.rest hend
      rw [List.append_nil] at *
      exact ⟨code₁, code₂, a, rfl, hread₁, hread₂⟩
  · rintro ⟨code₁, code₂, a, rfl, hread₁, hread₂⟩
    exact hread₁.bind hread₂

theorem reads_map_iff {x : Reader α} {f : α → β} (hx : Decides x m) {b : β} :
    Reads (f <$> x) base code b ↔ ∃ a, Reads x base code a ∧ b = f a := by
  rw [← bind_pure_comp, reads_bind_iff hx fun a => .pure (f a)]
  constructor
  · rintro ⟨code₁, code₂, a, rfl, hread, hpure⟩
    obtain ⟨rfl, rfl⟩ := reads_pure_iff.1 hpure
    exact ⟨a, by rwa [List.append_nil], rfl⟩
  · rintro ⟨a, hread, rfl⟩
    exact ⟨code, [], a, (List.append_nil code).symm, hread, .pure base (f a)⟩

theorem reads_byte_bind_iff {f : UInt8 → Reader β} (hf : ∀ b, Decides (f b) n) {b : β} :
    Reads (byte >>= f) base code b ↔
      ∃ first rest, code = first :: rest ∧ Reads (f first) base rest b := by
  rw [reads_bind_iff .byte hf]
  constructor
  · rintro ⟨code₁, rest, first, rfl, hbyte, hread⟩
    obtain rfl := reads_byte_iff.1 hbyte
    exact ⟨first, rest, rfl, hread⟩
  · rintro ⟨first, rest, rfl, hread⟩
    exact ⟨[first], rest, first, rfl, .byte base first, hread⟩

theorem reads_mapM_nil_iff {r : α → Reader β} {bs : List β} :
    Reads ([].mapM r) base code bs ↔ code = [] ∧ bs = [] := by
  rw [List.mapM_nil]
  exact reads_pure_iff

theorem reads_mapM_cons_iff {r : α → Reader β} (hr : ∀ a, Decides (r a) n) {a : α} {as : List α}
    {bs : List β} : Reads ((a :: as).mapM r) base code bs ↔
      ∃ code₁ code₂ b bs', code = code₁ ++ code₂ ∧ bs = b :: bs' ∧ Reads (r a) base code₁ b ∧
        Reads (as.mapM r) base code₂ bs' := by
  rw [List.mapM_cons, reads_bind_iff (hr a) fun b =>
    (Decides.mapM hr as).bind fun bs => .pure (b :: bs)]
  simp only [bind_pure_comp, reads_map_iff (Decides.mapM hr as)]
  constructor
  · rintro ⟨code₁, code₂, b, rfl, hread, bs', hreads, rfl⟩
    exact ⟨code₁, code₂, b, bs', rfl, rfl, hread, hreads⟩
  · rintro ⟨code₁, code₂, b, bs', rfl, rfl, hread, hreads⟩
    exact ⟨code₁, code₂, b, rfl, hread, bs', hreads, rfl⟩

/-! ## Words and literals -/

theorem reads_word_iff {w : UInt16} :
    Reads word base code w ↔ ∃ hi lo, code = [hi, lo] ∧ w = Word.ofBytes hi lo := by
  unfold word
  simp only [bind_pure_comp]
  rw [reads_byte_bind_iff fun hi => .map (Word.ofBytes hi) .byte]
  simp only [reads_map_iff .byte, reads_byte_iff]
  constructor
  · rintro ⟨hi, rest, rfl, lo, rfl, rfl⟩
    exact ⟨hi, lo, rfl, rfl⟩
  · rintro ⟨hi, lo, rfl, rfl⟩
    exact ⟨hi, [lo], rfl, lo, rfl, rfl⟩

theorem literal_byte_eq : literal .byte = Literal.byte <$> byte := by
  simp only [literal, bind_pure_comp, Literal.ofBytes]

theorem literal_word_eq : literal .word = Literal.word <$> word := by
  simp only [literal, word, map_bind, map_pure, Literal.ofBytes]

theorem reads_literal_byte_iff {v : Literal} :
    Reads (literal .byte) base code v ↔ ∃ lo, code = [lo] ∧ v = .byte lo := by
  simp only [literal_byte_eq, reads_map_iff .byte, reads_byte_iff]

theorem reads_literal_word_iff {v : Literal} :
    Reads (literal .word) base code v ↔
      ∃ hi lo, code = [hi, lo] ∧ v = .word (Word.ofBytes hi lo) := by
  rw [literal_word_eq, reads_map_iff .word]
  simp only [reads_word_iff]
  constructor
  · rintro ⟨w, ⟨hi, lo, rfl, rfl⟩, rfl⟩
    exact ⟨hi, lo, rfl, rfl⟩
  · rintro ⟨hi, lo, rfl, rfl⟩
    exact ⟨_, ⟨hi, lo, rfl, rfl⟩, rfl⟩

end GromListing.Reader
