import GromListing.Cursor

/-!
# Readers as prefix codes

What a reader takes from the bytes at hand is settled by those bytes alone, and no code word of a
reader begins another:

* `Reads r base code a`: at `base`, the reader takes exactly `code`, as the value `a`. Whatever
  follows stays, and a beginning of `code` is taken whole and is not enough.
* `Decides r size`: of any bytes, either a beginning of at most `size` bytes is a code word, or all
  of them are taken and are not enough. `Decides.bind` puts two codes one after the other, and
  `Decides.mapM` any number of them.
-/

set_option autoImplicit false

namespace GromListing

namespace Cursor

/-- The cursor with all its bytes taken. -/
def drained (c : Cursor) : Cursor := ⟨c.base, c.taken ++ c.rest, []⟩

/-- The outcome of a read that takes all bytes and needs one more. -/
def short {α : Type} (c : Cursor) : EStateM.Result Truncation Cursor α :=
  .error c.drained.shortage c.drained

theorem short_append {α : Type} (base : UInt16) (taken more rest : List UInt8) :
    (short ⟨base, taken ++ more, rest⟩ : EStateM.Result Truncation Cursor α) =
      short ⟨base, taken, more ++ rest⟩ := by
  simp [short, drained]

theorem short_start {α : Type} (base : UInt16) (bytes : List UInt8) :
    (short (start base bytes) : EStateM.Result Truncation Cursor α) =
      .error ⟨base, bytes.length + 1, bytes.length⟩ ⟨base, bytes, []⟩ := by
  simp [short, drained, shortage, start]

end Cursor

namespace Reader

/-! ## Code words -/

structure Reads {α : Type} (r : Reader α) (base : UInt16) (code : List UInt8) (a : α) : Prop where
  whole : ∀ taken tail, r ⟨base, taken, code ++ tail⟩ = .ok a ⟨base, taken ++ code, tail⟩
  part : ∀ taken, ∀ n < code.length,
    r ⟨base, taken, code.take n⟩ = Cursor.short ⟨base, taken, code.take n⟩

theorem Reads.pure {α : Type} (base : UInt16) (a : α) : Reads (pure a : Reader α) base [] a where
  whole taken tail := by simp [pure_apply]
  part _ n hn := absurd hn (Nat.not_lt_zero n)

theorem Reads.byte (base : UInt16) (b : UInt8) : Reads byte base [b] b where
  whole taken tail := byte_cons base taken b tail
  part taken n hn := by
    have : n = 0 := by simpa using hn
    subst this
    simp [byte_nil, Cursor.short, Cursor.drained, Cursor.shortage]

theorem Reads.base (base : UInt16) : Reads Reader.base base [] base where
  whole taken tail := by simp [Reader.base]
  part _ n hn := absurd hn (Nat.not_lt_zero n)

theorem Reads.bind {α β : Type} {x : Reader α} {f : α → Reader β} {base : UInt16}
    {code₁ code₂ : List UInt8} {a : α} {b : β} (hx : Reads x base code₁ a)
    (hf : Reads (f a) base code₂ b) : Reads (x >>= f) base (code₁ ++ code₂) b where
  whole taken tail := by
    rw [bind_apply, List.append_assoc, hx.whole]
    simpa using hf.whole (taken ++ code₁) tail
  part taken n hn := by
    by_cases h : n < code₁.length
    · rw [List.take_append_of_le_length (Nat.le_of_lt h), bind_apply, hx.part taken n h]
      rfl
    · -- the first code word is whole, and the second one is cut
      have hn' : n - code₁.length < code₂.length := by
        rw [List.length_append] at hn
        omega
      have htake : (code₁ ++ code₂).take n = code₁ ++ code₂.take (n - code₁.length) := by
        rw [List.take_append, List.take_of_length_le (by omega)]
      rw [htake, bind_apply, hx.whole]
      simp only
      rw [hf.part (taken ++ code₁) _ hn', Cursor.short_append]

/-! ## Prefix codes -/

/-- Any bytes begin with a code word of at most `size` bytes, or are too few for one. -/
def Decides {α : Type} (r : Reader α) (size : Nat) : Prop :=
  ∀ base bytes,
    (∃ code a tail, bytes = code ++ tail ∧ code.length ≤ size ∧ Reads r base code a) ∨
      (bytes.length < size ∧
        ∀ taken, r ⟨base, taken, bytes⟩ = Cursor.short ⟨base, taken, bytes⟩)

namespace Decides

variable {α β : Type}

theorem pure (a : α) : Decides (pure a : Reader α) 0 := fun base bytes =>
  .inl ⟨[], a, bytes, rfl, Nat.le_refl 0, .pure base a⟩

theorem byte : Decides byte 1 := fun base bytes =>
  match bytes with
  | [] => .inr ⟨Nat.one_pos, fun taken => by
      simp [byte_nil, Cursor.short, Cursor.drained, Cursor.shortage]⟩
  | b :: tail => .inl ⟨[b], b, tail, rfl, Nat.le_refl 1, .byte base b⟩

theorem base : Decides Reader.base 0 := fun base bytes =>
  .inl ⟨[], base, bytes, rfl, Nat.le_refl 0, .base base⟩

theorem mono {r : Reader α} {m n : Nat} (h : Decides r m) (hmn : m ≤ n) : Decides r n := by
  intro base bytes
  rcases h base bytes with ⟨code, a, tail, hb, hc, hr⟩ | ⟨hl, hs⟩
  · exact .inl ⟨code, a, tail, hb, Nat.le_trans hc hmn, hr⟩
  · exact .inr ⟨Nat.lt_of_lt_of_le hl hmn, hs⟩

theorem bind {x : Reader α} {f : α → Reader β} {m n : Nat} (hx : Decides x m)
    (hf : ∀ a, Decides (f a) n) : Decides (x >>= f) (m + n) := by
  intro base bytes
  rcases hx base bytes with ⟨code₁, a, rest, rfl, hc₁, hr₁⟩ | ⟨hl, hs⟩
  · rcases hf a base rest with ⟨code₂, b, tail, rfl, hc₂, hr₂⟩ | ⟨hl, hs⟩
    · refine .inl ⟨code₁ ++ code₂, b, tail, (List.append_assoc ..).symm, ?_, hr₁.bind hr₂⟩
      rw [List.length_append]
      exact Nat.add_le_add hc₁ hc₂
    · refine .inr ⟨?_, fun taken => ?_⟩
      · rw [List.length_append]
        omega
      · rw [bind_apply, hr₁.whole]
        simp only
        rw [hs, Cursor.short_append]
  · refine .inr ⟨by omega, fun taken => ?_⟩
    rw [bind_apply, hs]
    rfl

theorem map {x : Reader α} {n : Nat} (f : α → β) (hx : Decides x n) : Decides (f <$> x) n := by
  rw [← bind_pure_comp]
  exact hx.bind fun a => pure (f a)

theorem ite {p : Prop} [Decidable p] {x y : Reader α} {n : Nat} (hx : Decides x n)
    (hy : Decides y n) : Decides (if p then x else y) n := by
  split
  · exact hx
  · exact hy

theorem mapM {r : α → Reader β} {n : Nat} (h : ∀ a, Decides (r a) n) :
    ∀ as : List α, Decides (as.mapM r) (n * as.length)
  | [] => by simpa using pure []
  | a :: as => by
    rw [List.mapM_cons, List.length_cons, Nat.mul_succ, Nat.add_comm]
    exact (h a).bind fun b => (mapM h as).bind fun bs => pure (b :: bs)

theorem word : Decides word 2 := byte.bind fun hi => byte.bind fun lo => pure (Word.ofBytes hi lo)

theorem literal (width : Literal.Width) : Decides (literal width) 2 := by
  cases width with
  | byte => exact (byte.bind fun lo => pure (Literal.ofBytes lo none)).mono (by decide)
  | word => exact byte.bind fun hi => byte.bind fun lo => pure (Literal.ofBytes lo (some hi))

end Decides

end Reader

end GromListing
