import GromListing.Cursor
import Mathlib.Data.List.Forall2

/-!
# Readers at two bases

Few readers ask for the address of the instruction. `Alike R b₁ b₂ x y`: from the same bytes, `x` at
the base `b₁` and `y` at the base `b₂` take the same bytes and find values in `R`, or both fail.
`Alike.bind` and `Alike.mapM` carry this from parts to wholes.
-/

set_option autoImplicit false

namespace GromListing

namespace Reader

def Alike {α β : Type} (R : α → β → Prop) (b₁ b₂ : UInt16) (x : Reader α) (y : Reader β) : Prop :=
  ∀ taken rest,
    (∃ a b taken' rest', x ⟨b₁, taken, rest⟩ = .ok a ⟨b₁, taken', rest'⟩ ∧
      y ⟨b₂, taken, rest⟩ = .ok b ⟨b₂, taken', rest'⟩ ∧ R a b) ∨
    ∃ t u c d, x ⟨b₁, taken, rest⟩ = .error t c ∧ y ⟨b₂, taken, rest⟩ = .error u d

namespace Alike

variable {α β γ δ : Type} {b₁ b₂ : UInt16}

theorem pure {R : α → β → Prop} {a : α} {b : β} (h : R a b) :
    Alike R b₁ b₂ (pure a) (pure b) := fun taken rest =>
  .inl ⟨a, b, taken, rest, rfl, rfl, h⟩

theorem byte : Alike Eq b₁ b₂ byte byte := fun taken rest =>
  match rest with
  | [] => .inr ⟨_, _, _, _, rfl, rfl⟩
  | b :: rest => .inl ⟨b, b, taken ++ [b], rest, rfl, rfl, rfl⟩

theorem base : Alike (fun a b => a = b₁ ∧ b = b₂) b₁ b₂ Reader.base Reader.base :=
  fun taken rest => .inl ⟨b₁, b₂, taken, rest, rfl, rfl, rfl, rfl⟩

theorem bind {R : α → β → Prop} {S : γ → δ → Prop} {x : Reader α} {y : Reader β}
    {f : α → Reader γ} {g : β → Reader δ} (h : Alike R b₁ b₂ x y)
    (hfg : ∀ a b, R a b → Alike S b₁ b₂ (f a) (g b)) :
    Alike S b₁ b₂ (x >>= f) (y >>= g) := by
  intro taken rest
  rcases h taken rest with ⟨a, b, taken', rest', hx, hy, hR⟩ | ⟨t, u, c, d, hx, hy⟩
  · rw [bind_apply, bind_apply, hx, hy]
    exact hfg a b hR taken' rest'
  · rw [bind_apply, bind_apply, hx, hy]
    exact .inr ⟨t, u, c, d, rfl, rfl⟩

theorem bind_eq {S : γ → γ → Prop} {x y : Reader α} {f : α → Reader γ}
    (h : Alike Eq b₁ b₂ x y) (hf : ∀ a, Alike S b₁ b₂ (f a) (f a)) :
    Alike S b₁ b₂ (x >>= f) (y >>= f) :=
  h.bind fun a _ he => he ▸ hf a

theorem weaken {R S : α → β → Prop} {x : Reader α} {y : Reader β} (h : Alike R b₁ b₂ x y)
    (hRS : ∀ a b, R a b → S a b) : Alike S b₁ b₂ x y := by
  intro taken rest
  rcases h taken rest with ⟨a, b, taken', rest', hx, hy, hR⟩ | hf
  · exact .inl ⟨a, b, taken', rest', hx, hy, hRS a b hR⟩
  · exact .inr hf

theorem mapM {R : β → γ → Prop} {r : α → Reader β} {r' : α → Reader γ} :
    ∀ as : List α, (∀ a ∈ as, Alike R b₁ b₂ (r a) (r' a)) →
      Alike (List.Forall₂ R) b₁ b₂ (as.mapM r) (as.mapM r')
  | [], _ => by simpa using pure .nil
  | a :: as, h => by
    rw [List.mapM_cons, List.mapM_cons]
    refine (h a List.mem_cons_self).bind fun b c hbc => ?_
    refine (mapM as fun a ha => h a (List.mem_cons_of_mem _ ha)).bind fun bs cs hs => ?_
    exact pure (.cons hbc hs)

theorem word : Alike Eq b₁ b₂ word word :=
  byte.bind_eq fun _ => byte.bind_eq fun _ => pure rfl

theorem literal (width : Literal.Width) : Alike Eq b₁ b₂ (literal width) (literal width) := by
  cases width with
  | byte => exact byte.bind_eq fun _ => pure rfl
  | word => exact byte.bind_eq fun _ => byte.bind_eq fun _ => pure rfl

end Alike

end Reader

end GromListing
