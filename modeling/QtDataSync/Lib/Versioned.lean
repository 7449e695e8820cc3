import Mathlib.Data.Finset.Card
import Mathlib.Data.Finset.Filter
import Mathlib.Order.Basic

/-!
# Lib.Versioned — values with version counters

`Versioned γ` pairs a version counter with a content.  `x ≤ y` says that `y` supersedes `x` or is `x`: a higher
version supersedes a lower one whatever the contents are, and two different contents of one version are not
comparable.  The second part bounds what tie-breaking can create: if a tie between two contents of one version
is always won by the greater one, one version higher, no version exceeds the start by the number of contents.
-/

universe u v

/-- A content with the counter of its version. -/
@[ext] structure Versioned (γ : Type u) where
  version : ℕ
  content : γ
deriving DecidableEq, Repr

namespace Versioned

variable {γ : Type u}

/-- `y` has a higher version than `x`, or it is `x`. -/
instance : PartialOrder (Versioned γ) where
  le x y := x.version < y.version ∨ x = y
  le_refl _ := Or.inr rfl
  le_trans x y z hxy hyz := by
    rcases hxy with h | rfl
    · rcases hyz with h' | rfl
      · exact Or.inl (h.trans h')
      · exact Or.inl h
    · exact hyz
  le_antisymm x y hxy hyx := by
    rcases hxy with h | h
    · rcases hyx with h' | h'
      · omega
      · exact h'.symm
    · exact h

theorem le_of_version_lt {x y : Versioned γ} (h : x.version < y.version) : x ≤ y := Or.inl h

theorem version_mono {x y : Versioned γ} (h : x ≤ y) : x.version ≤ y.version := by
  rcases h with h | rfl
  · exact h.le
  · exact le_rfl

theorem lt_iff {x y : Versioned γ} : x < y ↔ x.version < y.version := by
  constructor
  · intro h
    rcases h.le with h' | h'
    · exact h'
    · exact absurd h' h.ne
  · intro h
    exact lt_of_le_of_ne (Or.inl h) (by rintro rfl; exact lt_irrefl _ h)

/-- Of two comparable values of one version there is only one. -/
theorem eq_of_le {x y : Versioned γ} (h : x ≤ y) (hv : y.version ≤ x.version) : x = y := by
  rcases h with h | h
  · omega
  · exact h

/-! ### Tie-breaking -/

section Ties

variable {ω : Type v} [LinearOrder ω] (κ : γ → ω) (S : Finset γ)

/-- The number of contents of `S` that lose a tie against `c`. -/
def rank (c : γ) : ℕ := (S.filter fun b => κ b < κ c).card

variable {κ S}

theorem rank_lt_rank {a b : γ} (ha : a ∈ S) (h : κ a < κ b) : rank κ S a < rank κ S b := by
  refine Finset.card_lt_card ⟨?_, ?_⟩
  · intro x hx
    rw [Finset.mem_filter] at hx ⊢
    exact ⟨hx.1, hx.2.trans h⟩
  · intro hsub
    have h1 : a ∈ S.filter fun x => κ x < κ b := Finset.mem_filter.mpr ⟨ha, h⟩
    have h2 := (Finset.mem_filter.mp (hsub h1)).2
    exact lt_irrefl _ h2

theorem rank_lt_card {c : γ} (hc : c ∈ S) : rank κ S c < S.card := by
  refine Finset.card_lt_card ⟨Finset.filter_subset _ _, ?_⟩
  intro hsub
  have h2 := (Finset.mem_filter.mp (hsub hc)).2
  exact lt_irrefl _ h2

variable (κ S) in
/-- What can exist `V` and the contents `S` being given: a version above `V` costs a lost tie each. -/
def Bounded (V : ℕ) (x : Versioned γ) : Prop :=
  x.content ∈ S ∧ x.version ≤ V + rank κ S x.content

theorem bounded_of_le {V : ℕ} {x : Versioned γ} (hc : x.content ∈ S) (hv : x.version ≤ V) :
    Bounded κ S V x := ⟨hc, by omega⟩

theorem Bounded.version_le {V : ℕ} {x : Versioned γ} (h : Bounded κ S V x) :
    x.version ≤ V + S.card - 1 := by
  have h1 := rank_lt_card (κ := κ) h.1
  have h2 := h.2
  omega

/-- The winner of a tie, one version higher, stays within the bound. -/
theorem Bounded.tie {V : ℕ} {x y : Versioned γ} (hx : Bounded κ S V x) (hy : Bounded κ S V y)
    (hlt : κ x.content < κ y.content) : Bounded κ S V ⟨x.version + 1, y.content⟩ := by
  have h1 := rank_lt_rank hx.1 hlt
  have h2 := hx.2
  exact ⟨hy.1, by simp only; omega⟩

end Ties

end Versioned
