import Mathlib.Algebra.Order.Ring.Nat
import Mathlib.Tactic.Ring

/-!
# Lib.Rounding — numbers rounded to the nearest multiple

`nearest unit n` is the multiple of `unit` that is nearest to `n`, and of two the even one, as a binary floating-point
number has it whose last place is worth `unit`.
-/

namespace Rounding

/-- The nearest multiple of `unit`, ties to even. -/
def nearest (unit n : ℕ) : ℕ :=
  if 2 * (n % unit) < unit ∨ 2 * (n % unit) = unit ∧ n / unit % 2 = 0 then n / unit * unit else (n / unit + 1) * unit

variable {unit m n : ℕ}

theorem nearest_mul (hunit : 0 < unit) (q : ℕ) : nearest unit (q * unit) = q * unit := by
  rw [nearest, Nat.mul_mod_left, Nat.mul_div_cancel q hunit, if_pos (Or.inl (by omega))]

theorem div_mul_le_nearest (unit n : ℕ) : n / unit * unit ≤ nearest unit n := by
  unfold nearest
  split_ifs
  · exact le_rfl
  · exact Nat.mul_le_mul_right unit (Nat.le_succ _)

theorem nearest_le (unit n : ℕ) : nearest unit n ≤ (n / unit + 1) * unit := by
  unfold nearest
  split_ifs
  · exact Nat.mul_le_mul_right unit (Nat.le_succ _)
  · exact le_rfl

/-- What is rounded is a multiple. -/
theorem exists_nearest (unit n : ℕ) : ∃ q, nearest unit n = q * unit := by
  unfold nearest
  split_ifs
  · exact ⟨_, rfl⟩
  · exact ⟨_, rfl⟩

theorem nearest_nearest (hunit : 0 < unit) (n : ℕ) : nearest unit (nearest unit n) = nearest unit n := by
  obtain ⟨q, hq⟩ := exists_nearest unit n
  rw [hq, nearest_mul hunit]

theorem nearest_mono (h : m ≤ n) : nearest unit m ≤ nearest unit n := by
  rcases Nat.lt_or_ge (m / unit) (n / unit) with hlt | hge
  · exact (nearest_le unit m).trans ((Nat.mul_le_mul_right unit hlt).trans (div_mul_le_nearest unit n))
  · -- both lie between the same two multiples
    have hq : m / unit = n / unit := le_antisymm (Nat.div_le_div_right h) hge
    have hm := Nat.div_add_mod m unit
    have hn := Nat.div_add_mod n unit
    rw [hq] at hm
    have hr : m % unit ≤ n % unit := by omega
    unfold nearest
    rw [hq]
    split_ifs with hdown hup
    · exact le_rfl
    · exact Nat.mul_le_mul_right unit (Nat.le_succ _)
    · omega
    · exact le_rfl

/-- A multiple bounds what is rounded. -/
theorem le_nearest (hunit : 0 < unit) {q : ℕ} (h : q * unit ≤ n) : q * unit ≤ nearest unit n := by
  rw [← nearest_mul hunit q]
  exact nearest_mono h

/-- The next number after a multiple is rounded to it. -/
theorem nearest_succ (hunit : 2 < unit) (q : ℕ) : nearest unit (q * unit + 1) = q * unit := by
  have hpos : 0 < unit := by omega
  have hmod : (q * unit + 1) % unit = 1 := by
    rw [Nat.mul_add_mod_of_lt (by omega)]
  have hdiv : (q * unit + 1) / unit = q := by
    rw [mul_comm, Nat.mul_add_div hpos, Nat.div_eq_of_lt (by omega), Nat.add_zero]
  rw [nearest, hmod, hdiv, if_pos (Or.inl (by omega))]

end Rounding
