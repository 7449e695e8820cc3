import Mathlib.Data.List.Basic

/-!
# Lib.Numbered — lists that are numbered without gaps

`Numbered f s l` says that the elements of `l` have the numbers `s`, `s + 1` and so on.  Such a list stays one when
the next number is appended or a first part is dropped, and a bound on the numbers takes a first part of it or leaves
the rest.
-/

variable {α : Type*} {f : α → ℕ} {s : ℕ} {l : List α}

/-- The numbers of the elements start at `s`, without gaps. -/
def Numbered (f : α → ℕ) : ℕ → List α → Prop
  | _, [] => True
  | s, x :: l => f x = s ∧ Numbered f (s + 1) l

namespace Numbered

theorem append (h : Numbered f s l) {x : α} (hx : f x = s + l.length) : Numbered f s (l ++ [x]) := by
  induction l generalizing s with
  | nil => exact ⟨hx, trivial⟩
  | cons y l ih =>
    refine ⟨h.1, ih h.2 ?_⟩
    rw [List.length_cons] at hx
    omega

theorem drop (h : Numbered f s l) (n : ℕ) : Numbered f (s + n) (l.drop n) := by
  induction n generalizing s l with
  | zero => exact h
  | succ n ih =>
    rcases l with - | ⟨x, l⟩
    · exact trivial
    · have hdrop := ih h.2
      rw [Nat.add_assoc, Nat.add_comm 1 n] at hdrop
      exact hdrop

theorem bounds (h : Numbered f s l) : ∀ x ∈ l, s ≤ f x ∧ f x < s + l.length := by
  induction l generalizing s with
  | nil => exact fun x hx => absurd hx List.not_mem_nil
  | cons y l ih =>
    intro x hx
    rw [List.length_cons]
    rcases List.mem_cons.mp hx with rfl | hx
    · have hy := h.1
      omega
    · have hbounds := ih h.2 x hx
      omega

/-- Every number in between is that of an element. -/
theorem exists_mem (h : Numbered f s l) {k : ℕ} (hs : s ≤ k) (hk : k < s + l.length) : ∃ x ∈ l, f x = k := by
  induction l generalizing s with
  | nil => simp at hk; omega
  | cons y l ih =>
    rw [List.length_cons] at hk
    by_cases heq : k = s
    · exact ⟨y, List.mem_cons_self, h.1.trans heq.symm⟩
    · obtain ⟨x, hx, hfx⟩ := ih h.2 (by omega) (by omega)
      exact ⟨x, List.mem_cons_of_mem _ hx, hfx⟩

theorem pairwise (h : Numbered f s l) : l.Pairwise fun x y => f x < f y := by
  induction l generalizing s with
  | nil => exact List.Pairwise.nil
  | cons y l ih =>
    refine List.pairwise_cons.mpr ⟨fun x hx => ?_, ih h.2⟩
    have hy := h.1
    have hbounds := h.2.bounds x hx
    omega

/-- The elements from a number on are the rest of the list. -/
theorem filter_le (h : Numbered f s l) (k : ℕ) : (l.filter fun x => decide (k ≤ f x)) = l.drop (k - s) := by
  induction l generalizing s with
  | nil => simp
  | cons y l ih =>
    have hy := h.1
    have hrest := ih h.2
    by_cases hk : k ≤ s
    · have hkeep : k ≤ f y := by omega
      have hzero : k - s = 0 := by omega
      have hzero' : k - (s + 1) = 0 := by omega
      rw [List.filter_cons_of_pos (by simpa using hkeep), hrest, hzero, hzero', List.drop_zero, List.drop_zero]
    · have hgone : ¬ k ≤ f y := by omega
      obtain ⟨n, hn⟩ : ∃ n, k - s = n + 1 := ⟨k - (s + 1), by omega⟩
      have hn' : k - (s + 1) = n := by omega
      rw [List.filter_cons_of_neg (by simpa using hgone), hrest, hn, hn', List.drop_succ_cons]

/-- The elements before a number are a first part of the list. -/
theorem filter_lt (h : Numbered f s l) (k : ℕ) : (l.filter fun x => decide (f x < k)) = l.take (k - s) := by
  induction l generalizing s with
  | nil => simp
  | cons y l ih =>
    have hy := h.1
    have hrest := ih h.2
    by_cases hk : k ≤ s
    · have hgone : ¬ f y < k := by omega
      have hzero : k - s = 0 := by omega
      have hzero' : k - (s + 1) = 0 := by omega
      rw [List.filter_cons_of_neg (by simpa using hgone), hrest, hzero, hzero', List.take_zero, List.take_zero]
    · have hkeep : f y < k := by omega
      obtain ⟨n, hn⟩ : ∃ n, k - s = n + 1 := ⟨k - (s + 1), by omega⟩
      have hn' : k - (s + 1) = n := by omega
      rw [List.filter_cons_of_pos (by simpa using hkeep), hrest, hn, hn', List.take_succ_cons]

end Numbered
