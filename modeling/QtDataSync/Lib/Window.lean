import Mathlib.Data.List.Nodup
import Mathlib.Data.List.Sort

/-!
# Lib.Window — reading a sorted queue page by page

A reader holds a window `l` of a strictly increasing queue `L` and finds the next page by its offset alone: it skips
`l.length` entries.  This is right as long as the window is a prefix of the queue.

* `prefix_of_sorted`: a sorted window whose entries are older than everything else is a prefix.
* `append_page`, `page_not_mem`: the next page extends the window and repeats nothing.
* `rank`, `rank_erase`, `rank_le_add`: the number of older entries, which bounds the entries to be read before.
-/

universe u

namespace Window

variable {α : Type u} [LinearOrder α] {l L : List α}

theorem prefix_of_sorted (hl : l.Pairwise (· < ·)) (hL : L.Pairwise (· < ·)) (hsub : ∀ x ∈ l, x ∈ L)
    (hold : ∀ x ∈ L, x ∉ l → ∀ y ∈ l, y < x) : l <+: L := by
  refine ⟨L.filter (· ∉ l), List.Pairwise.eq_of_mem_iff ?_ hL fun x => ?_⟩
  · rw [List.pairwise_append]
    refine ⟨hl, hL.filter _, fun y hy x hx => ?_⟩
    have hx' := List.mem_filter.mp hx
    exact hold x hx'.1 (of_decide_eq_true hx'.2) y hy
  · rw [List.mem_append, List.mem_filter, decide_eq_true_eq]
    constructor
    · rintro (hx | hx)
      · exact hsub x hx
      · exact hx.1
    · intro hx
      by_cases hmem : x ∈ l
      · exact Or.inl hmem
      · exact Or.inr ⟨hx, hmem⟩

/-- What is not in the window is younger. -/
theorem lt_of_not_mem (hL : L.Pairwise (· < ·)) (h : l <+: L) {x y : α} (hx : x ∈ L) (hxl : x ∉ l) (hy : y ∈ l) :
    y < x := by
  obtain ⟨r, rfl⟩ := h
  rw [List.pairwise_append] at hL
  exact hL.2.2 y hy x ((List.mem_append.mp hx).resolve_left hxl)

omit [LinearOrder α] in
/-- The page at the offset of the window continues it. -/
theorem append_page (h : l <+: L) (n : ℕ) : l ++ (L.drop l.length).take n <+: L := by
  obtain ⟨r, rfl⟩ := h
  rw [List.drop_left, List.prefix_append_right_inj]
  exact List.take_prefix n r

omit [LinearOrder α] in
theorem length_page_le (l L : List α) (n : ℕ) : ((L.drop l.length).take n).length ≤ n := List.length_take_le n _

omit [LinearOrder α] in
/-- There is a page as long as there is something left to read. -/
theorem page_ne_nil (h : l <+: L) {n : ℕ} (hn : 0 < n) (hne : L ≠ l) : (L.drop l.length).take n ≠ [] := by
  obtain ⟨r, rfl⟩ := h
  rw [List.drop_left]
  rcases r with _ | ⟨a, r⟩
  · exact absurd (List.append_nil l) hne
  · obtain ⟨n, rfl⟩ := Nat.exists_eq_succ_of_ne_zero (Nat.ne_of_gt hn)
    rw [List.take_succ_cons]
    exact List.cons_ne_nil a _

/-- The number of older entries. -/
def rank (L : List α) (x : α) : ℕ := (L.filter (· < x)).length

/-- Other entries: the rank grows by the new ones at most. -/
theorem rank_le_add {L' : List α} (hL : L'.Nodup) (x : α) :
    rank L' x ≤ rank L x + (L'.filter fun y => y < x ∧ y ∉ L).length := by
  have hsplit : rank L' x = ((L'.filter (· < x)).filter (· ∈ L)).length +
      ((L'.filter (· < x)).filter (· ∉ L)).length := by
    have h := ((L'.filter (· < x)).filter_append_perm (· ∈ L)).length_eq
    rw [List.length_append] at h
    simpa [rank] using h.symm
  have hold : ((L'.filter (· < x)).filter (· ∈ L)).length ≤ rank L x := by
    refine (List.subperm_of_subset ((hL.filter _).filter _) fun y hy => ?_).length_le
    obtain ⟨hy, hmem⟩ := List.mem_filter.mp hy
    exact List.mem_filter.mpr ⟨of_decide_eq_true hmem, (List.mem_filter.mp hy).2⟩
  have hnew : ((L'.filter (· < x)).filter (· ∉ L)) = L'.filter fun y => y < x ∧ y ∉ L := by
    rw [List.filter_filter]
    refine List.filter_congr fun y _ => ?_
    by_cases hyx : y < x <;> simp [hyx]
  rw [hnew] at hsplit
  omega

/-- Taking out an older entry. -/
theorem rank_erase (hL : L.Nodup) {x y : α} (hy : y ∈ L) (hyx : y < x) : rank (L.erase y) x + 1 = rank L x := by
  have hmem : y ∈ L.filter (· < x) := List.mem_filter.mpr ⟨hy, decide_eq_true hyx⟩
  rw [rank, rank, hL.erase_eq_filter, List.filter_filter]
  have hcomm : (L.filter fun z => decide (z < x) && (z != y)) = (L.filter (· < x)).erase y := by
    rw [(hL.filter _).erase_eq_filter, List.filter_filter]
    exact List.filter_congr fun z _ => Bool.and_comm _ _
  rw [hcomm]
  exact List.length_erase_add_one hmem

end Window
