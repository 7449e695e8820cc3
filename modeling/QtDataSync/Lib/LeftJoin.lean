import Mathlib.Data.List.Dedup
import Mathlib.Data.List.Nodup
import Mathlib.Data.List.Pairwise
import Mathlib.Tactic.Common

/-!
# Lib.LeftJoin — two keyed tables and their outer join

A table is a list of rows with their keys.  A query that joins each of two tables with the other one finds every key of
either once, with what both tables say about it, if the keys of each table are distinct (`mem_outerJoin`,
`nodup_outerJoin`).
-/

namespace LeftJoin

variable {κ α β : Type*} [BEq κ]

/-- `LEFT JOIN` on the keys. -/
def leftJoin (l : List (κ × α)) (r : List (κ × β)) : List (κ × α × Option β) :=
  l.flatMap fun x => match r.filter fun y => y.1 == x.1 with
    | [] => [(x.1, x.2, none)]
    | y :: ys => (y :: ys).map fun y => (x.1, x.2, some y.2)

/-- The rows of the left join and the unmatched rows of the right table. -/
def outerJoin (l : List (κ × α)) (r : List (κ × β)) : List (κ × Option α × Option β) :=
  ((leftJoin l r).map fun x => (x.1, some x.2.1, x.2.2)) ++
    ((leftJoin r l).filter fun x => x.2.2.isNone).map fun x => (x.1, x.2.2, some x.2.1)

variable [LawfulBEq κ] {l : List (κ × α)} {r : List (κ × β)}

theorem lookup_isNone {k : κ} : (l.lookup k).isNone = true ↔ k ∉ l.map Prod.fst := by
  rw [Option.isNone_iff_eq_none, List.lookup_eq_none_iff, List.mem_map]
  constructor
  · rintro h ⟨x, hx, rfl⟩
    simpa using h x hx
  · intro h x hx
    rw [bne_iff_ne]
    rintro rfl
    exact h ⟨x, hx, rfl⟩

/-- In a keyed table at most one row has a key. -/
theorem filter_key (h : (r.map Prod.fst).Nodup) (k : κ) :
    r.filter (fun y => y.1 == k) = (r.lookup k).toList.map fun b => (k, b) := by
  induction r with
  | nil => rfl
  | cons y r ih =>
    rw [List.map_cons, List.nodup_cons] at h
    obtain ⟨k', b⟩ := y
    by_cases hk : k' = k
    · subst hk
      have hnone : r.lookup k' = none := Option.isNone_iff_eq_none.mp (lookup_isNone.mpr h.1)
      rw [List.filter_cons_of_pos (by simp), ih h.2, hnone, List.lookup_cons_self]
      rfl
    · rw [List.filter_cons_of_neg (by simpa using hk), ih h.2, List.lookup_cons, beq_eq_false_iff_ne.mpr (Ne.symm hk)]

theorem leftJoin_eq (h : (r.map Prod.fst).Nodup) : leftJoin l r = l.map fun x => (x.1, x.2, r.lookup x.1) := by
  unfold leftJoin
  rw [List.map_eq_flatMap]
  refine congrArg (l.flatMap ·) (funext fun x => ?_)
  rw [filter_key h]
  rcases r.lookup x.1 with - | b
  · rfl
  · rfl

theorem lookup_of_mem (h : (l.map Prod.fst).Nodup) {x : κ × α} (hx : x ∈ l) : l.lookup x.1 = some x.2 := by
  have hmem : x ∈ l.filter fun y => y.1 == x.1 := List.mem_filter.mpr ⟨hx, beq_self_eq_true _⟩
  rw [filter_key h, List.mem_map] at hmem
  obtain ⟨a, ha, hax⟩ := hmem
  rw [Option.mem_toList] at ha
  rw [ha, ← hax]

/-- **The outer join** has what both tables say about a key of either. -/
theorem mem_outerJoin (hl : (l.map Prod.fst).Nodup) (hr : (r.map Prod.fst).Nodup) {x : κ × Option α × Option β} :
    x ∈ outerJoin l r ↔
      (x.1 ∈ l.map Prod.fst ∨ x.1 ∈ r.map Prod.fst) ∧ x.2 = (l.lookup x.1, r.lookup x.1) := by
  rw [outerJoin, leftJoin_eq hr, leftJoin_eq hl, List.mem_append, List.map_map, List.mem_map, List.mem_map]
  constructor
  · rintro (⟨y, hy, rfl⟩ | ⟨y, hy, rfl⟩)
    · exact ⟨Or.inl (List.mem_map_of_mem hy), by simp [lookup_of_mem hl hy]⟩
    · obtain ⟨hmem, -⟩ := List.mem_filter.mp hy
      obtain ⟨z, hz, rfl⟩ := List.mem_map.mp hmem
      exact ⟨Or.inr (List.mem_map_of_mem hz), by simp [lookup_of_mem hr hz]⟩
  · rintro ⟨hkey, hx⟩
    obtain ⟨k, v⟩ := x
    simp only at hkey hx
    subst hx
    by_cases hk : k ∈ l.map Prod.fst
    · obtain ⟨y, hy, rfl⟩ := List.mem_map.mp hk
      exact Or.inl ⟨y, hy, by simp [lookup_of_mem hl hy]⟩
    · obtain ⟨y, hy, rfl⟩ := List.mem_map.mp (hkey.resolve_left hk)
      have hnone := lookup_isNone.mpr hk
      refine Or.inr ⟨(y.1, y.2, l.lookup y.1), List.mem_filter.mpr ⟨List.mem_map_of_mem hy, hnone⟩, ?_⟩
      simp [lookup_of_mem hr hy]

/-- **The outer join** has every key once. -/
theorem nodup_outerJoin (hl : (l.map Prod.fst).Nodup) (hr : (r.map Prod.fst).Nodup) :
    ((outerJoin l r).map Prod.fst).Nodup := by
  rw [outerJoin, leftJoin_eq hr, leftJoin_eq hl, List.map_append, List.map_map, List.map_map, List.map_map]
  have hright : (List.map (Prod.fst ∘ fun x : κ × β × Option α => (x.1, x.2.2, some x.2.1))
      ((r.map fun x => (x.1, x.2, l.lookup x.1)).filter fun x => x.2.2.isNone)).Sublist (r.map Prod.fst) := by
    have hmap := (List.filter_sublist (p := fun x : κ × β × Option α => x.2.2.isNone)
      (l := r.map fun x => (x.1, x.2, l.lookup x.1))).map Prod.fst
    rwa [List.map_map] at hmap
  rw [List.nodup_append]
  refine ⟨hl, hr.sublist hright, fun k hk k' hk' => ?_⟩
  rintro rfl
  obtain ⟨x, hx, rfl⟩ := List.mem_map.mp hk'
  obtain ⟨hmem, hnone⟩ := List.mem_filter.mp hx
  obtain ⟨y, hy, rfl⟩ := List.mem_map.mp hmem
  exact lookup_isNone.mp hnone hk

/-- An order of the keys leaves one list of the rows that is in that order. -/
theorem eq_of_sorted {κ γ : Type*} (le : κ → κ → Prop) (hantisymm : ∀ k k', le k k' → le k' k → k = k')
    {s t : List (κ × γ)} (hperm : s.Perm t) (hnodup : (t.map Prod.fst).Nodup)
    (hs : s.Pairwise fun x y => le x.1 y.1) (ht : t.Pairwise fun x y => le x.1 y.1) : s = t :=
  hperm.eq_of_pairwise (fun _ _ hx hy hxy hyx =>
    List.inj_on_of_nodup_map hnodup (hperm.mem_iff.mp hx) hy (hantisymm _ _ hxy hyx)) hs ht

end LeftJoin
