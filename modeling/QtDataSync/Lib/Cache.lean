import Mathlib.Data.List.Basic

/-!
# Lib.Cache — a cache of bounded cost that forgets what was not used for longest

Entries have a cost, and are kept in the order of their last use.  An entry that is inserted pushes out as many of the
oldest ones as it takes; one that is too large on its own is not kept.  Whatever is found was inserted last for its key.
-/

namespace QtDataSync

universe u v

/-- The entries with their costs, the one used last first. -/
structure Cache (κ : Type u) (α : Type v) where
  maxCost : ℕ
  entries : List (κ × α × ℕ)

namespace Cache

variable {κ : Type u} {α : Type v}

/-- The longest initial part that costs at most `m`. -/
def trim (m : ℕ) : List (κ × α × ℕ) → List (κ × α × ℕ)
  | [] => []
  | x :: xs => if x.2.2 ≤ m then x :: trim (m - x.2.2) xs else []

theorem trim_subset (m : ℕ) (l : List (κ × α × ℕ)) : trim m l ⊆ l := by
  induction l generalizing m with
  | nil => exact List.Subset.refl _
  | cons x xs ih =>
    unfold trim
    split
    · exact List.cons_subset_cons x (ih _)
    · exact List.nil_subset _

variable [DecidableEq κ]

def remove (c : Cache κ α) (k : κ) : Cache κ α :=
  { c with entries := c.entries.filter fun x => !decide (x.1 = k) }

def insert (c : Cache κ α) (k : κ) (a : α) (cost : ℕ) : Cache κ α :=
  let c := c.remove k
  if cost ≤ c.maxCost then { c with entries := (k, a, cost) :: trim (c.maxCost - cost) c.entries } else c

/-- The object of a key, which is the one used last from now on. -/
def object (c : Cache κ α) (k : κ) : Option α × Cache κ α :=
  match c.entries.find? fun x => decide (x.1 = k) with
  | some x => (some x.2.1, { c with entries := x :: (c.remove k).entries })
  | none => (none, c)

def clear (c : Cache κ α) : Cache κ α := { c with entries := [] }

/-- The cache has this object for the key. -/
def Holds (c : Cache κ α) (k : κ) (a : α) : Prop := ∃ cost, (k, a, cost) ∈ c.entries

theorem holds_remove {c : Cache κ α} {k k' : κ} {a : α} : (c.remove k).Holds k' a ↔ c.Holds k' a ∧ k' ≠ k := by
  have hmem : ∀ x : κ × α × ℕ, x ∈ (c.remove k).entries ↔ x ∈ c.entries ∧ x.1 ≠ k := by
    intro x
    show x ∈ c.entries.filter _ ↔ _
    rw [List.mem_filter, Bool.not_eq_true', decide_eq_false_iff_not]
  constructor
  · rintro ⟨cost, h⟩
    rw [hmem] at h
    exact ⟨⟨cost, h.1⟩, h.2⟩
  · rintro ⟨⟨cost, h⟩, hk⟩
    exact ⟨cost, (hmem _).mpr ⟨h, hk⟩⟩

theorem holds_insert {c : Cache κ α} {k k' : κ} {a a' : α} {cost : ℕ} (h : (c.insert k a cost).Holds k' a') :
    k' = k ∧ a' = a ∨ c.Holds k' a' ∧ k' ≠ k := by
  unfold insert at h
  dsimp only at h
  split at h
  · obtain ⟨n, hn⟩ := h
    rcases List.mem_cons.mp hn with he | hn
    · rw [Prod.mk.injEq, Prod.mk.injEq] at he
      exact Or.inl ⟨he.1, he.2.1⟩
    · exact Or.inr (holds_remove.mp ⟨n, trim_subset _ _ hn⟩)
  · exact Or.inr (holds_remove.mp h)

theorem holds_of_object {c : Cache κ α} {k : κ} {a : α} (h : (c.object k).1 = some a) : c.Holds k a := by
  unfold object at h
  split at h
  · rename_i x hx
    rw [Option.some.injEq] at h
    subst h
    have hk : x.1 = k := by simpa using List.find?_some hx
    rw [← hk]
    exact ⟨x.2.2, List.mem_of_find?_eq_some hx⟩
  · cases h

/-- A look-up that finds nothing changes nothing. -/
theorem object_of_none {c : Cache κ α} {k : κ} (h : (c.object k).1 = none) : (c.object k).2 = c := by
  unfold object at h ⊢
  split at h
  · cases h
  · rfl

theorem holds_object {c : Cache κ α} {k k' : κ} {a : α} (h : (c.object k).2.Holds k' a) : c.Holds k' a := by
  unfold object at h
  split at h
  · rename_i x hx
    obtain ⟨n, hn⟩ := h
    rcases List.mem_cons.mp hn with rfl | hn
    · exact ⟨n, List.mem_of_find?_eq_some hx⟩
    · exact (holds_remove.mp ⟨n, hn⟩).1
  · exact h

omit [DecidableEq κ] in
theorem not_holds_clear {c : Cache κ α} {k : κ} {a : α} : ¬ c.clear.Holds k a := by
  rintro ⟨n, hn⟩
  cases hn

end Cache

end QtDataSync
