import Mathlib.Data.List.Infix

/-!
# Lib.Wildcard — patterns of symbols and wildcards

A pattern is a list of literal symbols, of wildcards for one symbol, and of wildcards for any sequence of them.  The
symbols of a string are compared with the literal ones by a key (`fold`), so that letters can match regardless of
their case.

* `Wildcard.matches_append`: the parts of a pattern match the parts of a string.
* `Wildcard.matches_infix` and its like: a pattern of literals between wildcards searches for them.
* `Wildcard.matches_shortest`, `Wildcard.countP_literals_le`: the shortest string that matches a pattern, and what
  every one must contain.
-/

universe u v

/-- A symbol of a pattern. -/
inductive Wildcard (α : Type u) where
  /-- Any sequence of symbols. -/
  | any
  /-- Any one symbol. -/
  | one
  | lit (a : α)
deriving DecidableEq

namespace Wildcard

variable {α : Type u} {β : Type v} [DecidableEq β] {fold : α → β}

variable (fold) in
/-- Whether a string matches a pattern. -/
def Matches : List (Wildcard α) → List α → Bool
  | [], s => s.isEmpty
  | any :: p, s => s.tails.any fun t => Matches p t
  | one :: p, s =>
    match s with
    | [] => false
    | _ :: t => Matches p t
  | lit a :: p, s =>
    match s with
    | [] => false
    | b :: t => fold b = fold a && Matches p t

@[simp] theorem matches_nil {s : List α} : Matches fold [] s ↔ s = [] := List.isEmpty_iff

@[simp] theorem matches_any_cons {p : List (Wildcard α)} {s : List α} :
    Matches fold (any :: p) s ↔ ∃ t u, s = t ++ u ∧ Matches fold p u := by
  rw [Matches, List.any_eq_true]
  constructor
  · rintro ⟨u, hu, hm⟩
    obtain ⟨t, rfl⟩ := (List.mem_tails _ _).mp hu
    exact ⟨t, u, rfl, hm⟩
  · rintro ⟨t, u, rfl, hm⟩
    exact ⟨u, (List.mem_tails _ _).mpr (List.suffix_append t u), hm⟩

@[simp] theorem matches_one_cons {p : List (Wildcard α)} {s : List α} :
    Matches fold (one :: p) s ↔ ∃ b t, s = b :: t ∧ Matches fold p t := by
  rcases s with _ | ⟨b, t⟩
  · simp [Matches]
  · simp [Matches]

@[simp] theorem matches_lit_cons {a : α} {p : List (Wildcard α)} {s : List α} :
    Matches fold (lit a :: p) s ↔ ∃ b t, s = b :: t ∧ fold b = fold a ∧ Matches fold p t := by
  rcases s with _ | ⟨b, t⟩
  · simp [Matches]
  · simp [Matches]

/-- The parts of a pattern match the parts of a string. -/
theorem matches_append {p q : List (Wildcard α)} {s : List α} :
    Matches fold (p ++ q) s ↔ ∃ t u, s = t ++ u ∧ Matches fold p t ∧ Matches fold q u := by
  induction p generalizing s with
  | nil => simp
  | cons w p ih =>
    rcases w with _ | _ | a
    · simp only [List.cons_append, matches_any_cons, ih]
      constructor
      · rintro ⟨t, -, rfl, u, v, rfl, hp, hq⟩
        exact ⟨t ++ u, v, (List.append_assoc t u v).symm, ⟨t, u, rfl, hp⟩, hq⟩
      · rintro ⟨-, v, rfl, ⟨t, u, rfl, hp⟩, hq⟩
        exact ⟨t, u ++ v, List.append_assoc t u v, u, v, rfl, hp, hq⟩
    · simp only [List.cons_append, matches_one_cons, ih]
      constructor
      · rintro ⟨b, -, rfl, u, v, rfl, hp, hq⟩
        exact ⟨b :: u, v, rfl, ⟨b, u, rfl, hp⟩, hq⟩
      · rintro ⟨-, v, rfl, ⟨b, u, rfl, hp⟩, hq⟩
        exact ⟨b, u ++ v, rfl, u, v, rfl, hp, hq⟩
    · simp only [List.cons_append, matches_lit_cons, ih]
      constructor
      · rintro ⟨b, -, rfl, hb, u, v, rfl, hp, hq⟩
        exact ⟨b :: u, v, rfl, ⟨b, u, rfl, hb, hp⟩, hq⟩
      · rintro ⟨-, v, rfl, ⟨b, u, rfl, hb, hp⟩, hq⟩
        exact ⟨b, u ++ v, rfl, hb, u, v, rfl, hp, hq⟩

/-- Literals match themselves. -/
theorem matches_lits {l s : List α} : Matches fold (l.map lit) s ↔ s.map fold = l.map fold := by
  induction l generalizing s with
  | nil => simp
  | cons a l ih =>
    rw [List.map_cons, matches_lit_cons]
    rcases s with _ | ⟨b, t⟩
    · simp
    · simp [ih]

@[simp] theorem matches_any {s : List α} : Matches fold [any] s := matches_any_cons.mpr ⟨s, [], by simp, by simp⟩

/-! ### Searches -/

theorem matches_prefix {l s : List α} : Matches fold (l.map lit ++ [any]) s ↔ l.map fold <+: s.map fold := by
  rw [matches_append]
  constructor
  · rintro ⟨t, u, rfl, ht, -⟩
    rw [matches_lits] at ht
    rw [List.map_append, ht]
    exact List.prefix_append _ _
  · rintro ⟨x, hx⟩
    obtain ⟨t, u, rfl, ht, -⟩ := List.map_eq_append_iff.mp hx.symm
    exact ⟨t, u, rfl, matches_lits.mpr ht, matches_any⟩

theorem matches_suffix {l s : List α} : Matches fold (any :: l.map lit) s ↔ l.map fold <:+ s.map fold := by
  rw [matches_any_cons]
  constructor
  · rintro ⟨t, u, rfl, hu⟩
    rw [matches_lits] at hu
    rw [List.map_append, hu]
    exact List.suffix_append _ _
  · rintro ⟨x, hx⟩
    obtain ⟨t, u, rfl, -, hu⟩ := List.map_eq_append_iff.mp hx.symm
    exact ⟨t, u, rfl, matches_lits.mpr hu⟩

theorem matches_infix {l s : List α} : Matches fold (any :: (l.map lit ++ [any])) s ↔ l.map fold <:+: s.map fold := by
  rw [matches_any_cons]
  constructor
  · rintro ⟨t, u, rfl, hu⟩
    obtain ⟨y, hy⟩ := matches_prefix.mp hu
    exact ⟨t.map fold, y, by rw [List.append_assoc, hy, List.map_append]⟩
  · rintro ⟨x, y, hxy⟩
    rw [List.append_assoc] at hxy
    obtain ⟨t, u, rfl, -, hu⟩ := List.map_eq_append_iff.mp hxy.symm
    exact ⟨t, u, rfl, matches_prefix.mpr ⟨y, hu.symm⟩⟩

/-! ### What every match contains -/

/-- The literal symbols of a pattern. -/
def literals : List (Wildcard α) → List α
  | [] => []
  | lit a :: p => a :: literals p
  | _ :: p => literals p

/-- A pattern with nothing for any sequence, and `a` for any symbol. -/
def shortest (a : α) : List (Wildcard α) → List α
  | [] => []
  | any :: p => shortest a p
  | one :: p => a :: shortest a p
  | lit b :: p => b :: shortest a p

theorem matches_shortest (a : α) (p : List (Wildcard α)) : Matches fold p (shortest a p) := by
  induction p with
  | nil => simp [shortest]
  | cons w p ih =>
    rcases w with _ | _ | b
    · exact matches_any_cons.mpr ⟨[], _, rfl, ih⟩
    · exact matches_one_cons.mpr ⟨a, _, rfl, ih⟩
    · exact matches_lit_cons.mpr ⟨b, _, rfl, rfl, ih⟩

theorem countP_shortest {a : α} {f : α → Bool} (ha : f a = false) (p : List (Wildcard α)) :
    (shortest a p).countP f = (literals p).countP f := by
  induction p with
  | nil => rfl
  | cons w p ih =>
    rcases w with _ | _ | b
    · exact ih
    · rw [shortest, literals, List.countP_cons_of_neg (by simp [ha]), ih]
      nofun
    · rw [shortest, literals, List.countP_cons, List.countP_cons, ih]

/-- A string that matches has the literals of the pattern. -/
theorem countP_literals_le {f : β → Bool} {p : List (Wildcard α)} {s : List α} (h : Matches fold p s) :
    (literals p).countP (f ∘ fold) ≤ s.countP (f ∘ fold) := by
  induction p generalizing s with
  | nil => exact Nat.zero_le _
  | cons w p ih =>
    rcases w with _ | _ | a
    · obtain ⟨t, u, rfl, hu⟩ := matches_any_cons.mp h
      have hle := ih hu
      rw [List.countP_append]
      exact le_trans hle (Nat.le_add_left _ _)
    · obtain ⟨b, t, rfl, ht⟩ := matches_one_cons.mp h
      have hle := ih ht
      rw [List.countP_cons]
      exact le_trans hle (Nat.le_add_right _ _)
    · obtain ⟨b, t, rfl, hb, ht⟩ := matches_lit_cons.mp h
      have hle := ih ht
      have hf : (f ∘ fold) b = (f ∘ fold) a := congrArg f hb
      rw [literals, List.countP_cons, List.countP_cons, hf]
      omega

end Wildcard
