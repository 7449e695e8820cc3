import Mathlib.Data.List.Pairwise
import Mathlib.Data.List.Nodup
import Mathlib.Data.List.Induction
import Mathlib.Data.List.Perm.Basic
import Mathlib.Tactic.Common

/-!
# Lib.QHash — hashes as lists of entries

The entries are in any order, and nothing depends on it: two hashes are the same if one is a permutation of the other.
A hash can have several entries with one key; one that is filled by `insert` has not.
-/

/-- The entries of a hash, in any order; a key can have more than one. -/
abbrev QHash (κ δ : Type) := List (κ × δ)

namespace QHash

variable {κ δ : Type}

def keys (h : QHash κ δ) : List κ := h.map Prod.fst

/-- `QHash::unite` replaces nothing. -/
def unite (h other : QHash κ δ) : QHash κ δ := other ++ h

@[simp] theorem length_keys (h : QHash κ δ) : h.keys.length = h.length := List.length_map _

@[simp] theorem keys_unite (h other : QHash κ δ) : (h.unite other).keys = other.keys ++ h.keys := List.map_append

variable [BEq κ]

/-- `QHash::take`, without the value. -/
def take (h : QHash κ δ) (key : κ) : QHash κ δ := h.eraseP fun entry => key == entry.1

/-- `QHash::insert` replaces the value of a key. -/
def insert (h : QHash κ δ) (key : κ) (value : δ) : QHash κ δ := (key, value) :: h.take key

variable [LawfulBEq κ]

@[simp] theorem keys_take (h : QHash κ δ) (key : κ) : (h.take key).keys = h.keys.erase key := by
  rw [List.erase_eq_eraseP, keys, keys, List.eraseP_map]
  rfl

@[simp] theorem keys_insert (h : QHash κ δ) (key : κ) (value : δ) :
    (h.insert key value).keys = key :: h.keys.erase key := by
  rw [← keys_take]
  rfl

theorem nodup_insert {h : QHash κ δ} (hkeys : h.keys.Nodup) (key : κ) (value : δ) : (h.insert key value).keys.Nodup := by
  rw [keys_insert]
  exact List.nodup_cons.mpr ⟨hkeys.not_mem_erase, hkeys.erase key⟩

/-- Entries with different keys are all kept. -/
theorem foldl_insert_perm {l : List (κ × δ)} (h : (l.map Prod.fst).Nodup) :
    (l.foldl (fun h entry => QHash.insert h entry.1 entry.2) ([] : QHash κ δ)).Perm l := by
  induction l using List.reverseRecOn with
  | nil => exact List.Perm.refl []
  | append_singleton l entry ih =>
    rw [List.map_append, List.nodup_append] at h
    have hperm := ih h.1
    have hnew : entry.1 ∉ l.map Prod.fst := fun hmem => h.2.2 _ hmem _ (List.mem_singleton.mpr rfl) rfl
    rw [List.foldl_append]
    refine (List.Perm.cons entry ?_).trans (List.perm_append_singleton entry l).symm
    rw [QHash.take, List.eraseP_of_forall_not]
    · exact hperm
    · intro x hx
      rw [beq_iff_eq]
      rintro hkey
      exact hnew (hkey ▸ List.mem_map_of_mem (hperm.mem_iff.mp hx))

/-! ### Keys that are equal without being the same -/

section Entry

variable {κ δ γ : Type} [BEq κ]

/-- The entry of a key. -/
def entry (h : QHash κ δ) (key : κ) : Option (κ × δ) := h.find? fun x => x.1 == key

/-- `QHash::insert` of a key that is there replaces the value, and not the key. -/
def insertValue (h : QHash κ δ) (key : κ) (value : δ) : QHash κ δ :=
  if h.any fun x => x.1 == key then h.map fun x => if x.1 == key then (x.1, value) else x else h ++ [(key, value)]

/-- All entries of a key are removed. -/
def remove (h : QHash κ δ) (key : κ) : QHash κ δ := h.filter fun x => !x.1 == key

/-- No two keys are equal. -/
def Distinct (h : QHash κ δ) : Prop := h.Pairwise fun x y => (x.1 == y.1) = false

theorem distinct_nil : Distinct ([] : QHash κ δ) := List.Pairwise.nil

theorem Distinct.remove {h : QHash κ δ} (hd : h.Distinct) (key : κ) : (h.remove key).Distinct := List.Pairwise.filter _ hd

theorem Distinct.filterMap {h : QHash κ δ} (hd : h.Distinct) {f : κ × δ → Option (κ × δ)}
    (hf : ∀ x y, f x = some y → y.1 = x.1) : Distinct (h.filterMap f) := by
  refine List.Pairwise.filterMap f (fun x y hxy x' hx y' hy => ?_) hd
  rw [hf x x' hx, hf y y' hy]
  exact hxy

variable {h : QHash κ δ} {key key' : κ} {value : δ}

theorem entry_eq_none : h.entry key = none ↔ ∀ x ∈ h, (x.1 == key) = false := by
  simp [entry]

theorem beq_of_entry {x : κ × δ} (hx : h.entry key = some x) : (x.1 == key) = true :=
  List.find?_some (p := fun x : κ × δ => x.1 == key) hx

theorem any_eq_isSome : (h.any fun x => x.1 == key) = (h.entry key).isSome := by
  rw [entry, List.isSome_find?]

theorem entry_remove_self : (h.remove key).entry key = none := by
  rw [entry_eq_none]
  intro x hx
  simpa using (List.mem_filter.mp hx).2

theorem Distinct.insertValue (hd : h.Distinct) : (h.insertValue key value).Distinct := by
  unfold QHash.insertValue
  split_ifs with hany
  · refine List.Pairwise.map _ (fun x y hxy => ?_) hd
    split_ifs <;> exact hxy
  · refine List.pairwise_append.mpr ⟨hd, List.pairwise_singleton _ _, fun x hx y hy => ?_⟩
    obtain rfl := List.mem_singleton.mp hy
    rw [Bool.not_eq_true, List.any_eq_false] at hany
    exact Bool.eq_false_iff.mpr (hany x hx)

variable [EquivBEq κ]

/-- Equal keys have one entry. -/
theorem entry_congr (heq : (key == key') = true) : h.entry key = h.entry key' := by
  have hcongr : (fun x : κ × δ => x.1 == key) = fun x => x.1 == key' := funext fun x => BEq.congr_right heq
  rw [entry, entry, hcongr]

theorem entry_remove_of_ne (hne : (key == key') = false) : (h.remove key).entry key' = h.entry key' := by
  rw [entry, remove, List.find?_filter, entry]
  congr 1
  funext x
  rcases hx : x.1 == key' with - | -
  · simp
  · have hxkey : (x.1 == key) = false := by
      rw [BEq.congr_left hx, BEq.comm]
      exact hne
    simp [hxkey]

/-- The key that is in a hash stays in it. -/
theorem entry_insertValue_self :
    (h.insertValue key value).entry key = some (((h.entry key).elim key Prod.fst), value) := by
  unfold insertValue
  rw [any_eq_isSome]
  split_ifs with hany
  · obtain ⟨x, hx⟩ := Option.isSome_iff_exists.mp hany
    have hcomp : ((fun x : κ × δ => x.1 == key) ∘ fun x => if x.1 == key then (x.1, value) else x) =
        fun x => x.1 == key := by
      funext y
      simp only [Function.comp]
      split_ifs <;> rfl
    rw [entry, List.find?_map, hcomp, show h.find? (fun x => x.1 == key) = some x from hx, hx, Option.map_some,
      if_pos (beq_of_entry hx)]
    rfl
  · rw [Bool.not_eq_true, Option.isSome_eq_false_iff, Option.isNone_iff_eq_none] at hany
    rw [hany, entry, List.find?_append, show h.find? (fun x => x.1 == key) = none from hany]
    simp

theorem entry_insertValue_of_ne (hne : (key == key') = false) : (h.insertValue key value).entry key' = h.entry key' := by
  unfold insertValue
  split_ifs with hany
  · have hcomp : ((fun x : κ × δ => x.1 == key') ∘ fun x => if x.1 == key then (x.1, value) else x) =
        fun x => x.1 == key' := by
      funext y
      simp only [Function.comp]
      split_ifs <;> rfl
    rw [entry, List.find?_map, hcomp]
    show Option.map _ (h.entry key') = h.entry key'
    rcases hx : h.entry key' with - | x
    · rfl
    · have hxkey : ¬ (x.1 == key) = true := by
        rw [BEq.congr_left (beq_of_entry hx), BEq.comm, hne]
        exact Bool.false_ne_true
      rw [Option.map_some, if_neg hxkey]
  · rw [entry, List.find?_append]
    show (h.entry key').or _ = h.entry key'
    rcases h.entry key' with - | x
    · simp [hne]
    · rfl

theorem mem_iff_entry (hd : h.Distinct) {x : κ × δ} : x ∈ h ↔ h.entry x.1 = some x := by
  constructor
  · intro hx
    have : Std.Symm fun x y : κ × δ => (x.1 == y.1) = false := ⟨fun x y hne => by rwa [BEq.comm]⟩
    rcases hy : h.entry x.1 with - | y
    · have hne := entry_eq_none.mp hy x hx
      rw [BEq.refl] at hne
      cases hne
    · by_contra hne
      have hdiff := List.Pairwise.forall hd (List.mem_of_find?_eq_some hy) hx fun heq => hne (congrArg some heq)
      rw [beq_of_entry hy] at hdiff
      cases hdiff
  · exact List.mem_of_find?_eq_some

/-- The values of distinct keys are changed, or removed, one by one. -/
theorem entry_filterMap (hd : h.Distinct) {f : κ × δ → Option (κ × δ)} (hf : ∀ x y, f x = some y → y.1 = x.1) :
    entry (h.filterMap f) key = (h.entry key).bind f := by
  induction h with
  | nil => rfl
  | cons x h ih =>
    obtain ⟨hx, hd⟩ := List.pairwise_cons.mp hd
    rcases hkey : x.1 == key with - | -
    · rw [show entry (x :: h) key = entry h key from List.find?_cons_of_neg (by simp [hkey]), ← ih hd, List.filterMap_cons]
      rcases hfx : f x with - | y
      · rfl
      · exact List.find?_cons_of_neg (by simp [hf x y hfx, hkey])
    · rw [show entry (x :: h) key = some x from List.find?_cons_of_pos hkey, Option.bind_some, List.filterMap_cons]
      have hrest : entry h key = none := entry_eq_none.mpr fun y hy => by
        rw [BEq.comm, ← BEq.congr_left hkey]
        exact hx y hy
      rcases hfx : f x with - | y
      · rw [ih hd, hrest, Option.bind_none]
      · exact List.find?_cons_of_pos (by simp [hf x y hfx, hkey])

/-- A filter sees the entry of each key. -/
theorem entry_filter (hd : h.Distinct) (p : κ × δ → Bool) : entry (h.filter p) key = (h.entry key).filter p := by
  rw [← List.filterMap_eq_filter, entry_filterMap hd]
  · rcases h.entry key with - | x
    · rfl
    · simp [Option.filter, Option.guard]
  · intro x y hxy
    rw [(Option.guard_eq_some_iff.mp hxy).1]

theorem entry_foldl_remove (l : List (κ × γ)) :
    entry (l.foldl (fun h x => remove h x.1) h) key = if l.any fun x => x.1 == key then none else h.entry key := by
  induction l generalizing h with
  | nil => rfl
  | cons x l ih =>
    rw [List.foldl_cons, ih, List.any_cons]
    rcases hx : x.1 == key with - | -
    · rw [Bool.false_or, entry_remove_of_ne hx]
    · rw [Bool.true_or, if_pos rfl, ← entry_congr hx, entry_remove_self, ite_self]

end Entry

end QHash
