import Mathlib.Data.List.Infix

/-!
# Lib.Tagged — ideal tags at the end of the data

An ideal signature or authentication code: the table of the data that have been tagged, with the tags that were given
out, all of one size.  A verifier gets the data and the tag as one string, whose last symbols it takes for the tag;
so it accepts a string exactly if it is some tagged data followed by a tag of it, wherever the sender put the border.
-/

universe u

/-- What has been tagged. -/
structure Tags (β : Type u) where
  tagSize : ℕ
  table : List (List β × List β)
  length_tag : ∀ x ∈ table, x.2.length = tagSize

namespace Tags

variable {β : Type u}

/-- Nothing has been tagged. -/
def empty (tagSize : ℕ) : Tags β := ⟨tagSize, [], nofun⟩

/-- Some data are tagged. -/
def add (t : Tags β) (data tag : List β) (h : tag.length = t.tagSize) : Tags β where
  tagSize := t.tagSize
  table := (data, tag) :: t.table
  length_tag := List.forall_mem_cons.mpr ⟨h, t.length_tag⟩

variable [DecidableEq β]

/-- Verification of a string that ends with the tag. -/
def accepts (t : Tags β) (all : List β) : Bool :=
  decide ((all.take (all.length - t.tagSize), all.drop (all.length - t.tagSize)) ∈ t.table)

theorem accepts_iff {t : Tags β} {all : List β} : t.accepts all = true ↔ ∃ x ∈ t.table, all = x.1 ++ x.2 := by
  rw [accepts, decide_eq_true_eq]
  constructor
  · intro h
    exact ⟨_, h, (List.take_append_drop _ _).symm⟩
  · rintro ⟨⟨data, tag⟩, h, rfl⟩
    have hlen : (data ++ tag).length - t.tagSize = data.length := by
      have htag : tag.length = t.tagSize := t.length_tag _ h
      rw [List.length_append]
      omega
    rw [hlen, List.take_left, List.drop_left]
    exact h

end Tags
