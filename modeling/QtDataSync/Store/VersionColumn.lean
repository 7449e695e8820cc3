import QtDataSync.Lib.Rounding
import QtDataSync.Store.LocalStore

/-!
# Store.VersionColumn — versions as the database has them

A version is a `quint64`, and the driver binds it as text.  The column `Version` is an `INTEGER`: it holds such a number
if it is below `2 ^ 63`, and as a `REAL` otherwise, whose last place is worth `2 ^ 11` up to `2 ^ 64`.  From `2 ^ 63` on
the version after the one of a row is that of the row again (`column_succ`).
-/

namespace QtDataSync

/-- What the column holds of a version. -/
def column (version : ℕ) : ℕ := if version < 2 ^ 63 then version else Rounding.nearest (2 ^ 11) version

section

variable {v w : ℕ}

theorem column_of_lt (h : v < 2 ^ 63) : column v = v := if_pos h

theorem le_column (h : 2 ^ 63 ≤ v) : 2 ^ 63 ≤ column v := by
  rw [column, if_neg (Nat.not_lt.mpr h)]
  have hunits : 2 ^ 52 * 2 ^ 11 ≤ v := h
  exact Rounding.le_nearest (by decide) hunits

theorem column_mono (h : v ≤ w) : column v ≤ column w := by
  rcases Nat.lt_or_ge v (2 ^ 63) with hv | hv
  · rcases Nat.lt_or_ge w (2 ^ 63) with hw | hw
    · rw [column_of_lt hv, column_of_lt hw]
      exact h
    · rw [column_of_lt hv]
      exact hv.le.trans (le_column hw)
  · rw [column, column, if_neg (Nat.not_lt.mpr hv), if_neg (Nat.not_lt.mpr (hv.trans h))]
    exact Rounding.nearest_mono h

/-- What the column holds is held as it is. -/
theorem column_column (v : ℕ) : column (column v) = column v := by
  rcases Nat.lt_or_ge v (2 ^ 63) with hv | hv
  · rw [column_of_lt hv, column_of_lt hv]
  · have hle := le_column hv
    rw [column, if_neg (Nat.not_lt.mpr hle), column, if_neg (Nat.not_lt.mpr hv)]
    exact Rounding.nearest_nearest (by decide) v

/-- A higher version is held as a higher one, where the lower one is an integer. -/
theorem lt_column (hv : v < 2 ^ 63) (h : v < w) : v < column w := by
  rcases Nat.lt_or_ge w (2 ^ 63) with hw | hw
  · rw [column_of_lt hw]
    exact h
  · exact hv.trans_le (le_column hw)

/-- **From `2 ^ 63` on the next version is the same.** -/
theorem column_succ (hv : column v = v) (h : 2 ^ 63 ≤ v) : column (v + 1) = v := by
  rw [column, if_neg (Nat.not_lt.mpr h)] at hv
  obtain ⟨q, hq⟩ := Rounding.exists_nearest (2 ^ 11) v
  rw [hv] at hq
  rw [column, if_neg (by omega), hq]
  exact Rounding.nearest_succ (by decide) q

/-- The next version of what the column holds is a higher one if and only if it is an integer. -/
theorem lt_column_succ_iff (hv : column v = v) : v < column (v + 1) ↔ v < 2 ^ 63 := by
  constructor
  · intro h
    by_contra hge
    rw [column_succ hv (Nat.not_lt.mp hge)] at h
    exact lt_irrefl v h
  · exact fun h => lt_column h (Nat.lt_succ_self v)

end

section

variable {Data Checksum : Type*} {jsonHash : Data → Checksum}

/-- The row as a statement leaves it in the table. -/
def Row.stored (r : Row jsonHash) : Row jsonHash := { r with version := column r.version }

@[simp] theorem Row.stored_version (r : Row jsonHash) : r.stored.version = column r.version := rfl
@[simp] theorem Row.stored_file (r : Row jsonHash) : r.stored.file = r.file := rfl
@[simp] theorem Row.stored_changed (r : Row jsonHash) : r.stored.changed = r.changed := rfl

theorem Row.stored_of_lt {r : Row jsonHash} (h : r.version < 2 ^ 63) : r.stored = r := by
  rw [Row.stored, column_of_lt h]

/-- The version of the row is an integer in the table. -/
def IsInteger (e : Entry jsonHash) : Prop := ∀ r, e = some r → r.version < 2 ^ 63

theorem IsInteger.stored {e : Entry jsonHash} (h : IsInteger e) : e.map Row.stored = e := by
  rcases e with - | r
  · rfl
  · rw [Option.map_some, Row.stored_of_lt (h r rfl)]

namespace DataIndex

/-- The rows as statements leave them in the table. -/
def stored (index : DataIndex jsonHash) : DataIndex jsonHash := fun key => (index key).map Row.stored

/-- The table holds what its columns can hold. -/
def Stored (index : DataIndex jsonHash) : Prop := ∀ k r, index k = some r → column r.version = r.version

/-- All versions in the table are integers. -/
def Integers (index : DataIndex jsonHash) : Prop := ∀ key, IsInteger (index key)

theorem Integers.stored {index : DataIndex jsonHash} (h : index.Integers) : index.stored = index :=
  funext fun key => (h key).stored

end DataIndex

end

end QtDataSync
