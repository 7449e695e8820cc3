import QtDataSync.Store.SyncController

/-!
# Store.Growth — with `PersistDeleted` rows only grow

`itemOf e` is the version and content of the row of a key, `⊥` if there is none.  With `PersistDeleted` no row is
ever deleted, so every operation moves `itemOf` up in the order of `Versioned`, and `syncChange` ends at an upper
bound of the row and the received change.  `Fresh` says that an operation left a row that is to be uploaded.
-/

namespace QtDataSync

variable {Data Checksum : Type*} {jsonHash : Data → Checksum}

/-- The version and content of an entry. -/
def itemOf (e : Entry jsonHash) : WithBot (Versioned (Option Data)) :=
  match e with
  | none => ⊥
  | some r => (r.item : WithBot (Versioned (Option Data)))

@[simp] theorem itemOf_none : itemOf (none : Entry jsonHash) = ⊥ := rfl

@[simp] theorem itemOf_some (r : Row jsonHash) :
    itemOf (some r) = (r.item : WithBot (Versioned (Option Data))) := rfl

theorem coe_le_itemOf {x : Versioned (Option Data)} {e : Entry jsonHash} :
    (x : WithBot (Versioned (Option Data))) ≤ itemOf e ↔ ∃ r, e = some r ∧ x ≤ r.item := by
  cases e with
  | none => simp
  | some r => simp

theorem itemOf_eq_coe {x : Versioned (Option Data)} {e : Entry jsonHash} :
    itemOf e = (x : WithBot (Versioned (Option Data))) ↔ ∃ r, e = some r ∧ r.item = x := by
  cases e with
  | none => simp
  | some r => simp

/-- Two entries with the same item that are both unchanged are the same. -/
theorem Row.ext_item {r r' : Row jsonHash} (hi : r.item = r'.item) (hc : r.changed = r'.changed) :
    r = r' := by
  have hv : r.item.version = r'.item.version := by rw [hi]
  have hd : r.item.content = r'.item.content := by rw [hi]
  exact Row.ext_content hv hd hc

namespace LocalStore

/-- A row that waits for its upload. -/
def Fresh (e : Entry jsonHash) : Prop := ∃ r, e = some r ∧ r.changed = true

theorem itemOf_save {e e' : Entry jsonHash} {data : Data} (h : save e data = .ok e') :
    itemOf e < itemOf e' ∧ Fresh e' := by
  cases e with
  | none =>
    rw [save_none, Except.ok.injEq] at h
    subst h
    exact ⟨WithBot.bot_lt_coe _, _, rfl, rfl⟩
  | some r =>
    rw [save_some, Except.ok.injEq] at h
    subst h
    refine ⟨WithBot.coe_lt_coe.mpr (Versioned.lt_iff.mpr ?_), _, rfl, rfl⟩
    simp [Row.item]

/-- `save` never fails on the row of its own key. -/
theorem exists_save (e : Entry jsonHash) (data : Data) : ∃ e', save e data = .ok e' := by
  cases e with
  | none => exact ⟨_, rfl⟩
  | some r => exact ⟨_, rfl⟩

theorem itemOf_remove (e : Entry jsonHash) :
    (remove e).1 = e ∨ itemOf e < itemOf (remove e).1 ∧ Fresh (remove e).1 := by
  cases e with
  | none => exact Or.inl rfl
  | some r =>
    rw [remove_fst_some]
    by_cases hf : r.file.isSome
    · rw [if_pos hf]
      refine Or.inr ⟨WithBot.coe_lt_coe.mpr (Versioned.lt_iff.mpr ?_), _, rfl, rfl⟩
      simp [Row.item]
    · rw [if_neg hf]
      exact Or.inl rfl

theorem le_itemOf_remove (e : Entry jsonHash) : itemOf e ≤ itemOf (remove e).1 := by
  rcases itemOf_remove e with h | ⟨h, -⟩
  · rw [h]
  · exact h.le

theorem itemOf_markUnchangedImpl (e : Entry jsonHash) (version : ℕ) (isDelete : Bool) :
    itemOf (markUnchangedImpl true e version isDelete) = itemOf e := by
  rw [markUnchangedImpl_persist]
  cases e with
  | none => rfl
  | some r =>
    rw [Option.map_some]
    split <;> rfl

/-- With `PersistDeleted` a statement that matches clears the `Changed` flag and nothing else. -/
theorem markUnchangedImpl_self (r : Row jsonHash) (isDelete : Bool) :
    markUnchangedImpl true (some r) r.version isDelete = some { r with changed := false } := by
  simp [markUnchangedImpl_persist]

end LocalStore

namespace SyncController

open LocalStore

variable [LinearOrder Checksum]

/-- **`syncChange` takes no row back**, and the row is above the change as well unless it had its version and
checksum. -/
theorem le_itemOf_syncChange {d : Defaults Data} (hp : d.persistDeleted = true) {e e' : Entry jsonHash}
    {c : Change Data} (h : syncChange d e c = .ok e') :
    itemOf e ≤ itemOf e' ∧ ((c.item : WithBot (Versioned (Option Data))) ≤ itemOf e' ∨
      itemOf e' = itemOf e ∧ ∃ r, e = some r ∧ r.version = c.version ∧
        r.content.map jsonHash = c.data.map jsonHash) := by
  rcases syncChange_outcome h with hv | ⟨hp', -⟩ | ⟨hv, -, hi, -⟩ | ⟨-, hv, hc⟩ | ⟨hp', -⟩ | ⟨hv, -, -, hv', -⟩ |
    ⟨hp', -⟩
  · exact ⟨le_rfl, Or.inl (WithBot.coe_le_coe.mpr (Versioned.le_of_version_lt hv))⟩
  · rw [hp] at hp'; cases hp'
  · rw [itemOf_some, hi]
    refine ⟨?_, Or.inl le_rfl⟩
    cases e with
    | none => exact bot_le
    | some r => exact WithBot.coe_le_coe.mpr (Versioned.le_of_version_lt (hv r rfl))
  · exact ⟨le_rfl, Or.inr ⟨rfl, _, rfl, hv, hc⟩⟩
  · rw [hp] at hp'; cases hp'
  · refine ⟨WithBot.coe_le_coe.mpr (Versioned.le_of_version_lt ?_),
      Or.inl (WithBot.coe_le_coe.mpr (Versioned.le_of_version_lt ?_))⟩
    · simp only [Row.item_version]; omega
    · simp only [Row.item_version, Change.item_version]; omega
  · rw [hp] at hp'; cases hp'

/-- **`syncChange` stores an upper bound** of the row and the change, where checksums identify contents. -/
theorem itemOf_syncChange (hj : Function.Injective jsonHash) {d : Defaults Data}
    (hp : d.persistDeleted = true) {e e' : Entry jsonHash} {c : Change Data}
    (h : syncChange d e c = .ok e') :
    itemOf e ≤ itemOf e' ∧ (c.item : WithBot (Versioned (Option Data))) ≤ itemOf e' := by
  obtain ⟨hle, hlec | ⟨hi, r, rfl, hv, hc⟩⟩ := le_itemOf_syncChange hp h
  · exact ⟨hle, hlec⟩
  · rw [hi, itemOf_some, item_eq_of_checksum hj hv hc]
    exact ⟨le_rfl, le_rfl⟩

/-- An unchanged row after `syncChange` was there before, is the received change, or has its version and checksum. -/
theorem syncChange_unchanged_cases {d : Defaults Data} {e : Entry jsonHash} {r : Row jsonHash} {c : Change Data}
    (h : syncChange d e c = .ok (some r)) (hch : r.changed = false) :
    e = some r ∨ r.item = c.item ∨ ∃ r₀, e = some r₀ ∧ r.item = r₀.item ∧ r₀.version = c.version ∧
      r₀.content.map jsonHash = c.data.map jsonHash := by
  generalize he' : (some r : Entry jsonHash) = e' at h
  cases syncChange_outcome h with
  | newer _ => cases he'; exact Or.inl rfl
  | ignored _ _ => cases he'
  | taken _ _ hi _ => cases he'; exact Or.inr (Or.inl hi)
  | @identical r₀ _ hv hc => cases he'; exact Or.inr (Or.inr ⟨r₀, rfl, rfl, hv, hc⟩)
  | echo _ _ _ _ _ hch' => cases he'; rw [hch'] at hch; cases hch
  | tie _ _ _ _ hch' => cases he'; rw [hch'] at hch; cases hch
  | erased _ _ _ _ => cases he'

/-- An unchanged row after `syncChange` was there before or is the received change. -/
theorem syncChange_unchanged (hj : Function.Injective jsonHash) {d : Defaults Data}
    {e : Entry jsonHash} {r : Row jsonHash} {c : Change Data} (h : syncChange d e c = .ok (some r))
    (hch : r.changed = false) : e = some r ∨ r.item = c.item := by
  rcases syncChange_unchanged_cases h hch with he | hi | ⟨r₀, -, hi, hv, hc⟩
  · exact Or.inl he
  · exact Or.inr hi
  · exact Or.inr (hi.trans (item_eq_of_checksum hj hv hc))

end SyncController

end QtDataSync
