import QtDataSync.Store.Growth

/-!
# Store.Redelivery — a change that is delivered again

`applyChange` is `syncChange` with the rollback of its `SyncScope`: if a resolver throws, the row is as before.
Applying a change a second time does nothing, except when deleted objects are not kept and the
change deletes an older object: the deletion stored by the first delivery is dropped by the second.  With
`PersistDeleted` a change that was applied once stays without effect, whatever is done to the table afterwards.
-/

namespace QtDataSync

variable {Data Checksum : Type*} {jsonHash : Data → Checksum} [LinearOrder Checksum]

namespace SyncController

open LocalStore

/-- The row after `syncChange`; what it throws rolls the transaction back. -/
def applyChange (d : Defaults Data) (e : Entry jsonHash) (c : Change Data) : Entry jsonHash :=
  match syncChange d e c with
  | .ok e' => e'
  | .error _ => e

theorem applyChange_of_ok {d : Defaults Data} {e e' : Entry jsonHash} {c : Change Data}
    (h : syncChange d e c = .ok e') : applyChange d e c = e' := by
  rw [applyChange, h]

theorem applyChange_of_error {d : Defaults Data} {e : Entry jsonHash} {c : Change Data} {ex : QException}
    (h : syncChange d e c = .error ex) : applyChange d e c = e := by
  rw [applyChange, h]

/-! ### Branches that a second delivery takes -/

theorem applyChange_newer (d : Defaults Data) {r : Row jsonHash} {c : Change Data}
    (h : c.version < r.version) : applyChange d (some r) c = some r :=
  applyChange_of_ok (syncChange_newer d h)

/-- The row has the version and the checksum of the change. -/
theorem applyChange_identical {d : Defaults Data} {r : Row jsonHash} {c : Change Data}
    (hp : d.persistDeleted = true ∨ c.data ≠ none) (hv : r.version = c.version)
    (hc : r.content.map jsonHash = c.data.map jsonHash) :
    applyChange d (some r) c = some { r with changed := false } := by
  obtain ⟨v, f, ch⟩ := r
  simp only at hv
  subst hv
  refine applyChange_of_ok ?_
  rcases f with _ | f <;> rcases hd : c.data with _ | data <;> rw [hd] at hc
  · have hp' : d.persistDeleted = true := hp.resolve_right (not_not.mpr hd)
    simp [syncChange, LocalStore.loadChangeInfo, hd, hp', LocalStore.updateVersion]
  · cases hc
  · cases hc
  · have hc' : f.checksum = jsonHash data := by simpa [f.checksum_eq] using hc
    simp only [syncChange, LocalStore.loadChangeInfo, hd, lt_irrefl, ↓reduceIte, hc', ne_eq, not_true_eq_false]
    rw [markUnchanged_change d.persistDeleted ⟨c.version, some f, ch⟩]

/-- A deletion that is not kept meets a cached deletion. -/
theorem applyChange_erased {d : Defaults Data} {r : Row jsonHash} {c : Change Data}
    (hp : d.persistDeleted = false) (hc : c.data = none) (hr : r.content = none)
    (hv : r.version ≤ c.version) : applyChange d (some r) c = none := by
  obtain ⟨v, f, ch⟩ := r
  have hf : f = none := Option.map_eq_none_iff.mp hr
  subst hf
  have hv' : v ≤ c.version := hv
  refine applyChange_of_ok ?_
  simp [syncChange, LocalStore.loadChangeInfo, hc, hp, hv', LocalStore.markUnchanged, markUnchangedImpl_delete]

theorem applyChange_ignored {d : Defaults Data} {c : Change Data} (hp : d.persistDeleted = false)
    (hc : c.data = none) : applyChange d (none : Entry jsonHash) c = none := by
  refine applyChange_of_ok ?_
  simp [syncChange, LocalStore.loadChangeInfo, hc, hp]

/-- Only a resolver throws, and it does not see the `Changed` flag. -/
theorem syncChange_error {d : Defaults Data} {e : Entry jsonHash} {c : Change Data} {ex : QException}
    (h : syncChange d e c = .error ex) : ∃ r, e = some r ∧ r.version = c.version ∧ c.data ≠ none ∧
      syncChange d (some { r with changed := false }) c = .error ex := by
  rcases e with _ | ⟨v, _ | f, ch⟩ <;> rcases hd : c.data with _ | data <;>
    simp only [syncChange, LocalStore.loadChangeInfo, hd] at h
  · split_ifs at h
    cases h
  · cases h
  · split_ifs at h
  · cases hpol : d.conflictPolicy <;> rw [hpol] at h <;> split_ifs at h <;> cases h
  · cases hpol : d.conflictPolicy <;> rw [hpol] at h <;> split_ifs at h <;> cases h
  · by_cases h1 : v < c.version
    · rw [if_pos h1] at h
      cases h
    rw [if_neg h1] at h
    by_cases h2 : v = c.version
    · rw [if_pos h2] at h
      by_cases h3 : f.checksum = jsonHash data
      · rw [if_neg (not_not.mpr h3)] at h
        cases h
      rw [if_pos h3] at h
      refine ⟨_, rfl, h2, by simp, ?_⟩
      rcases hres : resolveConflict d c.key.typeName f.data data with ex' | _ | data'
      · rw [hres] at h
        cases h
        simp [syncChange, LocalStore.loadChangeInfo, hd, h2, h3, hres]
      · rw [hres] at h
        simp only at h
        split at h <;> cases h
      · rw [hres] at h
        cases h
    · rw [if_neg h2] at h
      cases h

/-- The deletion of an object that is older and is not to be kept. -/
def Echoes (d : Defaults Data) (e : Entry jsonHash) (c : Change Data) : Prop :=
  d.persistDeleted = false ∧ c.data = none ∧ ∃ r, e = some r ∧ r.file.isSome = true ∧ r.version < c.version

/-- What a second delivery does: nothing, or it drops the deletion that the first one has stored. -/
theorem applyChange_cases (d : Defaults Data) (e : Entry jsonHash) (c : Change Data) :
    (¬ Echoes d e c ∧ applyChange d (applyChange d e c) c = applyChange d e c) ∨
      (Echoes d e c ∧ (∃ r, applyChange d e c = some r) ∧ applyChange d (applyChange d e c) c = none) := by
  rcases h : syncChange d e c with ex | e'
  · -- the resolver throws again
    obtain ⟨r, -, -, hc, -⟩ := syncChange_error h
    have he : applyChange d e c = e := applyChange_of_error h
    exact Or.inl ⟨fun hx => hc hx.2.1, by rw [he, he]⟩
  · have he : applyChange d e c = e' := applyChange_of_ok h
    rw [he]
    cases syncChange_outcome h with
    | @newer r hv =>
      refine Or.inl ⟨?_, applyChange_newer d hv⟩
      rintro ⟨-, -, r', hr', -, hv'⟩
      cases hr'
      omega
    | ignored hp hc =>
      refine Or.inl ⟨?_, applyChange_ignored hp hc⟩
      rintro ⟨-, -, r', hr', -⟩
      cases hr'
    | @taken _ r' _ hp hi hch =>
      refine Or.inl ⟨fun hx => ?_, ?_⟩
      · rcases hp with hp | hp
        · rw [hx.1] at hp
          cases hp
        · exact hp hx.2.1
      · have hv : r'.version = c.version := congrArg Versioned.version hi
        have hc : r'.content = c.data := congrArg Versioned.content hi
        rw [applyChange_identical hp hv (by rw [hc]), ← hch]
    | @identical r hp hv hc =>
      refine Or.inl ⟨?_, applyChange_identical (r := { r with changed := false }) hp hv hc⟩
      rintro ⟨-, -, r', hr', -, hv'⟩
      cases hr'
      omega
    | @echo r r' hp hc hcont hv hi hch =>
      have hv' : r'.version = c.version := congrArg Versioned.version hi
      have hc' : r'.content = c.data := congrArg Versioned.content hi
      have hf : r.file.isSome = true := by
        rcases hf : r.file with _ | f
        · exact absurd (by simp [Row.content, hf]) hcont
        · rfl
      exact Or.inr ⟨⟨hp, hc, r, rfl, hf, hv⟩, ⟨r', rfl⟩,
        applyChange_erased hp hc (hc'.trans hc) hv'.le⟩
    | @tie r r' hv _ _ hv' _ =>
      refine Or.inl ⟨?_, applyChange_newer d (by omega)⟩
      rintro ⟨-, -, r₀, hr₀, -, hlt⟩
      cases hr₀
      omega
    | @erased r hp hc hcont _ =>
      refine Or.inl ⟨?_, applyChange_ignored hp hc⟩
      rintro ⟨-, -, r₀, hr₀, hf, -⟩
      cases hr₀
      rw [Row.content, Option.map_eq_none_iff] at hcont
      rw [hcont] at hf
      cases hf

/-! ### After other operations -/

/-- What an operation that keeps the row does to it: nothing, it clears the flag, or it raises the version. -/
def Moves (e e' : Entry jsonHash) : Prop :=
  e' = e ∨ (∃ r, e = some r ∧ e' = some { r with changed := false }) ∨
    ∃ r', e' = some r' ∧ ∀ r, e = some r → r.version < r'.version

/-- What an operation does to a row: without `PersistDeleted` it may also delete it. -/
def Evolves (persistDeleted : Bool) (e e' : Entry jsonHash) : Prop :=
  Moves e e' ∨ persistDeleted = false ∧ e' = none

omit [LinearOrder Checksum] in
theorem Evolves.moves {e e' : Entry jsonHash} (h : Evolves true e e') : Moves e e' :=
  h.resolve_right fun h => Bool.noConfusion h.1

omit [LinearOrder Checksum] in
theorem moves_save {e e' : Entry jsonHash} {data : Data} (h : LocalStore.save e data = .ok e') : Moves e e' := by
  rcases e with _ | r
  · rw [save_none, Except.ok.injEq] at h
    exact Or.inr (Or.inr ⟨_, h.symm, fun r hr => by cases hr⟩)
  · rw [save_some, Except.ok.injEq] at h
    refine Or.inr (Or.inr ⟨_, h.symm, fun r' hr' => ?_⟩)
    cases hr'
    exact Nat.lt_succ_self _

omit [LinearOrder Checksum] in
theorem moves_remove (e : Entry jsonHash) : Moves e (LocalStore.remove e).1 := by
  rcases e with _ | r
  · exact Or.inl rfl
  · rw [remove_fst_some]
    by_cases hf : r.file.isSome = true
    · rw [if_pos hf]
      refine Or.inr (Or.inr ⟨_, rfl, fun r' hr' => ?_⟩)
      cases hr'
      exact Nat.lt_succ_self _
    · rw [if_neg hf]
      exact Or.inl rfl

omit [LinearOrder Checksum] in
theorem evolves_markUnchangedImpl (p : Bool) (e : Entry jsonHash) (version : ℕ) (isDelete : Bool) :
    Evolves p e (markUnchangedImpl p e version isDelete) := by
  rcases e with _ | r
  · rw [markUnchangedImpl_none]
    exact Or.inl (Or.inl rfl)
  · by_cases hv : r.version = version
    · by_cases hd : (isDelete && !p) = true
      · -- the row is deleted, unless it holds data
        rw [Bool.and_eq_true, Bool.not_eq_true'] at hd
        obtain ⟨rfl, rfl⟩ := hd
        by_cases hf : r.file = none
        · exact Or.inr ⟨rfl, markUnchangedImpl_delete hv hf⟩
        · refine Or.inl (Or.inl ?_)
          simp [markUnchangedImpl, Option.filter, hf]
      · refine Or.inl (Or.inr (Or.inl ⟨r, rfl, ?_⟩))
        simp [markUnchangedImpl, hd, hv]
    · rw [markUnchangedImpl_ne p hv]
      exact Or.inl (Or.inl rfl)

theorem evolves_applyChange (d : Defaults Data) (e : Entry jsonHash) (c : Change Data) :
    Evolves d.persistDeleted e (applyChange d e c) := by
  rcases h : syncChange d e c with ex | e'
  · rw [applyChange_of_error h]
    exact Or.inl (Or.inl rfl)
  · rw [applyChange_of_ok h]
    cases syncChange_outcome h with
    | newer _ => exact Or.inl (Or.inl rfl)
    | ignored _ _ => exact Or.inl (Or.inl rfl)
    | @taken _ r' hv _ hi _ =>
      have hv' : r'.version = c.version := congrArg Versioned.version hi
      exact Or.inl (Or.inr (Or.inr ⟨r', rfl, fun r hr => by rw [hv']; exact hv r hr⟩))
    | @identical r _ _ _ => exact Or.inl (Or.inr (Or.inl ⟨r, rfl, rfl⟩))
    | @echo r r' _ _ _ hv hi _ =>
      have hv' : r'.version = c.version := congrArg Versioned.version hi
      refine Or.inl (Or.inr (Or.inr ⟨r', rfl, fun r₀ hr₀ => ?_⟩))
      cases hr₀
      omega
    | @tie r r' hv _ _ hv' _ =>
      refine Or.inl (Or.inr (Or.inr ⟨r', rfl, fun r₀ hr₀ => ?_⟩))
      cases hr₀
      omega
    | erased hp _ _ _ => exact Or.inr ⟨hp, rfl⟩

/-- The row is not below the change, which has no effect on it. -/
def Settled (d : Defaults Data) (c : Change Data) (e : Entry jsonHash) : Prop :=
  ∃ r, e = some r ∧ c.version ≤ r.version ∧ applyChange d (some r) c = some r

theorem settled_applyChange {d : Defaults Data} (hp : d.persistDeleted = true) (e : Entry jsonHash)
    (c : Change Data) : Settled d c (applyChange d e c) := by
  have htwice : applyChange d (applyChange d e c) c = applyChange d e c := by
    rcases applyChange_cases d e c with ⟨-, h⟩ | ⟨hx, -⟩
    · exact h
    · rw [hx.1] at hp
      cases hp
  -- the row exists and is not below the change
  obtain ⟨r, hr, hle⟩ : ∃ r, applyChange d e c = some r ∧ c.version ≤ r.version := by
    rcases h : syncChange d e c with ex | e'
    · obtain ⟨r, rfl, hv, -⟩ := syncChange_error h
      exact ⟨r, applyChange_of_error h, hv.ge⟩
    · rw [applyChange_of_ok h]
      cases syncChange_outcome h with
      | @newer r hv => exact ⟨r, rfl, hv.le⟩
      | ignored hp' _ => rw [hp] at hp'; cases hp'
      | @taken _ r' _ _ hi _ => exact ⟨r', rfl, (congrArg Versioned.version hi).ge⟩
      | @identical r _ hv _ => exact ⟨_, rfl, hv.ge⟩
      | echo hp' _ _ _ _ _ => rw [hp] at hp'; cases hp'
      | @tie _ r' _ _ _ hv' _ => exact ⟨r', rfl, by omega⟩
      | erased hp' _ _ _ => rw [hp] at hp'; cases hp'
  rw [hr] at htwice
  exact ⟨r, hr, hle, htwice⟩

/-- A change without effect stays without effect. -/
theorem Settled.moves {d : Defaults Data} (hp : d.persistDeleted = true) {c : Change Data}
    {e e' : Entry jsonHash} (h : Settled d c e) (hm : Moves e e') : Settled d c e' := by
  obtain ⟨r, rfl, hle, hr⟩ := h
  rcases hm with rfl | ⟨r₀, hr₀, rfl⟩ | ⟨r', rfl, hv⟩
  · exact ⟨r, rfl, hle, hr⟩
  · cases hr₀
    refine ⟨_, rfl, hle, ?_⟩
    rcases hle.lt_or_eq with hlt | heq
    · exact applyChange_newer d hlt
    · rcases h : syncChange d (some r) c with ex | e'
      · obtain ⟨r₁, hr₁, -, -, h1⟩ := syncChange_error h
        cases hr₁
        exact applyChange_of_error h1
      · -- only a row that is unchanged already is found identical and kept
        rw [applyChange_of_ok h] at hr
        generalize hs : (some r : Entry jsonHash) = e₁ at h
        cases syncChange_outcome h with
        | newer hv => cases hs; omega
        | ignored _ _ => cases hs
        | taken hv _ _ _ => exact absurd (hv r hs.symm) (by omega)
        | @identical r₁ hp' hv hc =>
          have h1 : r = r₁ := Option.some.inj hs
          subst h1
          exact applyChange_identical (r := { r with changed := false }) hp' hv hc
        | echo hp' _ _ _ _ _ => rw [hp] at hp'; cases hp'
        | tie _ _ _ hv' _ => cases hr; omega
        | erased _ _ _ _ => cases hr
  · have hlt := hv r rfl
    exact ⟨r', rfl, by omega, applyChange_newer d (by omega)⟩

end SyncController

/-! ### The table -/

/-- The operations on the table between two deliveries. -/
inductive StoreOp (Data : Type*)
  | save (key : ObjectKey) (data : Data)
  | remove (key : ObjectKey)
  | clear (typeName : QByteArray)
  | markUnchanged (key : ObjectKey) (version : ℕ) (isDelete : Bool)
  | syncChange (c : Change Data)

namespace DataIndex

open LocalStore SyncController

/-- `syncChange` on the table, with the rollback. -/
def applyChange (d : Defaults Data) (index : DataIndex jsonHash) (c : Change Data) : DataIndex jsonHash :=
  match DataIndex.syncChange d index c with
  | .ok index' => index'
  | .error _ => index

/-- The table after an operation. -/
def run (d : Defaults Data) (index : DataIndex jsonHash) : StoreOp Data → DataIndex jsonHash
  | .save key data =>
    match DataIndex.save index key data with
    | .ok index' => index'
    | .error _ => index
  | .remove key => (DataIndex.remove index key).1
  | .clear typeName => DataIndex.clear index typeName
  | .markUnchanged key version isDelete => DataIndex.markUnchanged d.persistDeleted index key version isDelete
  | .syncChange c => applyChange d index c

theorem applyChange_eq (d : Defaults Data) (index : DataIndex jsonHash) (c : Change Data) :
    applyChange d index c = Function.update index c.key (SyncController.applyChange d (index c.key) c) := by
  rcases h : SyncController.syncChange d (index c.key) c with ex | e
  · rw [applyChange_of_error h, Function.update_eq_self]
    simp only [applyChange, DataIndex.syncChange, h, Except.map]
  · rw [applyChange_of_ok h]
    simp only [applyChange, DataIndex.syncChange, h, Except.map]

/-- The operation is about the key. -/
def Touches (key : ObjectKey) : StoreOp Data → Prop
  | .save k _ => key = k
  | .remove k => key = k
  | .clear typeName => key.typeName = typeName
  | .markUnchanged k _ _ => key = k
  | .syncChange c => key = c.key

/-- What the operation does to the row of a key it is about. -/
def runEntry (d : Defaults Data) (e : Entry jsonHash) : StoreOp Data → Entry jsonHash
  | .save _ data => (LocalStore.save e data).toOption.getD e
  | .remove _ => (LocalStore.remove e).1
  | .clear _ => LocalStore.clear e
  | .markUnchanged _ version isDelete => markUnchangedImpl d.persistDeleted e version isDelete
  | .syncChange c => SyncController.applyChange d e c

/-- Every operation works row by row. -/
theorem run_apply (d : Defaults Data) (index : DataIndex jsonHash) (op : StoreOp Data) (key : ObjectKey) :
    Touches key op ∧ run d index op key = runEntry d (index key) op ∨
      ¬ Touches key op ∧ run d index op key = index key := by
  cases op with
  | save k data =>
    rcases eq_or_ne key k with rfl | hne
    · obtain ⟨e, he⟩ := exists_save (index key) data
      exact Or.inl ⟨rfl, by simp [run, runEntry, DataIndex.save, he, Except.map, Except.toOption]⟩
    · obtain ⟨e, he⟩ := exists_save (index k) data
      exact Or.inr ⟨hne, by simp [run, DataIndex.save, he, Except.map, hne]⟩
  | remove k =>
    rcases eq_or_ne key k with rfl | hne
    · exact Or.inl ⟨rfl, Function.update_self _ _ _⟩
    · exact Or.inr ⟨hne, Function.update_of_ne hne _ _⟩
  | clear typeName =>
    by_cases ht : key.typeName = typeName
    · exact Or.inl ⟨ht, if_pos ht⟩
    · exact Or.inr ⟨ht, if_neg ht⟩
  | markUnchanged k version isDelete =>
    rcases eq_or_ne key k with rfl | hne
    · exact Or.inl ⟨rfl, Function.update_self _ _ _⟩
    · exact Or.inr ⟨hne, Function.update_of_ne hne _ _⟩
  | syncChange c =>
    simp only [run, applyChange_eq]
    rcases eq_or_ne key c.key with rfl | hne
    · exact Or.inl ⟨rfl, Function.update_self _ _ _⟩
    · exact Or.inr ⟨hne, Function.update_of_ne hne _ _⟩

theorem evolves_runEntry (d : Defaults Data) (e : Entry jsonHash) (op : StoreOp Data) :
    Evolves d.persistDeleted e (runEntry d e op) := by
  cases op with
  | save k data =>
    obtain ⟨e', he⟩ := exists_save e data
    simp only [runEntry, he, Except.toOption, Option.getD_some]
    exact Or.inl (moves_save he)
  | remove k => exact Or.inl (moves_remove _)
  | clear typeName =>
    simp only [runEntry, clear_eq_remove]
    exact Or.inl (moves_remove _)
  | markUnchanged k version isDelete => exact evolves_markUnchangedImpl _ _ _ _
  | syncChange c => exact evolves_applyChange d _ c

theorem evolves_run (d : Defaults Data) (index : DataIndex jsonHash) (op : StoreOp Data) (key : ObjectKey) :
    Evolves d.persistDeleted (index key) (run d index op key) := by
  rcases run_apply d index op key with ⟨-, he⟩ | ⟨-, he⟩
  · rw [he]
    exact evolves_runEntry d _ op
  · rw [he]
    exact Or.inl (Or.inl rfl)

theorem moves_run {d : Defaults Data} (hp : d.persistDeleted = true) (index : DataIndex jsonHash)
    (op : StoreOp Data) (k : ObjectKey) : Moves (index k) (run d index op k) := by
  have h := evolves_run d index op k
  rw [hp] at h
  exact h.moves

/-- Only `save` and `syncChange` make a row, and a received change makes it as it is. -/
theorem run_of_none {d : Defaults Data} {index : DataIndex jsonHash} {op : StoreOp Data} {key : ObjectKey}
    {r : Row jsonHash} (hk : index key = none) (hr : run d index op key = some r) :
    (∃ data, op = .save key data) ∨
      ∃ c, op = .syncChange c ∧ c.key = key ∧ r.item = c.item ∧ r.changed = false := by
  rcases run_apply d index op key with ⟨ht, he⟩ | ⟨-, he⟩
  · rw [he, hk] at hr
    cases op with
    | save k data => exact Or.inl ⟨data, by rw [show key = k from ht]⟩
    | remove k => cases hr
    | clear typeName => cases hr
    | markUnchanged k version isDelete =>
      rw [runEntry, markUnchangedImpl_none] at hr
      cases hr
    | syncChange c =>
      refine Or.inr ⟨c, rfl, ht.symm, ?_⟩
      rw [runEntry] at hr
      rcases h : SyncController.syncChange d (none : Entry jsonHash) c with ex | e'
      · rw [applyChange_of_error h] at hr
        cases hr
      · rw [applyChange_of_ok h] at hr
        subst hr
        cases syncChange_outcome h with
        | taken _ _ hi hch => exact ⟨hi, hch⟩
  · rw [he, hk] at hr
    cases hr

omit [LinearOrder Checksum] in
/-- An unchanged row that `remove` leaves was there before. -/
theorem remove_unchanged {e : Entry jsonHash} {r : Row jsonHash} (hr : (LocalStore.remove e).1 = some r)
    (hch : r.changed = false) : e = some r := by
  rcases e with _ | r₀
  · cases hr
  · rw [remove_fst_some] at hr
    split_ifs at hr
    · cases hr
      cases hch
    · exact hr

/-- An unchanged row was there before, was acknowledged, or comes from a received change. -/
theorem run_unchanged {d : Defaults Data} {index : DataIndex jsonHash} {op : StoreOp Data} {key : ObjectKey}
    {r : Row jsonHash} (hr : run d index op key = some r) (hch : r.changed = false) :
    index key = some r ∨
      (∃ version isDelete, op = .markUnchanged key version isDelete) ∨
      ∃ c, op = .syncChange c ∧ c.key = key ∧ (r.item = c.item ∨ ∃ r₀, index key = some r₀ ∧
        r.item = r₀.item ∧ r₀.version = c.version ∧ r₀.content.map jsonHash = c.data.map jsonHash) := by
  rcases run_apply d index op key with ⟨ht, he⟩ | ⟨-, he⟩
  · rw [he] at hr
    cases op with
    | save k data =>
      rcases h₀ : index key with _ | r₀ <;> rw [h₀] at hr <;> cases hr <;> cases hch
    | remove k => exact Or.inl (remove_unchanged hr hch)
    | clear typeName =>
      rw [runEntry, clear_eq_remove] at hr
      exact Or.inl (remove_unchanged hr hch)
    | markUnchanged k version isDelete =>
      exact Or.inr (Or.inl ⟨version, isDelete, by rw [show key = k from ht]⟩)
    | syncChange c =>
      rw [runEntry] at hr
      rcases h : SyncController.syncChange d (index key) c with ex | e'
      · rw [applyChange_of_error h] at hr
        exact Or.inl hr
      · rw [applyChange_of_ok h] at hr
        subst hr
        rcases syncChange_unchanged_cases h hch with h₀ | hi | ⟨r₀, hr₀, h₀⟩
        · exact Or.inl h₀
        · exact Or.inr (Or.inr ⟨c, rfl, ht.symm, Or.inl hi⟩)
        · exact Or.inr (Or.inr ⟨c, rfl, ht.symm, Or.inr ⟨r₀, hr₀, h₀⟩⟩)
  · rw [he] at hr
    exact Or.inl hr

/-- **Redelivery.**  A change applied twice leaves the table as applied once, except that a deletion that is not to be
kept and has deleted an older object is dropped again.  With `PersistDeleted` a change that was applied once has no
effect after any operations. -/
theorem redelivery (d : Defaults Data) (index : DataIndex jsonHash) (c : Change Data) :
    (applyChange d (applyChange d index c) c = applyChange d index c ↔ ¬ Echoes d (index c.key) c) ∧
    (Echoes d (index c.key) c → (∃ r, applyChange d index c c.key = some r) ∧
      applyChange d (applyChange d index c) c c.key = none) ∧
    (d.persistDeleted = true → ∀ ops : List (StoreOp Data),
      applyChange d (ops.foldl (run d) (applyChange d index c)) c = ops.foldl (run d) (applyChange d index c)) := by
  have h2 : applyChange d (applyChange d index c) c = Function.update index c.key
      (SyncController.applyChange d (SyncController.applyChange d (index c.key) c) c) := by
    rw [applyChange_eq, applyChange_eq, Function.update_self, Function.update_idem]
  refine ⟨?_, ?_, ?_⟩
  · rw [h2, applyChange_eq]
    rcases applyChange_cases d (index c.key) c with ⟨hn, he⟩ | ⟨hx, ⟨r, hr⟩, hnone⟩
    · rw [he]
      exact ⟨fun _ => hn, fun _ => rfl⟩
    · refine ⟨fun h => ?_, fun hn => absurd hx hn⟩
      have := congrFun h c.key
      rw [Function.update_self, Function.update_self, hr, ← hr, hnone, hr] at this
      cases this
  · intro hx
    rw [h2, applyChange_eq, Function.update_self, Function.update_self]
    rcases applyChange_cases d (index c.key) c with ⟨hn, -⟩ | ⟨-, hr, hnone⟩
    · exact absurd hx hn
    · exact ⟨hr, hnone⟩
  · intro hp ops
    -- the row of the key stays settled
    have hset : Settled d c (ops.foldl (run d) (applyChange d index c) c.key) := by
      induction ops using List.reverseRecOn with
      | nil =>
        rw [List.foldl_nil, applyChange_eq, Function.update_self]
        exact settled_applyChange hp _ c
      | append_singleton ops op ih =>
        rw [List.foldl_append, List.foldl_cons, List.foldl_nil]
        exact ih.moves hp (moves_run hp _ op c.key)
    obtain ⟨r, hr, -, he⟩ := hset
    rw [applyChange_eq, hr, he, ← hr, Function.update_eq_self]

/-- A deletion of version 2 is delivered twice to a device that holds the object at version 1 and does not keep
deleted objects: the second delivery removes the deletion, which was still to be uploaded. -/
theorem redelivery_drops_deletion : ¬ ∀ (d : Defaults ℕ) (index : DataIndex (fun n : ℕ => n)) (c : Change ℕ),
    applyChange d (applyChange d index c) c c.key = applyChange d index c c.key := by
  intro h
  have h1 := congrArg Option.isSome (h ⟨false, .PreferChanged, none⟩
    (fun _ => some ⟨1, some (.write 5), false⟩) ⟨⟨[1], "a"⟩, 2, none⟩)
  revert h1
  decide

end DataIndex

end QtDataSync
