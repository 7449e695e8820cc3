import QtDataSync.Lib.Transition
import QtDataSync.Store.ChangeController
import QtDataSync.Store.Growth
import QtDataSync.Store.Redelivery

/-!
# Store.Client — one device

A device is its local database and its `ChangeController`, with every local edit, received change, upload and
acknowledgement as a step.  What a step can do is said once for the rows (`dataIndex_next`, `rowStep_next`), the entries
of `DeviceUploads` (`deviceUploads_next`) and the active uploads (`lookup_next`).
-/

namespace QtDataSync

variable {Dev Data Checksum : Type*} {jsonHash : Data → Checksum}

/-- The stores of one device. -/
structure Client (Dev : Type*) {Data Checksum : Type*} (jsonHash : Data → Checksum) where
  database : LocalDatabase Dev jsonHash
  changeController : ChangeController Dev Data

namespace Client

open SyncController

/-- What happens on a device, in any order. -/
inductive Action (Dev Data : Type*) where
  | save (key : ObjectKey) (data : Data)
  | remove (key : ObjectKey)
  | clear (typeName : QByteArray)
  | syncChange (c : Change Data)
  | prepareAccountAdded (deviceId : Dev)
  | uploadNext (changedRows : List ObjectKey) (deviceRows : List (ObjectKey × Dev))
  | uploadDone (key : QByteArray)
  | deviceUploadDone (key : QByteArray) (deviceId : Dev)
  | clearUploads
  | updateUploadLimit (limit : ℕ)

variable [DecidableEq Dev] [LinearOrder Checksum]

/-- An operation of `LocalStore` in its own transaction. -/
def store (d : Defaults Data) (s : Client Dev jsonHash) (op : StoreOp Data) : Client Dev jsonHash :=
  { s with database := s.database.write (DataIndex.run d s.database.dataIndex op) }

def next (d : Defaults Data) (hashed : ObjectKey → QByteArray) (s : Client Dev jsonHash) :
    Action Dev Data → Client Dev jsonHash
  | .save key data => s.store d (.save key data)
  | .remove key => s.store d (.remove key)
  | .clear typeName => s.store d (.clear typeName)
  | .syncChange c => s.store d (.syncChange c)
  | .prepareAccountAdded deviceId => { s with database := s.database.prepareAccountAdded deviceId }
  | .uploadNext changedRows deviceRows =>
    { s with changeController := s.changeController.uploadNext hashed s.database changedRows deviceRows }
  | .uploadDone key =>
    let (cc, db) := s.changeController.uploadDone d.persistDeleted s.database key
    ⟨db, cc⟩
  | .deviceUploadDone key deviceId =>
    let (cc, db) := s.changeController.deviceUploadDone s.database key deviceId
    ⟨db, cc⟩
  | .clearUploads => { s with changeController := s.changeController.clearUploads }
  | .updateUploadLimit limit => { s with changeController := s.changeController.updateUploadLimit limit }

/-- The rows given to `uploadNext` are those that its queries return. -/
def Queried (s : Client Dev jsonHash) : Action Dev Data → Prop
  | .uploadNext changedRows deviceRows =>
    s.database.ChangedRows s.changeController.uploadLimit changedRows ∧
      s.database.DeviceRows (s.changeController.uploadLimit - changedRows.length) deviceRows
  | _ => True

/-- One device, started with an empty store. -/
def lts (d : Defaults Data) (hashed : ObjectKey → QByteArray) :
    LTS (Client Dev jsonHash) (Action Dev Data) where
  init s := s.database = .empty ∧ s.changeController.activeUploads = ∅
  step s a t := Queried s a ∧ t = next d hashed s a

/-! ### Steps -/

section Steps

variable {d : Defaults Data} {hashed : ObjectKey → QByteArray} {s : Client Dev jsonHash}

/-- The operation of the store that a step performs: its own, or the statement of an acknowledgement. -/
inductive Performs (s : Client Dev jsonHash) : Action Dev Data → StoreOp Data → Prop
  | save (key : ObjectKey) (data : Data) : Performs s (.save key data) (.save key data)
  | remove (key : ObjectKey) : Performs s (.remove key) (.remove key)
  | clear (typeName : QByteArray) : Performs s (.clear typeName) (.clear typeName)
  | syncChange (c : Change Data) : Performs s (.syncChange c) (.syncChange c)
  | uploadDone {key : QByteArray} {info : ChangeController.UploadInfo Data} :
      s.changeController.activeUploads.lookup (key, none) = some info →
      Performs s (.uploadDone key) (.markUnchanged info.key info.version info.isDelete)

/-- **Inversion of `next` on the table.** -/
theorem dataIndex_next (d : Defaults Data) (hashed : ObjectKey → QByteArray) (s : Client Dev jsonHash)
    (a : Action Dev Data) : (next d hashed s a).database.dataIndex = s.database.dataIndex ∨
      ∃ op, Performs s a op ∧ (next d hashed s a).database.dataIndex = DataIndex.run d s.database.dataIndex op := by
  cases a with
  | save key data => exact Or.inr ⟨_, .save key data, rfl⟩
  | remove key => exact Or.inr ⟨_, .remove key, rfl⟩
  | clear typeName => exact Or.inr ⟨_, .clear typeName, rfl⟩
  | syncChange c => exact Or.inr ⟨_, .syncChange c, rfl⟩
  | uploadDone key =>
    rcases hl : s.changeController.activeUploads.lookup (key, none) with _ | info
    · refine Or.inl ?_
      simp only [next, ChangeController.uploadDone, hl]
    · refine Or.inr ⟨_, .uploadDone hl, ?_⟩
      simp only [next, ChangeController.uploadDone, hl]
      rfl
  | deviceUploadDone key deviceId =>
    refine Or.inl ?_
    simp only [next, ChangeController.deviceUploadDone]
    split <;> rfl
  | prepareAccountAdded deviceId => exact Or.inl rfl
  | uploadNext changedRows deviceRows => exact Or.inl rfl
  | clearUploads => exact Or.inl rfl
  | updateUploadLimit limit => exact Or.inl rfl

/-- An active upload after a step was active before or is a row that `uploadNext` has found. -/
theorem lookup_next {a : Action Dev Data} {key : QByteArray × Option Dev}
    {info : ChangeController.UploadInfo Data} (hq : Queried s a)
    (h : (next d hashed s a).changeController.activeUploads.lookup key = some info) :
    s.changeController.activeUploads.lookup key = some info ∨
      s.changeController.activeUploads.lookup key = none ∧ (next d hashed s a).database = s.database ∧
        ChangeController.Loaded hashed s.database key info := by
  cases a with
  | uploadNext changedRows deviceRows =>
    obtain ⟨hc, hd⟩ := hq
    rcases ChangeController.lookup_uploadNext hashed hc hd key with he | ⟨hn, info', he, hl⟩
    · exact Or.inl (he.symm.trans h)
    · have hi : info' = info := Option.some.inj (he.symm.trans h)
      subst hi
      exact Or.inr ⟨hn, rfl, hl⟩
  | uploadDone key' => exact Or.inl (ChangeController.lookup_uploadDone h)
  | deviceUploadDone key' deviceId => exact Or.inl (ChangeController.lookup_deviceUploadDone h)
  | clearUploads =>
    simp only [next, ChangeController.clearUploads, AList.lookup_empty, reduceCtorEq] at h
  | save _ _ => exact Or.inl h
  | remove _ => exact Or.inl h
  | clear _ => exact Or.inl h
  | syncChange _ => exact Or.inl h
  | prepareAccountAdded _ => exact Or.inl h
  | updateUploadLimit _ => exact Or.inl h

theorem evolves_next (d : Defaults Data) (hashed : ObjectKey → QByteArray) (s : Client Dev jsonHash)
    (a : Action Dev Data) (k : ObjectKey) :
    Evolves d.persistDeleted (s.database.dataIndex k) ((next d hashed s a).database.dataIndex k) := by
  rcases dataIndex_next d hashed s a with he | ⟨op, -, he⟩
  · rw [he]
    exact Or.inl (Or.inl rfl)
  · rw [he]
    exact DataIndex.evolves_run d _ op k

end Steps

/-! ### What a step does to a row that stays -/

/-- A received change leaves the row `r` as the unchanged row `r'`: it is stored, or found to be the same. -/
def Adopts (d : Defaults Data) (r : Row jsonHash) (c : Change Data) (r' : Row jsonHash) : Prop :=
  (d.persistDeleted = true ∨ c.data ≠ none) ∧
    (r.version < c.version ∧ r'.item = c.item ∨
      r.changed = true ∧ r.version = c.version ∧ r.content.map jsonHash = c.data.map jsonHash ∧ r'.item = r.item)

/-- What becomes of a row: nothing, a new version that is marked changed, or one that is not. -/
inductive RowStep (d : Defaults Data) (s : Client Dev jsonHash) (a : Action Dev Data) (k : ObjectKey)
    (r : Row jsonHash) : Row jsonHash → Prop
  | same : RowStep d s a k r r
  | raise {r' : Row jsonHash} : r'.changed = true → r.version < r'.version → RowStep d s a k r r'
  | adopt {c : Change Data} {r' : Row jsonHash} : a = .syncChange c → c.key = k → Adopts d r c r' →
      r'.changed = false → RowStep d s a k r r'
  | acknowledge {key : QByteArray} {info : ChangeController.UploadInfo Data} {r' : Row jsonHash} :
      a = .uploadDone key → s.changeController.activeUploads.lookup (key, none) = some info → info.key = k →
      r.version = info.version → r.changed = true → r' = { r with changed := false } → RowStep d s a k r r'

omit [LinearOrder Checksum] in
theorem rowStep_remove {d : Defaults Data} {s : Client Dev jsonHash} {a : Action Dev Data} {k : ObjectKey}
    {r r' : Row jsonHash} (h : (LocalStore.remove (some r)).1 = some r') : RowStep d s a k r r' := by
  rw [LocalStore.remove_fst_some] at h
  split_ifs at h
  · cases h
    exact .raise rfl (Nat.lt_succ_self _)
  · cases h
    exact .same

theorem rowStep_applyChange {d : Defaults Data} {s : Client Dev jsonHash} {c : Change Data}
    {r r' : Row jsonHash} (h : applyChange d (some r) c = some r') :
    RowStep d s (.syncChange c) c.key r r' := by
  rcases hs : syncChange d (some r) c with ex | e'
  · rw [applyChange_of_error hs, Option.some.injEq] at h
    subst h
    exact .same
  · rw [applyChange_of_ok hs] at h
    subst h
    cases syncChange_outcome hs with
    | newer _ => exact .same
    | taken hlt hp hi hch => exact .adopt rfl rfl ⟨hp, Or.inl ⟨hlt r rfl, hi⟩⟩ hch
    | identical hp hv hc =>
      cases hch : r.changed with
      | false =>
        have hr : { r with changed := false } = r := by rw [← hch]
        rw [hr]
        exact .same
      | true => exact .adopt rfl rfl ⟨hp, Or.inr ⟨hch, hv, hc, rfl⟩⟩ rfl
    | echo _ _ _ hlt hi hch =>
      have hv : r'.version = c.version := congrArg Versioned.version hi
      exact .raise hch (by omega)
    | tie hv _ _ hv' hch => exact .raise hch (by omega)

omit [LinearOrder Checksum] in
theorem rowStep_uploadDone {d : Defaults Data} {s : Client Dev jsonHash} {key : QByteArray}
    {info : ChangeController.UploadInfo Data} {r r' : Row jsonHash}
    (hl : s.changeController.activeUploads.lookup (key, none) = some info)
    (h : LocalStore.markUnchangedImpl d.persistDeleted (some r) info.version info.isDelete = some r') :
    RowStep d s (.uploadDone key) info.key r r' := by
  by_cases hv : r.version = info.version
  · have hr' : r' = { r with changed := false } ∨ r' = r := by
      unfold LocalStore.markUnchangedImpl at h
      split at h
      · rw [Option.filter_eq_some_iff] at h
        cases h.1
        exact Or.inr rfl
      · rw [Option.map_some, if_pos hv, Option.some.injEq] at h
        exact Or.inl h.symm
    rcases hr' with rfl | rfl
    · cases hch : r.changed with
      | false =>
        have hr : { r with changed := false } = r := by rw [← hch]
        rw [hr]
        exact .same
      | true => exact .acknowledge rfl hl rfl hv hch rfl
    · exact .same
  · rw [LocalStore.markUnchangedImpl_ne _ hv, Option.some.injEq] at h
    subst h
    exact .same

/-- **Inversion of `next` on a row that stays.** -/
theorem rowStep_next {d : Defaults Data} {hashed : ObjectKey → QByteArray} {s : Client Dev jsonHash}
    {a : Action Dev Data} {k : ObjectKey} {r r' : Row jsonHash} (hr : s.database.dataIndex k = some r)
    (hr' : (next d hashed s a).database.dataIndex k = some r') : RowStep d s a k r r' := by
  rcases dataIndex_next d hashed s a with he | ⟨op, hop, he⟩
  · rw [he, hr, Option.some.injEq] at hr'
    subst hr'
    exact .same
  · rw [he] at hr'
    rcases DataIndex.run_apply d s.database.dataIndex op k with ⟨ht, hrun⟩ | ⟨-, hrun⟩
    · rw [hrun, hr] at hr'
      cases hop with
      | save key data =>
        rw [DataIndex.runEntry, LocalStore.save_some] at hr'
        cases hr'
        exact .raise rfl (Nat.lt_succ_self _)
      | remove key => exact rowStep_remove hr'
      | clear typeName =>
        rw [DataIndex.runEntry, LocalStore.clear_eq_remove] at hr'
        exact rowStep_remove hr'
      | syncChange c =>
        have ht' : k = c.key := ht
        subst ht'
        exact rowStep_applyChange hr'
      | uploadDone hl =>
        have ht' : k = _ := ht
        subst ht'
        exact rowStep_uploadDone hl hr'
    · rw [hrun, hr, Option.some.injEq] at hr'
      subst hr'
      exact .same

omit [DecidableEq Dev] [LinearOrder Checksum] in
theorem deviceUploads_write {db : LocalDatabase Dev jsonHash} {index : DataIndex jsonHash} {k : ObjectKey}
    {deviceId : Dev} (h : (db.write index).deviceUploads k deviceId = true) :
    db.deviceUploads k deviceId = true ∧ ∃ r, (db.write index).dataIndex k = some r := by
  have h' : (db.deviceUploads k deviceId && (index k).isSome) = true := h
  rw [Bool.and_eq_true, Option.isSome_iff_exists] at h'
  exact h'

/-- **Inversion of `next` on `DeviceUploads`**: entries are only made for a device that was added, and they are about
rows. -/
theorem deviceUploads_next {d : Defaults Data} {hashed : ObjectKey → QByteArray} {s : Client Dev jsonHash}
    {a : Action Dev Data} {k : ObjectKey} {deviceId : Dev}
    (h : (next d hashed s a).database.deviceUploads k deviceId = true) :
    (s.database.deviceUploads k deviceId = true ∨ a = .prepareAccountAdded deviceId) ∧
      ((∃ r, (next d hashed s a).database.dataIndex k = some r) ∨
        s.database.deviceUploads k deviceId = true ∧
          (next d hashed s a).database.dataIndex k = s.database.dataIndex k) := by
  have hwrite : ∀ {index : DataIndex jsonHash}, (s.database.write index).deviceUploads k deviceId = true →
      (s.database.deviceUploads k deviceId = true ∨ a = .prepareAccountAdded deviceId) ∧
        ((∃ r, (s.database.write index).dataIndex k = some r) ∨
          s.database.deviceUploads k deviceId = true ∧
            (s.database.write index).dataIndex k = s.database.dataIndex k) :=
    fun h => ⟨Or.inl (deviceUploads_write h).1, Or.inl (deviceUploads_write h).2⟩
  cases a with
  | save key data => exact hwrite h
  | remove key => exact hwrite h
  | clear typeName => exact hwrite h
  | syncChange c => exact hwrite h
  | prepareAccountAdded deviceId' =>
    have h' : (s.database.deviceUploads k deviceId ||
      (deviceId == deviceId' && (s.database.dataIndex k).isSome)) = true := h
    rw [Bool.or_eq_true, Bool.and_eq_true, beq_iff_eq, Option.isSome_iff_exists] at h'
    rcases h' with h' | ⟨rfl, hr⟩
    · exact ⟨Or.inl h', Or.inr ⟨h', rfl⟩⟩
    · exact ⟨Or.inr rfl, Or.inl hr⟩
  | uploadNext changedRows deviceRows => exact ⟨Or.inl h, Or.inr ⟨h, rfl⟩⟩
  | uploadDone key =>
    simp only [next, ChangeController.uploadDone] at h ⊢
    cases hl : s.changeController.activeUploads.lookup (key, none) with
    | none =>
      rw [hl] at h
      exact ⟨Or.inl h, Or.inr ⟨h, rfl⟩⟩
    | some info =>
      rw [hl] at h
      exact hwrite h
  | deviceUploadDone key deviceId' =>
    simp only [next, ChangeController.deviceUploadDone] at h ⊢
    cases hl : s.changeController.activeUploads.lookup (key, some deviceId') with
    | none =>
      rw [hl] at h
      exact ⟨Or.inl h, Or.inr ⟨h, rfl⟩⟩
    | some info =>
      rw [hl] at h
      have h' : (s.database.deviceUploads k deviceId && !(k == info.key && deviceId == deviceId')) = true := h
      rw [Bool.and_eq_true] at h'
      exact ⟨Or.inl h'.1, Or.inr ⟨h'.1, rfl⟩⟩
  | clearUploads => exact ⟨Or.inl h, Or.inr ⟨h, rfl⟩⟩
  | updateUploadLimit limit => exact ⟨Or.inl h, Or.inr ⟨h, rfl⟩⟩

end Client

end QtDataSync
