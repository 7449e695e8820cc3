import Mathlib.Data.List.AList
import QtDataSync.Store.SyncController

/-!
# Store.ChangeController — uploads of the local changes

The local database with its second table `DeviceUploads` (the changes that are to be sent to one device only), the
queries `loadChanges` visits, and `ChangeController` with its active uploads.  SQL returns rows in any order and a
`LIMIT` cuts off any of them, so the rows a query returns are an argument (`changedRows`, `deviceRows`) with what the
`WHERE` clause promises of them.  A row of `DataIndex` that is deleted takes its `DeviceUploads` rows with it.
-/

namespace QtDataSync

section

variable {Dev Data Checksum : Type*} {jsonHash : Data → Checksum}

/-- The tables of `LocalStore`. -/
structure LocalDatabase (Dev : Type*) {Data Checksum : Type*} (jsonHash : Data → Checksum) where
  dataIndex : DataIndex jsonHash
  deviceUploads : ObjectKey → Dev → Bool

namespace LocalDatabase

def empty : LocalDatabase Dev jsonHash := ⟨fun _ => none, fun _ _ => false⟩

/-- `DataIndex` is written; the foreign key of `DeviceUploads` cascades. -/
def write (db : LocalDatabase Dev jsonHash) (index : DataIndex jsonHash) : LocalDatabase Dev jsonHash where
  dataIndex := index
  deviceUploads k d := db.deviceUploads k d && (index k).isSome

/-- `LocalStore::prepareAccountAdded`. -/
def prepareAccountAdded [DecidableEq Dev] (db : LocalDatabase Dev jsonHash) (deviceId : Dev) :
    LocalDatabase Dev jsonHash :=
  { db with deviceUploads := fun k d => db.deviceUploads k d || (d == deviceId && (db.dataIndex k).isSome) }

/-- `LocalStore::removeDeviceChange`. -/
def removeDeviceChange [DecidableEq Dev] (db : LocalDatabase Dev jsonHash) (key : ObjectKey)
    (deviceId : Dev) : LocalDatabase Dev jsonHash :=
  { db with deviceUploads := fun k d => db.deviceUploads k d && !(k == key && d == deviceId) }

/-- `SELECT .. FROM DataIndex WHERE Changed = 1 LIMIT ?` returns these keys. -/
structure ChangedRows (db : LocalDatabase Dev jsonHash) (limit : ℕ) (keys : List ObjectKey) : Prop where
  nodup : keys.Nodup
  changed : ∀ k ∈ keys, ∃ r, db.dataIndex k = some r ∧ r.changed = true
  length_le : keys.length ≤ limit
  complete : keys.length < limit → ∀ k r, db.dataIndex k = some r → r.changed = true → k ∈ keys

/-- `SELECT .. FROM DeviceUploads INNER JOIN DataIndex .. WHERE NOT (Changed = 1 AND File IS NULL) LIMIT ?` returns
these keys and devices. -/
structure DeviceRows (db : LocalDatabase Dev jsonHash) (limit : ℕ) (rows : List (ObjectKey × Dev)) : Prop where
  nodup : rows.Nodup
  listed : ∀ x ∈ rows, db.deviceUploads x.1 x.2 = true ∧
    ∃ r, db.dataIndex x.1 = some r ∧ ¬ (r.changed = true ∧ r.file = none)
  length_le : rows.length ≤ limit
  complete : rows.length < limit → ∀ k d r, db.deviceUploads k d = true → db.dataIndex k = some r →
    ¬ (r.changed = true ∧ r.file = none) → (k, d) ∈ rows

end LocalDatabase

/-- A row as `loadChanges` hands it to its visitor, with the JSON that `readJson` reads from the file; `device` is
the null id for a change that is for all devices. -/
structure LoadedChange (Dev Data : Type*) where
  key : ObjectKey
  version : ℕ
  content : Option Data
  device : Option Dev

/-- The visited rows up to the first one at which the visitor stops, and whether it did not. -/
def visitAll {σ α : Type*} (visitor : σ → α → σ × Bool) : σ → List α → σ × Bool
  | s, [] => (s, true)
  | s, x :: xs => if (visitor s x).2 then visitAll visitor (visitor s x).1 xs else ((visitor s x).1, false)

/-- What every visit keeps is kept by all. -/
theorem visitAll_invariant {σ α : Type*} {visitor : σ → α → σ × Bool} {P : σ → Prop} {l : List α} {s : σ}
    (hs : P s) (hv : ∀ s, ∀ x ∈ l, P s → P (visitor s x).1) : P (visitAll visitor s l).1 := by
  induction l generalizing s with
  | nil => exact hs
  | cons x xs ih =>
    have hx := hv s x List.mem_cons_self hs
    rw [visitAll]
    split
    · exact ih hx fun s y hy => hv s y (List.mem_cons_of_mem _ hy)
    · exact hx

namespace LocalDatabase

/-- The row of the key as a visitor sees it. -/
def load (db : LocalDatabase Dev jsonHash) (key : ObjectKey) (device : Option Dev) :
    Option (LoadedChange Dev Data) :=
  (db.dataIndex key).map fun r => ⟨key, r.version, r.content, device⟩

/-- `LocalStore::loadChanges`, with the rows its two queries return. -/
def loadChanges {σ : Type*} (db : LocalDatabase Dev jsonHash) (limit : ℕ) (changedRows : List ObjectKey)
    (deviceRows : List (ObjectKey × Dev)) (visitor : σ → LoadedChange Dev Data → σ × Bool) (s : σ) : σ :=
  let s' := visitAll visitor s (changedRows.filterMap fun k => db.load k none)
  if s'.2 && decide (changedRows.length < limit) then
    (visitAll visitor s'.1 (deviceRows.filterMap fun x => db.load x.1 (some x.2))).1
  else s'.1

theorem loadChanges_invariant {σ : Type*} {db : LocalDatabase Dev jsonHash} {limit : ℕ}
    {changedRows : List ObjectKey} {deviceRows : List (ObjectKey × Dev)}
    {visitor : σ → LoadedChange Dev Data → σ × Bool} {P : σ → Prop} {s : σ} (hs : P s)
    (hc : ∀ s, ∀ k ∈ changedRows, ∀ x, db.load k none = some x → P s → P (visitor s x).1)
    (hd : ∀ s, ∀ y ∈ deviceRows, ∀ x, db.load y.1 (some y.2) = some x → P s → P (visitor s x).1) :
    P (db.loadChanges limit changedRows deviceRows visitor s) := by
  have h1 : P (visitAll visitor s (changedRows.filterMap fun k => db.load k none)).1 := by
    refine visitAll_invariant hs fun s x hx => ?_
    obtain ⟨k, hk, hx⟩ := List.mem_filterMap.mp hx
    exact hc s k hk x hx
  simp only [loadChanges]
  split
  · refine visitAll_invariant h1 fun s x hx => ?_
    obtain ⟨y, hy, hx⟩ := List.mem_filterMap.mp hx
    exact hd s y hy x hx
  · exact h1

end LocalDatabase

namespace ChangeController

/-- `ChangeController::UploadInfo`, with the change that was handed to `uploadChange` or `uploadDeviceChange`. -/
structure UploadInfo (Data : Type*) where
  key : ObjectKey
  version : ℕ
  isDelete : Bool
  payload : Change Data
deriving DecidableEq

end ChangeController

/-- `_activeUploads` (a `CachedObjectKey` is compared by the hash of its key and its device) and the limit the server
has announced. -/
structure ChangeController (Dev Data : Type*) where
  activeUploads : AList fun _ : QByteArray × Option Dev => ChangeController.UploadInfo Data
  uploadLimit : ℕ

namespace ChangeController

variable [DecidableEq Dev] (hashed : ObjectKey → QByteArray)

/-- `ChangeController::clearUploads`. -/
def clearUploads (cc : ChangeController Dev Data) : ChangeController Dev Data := { cc with activeUploads := ∅ }

/-- `ChangeController::updateUploadLimit`. -/
def updateUploadLimit (cc : ChangeController Dev Data) (limit : ℕ) : ChangeController Dev Data :=
  { cc with uploadLimit := limit }

def size (cc : ChangeController Dev Data) : ℕ := cc.activeUploads.entries.length

/-- The visitor of `uploadNext`: the change becomes active and is handed to `uploadChange` or, with a device, to
`uploadDeviceChange`; rows are visited as long as there is free space. -/
def upload (cc : ChangeController Dev Data) (x : LoadedChange Dev Data) : ChangeController Dev Data × Bool :=
  let key := (hashed x.key, x.device)
  if (cc.activeUploads.lookup key).isSome then (cc, true)
  else
    let cc' := { cc with activeUploads :=
      cc.activeUploads.insert key ⟨x.key, x.version, x.content.isNone, ⟨x.key, x.version, x.content⟩⟩ }
    (cc', decide (cc'.size < cc'.uploadLimit))

/-- `ChangeController::uploadNext`, with the rows that `loadChanges` finds. -/
def uploadNext (cc : ChangeController Dev Data) (db : LocalDatabase Dev jsonHash)
    (changedRows : List ObjectKey) (deviceRows : List (ObjectKey × Dev)) : ChangeController Dev Data :=
  if cc.uploadLimit ≤ cc.size then cc
  else db.loadChanges cc.uploadLimit changedRows deviceRows (upload hashed) cc

/-- `ChangeController::uploadDone`; an unknown key is ignored. -/
def uploadDone (persistDeleted : Bool) (cc : ChangeController Dev Data) (db : LocalDatabase Dev jsonHash)
    (key : QByteArray) : ChangeController Dev Data × LocalDatabase Dev jsonHash :=
  match cc.activeUploads.lookup (key, none) with
  | none => (cc, db)
  | some info =>
    ({ cc with activeUploads := cc.activeUploads.erase (key, none) },
      db.write (DataIndex.markUnchanged persistDeleted db.dataIndex info.key info.version info.isDelete))

/-- `ChangeController::deviceUploadDone`. -/
def deviceUploadDone (cc : ChangeController Dev Data) (db : LocalDatabase Dev jsonHash) (key : QByteArray)
    (deviceId : Dev) : ChangeController Dev Data × LocalDatabase Dev jsonHash :=
  match cc.activeUploads.lookup (key, some deviceId) with
  | none => (cc, db)
  | some info =>
    ({ cc with activeUploads := cc.activeUploads.erase (key, some deviceId) },
      db.removeDeviceChange info.key deviceId)

/-! ### What the operations do -/

variable {hashed} {cc : ChangeController Dev Data} {db : LocalDatabase Dev jsonHash}

/-- The upload of a row of the database as `loadChanges` finds it. -/
def Loaded (hashed : ObjectKey → QByteArray) (db : LocalDatabase Dev jsonHash)
    (key : QByteArray × Option Dev) (info : UploadInfo Data) : Prop :=
  key.1 = hashed info.key ∧ ∃ r, db.dataIndex info.key = some r ∧
    info = ⟨info.key, r.version, r.content.isNone, ⟨info.key, r.version, r.content⟩⟩ ∧
    match key.2 with
    | none => r.changed = true
    | some d => db.deviceUploads info.key d = true ∧ ¬ (r.changed = true ∧ r.file = none)

variable (hashed) in
/-- One visit adds at most the row it is called for, if it is not active. -/
theorem lookup_upload (c : ChangeController Dev Data) (x : LoadedChange Dev Data)
    (key : QByteArray × Option Dev) :
    (upload hashed c x).1.activeUploads.lookup key = c.activeUploads.lookup key ∨
      (c.activeUploads.lookup key = none ∧ key = (hashed x.key, x.device) ∧
        (upload hashed c x).1.activeUploads.lookup key =
          some ⟨x.key, x.version, x.content.isNone, ⟨x.key, x.version, x.content⟩⟩) := by
  simp only [upload]
  split
  · exact Or.inl rfl
  · by_cases hk : key = (hashed x.key, x.device)
    · subst hk
      refine Or.inr ⟨Option.not_isSome_iff_eq_none.mp ‹_›, rfl, AList.lookup_insert _⟩
    · exact Or.inl (AList.lookup_insert_ne hk)

variable (hashed) in
/-- **What `uploadNext` does**: active uploads stay as they are, and what is new is a row of the database. -/
theorem lookup_uploadNext {changedRows : List ObjectKey} {deviceRows : List (ObjectKey × Dev)}
    (hc : db.ChangedRows cc.uploadLimit changedRows)
    (hd : db.DeviceRows (cc.uploadLimit - changedRows.length) deviceRows)
    (key : QByteArray × Option Dev) :
    (uploadNext hashed cc db changedRows deviceRows).activeUploads.lookup key =
      cc.activeUploads.lookup key ∨
    (cc.activeUploads.lookup key = none ∧ ∃ info,
      (uploadNext hashed cc db changedRows deviceRows).activeUploads.lookup key = some info ∧
      Loaded hashed db key info) := by
  unfold uploadNext
  split
  · exact Or.inl rfl
  · refine LocalDatabase.loadChanges_invariant (P := fun c : ChangeController Dev Data =>
      c.activeUploads.lookup key = cc.activeUploads.lookup key ∨
      (cc.activeUploads.lookup key = none ∧ ∃ info, c.activeUploads.lookup key = some info ∧
        Loaded hashed db key info)) (Or.inl rfl) ?_ ?_
    · intro c k hk x hx hP
      obtain ⟨r, hr, hch⟩ := hc.changed k hk
      rw [LocalDatabase.load, hr, Option.map_some, Option.some.injEq] at hx
      subst hx
      rcases lookup_upload hashed c ⟨k, r.version, r.content, none⟩ key with he | ⟨hn, rfl, he⟩
      · rw [he]
        exact hP
      · refine Or.inr ⟨?_, _, he, rfl, r, hr, rfl, hch⟩
        rcases hP with hP | ⟨hP, -⟩
        · rw [← hP, hn]
        · exact hP
    · intro c y hy x hx hP
      obtain ⟨hl, r, hr, hch⟩ := hd.listed y hy
      rw [LocalDatabase.load, hr, Option.map_some, Option.some.injEq] at hx
      subst hx
      rcases lookup_upload hashed c ⟨y.1, r.version, r.content, some y.2⟩ key with
        he | ⟨hn, rfl, he⟩
      · rw [he]
        exact hP
      · refine Or.inr ⟨?_, _, he, rfl, r, hr, rfl, hl, hch⟩
        rcases hP with hP | ⟨hP, -⟩
        · rw [← hP, hn]
        · exact hP

/-- What is active after an upload was taken out was active before. -/
theorem lookup_of_lookup_erase {key key' : QByteArray × Option Dev} {info : UploadInfo Data}
    (h : (cc.activeUploads.erase key').lookup key = some info) : cc.activeUploads.lookup key = some info := by
  by_cases hk : key = key'
  · subst hk
    rw [AList.lookup_erase] at h
    cases h
  · rwa [AList.lookup_erase_ne hk] at h

theorem lookup_uploadDone {p : Bool} {key' : QByteArray} {key : QByteArray × Option Dev} {info : UploadInfo Data}
    (h : (uploadDone p cc db key').1.activeUploads.lookup key = some info) :
    cc.activeUploads.lookup key = some info := by
  unfold uploadDone at h
  split at h
  · exact h
  · exact lookup_of_lookup_erase h

theorem lookup_deviceUploadDone {key' : QByteArray} {deviceId : Dev} {key : QByteArray × Option Dev}
    {info : UploadInfo Data} (h : (deviceUploadDone cc db key' deviceId).1.activeUploads.lookup key = some info) :
    cc.activeUploads.lookup key = some info := by
  unfold deviceUploadDone at h
  split at h
  · exact h
  · exact lookup_of_lookup_erase h

end ChangeController

end

end QtDataSync
