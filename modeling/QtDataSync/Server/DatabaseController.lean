import QtDataSync.Lib.Transition
import QtDataSync.Server.Schema

/-!
# Server.DatabaseController — the transactions of the server

The transactions of `databasecontroller.cpp` that write `users`, `devices`, `datachanges` and `devicechanges`, and
`loadNextChanges`.  An error of a statement rolls the transaction back.  Every device a change is stored for keeps a
`devicechanges` row that leads to it (`Held`) through all of them, except those that are about exactly this row.
-/

namespace QtDataSync.Server

variable {Dev : Type*} [DecidableEq Dev]

namespace DatabaseController

/-- `addNewDevice`; `quota` is the default of `quotalimit`. -/
def addNewDevice (db : Database Dev) (quota : ℕ) (deviceId : Dev) (today : ℕ) :
    Except SqlError (Database Dev) := do
  let (db, userId) ← db.insertUser quota
  db.insertDevice deviceId (some userId) today

def addNewDeviceToUser (db : Database Dev) (newDeviceId partnerDeviceId : Dev) (today : ℕ) :
    Except SqlError (Database Dev) :=
  db.insertDevice newDeviceId (db.deviceUserId partnerDeviceId) today

def updateLogin (db : Database Dev) (deviceId : Dev) (today : ℕ) : Except SqlError (Database Dev) :=
  .ok (db.updateLastlogin deviceId today)

def removeDevice (db : Database Dev) (deviceId deleteId : Dev) : Except SqlError (Database Dev) :=
  let userId := (db.deviceUserId deviceId).getD 0 -- NULL reads as 0, which is no id
  let db := db.deleteDevices fun d => d.id = deleteId ∧ d.userid = userId
  db.deleteUsers fun u => u.id = userId ∧ ∀ d ∈ db.devices, d.userid ≠ userId

def cleanupDevices (db : Database Dev) (today offlineSinceDays : ℕ) : Except SqlError (Database Dev) :=
  if offlineSinceDays = 0 then .ok db
  else
    let db := db.deleteDevices fun d => offlineSinceDays < today - d.lastlogin
    db.deleteUsers fun u => ∀ d ∈ db.devices, d.userid ≠ u.id

/-- The other devices of the account, i.e. `devices` joined with `users`. -/
def otherDevices (db : Database Dev) (deviceId : Dev) : List (Device Dev) :=
  db.devices.filter fun d => d.id ≠ deviceId ∧ some d.userid = db.deviceUserId deviceId

def addChange (db : Database Dev) (deviceId : Dev) (dataId : QByteArray) (keyIndex : ℕ)
    (salt data : QByteArray) : Except SqlError (Database Dev) := do
  let db := db.deleteDataChanges fun c => c.deviceid = deviceId ∧ c.dataid = dataId
  let (db, nId) ← db.insertDataChange deviceId dataId keyIndex salt data
  let rows := (otherDevices db deviceId).map fun d => ⟨d.id, nId⟩
  let db ← db.insertDeviceChanges rows
  if rows.length = 0 then pure (db.deleteDataChanges fun c => c.id = nId) else pure db

/-- The `id` that `addDeviceChange` uses: that of the new row, or of the row that was there. -/
def insertOrFind (db : Database Dev) (deviceId : Dev) (dataId : QByteArray) (keyIndex : ℕ)
    (salt data : QByteArray) : Except SqlError (Database Dev × ℕ) :=
  match db.datachanges.find? fun c => c.deviceid = deviceId ∧ c.dataid = dataId with
  | some c => .ok (db, c.id) -- ON CONFLICT(deviceid, dataid) DO NOTHING
  | none => db.insertDataChange deviceId dataId keyIndex salt data

def addDeviceChange (db : Database Dev) (deviceId targetId : Dev) (dataId : QByteArray) (keyIndex : ℕ)
    (salt data : QByteArray) : Except SqlError (Database Dev) := do
  let (db, nId) ← insertOrFind db deviceId dataId keyIndex salt data
  if ⟨targetId, nId⟩ ∈ db.devicechanges then pure db -- ON CONFLICT DO NOTHING
  else db.insertDeviceChanges [⟨targetId, nId⟩]

/-- What `addChange` and `addDeviceChange` return. -/
def returned (res : Except SqlError (Database Dev)) : Except SqlError Bool :=
  match res with
  | .ok _ => .ok true
  | .error .check_violation => .ok false
  | .error e => .error e

def changeCount (db : Database Dev) (deviceId : Dev) : ℕ :=
  (db.devicechanges.filter fun x => x.deviceid = deviceId).length

/-- The rows `loadNextChanges` selects from, by ascending `id`. -/
def pendingChanges (db : Database Dev) (deviceId : Dev) : List (DataChange Dev) :=
  db.datachanges.filter fun c => ⟨deviceId, c.id⟩ ∈ db.devicechanges

def loadNextChanges (db : Database Dev) (deviceId : Dev) (count skip : ℕ) :
    List (ℕ × ℕ × QByteArray × QByteArray) :=
  (((pendingChanges db deviceId).drop skip).take count).map fun c => (c.id, c.keyid, c.salt, c.data)

def completeChange (db : Database Dev) (deviceId : Dev) (dataIndex : ℕ) : Except SqlError (Database Dev) :=
  let db := db.deleteDeviceChanges fun x => x.deviceid = deviceId ∧ x.dataid = dataIndex
  .ok (db.deleteDataChanges fun c => c.id = dataIndex ∧ ∀ x ∈ db.devicechanges, x.dataid ≠ dataIndex)

end DatabaseController

/-! ### What committed uploads have done -/

namespace DatabaseController

variable {db db' : Database Dev}

theorem addNewDevice_split {quota today : ℕ} {deviceId : Dev}
    (h : addNewDevice db quota deviceId today = .ok db') :
    ∃ db₁ uid, db.insertUser quota = .ok (db₁, uid) ∧ db₁.insertDevice deviceId (some uid) today = .ok db' := by
  simp only [addNewDevice, bind, Except.bind] at h
  split at h
  · cases h
  · rename_i x hx
    obtain ⟨db₁, userId⟩ := x
    exact ⟨db₁, userId, hx, h⟩

theorem addNewDevice_ok {quota today : ℕ} {deviceId : Dev}
    (h : addNewDevice db quota deviceId today = .ok db') :
    ∃ uid, db'.toTables = (db.toTables.insertUser quota).insertDevice ⟨deviceId, uid, today⟩ := by
  obtain ⟨db₁, userId, h₁, h₂⟩ := addNewDevice_split h
  obtain ⟨uid, -, ht⟩ := Database.insertDevice_ok h₂
  refine ⟨uid, ?_⟩
  rw [ht, (Database.insertUser_ok h₁).2]

/-- The tables after `addChange`, before the data of a change without receivers is removed again. -/
def addedChange (db : Database Dev) (deviceId : Dev) (dataId : QByteArray) (keyIndex : ℕ)
    (salt data : QByteArray) : Tables Dev :=
  ((db.toTables.deleteDataChanges fun c => c.deviceid = deviceId ∧ c.dataid = dataId).insertDataChange
    ⟨db.nextDataId, deviceId, dataId, keyIndex, salt, data⟩).insertDeviceChanges
      ((otherDevices db deviceId).map fun d => ⟨d.id, db.nextDataId⟩)

theorem addChange_ok {deviceId : Dev} {dataId salt data : QByteArray} {keyIndex : ℕ}
    (h : addChange db deviceId dataId keyIndex salt data = .ok db') :
    if (otherDevices db deviceId).length = 0 then
      db'.toTables = (addedChange db deviceId dataId keyIndex salt data).deleteDataChanges
        fun c => c.id = db.nextDataId
    else db'.toTables = addedChange db deviceId dataId keyIndex salt data := by
  simp only [addChange, bind, Except.bind] at h
  split at h
  · cases h
  · rename_i x hx
    obtain ⟨db₁, nId⟩ := x
    obtain ⟨rfl, -, ht₁⟩ := Database.insertDataChange_ok hx
    simp only at h
    split at h
    · cases h
    · rename_i db₂ h₂
      have ht₂ := Database.insertDeviceChanges_ok h₂
      have hother : otherDevices db₁ deviceId = otherDevices db deviceId := by
        simp only [otherDevices, Tables.deviceUserId, ht₁]
        rfl
      have ht : db₂.toTables = addedChange db deviceId dataId keyIndex salt data := by
        rw [ht₂, ht₁, hother]
        rfl
      simp only [List.length_map, hother] at h
      split_ifs at h ⊢
      · cases h
        rw [← ht]
        rfl
      · cases h
        exact ht

/-- The row that `addDeviceChange` finds or inserts. -/
theorem insertOrFind_ok {deviceId : Dev} {dataId salt data : QByteArray} {keyIndex nId : ℕ}
    (h : insertOrFind db deviceId dataId keyIndex salt data = .ok (db', nId)) :
    (∃ c ∈ db.datachanges, c.deviceid = deviceId ∧ c.dataid = dataId ∧ nId = c.id ∧ db' = db) ∨
      (∀ c ∈ db.datachanges, ¬ (c.deviceid = deviceId ∧ c.dataid = dataId)) ∧ nId = db.nextDataId ∧
        db'.toTables = db.toTables.insertDataChange ⟨nId, deviceId, dataId, keyIndex, salt, data⟩ := by
  unfold insertOrFind at h
  split at h
  · rename_i c hc
    cases h
    have hslot := List.find?_some hc
    rw [decide_eq_true_eq] at hslot
    exact Or.inl ⟨c, List.mem_of_find?_eq_some hc, hslot.1, hslot.2, rfl, rfl⟩
  · rename_i hnone
    rw [List.find?_eq_none] at hnone
    obtain ⟨hid, -, ht⟩ := Database.insertDataChange_ok h
    exact Or.inr ⟨fun c hc hslot => hnone c hc (decide_eq_true hslot), hid, ht⟩

theorem addDeviceChange_ok {deviceId targetId : Dev} {dataId salt data : QByteArray} {keyIndex : ℕ}
    (h : addDeviceChange db deviceId targetId dataId keyIndex salt data = .ok db') :
    ∃ db₁ nId, insertOrFind db deviceId dataId keyIndex salt data = .ok (db₁, nId) ∧
      if ⟨targetId, nId⟩ ∈ db₁.devicechanges then db' = db₁
      else db'.toTables = db₁.toTables.insertDeviceChanges [⟨targetId, nId⟩] := by
  simp only [addDeviceChange, bind, Except.bind] at h
  split at h
  · cases h
  · rename_i x hx
    obtain ⟨db₁, nId⟩ := x
    refine ⟨db₁, nId, hx, ?_⟩
    simp only at h
    split_ifs at h ⊢
    · cases h
      rfl
    · exact Database.insertDeviceChanges_ok h

end DatabaseController

/-- The transactions with their arguments, and the date where it is read. -/
inductive Transaction (Dev : Type*) where
  | addNewDevice (quota : ℕ) (deviceId : Dev) (today : ℕ)
  | addNewDeviceToUser (newDeviceId partnerDeviceId : Dev) (today : ℕ)
  | updateLogin (deviceId : Dev) (today : ℕ)
  | removeDevice (deviceId deleteId : Dev)
  | cleanupDevices (today offlineSinceDays : ℕ)
  | addChange (deviceId : Dev) (dataId : QByteArray) (keyIndex : ℕ) (salt data : QByteArray)
  | addDeviceChange (deviceId targetId : Dev) (dataId : QByteArray) (keyIndex : ℕ) (salt data : QByteArray)
  | completeChange (deviceId : Dev) (dataIndex : ℕ)

namespace Transaction

open DatabaseController

def run (db : Database Dev) : Transaction Dev → Except SqlError (Database Dev)
  | .addNewDevice quota deviceId today => DatabaseController.addNewDevice db quota deviceId today
  | .addNewDeviceToUser new partner today => DatabaseController.addNewDeviceToUser db new partner today
  | .updateLogin deviceId today => DatabaseController.updateLogin db deviceId today
  | .removeDevice deviceId deleteId => DatabaseController.removeDevice db deviceId deleteId
  | .cleanupDevices today days => DatabaseController.cleanupDevices db today days
  | .addChange deviceId dataId keyIndex salt data =>
    DatabaseController.addChange db deviceId dataId keyIndex salt data
  | .addDeviceChange deviceId targetId dataId keyIndex salt data =>
    DatabaseController.addDeviceChange db deviceId targetId dataId keyIndex salt data
  | .completeChange deviceId dataIndex => DatabaseController.completeChange db deviceId dataIndex

/-- The database after the transaction: what is not committed is rolled back. -/
def next (db : Database Dev) (tx : Transaction Dev) : Database Dev :=
  match tx.run db with
  | .ok db' => db'
  | .error _ => db

theorem next_of_ok {db db' : Database Dev} {tx : Transaction Dev} (h : tx.run db = .ok db') :
    tx.next db = db' := by
  rw [next, h]

theorem next_of_error {db : Database Dev} {tx : Transaction Dev} {e : SqlError} (h : tx.run db = .error e) :
    tx.next db = db := by
  rw [next, h]

/-- A transaction is committed or has no effect. -/
theorem next_cases (db : Database Dev) (tx : Transaction Dev) :
    tx.run db = .ok (tx.next db) ∨ tx.next db = db := by
  rcases h : tx.run db with e | db'
  · exact Or.inr (by rw [next, h])
  · exact Or.inl (by rw [next_of_ok h])

theorem run_eq_ok (tx : Transaction Dev) {db : Database Dev} (h : (tx.run db).isOk = true) :
    tx.run db = .ok (tx.next db) := by
  rcases hr : tx.run db with e | db'
  · rw [hr] at h
    cases h
  · rw [next_of_ok hr]

end Transaction

/-- The server, from an empty database. -/
def lts : LTS (Database Dev) (Transaction Dev) where
  init db := db = .empty
  step db tx db' := db' = tx.next db

/-! ### Pending changes -/

/-- The change is stored and a `devicechanges` row of the device leads to it. -/
def Held (t : Tables Dev) (c : DataChange Dev) (device : Dev) : Prop :=
  c ∈ t.datachanges ∧ ⟨device, c.id⟩ ∈ t.devicechanges

namespace Held

variable {t : Tables Dev} {c : DataChange Dev} {device : Dev}

theorem deleteDataChanges (h : Held t c device) {p : DataChange Dev → Bool} (hp : p c = false) :
    Held (t.deleteDataChanges p) c device := by
  have hc : c ∈ (t.deleteDataChanges p).datachanges := Tables.mem_deleteDataChanges.mpr ⟨h.1, hp⟩
  exact ⟨hc, Tables.mem_devicechanges_deleteDataChanges.mpr ⟨h.2, List.mem_map_of_mem hc⟩⟩

theorem deleteDevices (h : Held t c device) {p : Device Dev → Bool}
    (hdev : device ∈ (t.deleteDevices p).devices.map (·.id))
    (hsender : c.deviceid ∈ (t.deleteDevices p).devices.map (·.id)) :
    Held (t.deleteDevices p) c device := by
  have hc : c ∈ (t.deleteDevices p).datachanges := Tables.mem_datachanges_deleteDevices.mpr ⟨h.1, hsender⟩
  exact ⟨hc, Tables.mem_devicechanges_deleteDevices.mpr ⟨h.2, hdev, List.mem_map_of_mem hc⟩⟩

omit [DecidableEq Dev] in
theorem deleteDeviceChanges (h : Held t c device) {p : DeviceChange Dev → Bool}
    (hp : p ⟨device, c.id⟩ = false) : Held (t.deleteDeviceChanges p) c device :=
  ⟨h.1, Tables.mem_deleteDeviceChanges.mpr ⟨h.2, hp⟩⟩

theorem insertDataChange (h : Held t c device) (new : DataChange Dev) :
    Held (t.insertDataChange new) c device :=
  ⟨Tables.mem_insertDataChange.mpr (Or.inl h.1), h.2⟩

omit [DecidableEq Dev] in
theorem insertDeviceChanges (h : Held t c device) (rows : List (DeviceChange Dev)) :
    Held (t.insertDeviceChanges rows) c device :=
  ⟨h.1, Tables.mem_insertDeviceChanges.mpr (Or.inl h.2)⟩

/-- What must not happen to the change: the device completes it, the sender replaces it, or one of both devices is
removed. -/
def Spares (c : DataChange Dev) (device : Dev) (db : Database Dev) (tx : Transaction Dev) : Prop :=
  tx ≠ .completeChange device c.id ∧
  (∀ keyIndex salt data, tx = .addChange c.deviceid c.dataid keyIndex salt data → tx.next db = db) ∧
  ∀ d ∈ [device, c.deviceid], d ∈ db.devices.map (·.id) → d ∈ (tx.next db).devices.map (·.id)

omit [DecidableEq Dev] in
/-- The sender and the device are devices of the server. -/
theorem mem_devices {db : Database Dev} (h : Held db.toTables c device) :
    ∀ d ∈ [device, c.deviceid], d ∈ db.devices.map (·.id) := by
  intro d hd
  rcases List.mem_cons.mp hd with rfl | hd
  · exact db.constraints.devicechanges_deviceid _ h.2
  · rw [List.mem_singleton] at hd
    subst hd
    exact db.constraints.datachanges_deviceid c h.1

/-- The removal of other devices takes nothing. -/
theorem deleteDevices_users {db db' : Database Dev} {p : Device Dev → Bool} {q : User → Bool}
    (h : Held db.toTables c device) (hdb' : (db.deleteDevices p).deleteUsers q = .ok db')
    (hdev : ∀ d ∈ [device, c.deviceid], d ∈ db'.devices.map (·.id)) : Held db'.toTables c device := by
  have ht := Database.deleteUsers_ok hdb'
  rw [ht] at hdev ⊢
  exact h.deleteDevices (hdev device List.mem_cons_self) (hdev c.deviceid (by simp))

theorem addChange {db db' : Database Dev} {deviceId : Dev} {dataId salt data : QByteArray} {keyIndex : ℕ}
    (h : Held db.toTables c device) (hne : ¬ (c.deviceid = deviceId ∧ c.dataid = dataId))
    (hdb' : DatabaseController.addChange db deviceId dataId keyIndex salt data = .ok db') :
    Held db'.toTables c device := by
  have hadded : Held (DatabaseController.addedChange db deviceId dataId keyIndex salt data) c device :=
    ((h.deleteDataChanges (decide_eq_false hne)).insertDataChange _).insertDeviceChanges _
  have hid : c.id ≠ db.nextDataId := Nat.ne_of_lt (db.constraints.datachanges_seq c h.1)
  have ht := DatabaseController.addChange_ok hdb'
  split_ifs at ht
  · rw [ht]
    exact hadded.deleteDataChanges (decide_eq_false hid)
  · rw [ht]
    exact hadded

theorem addDeviceChange {db db' : Database Dev} {deviceId targetId : Dev} {dataId salt data : QByteArray}
    {keyIndex : ℕ} (h : Held db.toTables c device)
    (hdb' : DatabaseController.addDeviceChange db deviceId targetId dataId keyIndex salt data = .ok db') :
    Held db'.toTables c device := by
  obtain ⟨db₁, nId, h₁, ht⟩ := DatabaseController.addDeviceChange_ok hdb'
  have hheld : Held db₁.toTables c device := by
    rcases DatabaseController.insertOrFind_ok h₁ with ⟨-, -, -, -, -, rfl⟩ | ⟨-, -, ht₁⟩
    · exact h
    · rw [ht₁]
      exact h.insertDataChange _
  split_ifs at ht
  · rw [ht]
    exact hheld
  · rw [ht]
    exact hheld.insertDeviceChanges _

theorem completeChange {db : Database Dev} {deviceId : Dev} {dataIndex : ℕ} (h : Held db.toTables c device)
    (hne : ¬ (device = deviceId ∧ c.id = dataIndex)) :
    Held (Transaction.next db (.completeChange deviceId dataIndex)).toTables c device := by
  have h1 : Held (db.toTables.deleteDeviceChanges fun x => x.deviceid = deviceId ∧ x.dataid = dataIndex) c device :=
    h.deleteDeviceChanges (decide_eq_false hne)
  refine h1.deleteDataChanges (decide_eq_false ?_)
  -- the row of the device keeps the data
  rintro ⟨hid, hnone⟩
  exact hnone _ h1.2 hid

/-- **One transaction** that spares the change. -/
theorem next {db : Database Dev} {tx : Transaction Dev} (h : Held db.toTables c device)
    (hs : Spares c device db tx) : Held (tx.next db).toTables c device := by
  obtain ⟨hcomplete, hreplace, hremove⟩ := hs
  have hdev := fun d hd => hremove d hd (h.mem_devices d hd)
  rcases tx.next_cases db with hrun | he
  · cases tx with
    | addNewDevice quota deviceId today =>
      obtain ⟨uid, ht⟩ := DatabaseController.addNewDevice_ok hrun
      rw [ht]
      exact h
    | addNewDeviceToUser new partner today =>
      obtain ⟨uid, -, ht⟩ := Database.insertDevice_ok hrun
      rw [ht]
      exact h
    | updateLogin deviceId today => exact h
    | removeDevice deviceId deleteId => exact h.deleteDevices_users hrun hdev
    | cleanupDevices today days =>
      by_cases hd : days = 0
      · have he : Transaction.next db (.cleanupDevices today days) = db :=
          Transaction.next_of_ok (if_pos hd)
        rw [he]
        exact h
      · exact h.deleteDevices_users ((if_neg hd).symm.trans hrun) hdev
    | addChange deviceId dataId keyIndex salt data =>
      by_cases hslot : c.deviceid = deviceId ∧ c.dataid = dataId
      · rw [hreplace keyIndex salt data (by rw [hslot.1, hslot.2])]
        exact h
      · exact h.addChange hslot hrun
    | addDeviceChange deviceId targetId dataId keyIndex salt data => exact h.addDeviceChange hrun
    | completeChange deviceId dataIndex =>
      refine h.completeChange fun hc => hcomplete ?_
      rw [hc.1, hc.2]
  · rw [he]
    exact h

/-- **Every run** whose transactions spare the change. -/
theorem run {db db' : Database Dev} {tr : List (Database Dev × Transaction Dev × Database Dev)}
    (h : Held db.toTables c device) (hr : LTS.Run lts (Spares c device) db tr db') :
    Held db'.toTables c device := by
  refine hr.invariant (I := fun db => Held db.toTables c device) ?_ h
  rintro s tx s' hs hg rfl
  exact hs.next hg

end Held

end QtDataSync.Server
