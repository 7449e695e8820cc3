import Mathlib.Data.List.Nodup
import Mathlib.Data.List.Pairwise
import QtDataSync.Store.LocalStore

/-!
# Server.Schema — the tables of the server

`users`, `devices`, `datachanges` and `devicechanges` with the constraints of `DatabaseController::initDatabase`.
`Database` carries the constraints, so every statement either keeps them or fails with the error PostgreSQL raises.
Rows of `datachanges` are kept by ascending `id`.  Ids that PostgreSQL burns on rolled back inserts are not modelled.
-/

namespace QtDataSync.Server

/-- The SQL errors of the statements. -/
inductive SqlError where
  | not_null_violation
  | foreign_key_violation
  | unique_violation
  | check_violation
deriving DecidableEq, Repr

structure User where
  id : ℕ
  quota : ℕ
  quotalimit : ℕ
deriving DecidableEq, Repr

structure Device (Dev : Type*) where
  id : Dev
  userid : ℕ
  lastlogin : ℕ
deriving DecidableEq, Repr

structure DataChange (Dev : Type*) where
  id : ℕ
  deviceid : Dev
  dataid : QByteArray
  keyid : ℕ
  salt : QByteArray
  data : QByteArray
deriving DecidableEq, Repr

structure DeviceChange (Dev : Type*) where
  deviceid : Dev
  dataid : ℕ
deriving DecidableEq, Repr

/-- The rows, and the next values of the two sequences. -/
structure Tables (Dev : Type*) where
  users : List User
  devices : List (Device Dev)
  datachanges : List (DataChange Dev)
  devicechanges : List (DeviceChange Dev)
  nextUserId : ℕ
  nextDataId : ℕ

variable {Dev : Type*}

/-- The constraints of the schema. -/
structure Constraints (t : Tables Dev) : Prop where
  users_pkey : (t.users.map (·.id)).Nodup
  users_seq : ∀ u ∈ t.users, u.id < t.nextUserId
  users_check : ∀ u ∈ t.users, u.quota < u.quotalimit
  devices_pkey : (t.devices.map (·.id)).Nodup
  devices_userid : ∀ d ∈ t.devices, d.userid ∈ t.users.map (·.id)
  datachanges_pkey : (t.datachanges.map (·.id)).Pairwise (· < ·)
  datachanges_seq : ∀ c ∈ t.datachanges, c.id < t.nextDataId
  datachanges_unique : (t.datachanges.map fun c => (c.deviceid, c.dataid)).Nodup
  datachanges_deviceid : ∀ c ∈ t.datachanges, c.deviceid ∈ t.devices.map (·.id)
  devicechanges_pkey : t.devicechanges.Nodup
  devicechanges_deviceid : ∀ x ∈ t.devicechanges, x.deviceid ∈ t.devices.map (·.id)
  devicechanges_dataid : ∀ x ∈ t.devicechanges, x.dataid ∈ t.datachanges.map (·.id)

/-- The database: rows that satisfy the constraints. -/
structure Database (Dev : Type*) extends Tables Dev where
  constraints : Constraints toTables

namespace Tables

variable [DecidableEq Dev]

/-- The function `deviceUserId`; `none` is NULL. -/
def deviceUserId (t : Tables Dev) (device : Dev) : Option ℕ :=
  (t.devices.find? fun d => d.id = device).map (·.userid)

/-- The trigger `upquota`. -/
def upquota (t : Tables Dev) (users : List User) (new : DataChange Dev) : List User :=
  users.map fun u =>
    if some u.id = t.deviceUserId new.deviceid then { u with quota := u.quota + new.data.length } else u

/-- The trigger `downquota`; the subtraction is cut off at zero. -/
def downquota (t : Tables Dev) (users : List User) (old : DataChange Dev) : List User :=
  users.map fun u =>
    if some u.id = t.deviceUserId old.deviceid then { u with quota := u.quota - old.data.length } else u

/-- `DELETE FROM datachanges WHERE p`, with the cascade to `devicechanges` and the trigger. -/
def deleteDataChanges (t : Tables Dev) (p : DataChange Dev → Bool) : Tables Dev :=
  let rest := t.datachanges.filter fun c => !p c
  { t with
    users := (t.datachanges.filter p).foldl t.downquota t.users
    datachanges := rest
    devicechanges := t.devicechanges.filter fun x => x.dataid ∈ rest.map (·.id) }

/-- `DELETE FROM devices WHERE p`, with the cascades.  The trigger runs when the device is gone, so its user is not
found and no quota changes. -/
def deleteDevices (t : Tables Dev) (p : Device Dev → Bool) : Tables Dev :=
  let rest := t.devices.filter fun d => !p d
  let restData := t.datachanges.filter fun c => c.deviceid ∈ rest.map (·.id)
  { t with
    devices := rest
    datachanges := restData
    devicechanges := t.devicechanges.filter fun x =>
      x.deviceid ∈ rest.map (·.id) ∧ x.dataid ∈ restData.map (·.id) }

/-- `DELETE FROM devicechanges WHERE p`. -/
def deleteDeviceChanges (t : Tables Dev) (p : DeviceChange Dev → Bool) : Tables Dev :=
  { t with devicechanges := t.devicechanges.filter fun x => !p x }

/-- `DELETE FROM users WHERE p`. -/
def deleteUsers (t : Tables Dev) (p : User → Bool) : Tables Dev :=
  { t with users := t.users.filter fun u => !p u }

/-- `INSERT INTO users DEFAULT VALUES`. -/
def insertUser (t : Tables Dev) (quotalimit : ℕ) : Tables Dev :=
  { t with users := t.users ++ [⟨t.nextUserId, 0, quotalimit⟩], nextUserId := t.nextUserId + 1 }

/-- `INSERT INTO devices`. -/
def insertDevice (t : Tables Dev) (d : Device Dev) : Tables Dev := { t with devices := t.devices ++ [d] }

/-- `UPDATE devices SET lastlogin = ? WHERE id = ?`. -/
def updateLastlogin (t : Tables Dev) (device : Dev) (date : ℕ) : Tables Dev :=
  { t with devices := t.devices.map fun d => if d.id = device then { d with lastlogin := date } else d }

/-- `INSERT INTO datachanges`, with the trigger. -/
def insertDataChange (t : Tables Dev) (c : DataChange Dev) : Tables Dev :=
  { t with
    users := t.upquota t.users c
    datachanges := t.datachanges ++ [c]
    nextDataId := t.nextDataId + 1 }

/-- `INSERT INTO devicechanges`. -/
def insertDeviceChanges (t : Tables Dev) (rows : List (DeviceChange Dev)) : Tables Dev :=
  { t with devicechanges := t.devicechanges ++ rows }

/-! ### What the statements leave -/

variable {t : Tables Dev}

@[simp] theorem mem_deleteDataChanges {p : DataChange Dev → Bool} {c : DataChange Dev} :
    c ∈ (t.deleteDataChanges p).datachanges ↔ c ∈ t.datachanges ∧ p c = false := by
  simp [deleteDataChanges, List.mem_filter]

@[simp] theorem mem_devicechanges_deleteDataChanges {p : DataChange Dev → Bool} {x : DeviceChange Dev} :
    x ∈ (t.deleteDataChanges p).devicechanges ↔
      x ∈ t.devicechanges ∧ x.dataid ∈ (t.deleteDataChanges p).datachanges.map (·.id) := by
  simp [deleteDataChanges, List.mem_filter]

@[simp] theorem mem_deleteDevices {p : Device Dev → Bool} {d : Device Dev} :
    d ∈ (t.deleteDevices p).devices ↔ d ∈ t.devices ∧ p d = false := by
  simp [deleteDevices, List.mem_filter]

@[simp] theorem mem_datachanges_deleteDevices {p : Device Dev → Bool} {c : DataChange Dev} :
    c ∈ (t.deleteDevices p).datachanges ↔
      c ∈ t.datachanges ∧ c.deviceid ∈ (t.deleteDevices p).devices.map (·.id) := by
  simp [deleteDevices, List.mem_filter]

@[simp] theorem mem_devicechanges_deleteDevices {p : Device Dev → Bool} {x : DeviceChange Dev} :
    x ∈ (t.deleteDevices p).devicechanges ↔ x ∈ t.devicechanges ∧
      x.deviceid ∈ (t.deleteDevices p).devices.map (·.id) ∧
      x.dataid ∈ (t.deleteDevices p).datachanges.map (·.id) := by
  simp only [deleteDevices, List.mem_filter, decide_eq_true_eq]

omit [DecidableEq Dev] in
@[simp] theorem mem_deleteDeviceChanges {p : DeviceChange Dev → Bool} {x : DeviceChange Dev} :
    x ∈ (t.deleteDeviceChanges p).devicechanges ↔ x ∈ t.devicechanges ∧ p x = false := by
  simp [deleteDeviceChanges, List.mem_filter]

@[simp] theorem mem_insertDataChange {c c' : DataChange Dev} :
    c' ∈ (t.insertDataChange c).datachanges ↔ c' ∈ t.datachanges ∨ c' = c := by
  simp [insertDataChange]

omit [DecidableEq Dev] in
@[simp] theorem mem_insertDeviceChanges {rows : List (DeviceChange Dev)} {x : DeviceChange Dev} :
    x ∈ (t.insertDeviceChanges rows).devicechanges ↔ x ∈ t.devicechanges ∨ x ∈ rows := by
  simp [insertDeviceChanges]

end Tables

/-! ### The statements keep the constraints -/

namespace Constraints

variable [DecidableEq Dev] {t : Tables Dev}

omit [DecidableEq Dev] in
/-- Users whose quota does not grow. -/
theorem of_users (h : Constraints t) {users : List User} (hid : users.map (·.id) = t.users.map (·.id))
    (hq : ∀ u ∈ users, u.id < t.nextUserId ∧ u.quota < u.quotalimit) :
    Constraints { t with users := users } where
  users_pkey := by
    rw [hid]
    exact h.users_pkey
  users_seq u hu := (hq u hu).1
  users_check u hu := (hq u hu).2
  devices_pkey := h.devices_pkey
  devices_userid d hd := by
    rw [hid]
    exact h.devices_userid d hd
  datachanges_pkey := h.datachanges_pkey
  datachanges_seq := h.datachanges_seq
  datachanges_unique := h.datachanges_unique
  datachanges_deviceid := h.datachanges_deviceid
  devicechanges_pkey := h.devicechanges_pkey
  devicechanges_deviceid := h.devicechanges_deviceid
  devicechanges_dataid := h.devicechanges_dataid

theorem map_id_downquota (t : Tables Dev) (users : List User) (old : DataChange Dev) :
    (t.downquota users old).map (·.id) = users.map (·.id) := by
  unfold Tables.downquota
  rw [List.map_map]
  refine List.map_congr_left fun u _ => ?_
  show (if _ then _ else _ : User).id = u.id
  split <;> rfl

theorem map_id_upquota (t : Tables Dev) (users : List User) (new : DataChange Dev) :
    (t.upquota users new).map (·.id) = users.map (·.id) := by
  unfold Tables.upquota
  rw [List.map_map]
  refine List.map_congr_left fun u _ => ?_
  show (if _ then _ else _ : User).id = u.id
  split <;> rfl

/-- The trigger of every deleted row. -/
theorem foldl_downquota (t : Tables Dev) (l : List (DataChange Dev)) {users : List User} {n : ℕ}
    (hq : ∀ u ∈ users, u.id < n ∧ u.quota < u.quotalimit) :
    (l.foldl t.downquota users).map (·.id) = users.map (·.id) ∧
      ∀ u ∈ l.foldl t.downquota users, u.id < n ∧ u.quota < u.quotalimit := by
  induction l generalizing users with
  | nil => exact ⟨rfl, hq⟩
  | cons c l ih =>
    have h1 : ∀ u ∈ t.downquota users c, u.id < n ∧ u.quota < u.quotalimit := by
      intro u hu
      obtain ⟨u₀, hu₀, rfl⟩ := List.mem_map.mp hu
      have h0 := hq u₀ hu₀
      split
      · refine ⟨h0.1, ?_⟩
        show u₀.quota - c.data.length < u₀.quotalimit
        omega
      · exact h0
    obtain ⟨hid, hall⟩ := ih h1
    exact ⟨hid.trans (map_id_downquota t users c), hall⟩

theorem deleteDataChanges (h : Constraints t) (p : DataChange Dev → Bool) :
    Constraints (t.deleteDataChanges p) := by
  have husers : ∀ u ∈ t.users, u.id < t.nextUserId ∧ u.quota < u.quotalimit :=
    fun u hu => ⟨h.users_seq u hu, h.users_check u hu⟩
  obtain ⟨hid, hq⟩ := foldl_downquota t (t.datachanges.filter p) husers
  have hsub : (t.deleteDataChanges p).datachanges.Sublist t.datachanges := List.filter_sublist
  have hrest : Constraints { t.deleteDataChanges p with users := t.users } := {
    users_pkey := h.users_pkey
    users_seq := h.users_seq
    users_check := h.users_check
    devices_pkey := h.devices_pkey
    devices_userid := h.devices_userid
    datachanges_pkey := h.datachanges_pkey.sublist (hsub.map _)
    datachanges_seq := fun c hc => h.datachanges_seq c (hsub.subset hc)
    datachanges_unique := h.datachanges_unique.sublist (hsub.map _)
    datachanges_deviceid := fun c hc => h.datachanges_deviceid c (hsub.subset hc)
    devicechanges_pkey := h.devicechanges_pkey.filter _
    devicechanges_deviceid := fun x hx => h.devicechanges_deviceid x (List.mem_of_mem_filter hx)
    devicechanges_dataid := fun x hx => (Tables.mem_devicechanges_deleteDataChanges.mp hx).2 }
  exact hrest.of_users hid hq

theorem deleteDevices (h : Constraints t) (p : Device Dev → Bool) : Constraints (t.deleteDevices p) := by
  have hsub : (t.deleteDevices p).devices.Sublist t.devices := List.filter_sublist
  have hdata : (t.deleteDevices p).datachanges.Sublist t.datachanges := List.filter_sublist
  exact {
    users_pkey := h.users_pkey
    users_seq := h.users_seq
    users_check := h.users_check
    devices_pkey := h.devices_pkey.sublist (hsub.map _)
    devices_userid := fun d hd => h.devices_userid d (hsub.subset hd)
    datachanges_pkey := h.datachanges_pkey.sublist (hdata.map _)
    datachanges_seq := fun c hc => h.datachanges_seq c (hdata.subset hc)
    datachanges_unique := h.datachanges_unique.sublist (hdata.map _)
    datachanges_deviceid := fun c hc => (Tables.mem_datachanges_deleteDevices.mp hc).2
    devicechanges_pkey := h.devicechanges_pkey.filter _
    devicechanges_deviceid := fun x hx => (Tables.mem_devicechanges_deleteDevices.mp hx).2.1
    devicechanges_dataid := fun x hx => (Tables.mem_devicechanges_deleteDevices.mp hx).2.2 }

omit [DecidableEq Dev] in
theorem deleteDeviceChanges (h : Constraints t) (p : DeviceChange Dev → Bool) :
    Constraints (t.deleteDeviceChanges p) :=
  { h with
    devicechanges_pkey := h.devicechanges_pkey.filter _
    devicechanges_deviceid := fun x hx => h.devicechanges_deviceid x (List.mem_of_mem_filter hx)
    devicechanges_dataid := fun x hx => h.devicechanges_dataid x (List.mem_of_mem_filter hx) }

omit [DecidableEq Dev] in
theorem deleteUsers (h : Constraints t) {p : User → Bool}
    (hp : ∀ d ∈ t.devices, d.userid ∈ (t.users.filter fun u => !p u).map (·.id)) :
    Constraints (t.deleteUsers p) :=
  { h with
    users_pkey := h.users_pkey.sublist (List.filter_sublist.map _)
    users_seq := fun u hu => h.users_seq u (List.mem_of_mem_filter hu)
    users_check := fun u hu => h.users_check u (List.mem_of_mem_filter hu)
    devices_userid := hp }

omit [DecidableEq Dev] in
theorem insertUser (h : Constraints t) {quotalimit : ℕ} (hq : 0 < quotalimit) :
    Constraints (t.insertUser quotalimit) := by
  have hmap : (t.insertUser quotalimit).users.map (·.id) = t.users.map (·.id) ++ [t.nextUserId] := by
    simp [Tables.insertUser]
  have hnew : t.nextUserId ∉ t.users.map (·.id) := by
    intro hm
    obtain ⟨u, hu, he⟩ := List.mem_map.mp hm
    have := h.users_seq u hu
    omega
  exact { h with
    users_pkey := by
      rw [hmap, List.nodup_append]
      refine ⟨h.users_pkey, List.nodup_singleton _, fun a ha b hb => ?_⟩
      rw [List.mem_singleton] at hb
      subst hb
      rintro rfl
      exact hnew ha
    users_seq := fun u hu => by
      rcases List.mem_append.mp hu with hu | hu
      · exact Nat.lt_succ_of_lt (h.users_seq u hu)
      · rw [List.mem_singleton] at hu
        subst hu
        exact Nat.lt_succ_self _
    users_check := fun u hu => by
      rcases List.mem_append.mp hu with hu | hu
      · exact h.users_check u hu
      · rw [List.mem_singleton] at hu
        subst hu
        exact hq
    devices_userid := fun d hd => by
      rw [hmap]
      exact List.mem_append_left _ (h.devices_userid d hd) }

omit [DecidableEq Dev] in
theorem insertDevice (h : Constraints t) {d : Device Dev} (hnew : d.id ∉ t.devices.map (·.id))
    (huser : d.userid ∈ t.users.map (·.id)) : Constraints (t.insertDevice d) := by
  have hmap : (t.insertDevice d).devices.map (·.id) = t.devices.map (·.id) ++ [d.id] := by
    simp [Tables.insertDevice]
  exact { h with
    devices_pkey := by
      rw [hmap, List.nodup_append]
      refine ⟨h.devices_pkey, List.nodup_singleton _, fun a ha b hb => ?_⟩
      rw [List.mem_singleton] at hb
      subst hb
      rintro rfl
      exact hnew ha
    devices_userid := fun x hx => by
      rcases List.mem_append.mp hx with hx | hx
      · exact h.devices_userid x hx
      · rw [List.mem_singleton] at hx
        subst hx
        exact huser
    datachanges_deviceid := fun c hc => by
      rw [hmap]
      exact List.mem_append_left _ (h.datachanges_deviceid c hc)
    devicechanges_deviceid := fun x hx => by
      rw [hmap]
      exact List.mem_append_left _ (h.devicechanges_deviceid x hx) }

theorem updateLastlogin (h : Constraints t) (device : Dev) (date : ℕ) :
    Constraints (t.updateLastlogin device date) := by
  have hmap : (t.updateLastlogin device date).devices.map (·.id) = t.devices.map (·.id) := by
    unfold Tables.updateLastlogin
    rw [List.map_map]
    refine List.map_congr_left fun d _ => ?_
    show (if _ then _ else _ : Device Dev).id = d.id
    split <;> rfl
  exact { h with
    devices_pkey := by
      rw [hmap]
      exact h.devices_pkey
    devices_userid := fun d hd => by
      obtain ⟨d₀, hd₀, rfl⟩ := List.mem_map.mp hd
      have h0 := h.devices_userid d₀ hd₀
      split <;> exact h0
    datachanges_deviceid := fun c hc => by
      rw [hmap]
      exact h.datachanges_deviceid c hc
    devicechanges_deviceid := fun x hx => by
      rw [hmap]
      exact h.devicechanges_deviceid x hx }

theorem insertDataChange (h : Constraints t) {c : DataChange Dev} (hid : c.id = t.nextDataId)
    (hdev : c.deviceid ∈ t.devices.map (·.id))
    (hnew : (c.deviceid, c.dataid) ∉ t.datachanges.map fun c => (c.deviceid, c.dataid))
    (hq : ∀ u ∈ t.upquota t.users c, u.quota < u.quotalimit) : Constraints (t.insertDataChange c) := by
  have hmap := map_id_upquota t t.users c
  have hids : (t.insertDataChange c).datachanges.map (·.id) = t.datachanges.map (·.id) ++ [c.id] := by
    simp [Tables.insertDataChange]
  exact {
    users_pkey := by
      rw [show (t.insertDataChange c).users = t.upquota t.users c from rfl, hmap]
      exact h.users_pkey
    users_seq := fun u hu => by
      obtain ⟨u₀, hu₀, rfl⟩ := List.mem_map.mp hu
      have h0 := h.users_seq u₀ hu₀
      split <;> exact h0
    users_check := hq
    devices_pkey := h.devices_pkey
    devices_userid := fun d hd => by
      rw [show (t.insertDataChange c).users = t.upquota t.users c from rfl, hmap]
      exact h.devices_userid d hd
    datachanges_pkey := by
      rw [hids, List.pairwise_append]
      refine ⟨h.datachanges_pkey, List.pairwise_singleton _ _, fun a ha b hb => ?_⟩
      obtain ⟨c₀, hc₀, rfl⟩ := List.mem_map.mp ha
      rw [List.mem_singleton] at hb
      rw [hb, hid]
      exact h.datachanges_seq c₀ hc₀
    datachanges_seq := fun c' hc' => by
      rcases Tables.mem_insertDataChange.mp hc' with hc' | rfl
      · exact Nat.lt_succ_of_lt (h.datachanges_seq c' hc')
      · rw [hid]
        exact Nat.lt_succ_self _
    datachanges_unique := by
      unfold Tables.insertDataChange
      rw [List.map_append, List.nodup_append]
      refine ⟨h.datachanges_unique, List.nodup_singleton _, fun a ha b hb => ?_⟩
      rw [List.map_singleton, List.mem_singleton] at hb
      subst hb
      rintro rfl
      exact hnew ha
    datachanges_deviceid := fun c' hc' => by
      rcases Tables.mem_insertDataChange.mp hc' with hc' | rfl
      · exact h.datachanges_deviceid c' hc'
      · exact hdev
    devicechanges_pkey := h.devicechanges_pkey
    devicechanges_deviceid := h.devicechanges_deviceid
    devicechanges_dataid := fun x hx => by
      rw [hids]
      exact List.mem_append_left _ (h.devicechanges_dataid x hx) }

omit [DecidableEq Dev] in
theorem insertDeviceChanges (h : Constraints t) {rows : List (DeviceChange Dev)}
    (hnew : (t.devicechanges ++ rows).Nodup)
    (hrows : ∀ x ∈ rows, x.deviceid ∈ t.devices.map (·.id) ∧ x.dataid ∈ t.datachanges.map (·.id)) :
    Constraints (t.insertDeviceChanges rows) :=
  { h with
    devicechanges_pkey := hnew
    devicechanges_deviceid := fun x hx => by
      rcases List.mem_append.mp hx with hx | hx
      · exact h.devicechanges_deviceid x hx
      · exact (hrows x hx).1
    devicechanges_dataid := fun x hx => by
      rcases List.mem_append.mp hx with hx | hx
      · exact h.devicechanges_dataid x hx
      · exact (hrows x hx).2 }

end Constraints

/-! ### The statements on the database -/

namespace Database

variable [DecidableEq Dev]

def empty : Database Dev where
  users := []
  devices := []
  datachanges := []
  devicechanges := []
  nextUserId := 1
  nextDataId := 1
  constraints := by constructor <;> simp

def deleteDataChanges (db : Database Dev) (p : DataChange Dev → Bool) : Database Dev :=
  ⟨db.toTables.deleteDataChanges p, db.constraints.deleteDataChanges p⟩

def deleteDevices (db : Database Dev) (p : Device Dev → Bool) : Database Dev :=
  ⟨db.toTables.deleteDevices p, db.constraints.deleteDevices p⟩

def deleteDeviceChanges (db : Database Dev) (p : DeviceChange Dev → Bool) : Database Dev :=
  ⟨db.toTables.deleteDeviceChanges p, db.constraints.deleteDeviceChanges p⟩

def updateLastlogin (db : Database Dev) (device : Dev) (date : ℕ) : Database Dev :=
  ⟨db.toTables.updateLastlogin device date, db.constraints.updateLastlogin device date⟩

def deleteUsers (db : Database Dev) (p : User → Bool) : Except SqlError (Database Dev) :=
  if hp : ∀ d ∈ db.devices, d.userid ∈ (db.users.filter fun u => !p u).map (·.id) then
    .ok ⟨db.toTables.deleteUsers p, db.constraints.deleteUsers hp⟩
  else .error .foreign_key_violation

/-- Returns the `id`. -/
def insertUser (db : Database Dev) (quotalimit : ℕ) : Except SqlError (Database Dev × ℕ) :=
  if hq : 0 < quotalimit then
    .ok (⟨db.toTables.insertUser quotalimit, db.constraints.insertUser hq⟩, db.nextUserId)
  else .error .check_violation

def insertDevice (db : Database Dev) (id : Dev) (userid : Option ℕ) (lastlogin : ℕ) :
    Except SqlError (Database Dev) :=
  match userid with
  | none => .error .not_null_violation
  | some uid =>
    if hnew : id ∈ db.devices.map (·.id) then .error .unique_violation
    else if huser : uid ∈ db.users.map (·.id) then
      .ok ⟨db.toTables.insertDevice ⟨id, uid, lastlogin⟩, db.constraints.insertDevice hnew huser⟩
    else .error .foreign_key_violation

/-- Returns the `id`. -/
def insertDataChange (db : Database Dev) (deviceid : Dev) (dataid : QByteArray) (keyid : ℕ)
    (salt data : QByteArray) : Except SqlError (Database Dev × ℕ) :=
  let c : DataChange Dev := ⟨db.nextDataId, deviceid, dataid, keyid, salt, data⟩
  if hnew : (c.deviceid, c.dataid) ∈ db.datachanges.map fun c => (c.deviceid, c.dataid) then
    .error .unique_violation
  else if hdev : c.deviceid ∈ db.devices.map (·.id) then
    if hq : ∀ u ∈ db.upquota db.users c, u.quota < u.quotalimit then
      .ok (⟨db.toTables.insertDataChange c, db.constraints.insertDataChange rfl hdev hnew hq⟩, c.id)
    else .error .check_violation
  else .error .foreign_key_violation

def insertDeviceChanges (db : Database Dev) (rows : List (DeviceChange Dev)) :
    Except SqlError (Database Dev) :=
  if hnew : (db.devicechanges ++ rows).Nodup then
    if hrows : ∀ x ∈ rows, x.deviceid ∈ db.devices.map (·.id) ∧ x.dataid ∈ db.datachanges.map (·.id) then
      .ok ⟨db.toTables.insertDeviceChanges rows, db.constraints.insertDeviceChanges hnew hrows⟩
    else .error .foreign_key_violation
  else .error .unique_violation

/-! ### What successful inserts have done -/

variable {db db' : Database Dev}

theorem insertDataChange_ok {deviceid : Dev} {dataid salt data : QByteArray} {keyid nId : ℕ}
    (h : db.insertDataChange deviceid dataid keyid salt data = .ok (db', nId)) :
    nId = db.nextDataId ∧ deviceid ∈ db.devices.map (·.id) ∧
      db'.toTables = db.toTables.insertDataChange ⟨nId, deviceid, dataid, keyid, salt, data⟩ := by
  simp only [insertDataChange] at h
  split_ifs at h with h1 h2 h3
  cases h
  exact ⟨rfl, h2, rfl⟩

theorem insertDeviceChanges_ok {rows : List (DeviceChange Dev)} (h : db.insertDeviceChanges rows = .ok db') :
    db'.toTables = db.toTables.insertDeviceChanges rows := by
  unfold insertDeviceChanges at h
  split_ifs at h
  cases h
  rfl

omit [DecidableEq Dev] in
theorem deleteUsers_ok {p : User → Bool} (h : db.deleteUsers p = .ok db') :
    db'.toTables = db.toTables.deleteUsers p := by
  unfold deleteUsers at h
  split_ifs at h
  cases h
  rfl

omit [DecidableEq Dev] in
theorem insertUser_ok {quotalimit uid : ℕ} (h : db.insertUser quotalimit = .ok (db', uid)) :
    uid = db.nextUserId ∧ db'.toTables = db.toTables.insertUser quotalimit := by
  unfold insertUser at h
  split_ifs at h
  cases h
  exact ⟨rfl, rfl⟩

theorem insertDevice_ok {id : Dev} {userid : Option ℕ} {lastlogin : ℕ}
    (h : db.insertDevice id userid lastlogin = .ok db') :
    ∃ uid, userid = some uid ∧ db'.toTables = db.toTables.insertDevice ⟨id, uid, lastlogin⟩ := by
  unfold insertDevice at h
  split at h
  · cases h
  · split_ifs at h
    cases h
    exact ⟨_, rfl, rfl⟩

/-- The id of a new device is new. -/
theorem insertDevice_new {id : Dev} {userid : Option ℕ} {lastlogin : ℕ}
    (h : db.insertDevice id userid lastlogin = .ok db') : id ∉ db.devices.map (·.id) := by
  unfold insertDevice at h
  split at h
  · cases h
  · split_ifs at h with hnew
    exact hnew

omit [DecidableEq Dev] in
/-- The stored change of a device for a data id is unique. -/
theorem eq_of_slot {c c' : DataChange Dev} (hc : c ∈ db.datachanges) (hc' : c' ∈ db.datachanges)
    (hdev : c.deviceid = c'.deviceid) (hdata : c.dataid = c'.dataid) : c = c' :=
  List.inj_on_of_nodup_map db.constraints.datachanges_unique hc hc' (Prod.ext hdev hdata)

omit [DecidableEq Dev] in
theorem eq_of_id {c c' : DataChange Dev} (hc : c ∈ db.datachanges) (hc' : c' ∈ db.datachanges)
    (hid : c.id = c'.id) : c = c' :=
  List.inj_on_of_nodup_map (db.constraints.datachanges_pkey.imp fun h => Nat.ne_of_lt h) hc hc' hid

end Database

end QtDataSync.Server
