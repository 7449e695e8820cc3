import Mathlib.Algebra.Order.Ring.Int
import Mathlib.Data.Int.Notation
import Mathlib.Logic.Function.Basic
import QtDataSync.Server.DatabaseController

/-!
# Server.Accounts — the keys of the devices and of the accounts

The columns of `devices` and `users` that the exchange keys need, the table `keychanges`, and the functions of
`databasecontroller.cpp` on them.  The server never looks into keys and MACs, so their type `B` is a parameter.
`Accounts` carries the constraints of `keychanges`.  A result `none` stands for a `DatabaseException`, after which the
transaction is rolled back.
-/

namespace QtDataSync.Server

/-- The columns of `devices` for the name and the keys; `keymac` may be NULL. -/
structure DeviceInfo (B : Type*) where
  name : String
  signscheme : B
  signkey : B
  cryptscheme : B
  cryptkey : B
  fingerprint : B
  keymac : Option B
deriving DecidableEq, Repr

structure KeyChange (Dev B : Type*) where
  deviceid : Dev
  keyindex : ℕ
  scheme : B
  key : B
  verifymac : B
deriving DecidableEq, Repr

/-- The database with `keycount` by the id of the user, the columns of the devices, and `keychanges`. -/
structure Accounts (Dev B : Type*) where
  db : Database Dev
  info : Dev → DeviceInfo B
  keycount : ℕ → ℕ
  keychanges : List (KeyChange Dev B)
  keychanges_pkey : (keychanges.map (·.deviceid)).Nodup
  keychanges_deviceid : ∀ k ∈ keychanges, k.deviceid ∈ db.devices.map (·.id)

variable {Dev B : Type*} [DecidableEq Dev]

/-- The device that a transaction creates. -/
def Transaction.creates : Transaction Dev → Option Dev
  | .addNewDevice _ deviceId _ => some deviceId
  | .addNewDeviceToUser newDeviceId _ _ => some newDeviceId
  | _ => none

theorem Transaction.mem_devices_of_run {db db' : Database Dev} {tx : Transaction Dev} (h : tx.run db = .ok db') {d : Dev}
    (hd : d ∈ db'.devices.map (·.id)) : d ∈ db.devices.map (·.id) ∨ tx.creates = some d := by
  have hsub : ∀ {l : List (Device Dev)}, l.Sublist db.devices → d ∈ l.map (·.id) → d ∈ db.devices.map (·.id) :=
    fun hl hm => (hl.map _).subset hm
  cases tx with
  | addNewDevice quota deviceId today =>
    obtain ⟨uid, ht⟩ := DatabaseController.addNewDevice_ok h
    rw [ht] at hd
    simp only [Tables.insertDevice, Tables.insertUser, List.map_append, List.map_singleton, List.mem_append,
      List.mem_singleton] at hd
    exact hd.imp id fun he => congrArg some he.symm
  | addNewDeviceToUser new partner today =>
    obtain ⟨uid, -, ht⟩ := Database.insertDevice_ok h
    rw [ht] at hd
    simp only [Tables.insertDevice, List.map_append, List.map_singleton, List.mem_append, List.mem_singleton] at hd
    exact hd.imp id fun he => congrArg some he.symm
  | updateLogin deviceId today =>
    cases h
    obtain ⟨x, hx, rfl⟩ := List.mem_map.mp hd
    obtain ⟨y, hy, rfl⟩ := List.mem_map.mp hx
    refine Or.inl (List.mem_map.mpr ⟨y, hy, ?_⟩)
    split <;> rfl
  | removeDevice deviceId deleteId =>
    rw [Database.deleteUsers_ok h] at hd
    exact Or.inl (hsub List.filter_sublist hd)
  | cleanupDevices today days =>
    by_cases hz : days = 0
    · have he : db = db' := Except.ok.inj ((if_pos hz).symm.trans h)
      rw [he]
      exact Or.inl hd
    · rw [Database.deleteUsers_ok ((if_neg hz).symm.trans h)] at hd
      exact Or.inl (hsub List.filter_sublist hd)
  | addChange deviceId dataId keyIndex salt data =>
    have ht := DatabaseController.addChange_ok h
    split_ifs at ht
    · rw [ht] at hd
      exact Or.inl hd
    · rw [ht] at hd
      exact Or.inl hd
  | addDeviceChange deviceId targetId dataId keyIndex salt data =>
    obtain ⟨db₁, nId, h₁, ht⟩ := DatabaseController.addDeviceChange_ok h
    have h₁' : db₁.devices = db.devices := by
      rcases DatabaseController.insertOrFind_ok h₁ with ⟨-, -, -, -, -, rfl⟩ | ⟨-, -, ht₁⟩
      · rfl
      · rw [ht₁]
        rfl
    split_ifs at ht
    · rw [ht, h₁'] at hd
      exact Or.inl hd
    · rw [ht] at hd
      exact Or.inl (h₁' ▸ hd)
  | completeChange deviceId dataIndex =>
    cases h
    exact Or.inl hd

/-- The `int` with the bits of a `quint32`. -/
def int32 (n : ℕ) : ℤ := if n < 2 ^ 31 then (n : ℤ) else (n : ℤ) - 2 ^ 32

namespace Accounts

/-- The device is in the table `devices`. -/
def IsDevice (a : Accounts Dev B) (device : Dev) : Prop := device ∈ a.db.devices.map (·.id)

instance (a : Accounts Dev B) (device : Dev) : Decidable (a.IsDevice device) :=
  inferInstanceAs (Decidable (device ∈ a.db.devices.map (·.id)))

/-- Other rows in the tables of `Database`, with the cascade to `keychanges`. -/
def withDb (a : Accounts Dev B) (db : Database Dev) : Accounts Dev B :=
  { a with
    db := db
    keychanges := a.keychanges.filter fun k => k.deviceid ∈ db.devices.map (·.id)
    keychanges_pkey := a.keychanges_pkey.sublist (List.filter_sublist.map _)
    keychanges_deviceid := fun _ hk => of_decide_eq_true (List.mem_filter.mp hk).2 }

/-- The transactions that concern the tables of `Database` only. -/
def transaction (a : Accounts Dev B) (tx : Transaction Dev) : Except SqlError (Accounts Dev B) :=
  (tx.run a.db).map a.withDb

def setInfo (a : Accounts Dev B) (device : Dev) (info : DeviceInfo B) : Accounts Dev B :=
  { a with info := Function.update a.info device info }

def setKeycount (a : Accounts Dev B) (userId n : ℕ) : Accounts Dev B :=
  { a with keycount := Function.update a.keycount userId n }

def deleteKeyChanges (a : Accounts Dev B) (p : KeyChange Dev B → Bool) : Accounts Dev B :=
  { a with
    keychanges := a.keychanges.filter fun k => !p k
    keychanges_pkey := a.keychanges_pkey.sublist (List.filter_sublist.map _)
    keychanges_deviceid := fun k hk => a.keychanges_deviceid k (List.mem_of_mem_filter hk) }

/-- `INSERT INTO keychanges`. -/
def insertKeyChange (a : Accounts Dev B) (k : KeyChange Dev B) : Option (Accounts Dev B) :=
  if hnew : k.deviceid ∉ a.keychanges.map (·.deviceid) then
    if hdev : k.deviceid ∈ a.db.devices.map (·.id) then
      some { a with
        keychanges := a.keychanges ++ [k]
        keychanges_pkey := by
          rw [List.map_append, List.nodup_append]
          refine ⟨a.keychanges_pkey, List.nodup_singleton _, fun x hx y hy => ?_⟩
          rw [List.map_singleton, List.mem_singleton] at hy
          subst hy
          rintro rfl
          exact hnew hx
        keychanges_deviceid := fun x hx => by
          rcases List.mem_append.mp hx with hx | hx
          · exact a.keychanges_deviceid x hx
          · rw [List.mem_singleton] at hx
            subst hx
            exact hdev }
    else none
  else none

/-! ### The functions of the controller -/

def addNewDevice (a : Accounts Dev B) (quota : ℕ) (deviceId : Dev) (today : ℕ) (info : DeviceInfo B) :
    Except SqlError (Accounts Dev B) :=
  (a.transaction (.addNewDevice quota deviceId today)).map fun a' =>
    (a'.setInfo deviceId info).setKeycount a.db.nextUserId 0

def addNewDeviceToUser (a : Accounts Dev B) (newDeviceId partnerDeviceId : Dev) (today : ℕ)
    (info : DeviceInfo B) : Except SqlError (Accounts Dev B) :=
  (a.transaction (.addNewDeviceToUser newDeviceId partnerDeviceId today)).map fun a' =>
    a'.setInfo newDeviceId info

def loadCrypto (a : Accounts Dev B) (deviceId : Dev) : Option (DeviceInfo B) :=
  if a.IsDevice deviceId then some (a.info deviceId) else none

def updateLogin (a : Accounts Dev B) (deviceId : Dev) (name : String) (today : ℕ) :
    Except SqlError (Accounts Dev B) :=
  (a.transaction (.updateLogin deviceId today)).map fun a' =>
    a'.setInfo deviceId { a.info deviceId with name := name }

def updateCmac (a : Accounts Dev B) (deviceId : Dev) (keyIndex : ℕ) (cmac : B) : Accounts Dev B × Bool :=
  if (a.db.deviceUserId deviceId).map a.keycount = some keyIndex then
    ((a.setInfo deviceId { a.info deviceId with keymac := some cmac }).deleteKeyChanges fun k =>
      k.deviceid = deviceId ∧ k.keyindex = keyIndex, true)
  else (a, false)

def listDevices (a : Accounts Dev B) (deviceId : Dev) : List (Dev × String × B) :=
  (DatabaseController.otherDevices a.db deviceId).map fun d => (d.id, (a.info d.id).name, (a.info d.id).fingerprint)

/-- Some device of the user has yet to take over the current key. -/
def HasKeyChanges (a : Accounts Dev B) (userId : ℕ) : Prop :=
  ∃ k ∈ a.keychanges, a.db.deviceUserId k.deviceid = some userId

instance (a : Accounts Dev B) (userId : ℕ) : Decidable (a.HasKeyChanges userId) :=
  inferInstanceAs (Decidable (∃ k ∈ a.keychanges, a.db.deviceUserId k.deviceid = some userId))

/-- Returns the devices with their keys, and the `offset`. -/
def tryKeyChange (a : Accounts Dev B) (deviceId : Dev) (proposedIndex : ℕ) :
    Option (List (Dev × B × B × Option B) × ℤ) :=
  match a.db.deviceUserId deviceId with
  | none => none
  | some userId =>
    let offset := int32 proposedIndex - int32 (a.keycount userId)
    if offset ≠ 1 then some ([], offset)
    else if a.HasKeyChanges userId then some ([], -1)
    else
      some ((DatabaseController.otherDevices a.db deviceId).map fun d =>
        (d.id, (a.info d.id).cryptscheme, (a.info d.id).cryptkey, (a.info d.id).keymac), offset)

/-- The loop of `updateExchangeKey`. -/
def addKeyChanges (a : Accounts Dev B) (userId keyIndex : ℕ) (scheme : B) :
    List (Dev × B × B) → Option (Accounts Dev B)
  | [] => some a
  | (device, key, cmac) :: deviceKeys =>
    if a.db.deviceUserId device = some userId then
      (a.insertKeyChange ⟨device, keyIndex, scheme, key, cmac⟩).bind fun a' =>
        a'.addKeyChanges userId keyIndex scheme deviceKeys
    else none

/-- The column `keycount` is an `INT`. -/
def updateExchangeKey (a : Accounts Dev B) (deviceId : Dev) (keyIndex : ℕ) (scheme cmac : B)
    (deviceKeys : List (Dev × B × B)) : Option (Accounts Dev B × Bool) :=
  match a.db.deviceUserId deviceId with
  | none => some (a, false)
  | some userId =>
    if 2 ^ 31 ≤ a.keycount userId + 1 then none -- integer out of range
    else if a.keycount userId + 1 ≠ keyIndex then some (a, false)
    else
      ((a.setKeycount userId keyIndex).addKeyChanges userId keyIndex scheme deviceKeys).map fun a' =>
        (a'.setInfo deviceId { a.info deviceId with keymac := some cmac }, true)

/-- The row of the device. -/
def loadKeyChanges (a : Accounts Dev B) (deviceId : Dev) : Option (ℕ × B × B × B) :=
  (a.keychanges.find? fun k => k.deviceid = deviceId).map fun k => (k.keyindex, k.scheme, k.key, k.verifymac)

/-! ### What they have done -/

variable {a a' : Accounts Dev B}

@[simp] theorem withDb_db (db : Database Dev) : (a.withDb db).db = db := rfl
@[simp] theorem withDb_info (db : Database Dev) : (a.withDb db).info = a.info := rfl
@[simp] theorem withDb_keycount (db : Database Dev) : (a.withDb db).keycount = a.keycount := rfl
@[simp] theorem setInfo_db (device : Dev) (info : DeviceInfo B) : (a.setInfo device info).db = a.db := rfl
@[simp] theorem setInfo_keychanges (device : Dev) (info : DeviceInfo B) :
    (a.setInfo device info).keychanges = a.keychanges := rfl
@[simp] theorem setInfo_keycount (device : Dev) (info : DeviceInfo B) :
    (a.setInfo device info).keycount = a.keycount := rfl
omit [DecidableEq Dev] in
@[simp] theorem setKeycount_db (userId n : ℕ) : (a.setKeycount userId n).db = a.db := rfl
omit [DecidableEq Dev] in
@[simp] theorem setKeycount_info (userId n : ℕ) : (a.setKeycount userId n).info = a.info := rfl
omit [DecidableEq Dev] in
@[simp] theorem setKeycount_keychanges (userId n : ℕ) :
    (a.setKeycount userId n).keychanges = a.keychanges := rfl
omit [DecidableEq Dev] in
@[simp] theorem deleteKeyChanges_db (p : KeyChange Dev B → Bool) : (a.deleteKeyChanges p).db = a.db := rfl
omit [DecidableEq Dev] in
@[simp] theorem deleteKeyChanges_info (p : KeyChange Dev B → Bool) : (a.deleteKeyChanges p).info = a.info := rfl
omit [DecidableEq Dev] in
@[simp] theorem deleteKeyChanges_keycount (p : KeyChange Dev B → Bool) :
    (a.deleteKeyChanges p).keycount = a.keycount := rfl

theorem setInfo_info (device : Dev) (info : DeviceInfo B) :
    (a.setInfo device info).info = Function.update a.info device info := rfl

theorem transaction_ok {tx : Transaction Dev} (h : a.transaction tx = .ok a') :
    tx.run a.db = .ok a'.db ∧ a' = a.withDb a'.db := by
  unfold transaction at h
  rcases hr : tx.run a.db with e | db
  · rw [hr] at h
    cases h
  · rw [hr] at h
    cases h
    exact ⟨rfl, rfl⟩

theorem isDevice_of_transaction {tx : Transaction Dev} (h : a.transaction tx = .ok a') {d : Dev}
    (hd : a'.IsDevice d) : a.IsDevice d ∨ tx.creates = some d :=
  Transaction.mem_devices_of_run (transaction_ok h).1 hd

/-- A registration creates the device with its keys. -/
theorem addNewDevice_ok {quota today : ℕ} {deviceId : Dev} {info : DeviceInfo B}
    (h : a.addNewDevice quota deviceId today info = .ok a') :
    ¬ a.IsDevice deviceId ∧ a'.loadCrypto deviceId = some info ∧
      ∀ d, a'.IsDevice d → a.IsDevice d ∨ d = deviceId := by
  unfold addNewDevice at h
  rcases ht : a.transaction (.addNewDevice quota deviceId today) with e | a₁
  · rw [ht] at h
    cases h
  · rw [ht] at h
    cases h
    obtain ⟨db₁, uid, huser, hdev⟩ := DatabaseController.addNewDevice_split (transaction_ok ht).1
    obtain ⟨-, htables⟩ := Database.insertUser_ok huser
    obtain ⟨userId, -, hrow⟩ := Database.insertDevice_ok hdev
    have hnew := Database.insertDevice_new hdev
    rw [htables] at hnew
    refine ⟨hnew, ?_, fun d hd => ?_⟩
    · unfold loadCrypto
      rw [if_pos]
      · exact congrArg some (Function.update_self ..)
      · rw [IsDevice, setKeycount_db, setInfo_db, hrow, Tables.insertDevice, List.map_append]
        exact List.mem_append_right _ List.mem_cons_self
    · exact (isDevice_of_transaction ht hd).imp_right fun he => (Option.some.inj he).symm

theorem addNewDeviceToUser_ok {newDeviceId partnerDeviceId : Dev} {today : ℕ} {info : DeviceInfo B}
    (h : a.addNewDeviceToUser newDeviceId partnerDeviceId today info = .ok a') {d : Dev} (hd : a'.IsDevice d) :
    a.IsDevice d ∨ d = newDeviceId := by
  unfold addNewDeviceToUser at h
  rcases ht : a.transaction (.addNewDeviceToUser newDeviceId partnerDeviceId today) with e | a₁
  · rw [ht] at h
    cases h
  · rw [ht] at h
    cases h
    exact (isDevice_of_transaction ht hd).imp_right fun he => (Option.some.inj he).symm

theorem updateLogin_ok {deviceId : Dev} {name : String} {today : ℕ}
    (h : a.updateLogin deviceId name today = .ok a') {d : Dev} (hd : a'.IsDevice d) : a.IsDevice d := by
  unfold updateLogin at h
  rcases ht : a.transaction (.updateLogin deviceId today) with e | a₁
  · rw [ht] at h
    cases h
  · rw [ht] at h
    cases h
    exact (isDevice_of_transaction ht hd).resolve_right fun he => (nomatch he)

theorem insertKeyChange_ok {k : KeyChange Dev B} (h : a.insertKeyChange k = some a') :
    k.deviceid ∉ a.keychanges.map (·.deviceid) ∧ a'.keychanges = a.keychanges ++ [k] ∧ a'.db = a.db ∧
      a'.info = a.info ∧ a'.keycount = a.keycount := by
  unfold insertKeyChange at h
  split_ifs at h with hnew hdev
  cases h
  exact ⟨hnew, rfl, rfl, rfl, rfl⟩

theorem addKeyChanges_ok {userId keyIndex : ℕ} {scheme : B} {deviceKeys : List (Dev × B × B)}
    (h : a.addKeyChanges userId keyIndex scheme deviceKeys = some a') :
    (∀ x ∈ deviceKeys, a.db.deviceUserId x.1 = some userId ∧ x.1 ∉ a.keychanges.map (·.deviceid)) ∧
      a'.keychanges = a.keychanges ++ deviceKeys.map (fun x => ⟨x.1, keyIndex, scheme, x.2.1, x.2.2⟩) ∧
      a'.db = a.db ∧ a'.info = a.info ∧ a'.keycount = a.keycount := by
  induction deviceKeys generalizing a with
  | nil =>
    cases h
    exact ⟨by simp, by simp, rfl, rfl, rfl⟩
  | cons x deviceKeys ih =>
    obtain ⟨device, key, cmac⟩ := x
    simp only [addKeyChanges, Option.ite_none_right_eq_some, Option.bind_eq_some_iff] at h
    obtain ⟨huser, a₁, h₁, h₂⟩ := h
    obtain ⟨hnew, hkeys, hdb, hinfo, hcount⟩ := insertKeyChange_ok h₁
    obtain ⟨hall, hkeys', hdb', hinfo', hcount'⟩ := ih h₂
    rw [hdb, hkeys] at hall
    refine ⟨?_, ?_, hdb'.trans hdb, hinfo'.trans hinfo, hcount'.trans hcount⟩
    · intro y hy
      rcases List.mem_cons.mp hy with rfl | hy
      · exact ⟨huser, hnew⟩
      · obtain ⟨hu, hn⟩ := hall y hy
        rw [List.map_append] at hn
        exact ⟨hu, fun hmem => hn (List.mem_append_left _ hmem)⟩
    · rw [hkeys', hkeys, List.append_assoc]
      rfl

theorem updateExchangeKey_ok {deviceId : Dev} {keyIndex : ℕ} {scheme cmac : B} {deviceKeys : List (Dev × B × B)}
    {ok : Bool} (h : a.updateExchangeKey deviceId keyIndex scheme cmac deviceKeys = some (a', ok)) :
    (ok = false ∧ a' = a) ∨
      ok = true ∧ ∃ userId, a.db.deviceUserId deviceId = some userId ∧ a.keycount userId + 1 = keyIndex ∧
        keyIndex < 2 ^ 31 ∧
        (∀ x ∈ deviceKeys, a.db.deviceUserId x.1 = some userId ∧ x.1 ∉ a.keychanges.map (·.deviceid)) ∧
        a'.keychanges = a.keychanges ++ deviceKeys.map (fun x => ⟨x.1, keyIndex, scheme, x.2.1, x.2.2⟩) ∧
        a'.db = a.db ∧ a'.keycount = Function.update a.keycount userId keyIndex ∧
        a'.info = Function.update a.info deviceId { a.info deviceId with keymac := some cmac } := by
  unfold updateExchangeKey at h
  split at h
  · cases h
    exact Or.inl ⟨rfl, rfl⟩
  · rename_i userId huser
    split_ifs at h with hrange hindex
    · cases h
      exact Or.inl ⟨rfl, rfl⟩
    · rw [not_not] at hindex
      rw [Option.map_eq_some_iff] at h
      obtain ⟨a₁, h₁, h₂⟩ := h
      cases h₂
      obtain ⟨hall, hkeys, hdb, hinfo, hcount⟩ := addKeyChanges_ok h₁
      refine Or.inr ⟨rfl, userId, huser, hindex, by omega, hall, hkeys, hdb, hcount, ?_⟩
      rw [setInfo_info, hinfo]
      rfl

theorem updateCmac_ok {deviceId : Dev} {keyIndex : ℕ} {cmac : B} {ok : Bool}
    (h : a.updateCmac deviceId keyIndex cmac = (a', ok)) :
    (ok = false ∧ a' = a) ∨
      ok = true ∧ (∃ userId, a.db.deviceUserId deviceId = some userId ∧ a.keycount userId = keyIndex) ∧
        a' = (a.setInfo deviceId { a.info deviceId with keymac := some cmac }).deleteKeyChanges fun k =>
          k.deviceid = deviceId ∧ k.keyindex = keyIndex := by
  unfold updateCmac at h
  split_ifs at h with hindex
  · cases h
    exact Or.inr ⟨rfl, Option.map_eq_some_iff.mp hindex, rfl⟩
  · cases h
    exact Or.inl ⟨rfl, rfl⟩

end Accounts

end QtDataSync.Server
