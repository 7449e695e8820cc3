import QtDataSync.Server.Durability

/-!
# Server.Removal — what the removal of devices leaves behind

`removeDevice` and `cleanupDevices` delete rows of `devices`; the rows that refer to them go by the cascades.  Stored
data is collected by `completeChange`, when the last device has completed it, and by `addChange`, when there is no
other device.  The cascades do not collect: `NoOrphans` holds in a run up to the first removal that takes the last
device a change of another device is pending for (`KeepsRecipients`).
-/

namespace QtDataSync.Server

variable {Dev : Type*} [DecidableEq Dev]

namespace Transaction

/-- The transactions that delete devices. -/
def isRemoval : Transaction Dev → Bool
  | .removeDevice _ _ => true
  | .cleanupDevices _ offlineSinceDays => offlineSinceDays ≠ 0
  | _ => false

/-- The devices that the transaction deletes. -/
def removes (db : Database Dev) : Transaction Dev → Device Dev → Bool
  | .removeDevice deviceId deleteId, d => d.id = deleteId ∧ d.userid = (db.deviceUserId deviceId).getD 0
  | .cleanupDevices today offlineSinceDays, d => offlineSinceDays ≠ 0 ∧ offlineSinceDays < today - d.lastlogin
  | _, _ => false

/-- The devices that are there before and after the transaction. -/
def staying (db : Database Dev) (tx : Transaction Dev) : List Dev :=
  (db.deleteDevices (tx.removes db)).devices.map (·.id)

theorem mem_staying {db : Database Dev} {tx : Transaction Dev} {device : Dev} :
    device ∈ tx.staying db ↔ ∃ d ∈ db.devices, tx.removes db d = false ∧ d.id = device := by
  simp only [staying, List.mem_map, Database.deleteDevices, Tables.mem_deleteDevices, and_assoc]

theorem removes_eq_false {db : Database Dev} {tx : Transaction Dev} (h : tx.isRemoval = false) (d : Device Dev) :
    tx.removes db d = false := by
  cases tx with
  | removeDevice deviceId deleteId => cases h
  | cleanupDevices today offlineSinceDays =>
    have hdays := of_decide_eq_false h
    exact decide_eq_false fun hr => hdays hr.1
  | _ => rfl

theorem staying_of_not_removal {db : Database Dev} {tx : Transaction Dev} (h : tx.isRemoval = false) {device : Dev} :
    device ∈ tx.staying db ↔ device ∈ db.devices.map (·.id) := by
  simp [mem_staying, removes_eq_false h]

omit [DecidableEq Dev] in
/-- Users without devices can be deleted. -/
theorem deleteUsers_commits {db : Database Dev} {q : User → Bool}
    (hq : ∀ u, q u = true → ∀ d ∈ db.devices, d.userid ≠ u.id) : ∃ db', db.deleteUsers q = .ok db' := by
  unfold Database.deleteUsers
  rw [dif_pos]
  · exact ⟨_, rfl⟩
  · intro d hd
    obtain ⟨u, hu, he⟩ := List.mem_map.mp (db.constraints.devices_userid d hd)
    refine List.mem_map.mpr ⟨u, List.mem_filter.mpr ⟨hu, ?_⟩, he⟩
    by_contra hcon
    have hqu : q u = true := by simpa using hcon
    exact hq u hqu d hd he.symm

/-- The users that a removal deletes along with the devices `p`: those without another device. -/
def RemovesUsers (db : Database Dev) (p : Device Dev → Bool) (q : User → Bool) : Prop :=
  (∀ u, q u = true → ∀ d ∈ db.devices, d.userid = u.id → p d = true) ∧
    ∀ u ∈ db.users, (∀ d ∈ db.devices, d.userid = u.id → p d = true) →
      (∃ d ∈ db.devices, d.userid = u.id) → q u = true

/-- **The removals are committed**, and delete what `removes` says. -/
theorem removal_ok (db : Database Dev) {tx : Transaction Dev} (h : tx.isRemoval = true) :
    ∃ q, RemovesUsers db (tx.removes db) q ∧
      (tx.next db).toTables = (db.toTables.deleteDevices (tx.removes db)).deleteUsers q := by
  have hdel (p : Device Dev → Bool) (q : User → Bool)
      (hrun : tx.run db = (db.deleteDevices p).deleteUsers q)
      (hq : ∀ u, q u = true → ∀ d ∈ (db.deleteDevices p).devices, d.userid ≠ u.id) :
      (tx.next db).toTables = (db.toTables.deleteDevices p).deleteUsers q := by
    obtain ⟨db', hok⟩ := deleteUsers_commits hq
    rw [next_of_ok (hrun.trans hok), Database.deleteUsers_ok hok]
    rfl
  -- a device of a deleted user is a deleted one
  have hgone {p : Device Dev → Bool} {u : User} (hu : ∀ d ∈ (db.deleteDevices p).devices, d.userid ≠ u.id) :
      ∀ d ∈ db.devices, d.userid = u.id → p d = true := by
    intro d hd he
    by_contra hp
    exact hu d (Tables.mem_deleteDevices.mpr ⟨hd, by simpa using hp⟩) he
  cases tx with
  | removeDevice deviceId deleteId =>
    refine ⟨_, ⟨?_, ?_⟩, hdel _ _ rfl ?_⟩
    · intro u hu
      have hu' := of_decide_eq_true hu
      exact hgone fun d hd => by
        rw [hu'.1]
        exact hu'.2 d hd
    · rintro u - hall ⟨d, hd, he⟩
      have hrem := of_decide_eq_true (hall d hd he)
      refine decide_eq_true ⟨he.symm.trans hrem.2, fun d' hd' he' => ?_⟩
      obtain ⟨hmem, hkept⟩ := Tables.mem_deleteDevices.mp hd'
      have hall' := hall d' hmem (he'.trans (hrem.2.symm.trans he))
      exact absurd (of_decide_eq_true hall') (of_decide_eq_false hkept)
    · intro u hu
      have hu' := of_decide_eq_true hu
      rw [hu'.1]
      exact hu'.2
  | cleanupDevices today offlineSinceDays =>
    have hdays : offlineSinceDays ≠ 0 := of_decide_eq_true h
    have hp : removes db (.cleanupDevices today offlineSinceDays) =
        fun d => decide (offlineSinceDays < today - d.lastlogin) := by
      funext d
      simp [removes, hdays]
    rw [hp]
    refine ⟨_, ⟨?_, ?_⟩, hdel _ _ (if_neg hdays) ?_⟩
    · exact fun u hu => hgone (of_decide_eq_true hu)
    · rintro u - hall -
      refine decide_eq_true fun d hd he => ?_
      obtain ⟨hmem, hkept⟩ := Tables.mem_deleteDevices.mp hd
      exact absurd (hall d hmem he) (by simpa using hkept)
    · exact fun u hu => of_decide_eq_true hu
  | _ => cases h

end Transaction

namespace DatabaseController.Sample

/-- The steps of a list of transactions. -/
def trace (db : Database ℕ) : List (Transaction ℕ) → List (Database ℕ × Transaction ℕ × Database ℕ)
  | [] => []
  | tx :: txs => (db, tx, tx.next db) :: trace (tx.next db) txs

theorem trace_run (db : Database ℕ) (txs : List (Transaction ℕ)) :
    LTS.Run lts LTS.free db (trace db txs) (run db txs) := by
  induction txs generalizing db with
  | nil => exact .nil db
  | cons tx txs ih =>
    have h1 : LTS.Run lts LTS.free db [(db, tx, tx.next db)] (tx.next db) := (LTS.Run.nil db).snoc trivial rfl
    exact h1.trans (ih (tx.next db))

end DatabaseController.Sample

/-! ### Stored data that no device waits for -/

/-- Every stored change is pending for a device. -/
def NoOrphans (t : Tables Dev) : Prop :=
  ∀ c ∈ t.datachanges, ∃ device, ⟨device, c.id⟩ ∈ t.devicechanges

/-- The transaction leaves every stored change whose sender stays one of the devices it is pending for. -/
def KeepsRecipients (db : Database Dev) (tx : Transaction Dev) : Prop :=
  ∀ c ∈ db.datachanges, c.deviceid ∈ tx.staying db →
    ∃ device ∈ tx.staying db, ⟨device, c.id⟩ ∈ db.devicechanges

instance (t : Tables Dev) : Decidable (NoOrphans t) :=
  decidable_of_iff (∀ c ∈ t.datachanges, ∃ x ∈ t.devicechanges, x.dataid = c.id) <|
    forall₂_congr fun _ _ =>
      ⟨fun ⟨x, hx, he⟩ => ⟨x.deviceid, he ▸ hx⟩, fun ⟨_, hx⟩ => ⟨_, hx, rfl⟩⟩

instance (db : Database Dev) (tx : Transaction Dev) : Decidable (KeepsRecipients db tx) :=
  inferInstanceAs (Decidable (∀ c ∈ db.datachanges, _ → ∃ device ∈ _, _))

namespace NoOrphans

open DatabaseController

variable {t : Tables Dev}

theorem deleteDataChanges (h : NoOrphans t) (p : DataChange Dev → Bool) : NoOrphans (t.deleteDataChanges p) := by
  intro c hc
  obtain ⟨device, hx⟩ := h c (Tables.mem_deleteDataChanges.mp hc).1
  exact ⟨device, Tables.mem_devicechanges_deleteDataChanges.mpr ⟨hx, List.mem_map_of_mem hc⟩⟩

/-- New data with at least one row. -/
theorem insert (h : NoOrphans t) {c : DataChange Dev} {rows : List (DeviceChange Dev)}
    (hrow : ∃ device, ⟨device, c.id⟩ ∈ rows) :
    NoOrphans ((t.insertDataChange c).insertDeviceChanges rows) := by
  intro c' hc'
  rcases Tables.mem_insertDataChange.mp hc' with hc' | rfl
  · obtain ⟨device, hx⟩ := h c' hc'
    exact ⟨device, Tables.mem_insertDeviceChanges.mpr (Or.inl hx)⟩
  · obtain ⟨device, hx⟩ := hrow
    exact ⟨device, Tables.mem_insertDeviceChanges.mpr (Or.inr hx)⟩

theorem addChange {db db' : Database Dev} {deviceId : Dev} {dataId salt data : QByteArray} {keyIndex : ℕ}
    (h : NoOrphans db.toTables)
    (hdb' : DatabaseController.addChange db deviceId dataId keyIndex salt data = .ok db') :
    NoOrphans db'.toTables := by
  have hdel := h.deleteDataChanges fun c => c.deviceid = deviceId ∧ c.dataid = dataId
  have ht := DatabaseController.addChange_ok hdb'
  split_ifs at ht with hlen
  · -- without another device the data goes at once
    rw [ht]
    intro c hc
    have hmem := Tables.mem_deleteDataChanges.mp hc
    have hid : c.id ≠ db.nextDataId := of_decide_eq_false hmem.2
    rcases Tables.mem_insertDataChange.mp hmem.1 with hc' | rfl
    · obtain ⟨device, hx⟩ := hdel c hc'
      refine ⟨device, Tables.mem_devicechanges_deleteDataChanges.mpr ⟨?_, List.mem_map_of_mem hc⟩⟩
      exact Tables.mem_insertDeviceChanges.mpr (Or.inl hx)
    · exact absurd rfl hid
  · rw [ht]
    refine hdel.insert ?_
    obtain ⟨d, hd⟩ := List.exists_mem_of_length_pos (Nat.pos_of_ne_zero hlen)
    exact ⟨d.id, List.mem_map_of_mem hd⟩

theorem addDeviceChange {db db' : Database Dev} {deviceId targetId : Dev} {dataId salt data : QByteArray}
    {keyIndex : ℕ} (h : NoOrphans db.toTables)
    (hdb' : DatabaseController.addDeviceChange db deviceId targetId dataId keyIndex salt data = .ok db') :
    NoOrphans db'.toTables := by
  have hheld := DatabaseController.held_addDeviceChange hdb'
  obtain ⟨db₁, nId, h₁, ht⟩ := DatabaseController.addDeviceChange_ok hdb'
  have hsub : (∀ c ∈ db'.datachanges, c ∈ db.datachanges ∨
      c = DatabaseController.storedChange db deviceId dataId keyIndex salt data) ∧
      ∀ x ∈ db.devicechanges, x ∈ db'.devicechanges := by
    have h1 : (∀ c ∈ db₁.datachanges, c ∈ db.datachanges ∨
        c = DatabaseController.storedChange db deviceId dataId keyIndex salt data) ∧
        ∀ x ∈ db.devicechanges, x ∈ db₁.devicechanges := by
      rcases DatabaseController.insertOrFind_ok h₁ with ⟨-, -, -, -, -, rfl⟩ | ⟨hnone, rfl, ht₁⟩
      · exact ⟨fun c hc => Or.inl hc, fun x hx => hx⟩
      · rw [DatabaseController.storedChange_of_forall hnone, ht₁]
        exact ⟨fun c hc => Tables.mem_insertDataChange.mp hc, fun x hx => hx⟩
    split_ifs at ht
    · rw [ht]
      exact h1
    · rw [ht]
      exact ⟨h1.1, fun x hx => Tables.mem_insertDeviceChanges.mpr (Or.inl (h1.2 x hx))⟩
  intro c hc
  rcases hsub.1 c hc with hc | rfl
  · obtain ⟨device, hx⟩ := h c hc
    exact ⟨device, hsub.2 _ hx⟩
  · exact ⟨targetId, hheld.2⟩

theorem completeChange {db : Database Dev} (h : NoOrphans db.toTables) (deviceId : Dev) (dataIndex : ℕ) :
    NoOrphans (Transaction.next db (.completeChange deviceId dataIndex)).toTables := by
  intro c hc
  obtain ⟨hc', hp⟩ := Tables.mem_deleteDataChanges.mp hc
  have hleft : ∃ device, ⟨device, c.id⟩ ∈
      (db.deleteDeviceChanges fun x => x.deviceid = deviceId ∧ x.dataid = dataIndex).devicechanges := by
    by_cases hid : c.id = dataIndex
    · -- what is left after the last device is collected
      have hex := of_decide_eq_false hp
      push Not at hex
      obtain ⟨⟨device, n⟩, hx, he⟩ := hex hid
      subst hid he
      exact ⟨device, hx⟩
    · obtain ⟨device, hx⟩ := h c hc'
      exact ⟨device, Tables.mem_deleteDeviceChanges.mpr ⟨hx, decide_eq_false fun hcon => hid hcon.2⟩⟩
  obtain ⟨device, hx⟩ := hleft
  exact ⟨device, Tables.mem_devicechanges_deleteDataChanges.mpr ⟨hx, List.mem_map_of_mem hc⟩⟩

/-- What the removal of devices leaves, exactly. -/
theorem deleteDevices_iff {db : Database Dev} {p : Device Dev → Bool} :
    NoOrphans (db.toTables.deleteDevices p) ↔
      ∀ c ∈ db.datachanges, c.deviceid ∈ (db.deleteDevices p).devices.map (·.id) →
        ∃ device ∈ (db.deleteDevices p).devices.map (·.id), ⟨device, c.id⟩ ∈ db.devicechanges := by
  constructor
  · intro h c hc hsender
    obtain ⟨device, hx⟩ := h c (Tables.mem_datachanges_deleteDevices.mpr ⟨hc, hsender⟩)
    obtain ⟨hx, hdev, -⟩ := Tables.mem_devicechanges_deleteDevices.mp hx
    exact ⟨device, hdev, hx⟩
  · intro h c hc
    obtain ⟨hc', hsender⟩ := Tables.mem_datachanges_deleteDevices.mp hc
    obtain ⟨device, hdev, hx⟩ := h c hc' hsender
    exact ⟨device, Tables.mem_devicechanges_deleteDevices.mpr ⟨hx, hdev, List.mem_map_of_mem hc⟩⟩

/-- Transactions that delete no device. -/
theorem next {db : Database Dev} {tx : Transaction Dev} (h : NoOrphans db.toTables) (htx : tx.isRemoval = false) :
    NoOrphans (tx.next db).toTables := by
  rcases tx.next_cases db with hrun | he
  · cases tx with
    | addNewDevice quota deviceId today =>
      obtain ⟨uid, ht⟩ := DatabaseController.addNewDevice_ok hrun
      rw [ht]
      exact h
    | addNewDeviceToUser new partner today =>
      obtain ⟨uid, -, ht⟩ := Database.insertDevice_ok hrun
      rw [ht]
      exact h
    | updateLogin deviceId today => exact h
    | removeDevice deviceId deleteId => cases htx
    | cleanupDevices today days =>
      have hdays : days = 0 := by simpa [Transaction.isRemoval] using htx
      rw [show Transaction.next db (.cleanupDevices today days) = db from Transaction.next_of_ok (if_pos hdays)]
      exact h
    | addChange deviceId dataId keyIndex salt data => exact h.addChange hrun
    | addDeviceChange deviceId targetId dataId keyIndex salt data => exact h.addDeviceChange hrun
    | completeChange deviceId dataIndex => exact h.completeChange deviceId dataIndex
  · rw [he]
    exact h

/-- **One transaction.** -/
theorem next_iff {db : Database Dev} (h : NoOrphans db.toTables) (tx : Transaction Dev) :
    NoOrphans (tx.next db).toTables ↔ KeepsRecipients db tx := by
  rcases htx : tx.isRemoval with _ | _
  · refine iff_of_true (h.next htx) fun c hc _ => ?_
    obtain ⟨device, hx⟩ := h c hc
    exact ⟨device, (Transaction.staying_of_not_removal htx).mpr (db.constraints.devicechanges_deviceid _ hx), hx⟩
  · obtain ⟨q, -, ht⟩ := Transaction.removal_ok db htx
    rw [ht]
    exact deleteDevices_iff

/-- **Stored data is collected** with the last device that waits for it, in all states of a run, if and only if no
transaction of the run removes the last such device of a change whose sender stays. -/
theorem collected_iff {db : Database Dev} {tr : List (Database Dev × Transaction Dev × Database Dev)}
    (hr : LTS.Run lts LTS.free .empty tr db) :
    (∀ x ∈ tr, NoOrphans x.2.2.toTables) ↔ ∀ x ∈ tr, KeepsRecipients x.1 x.2.1 := by
  refine hr.forall_iff (I := fun db => NoOrphans db.toTables) (fun _ hc => by cases hc) ?_
  rintro db tx db' h hst
  rw [show db' = tx.next db from hst]
  exact h.next_iff tx

/-- Device 2 completes the change of device 1, and then leaves. -/
theorem collected_completed : ∃ tr db, LTS.Run lts LTS.free (.empty : Database ℕ) tr db ∧
    tr.map (fun x => x.2.1) = [.addNewDevice 100 1 0, .addNewDeviceToUser 2 1 0, .addChange 1 [10] 0 [0] [7],
      .completeChange 2 1, .removeDevice 2 2] ∧
    ∀ x ∈ tr, NoOrphans x.2.2.toTables :=
  have hr := Sample.trace_run .empty [.addNewDevice 100 1 0, .addNewDeviceToUser 2 1 0, .addChange 1 [10] 0 [0] [7],
    .completeChange 2 1, .removeDevice 2 2]
  ⟨_, _, hr, rfl, (collected_iff hr).mpr (by decide)⟩

/-- Device 2 leaves before it has completed the change. -/
theorem removeDevice_orphans : ¬ ∀ db : Database ℕ, lts.Reachable LTS.free db → NoOrphans db.toTables := by
  intro h
  have horphan := h _ (Sample.run_reachable (.init rfl)
    [.addNewDevice 100 1 0, .addNewDeviceToUser 2 1 0, .addChange 1 [10] 0 [0] [7], .removeDevice 2 2])
  exact absurd horphan (by decide)

end NoOrphans

end QtDataSync.Server
