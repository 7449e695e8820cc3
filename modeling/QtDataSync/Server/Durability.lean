import QtDataSync.Server.DatabaseController

/-!
# Server.Durability — what the server keeps of an accepted upload

After `addChange` every other device of the account has the change pending, and after `addDeviceChange` its target has
the change that is stored for the data id, which is the one passed only if none was stored before.  Both stay until
they are completed or replaced, or until the device or the sender is removed.
-/

namespace QtDataSync.Server

variable {Dev : Type*} [DecidableEq Dev]

/-- A pending change is handed out by some `loadNextChanges`. -/
theorem Held.loadNextChanges {db : Database Dev} {c : DataChange Dev} {device : Dev}
    (h : Held db.toTables c device) :
    ∃ skip, DatabaseController.loadNextChanges db device 1 skip = [(c.id, c.keyid, c.salt, c.data)] := by
  have hmem : c ∈ DatabaseController.pendingChanges db device :=
    List.mem_filter.mpr ⟨h.1, decide_eq_true h.2⟩
  obtain ⟨n, hn, hc⟩ := List.getElem_of_mem hmem
  refine ⟨n, ?_⟩
  unfold DatabaseController.loadNextChanges
  rw [List.drop_eq_getElem_cons hn, List.take_succ_cons, List.take_zero, List.map_singleton, hc]

/-- The change of a sender for a data id that is pending is the stored one. -/
theorem Held.eq_of_pending {db : Database Dev} {c c' : DataChange Dev} {device : Dev}
    (h : Held db.toTables c device) (hc' : c' ∈ DatabaseController.pendingChanges db device)
    (hdev : c'.deviceid = c.deviceid) (hdata : c'.dataid = c.dataid) : c' = c :=
  Database.eq_of_slot (List.mem_of_mem_filter hc') h.1 hdev hdata

namespace DatabaseController

theorem held_addChange {db db' : Database Dev} {deviceId device : Dev} {dataId salt data : QByteArray}
    {keyIndex : ℕ} (h : addChange db deviceId dataId keyIndex salt data = .ok db')
    (hdev : device ∈ (otherDevices db deviceId).map (·.id)) :
    Held db'.toTables ⟨db.nextDataId, deviceId, dataId, keyIndex, salt, data⟩ device := by
  obtain ⟨d, hd, rfl⟩ := List.mem_map.mp hdev
  have ht := addChange_ok h
  rw [if_neg fun hlen => List.ne_nil_of_mem hd (List.length_eq_zero_iff.mp hlen)] at ht
  rw [ht]
  refine ⟨Tables.mem_insertDataChange.mpr (Or.inr rfl), ?_⟩
  exact Tables.mem_insertDeviceChanges.mpr (Or.inr (List.mem_map_of_mem hd))

/-- **Durability of accepted uploads.**  After `addChange` has returned `true`, every other device of the account has
a row that leads to the uploaded data, in every run in which it does not complete it, the sender does not upload the
same data again, and neither the device nor the sender is removed. -/
theorem addChange_durable (db : Database Dev) {db₁ : Database Dev} {deviceId device : Dev}
    {dataId salt data : QByteArray} {keyIndex : ℕ}
    (h : addChange db deviceId dataId keyIndex salt data = .ok db₁)
    (hdev : device ∈ (otherDevices db deviceId).map (·.id))
    {tr : List (Database Dev × Transaction Dev × Database Dev)} {db' : Database Dev}
    (hr : LTS.Run lts (Held.Spares ⟨db.nextDataId, deviceId, dataId, keyIndex, salt, data⟩ device) db₁ tr db') :
    Held db'.toTables ⟨db.nextDataId, deviceId, dataId, keyIndex, salt, data⟩ device :=
  (held_addChange h hdev).run hr

/-- The change that is stored for the data id after `addDeviceChange`. -/
def storedChange (db : Database Dev) (deviceId : Dev) (dataId : QByteArray) (keyIndex : ℕ)
    (salt data : QByteArray) : DataChange Dev :=
  (db.datachanges.find? fun c => c.deviceid = deviceId ∧ c.dataid = dataId).getD
    ⟨db.nextDataId, deviceId, dataId, keyIndex, salt, data⟩

theorem storedChange_of_mem {db : Database Dev} {c : DataChange Dev} (hc : c ∈ db.datachanges) (keyIndex : ℕ)
    (salt data : QByteArray) : storedChange db c.deviceid c.dataid keyIndex salt data = c := by
  unfold storedChange
  rcases h : db.datachanges.find? fun c' => c'.deviceid = c.deviceid ∧ c'.dataid = c.dataid with _ | c'
  · rw [List.find?_eq_none] at h
    exact absurd (decide_eq_true ⟨rfl, rfl⟩) (h c hc)
  · have hslot := List.find?_some h
    rw [decide_eq_true_eq] at hslot
    rw [h, Option.getD_some]
    exact Database.eq_of_slot (List.mem_of_find?_eq_some h) hc hslot.1 hslot.2

theorem storedChange_of_forall {db : Database Dev} {deviceId : Dev} {dataId : QByteArray}
    (hnone : ∀ c ∈ db.datachanges, ¬ (c.deviceid = deviceId ∧ c.dataid = dataId)) (keyIndex : ℕ)
    (salt data : QByteArray) : storedChange db deviceId dataId keyIndex salt data =
      ⟨db.nextDataId, deviceId, dataId, keyIndex, salt, data⟩ := by
  have h : (db.datachanges.find? fun c => c.deviceid = deviceId ∧ c.dataid = dataId) = none :=
    List.find?_eq_none.mpr fun c hc hslot => hnone c hc (of_decide_eq_true hslot)
  rw [storedChange, h, Option.getD_none]

theorem storedChange_slot (db : Database Dev) (deviceId : Dev) (dataId : QByteArray) (keyIndex : ℕ)
    (salt data : QByteArray) : (storedChange db deviceId dataId keyIndex salt data).deviceid = deviceId ∧
      (storedChange db deviceId dataId keyIndex salt data).dataid = dataId := by
  unfold storedChange
  rcases h : db.datachanges.find? fun c => c.deviceid = deviceId ∧ c.dataid = dataId with _ | c
  · rw [h, Option.getD_none]
    exact ⟨rfl, rfl⟩
  · have hslot := List.find?_some h
    rw [decide_eq_true_eq] at hslot
    rw [h, Option.getD_some]
    exact hslot

theorem held_addDeviceChange {db db' : Database Dev} {deviceId targetId : Dev} {dataId salt data : QByteArray}
    {keyIndex : ℕ} (h : addDeviceChange db deviceId targetId dataId keyIndex salt data = .ok db') :
    Held db'.toTables (storedChange db deviceId dataId keyIndex salt data) targetId := by
  obtain ⟨db₁, nId, h₁, ht⟩ := addDeviceChange_ok h
  -- the row is stored under the id that is used
  have hstored : storedChange db deviceId dataId keyIndex salt data ∈ db₁.datachanges ∧
      (storedChange db deviceId dataId keyIndex salt data).id = nId := by
    rcases insertOrFind_ok h₁ with ⟨c, hc, rfl, rfl, rfl, rfl⟩ | ⟨hnone, rfl, ht₁⟩
    · rw [storedChange_of_mem hc]
      exact ⟨hc, rfl⟩
    · rw [storedChange_of_forall hnone, ht₁]
      exact ⟨Tables.mem_insertDataChange.mpr (Or.inr rfl), rfl⟩
  split_ifs at ht with hrow
  · subst ht
    refine ⟨hstored.1, ?_⟩
    rw [hstored.2]
    exact hrow
  · rw [ht]
    refine ⟨hstored.1, Tables.mem_insertDeviceChanges.mpr (Or.inr ?_)⟩
    rw [hstored.2]
    exact List.mem_singleton_self _

/-- **Device uploads.**  After `addDeviceChange` has returned `true`, the change that is handed to the target for the
data id is the stored one, in every run in which the target does not complete it, the sender does not upload the
same data again, and neither of them is removed.  It carries what was passed if nothing was stored for the data id. -/
theorem addDeviceChange_stored (db : Database Dev) {db₁ : Database Dev} {deviceId targetId : Dev}
    {dataId salt data : QByteArray} {keyIndex : ℕ}
    (h : addDeviceChange db deviceId targetId dataId keyIndex salt data = .ok db₁) :
    ∃ c : DataChange Dev,
      (∀ c₀ ∈ db.datachanges, c₀.deviceid = deviceId → c₀.dataid = dataId → c = c₀) ∧
      ((∀ c₀ ∈ db.datachanges, ¬ (c₀.deviceid = deviceId ∧ c₀.dataid = dataId)) →
        c.keyid = keyIndex ∧ c.salt = salt ∧ c.data = data) ∧
      ∀ tr db', LTS.Run lts (Held.Spares c targetId) db₁ tr db' →
        (∃ skip, loadNextChanges db' targetId 1 skip = [(c.id, c.keyid, c.salt, c.data)]) ∧
        ∀ c' ∈ pendingChanges db' targetId, c'.deviceid = deviceId → c'.dataid = dataId → c' = c := by
  have hslot := storedChange_slot db deviceId dataId keyIndex salt data
  refine ⟨storedChange db deviceId dataId keyIndex salt data, ?_, ?_, fun tr db' hr => ?_⟩
  · rintro c₀ hc₀ rfl rfl
    exact storedChange_of_mem hc₀ keyIndex salt data
  · intro hnone
    rw [storedChange_of_forall hnone]
    exact ⟨rfl, rfl, rfl⟩
  · have hheld := (held_addDeviceChange h).run hr
    refine ⟨hheld.loadNextChanges, fun c' hc' hdev hdata => ?_⟩
    exact hheld.eq_of_pending hc' (hdev.trans hslot.1.symm) (hdata.trans hslot.2.symm)

/-! ### An account of three devices -/

namespace Sample

def run (db : Database ℕ) (txs : List (Transaction ℕ)) : Database ℕ := txs.foldl Transaction.next db

/-- Device 1 and its partner 2. -/
def account : Database ℕ := run .empty [.addNewDevice 100 1 0, .addNewDeviceToUser 2 1 0]

/-- Device 1 has uploaded an object, and device 3 has been added. -/
def uploaded : Database ℕ :=
  run account [.addChange 1 [10] 0 [0] [7], .addNewDeviceToUser 3 1 0]

/-- The change that device 1 has uploaded. -/
def change : DataChange ℕ := ⟨1, 1, [10], 0, [0], [7]⟩

theorem run_reachable {db : Database ℕ} (h : lts.Reachable LTS.free db) (txs : List (Transaction ℕ)) :
    lts.Reachable LTS.free (run db txs) := by
  induction txs generalizing db with
  | nil => exact h
  | cons tx txs ih => exact ih (h.step (a := tx) trivial rfl)

theorem snoc {G : Database ℕ → Transaction ℕ → Prop} {db db' : Database ℕ}
    {tr : List (Database ℕ × Transaction ℕ × Database ℕ)} (h : LTS.Run lts G db tr db') (tx : Transaction ℕ)
    (hg : G db' tx) : LTS.Run lts G db (tr ++ [(db', tx, tx.next db')]) (tx.next db') := h.snoc hg rfl

theorem uploaded_reachable : lts.Reachable LTS.free uploaded :=
  run_reachable (run_reachable (.init rfl) _) _

theorem addChange_ok : addChange account 1 [10] 0 [0] [7] = .ok (run account [.addChange 1 [10] 0 [0] [7]]) :=
  Transaction.run_eq_ok (.addChange 1 [10] 0 [0] [7]) (by decide)

theorem addDeviceChange_ok :
    addDeviceChange uploaded 1 3 [10] 0 [1] [8] = .ok (run uploaded [.addDeviceChange 1 3 [10] 0 [1] [8]]) :=
  Transaction.run_eq_ok (.addDeviceChange 1 3 [10] 0 [1] [8]) (by decide)

end Sample

/-- Device 3 is added and removed again, and device 2 still has the change pending. -/
theorem addChange_durable_removal :
    Held (Sample.run Sample.uploaded [.removeDevice 1 3]).toTables Sample.change 2 := by
  have h0 := LTS.Run.nil (L := lts) (G := Held.Spares Sample.change 2)
    (Sample.run Sample.account [.addChange 1 [10] 0 [0] [7]])
  have h1 := Sample.snoc h0 (.addNewDeviceToUser 3 1 0) ⟨by simp, fun _ _ _ h => (by cases h), by decide⟩
  have h2 := Sample.snoc h1 (.removeDevice 1 3) ⟨by simp, fun _ _ _ h => (by cases h), by decide⟩
  exact addChange_durable Sample.account Sample.addChange_ok (by decide) h2

/-- The removal of the sender takes the change away from the devices that have not received it. -/
theorem removeDevice_drops_changes : ¬ ∀ (db db₁ : Database ℕ) (deviceId device : ℕ)
    (dataId salt data : QByteArray) (keyIndex : ℕ), lts.Reachable LTS.free db →
    addChange db deviceId dataId keyIndex salt data = .ok db₁ →
    device ∈ (otherDevices db deviceId).map (·.id) → ∀ tr db', LTS.Run lts (fun s tx =>
      tx ≠ .completeChange device db.nextDataId ∧
      (∀ keyIndex salt data, tx ≠ .addChange deviceId dataId keyIndex salt data) ∧
      (device ∈ s.devices.map (·.id) → device ∈ (tx.next s).devices.map (·.id))) db₁ tr db' →
    ∃ c, Held db'.toTables c device ∧ c.data = data := by
  intro h
  obtain ⟨c, hc, -⟩ := h Sample.account _ 1 2 [10] [0] [7] 0 (Sample.run_reachable (.init rfl) _) Sample.addChange_ok
    (by decide) _ _ (Sample.snoc (.nil _) (.removeDevice 2 1) ⟨by simp, by simp, by decide⟩)
  have hnone : (Transaction.next (Sample.run Sample.account [.addChange 1 [10] 0 [0] [7]])
      (.removeDevice 2 1)).devicechanges = [] := by decide
  have hmem := hc.2
  rw [hnone] at hmem
  cases hmem

/-- Device 3 is handed the change that is stored for device 2. -/
theorem addDeviceChange_stored_change : ∃ c : DataChange ℕ, c.data = [7] ∧
    ∃ skip, loadNextChanges (Sample.run Sample.uploaded [.addDeviceChange 1 3 [10] 0 [1] [8]]) 3 1 skip =
      [(c.id, c.keyid, c.salt, c.data)] := by
  obtain ⟨c, hc, -, hrun⟩ := addDeviceChange_stored Sample.uploaded Sample.addDeviceChange_ok
  refine ⟨c, ?_, (hrun _ _ (.nil _)).1⟩
  rw [hc Sample.change (by decide) rfl rfl]
  rfl

/-- A change that is still pending for another device is kept, and handed to the target instead of the passed one. -/
theorem addDeviceChange_keeps_stored : ¬ ∀ (db db₁ : Database ℕ) (deviceId targetId : ℕ)
    (dataId salt data : QByteArray) (keyIndex : ℕ), lts.Reachable LTS.free db →
    addDeviceChange db deviceId targetId dataId keyIndex salt data = .ok db₁ →
    ∀ c ∈ pendingChanges db₁ targetId, c.deviceid = deviceId → c.dataid = dataId →
      c.keyid = keyIndex ∧ c.salt = salt ∧ c.data = data := by
  intro h
  have hc := h Sample.uploaded _ 1 3 [10] [1] [8] 0 Sample.uploaded_reachable Sample.addDeviceChange_ok
    Sample.change (by decide) rfl rfl
  exact absurd hc.2.2 (by decide)

end DatabaseController

end QtDataSync.Server
