import QtDataSync.Server.Quota

/-!
# Server.Tenancy — what a transaction of one account does to the rows of others

A row belongs to the device it names.  For each transaction that a client can ask for, the exact condition under which
it leaves the rows of all devices of other accounts as they are (`RowsKept`).  `addDeviceChange` takes any device for a
target, so a `devicechanges` row can lead from one account to another; then the removal of the data takes a row of the
other account with it, and the last acknowledgement removes data of the other account.
-/

namespace QtDataSync.Server

variable {Dev : Type*} [DecidableEq Dev]

namespace Tables

/-- A device of another account than that of the user. -/
def IsForeign (t : Tables Dev) (userId : ℕ) (d : Dev) : Prop := ∃ u, t.deviceUserId d = some u ∧ u ≠ userId

instance (t : Tables Dev) (userId : ℕ) (d : Dev) : Decidable (t.IsForeign userId d) :=
  match h : t.deviceUserId d with
  | none => isFalse fun ⟨_, hu, _⟩ => nomatch h.symm.trans hu
  | some u => decidable_of_iff (u ≠ userId)
      ⟨fun hne => ⟨u, h, hne⟩, fun ⟨_, hu, hne⟩ => Option.some.inj (h.symm.trans hu) ▸ hne⟩

/-- The rows of the devices of other accounts are the same. -/
structure RowsKept (userId : ℕ) (t t' : Tables Dev) : Prop where
  devices : ∀ d, d.userid ≠ userId → (d ∈ t'.devices ↔ d ∈ t.devices)
  datachanges : ∀ c, t.IsForeign userId c.deviceid → (c ∈ t'.datachanges ↔ c ∈ t.datachanges)
  devicechanges : ∀ x, t.IsForeign userId x.deviceid → (x ∈ t'.devicechanges ↔ x ∈ t.devicechanges)

/-- More data of the size brings the user of the device to his limit. -/
def HitsQuota (t : Tables Dev) (own : Dev) (size : ℕ) : Prop :=
  ∃ u ∈ t.users, some u.id = t.deviceUserId own ∧ u.quotalimit ≤ u.quota + size

instance (t : Tables Dev) (own : Dev) (size : ℕ) : Decidable (t.HitsQuota own size) :=
  inferInstanceAs (Decidable (∃ u ∈ t.users, _ ∧ _))

variable {t t' : Tables Dev} {own : Dev} {userId : ℕ}

theorem RowsKept.refl (userId : ℕ) (t : Tables Dev) : RowsKept userId t t :=
  ⟨fun _ _ => Iff.rfl, fun _ _ => Iff.rfl, fun _ _ => Iff.rfl⟩

theorem mem_of_deviceUserId {d : Dev} {u : ℕ} (h : t.deviceUserId d = some u) : d ∈ t.devices.map (·.id) := by
  obtain ⟨row, hrow, -⟩ := Option.map_eq_some_iff.mp h
  have hid := List.find?_some hrow
  rw [decide_eq_true_eq] at hid
  rw [← hid]
  exact List.mem_map_of_mem (List.mem_of_find?_eq_some hrow)

theorem IsForeign.mem {d : Dev} (h : t.IsForeign userId d) : d ∈ t.devices.map (·.id) := by
  obtain ⟨u, hu, -⟩ := h
  exact mem_of_deviceUserId hu

theorem IsForeign.ne {d : Dev} (h : t.IsForeign userId d) (huser : t.deviceUserId own = some userId) : d ≠ own := by
  rintro rfl
  obtain ⟨u, hu, hne⟩ := h
  exact hne (Option.some.inj (hu.symm.trans huser))

end Tables

/-! ### Transactions that are committed -/

namespace Database

variable {db : Database Dev}

theorem hitsQuota_iff (db : Database Dev) (c : DataChange Dev) :
    (∀ u ∈ db.upquota db.users c, u.quota < u.quotalimit) ↔ ¬ db.HitsQuota c.deviceid c.data.length := by
  constructor
  · rintro h ⟨u, hu, hid, hle⟩
    have hnew := h _ (List.mem_map_of_mem hu)
    rw [if_pos hid] at hnew
    exact absurd hnew (Nat.not_lt.mpr hle)
  · intro h u hu
    obtain ⟨u₀, hu₀, rfl⟩ := List.mem_map.mp hu
    split_ifs with hid
    · by_contra hcon
      exact h ⟨u₀, hu₀, hid, Nat.not_lt.mp hcon⟩
    · exact db.constraints.users_check u₀ hu₀

theorem insertDataChange_of_quota (db : Database Dev) {own : Dev} {dataId : QByteArray} (keyIndex : ℕ) (salt data : QByteArray)
    (hdev : own ∈ db.devices.map (·.id))
    (hnew : ∀ c ∈ db.datachanges, ¬ (c.deviceid = own ∧ c.dataid = dataId)) :
    if db.HitsQuota own data.length then
      db.insertDataChange own dataId keyIndex salt data = .error .check_violation
    else ∃ db', db.insertDataChange own dataId keyIndex salt data = .ok (db', db.nextDataId) := by
  have hslot : (own, dataId) ∉ db.datachanges.map fun c => (c.deviceid, c.dataid) := by
    intro hm
    obtain ⟨c, hc, he⟩ := List.mem_map.mp hm
    exact hnew c hc ⟨congrArg Prod.fst he, congrArg Prod.snd he⟩
  have hq := hitsQuota_iff db ⟨db.nextDataId, own, dataId, keyIndex, salt, data⟩
  simp only [insertDataChange]
  rw [dif_neg hslot, dif_pos hdev]
  by_cases hhits : db.HitsQuota own data.length
  · rw [if_pos hhits, dif_neg fun h => hq.mp h hhits]
  · rw [if_neg hhits, dif_pos (hq.mpr hhits)]
    exact ⟨_, rfl⟩

theorem insertDeviceChanges_new {rows : List (DeviceChange Dev)} {n : ℕ} (hn : n ∈ db.datachanges.map (·.id))
    (hnew : ∀ x ∈ db.devicechanges, x.dataid ≠ n) (hrows : rows.Nodup)
    (hall : ∀ x ∈ rows, x.dataid = n ∧ x.deviceid ∈ db.devices.map (·.id)) :
    ∃ db', db.insertDeviceChanges rows = .ok db' := by
  unfold insertDeviceChanges
  have hnodup : (db.devicechanges ++ rows).Nodup := by
    refine List.nodup_append.mpr ⟨db.constraints.devicechanges_pkey, hrows, ?_⟩
    rintro x hx y hy rfl
    exact hnew x hx (hall x hy).1
  have href : ∀ x ∈ rows, x.deviceid ∈ db.devices.map (·.id) ∧ x.dataid ∈ db.datachanges.map (·.id) :=
    fun x hx => ⟨(hall x hx).2, by rw [(hall x hx).1]; exact hn⟩
  rw [dif_pos hnodup, dif_pos href]
  exact ⟨_, rfl⟩

end Database

namespace DatabaseController

variable {db : Database Dev} {own target : Dev}

/-- `addChange` is committed unless the quota is hit. -/
theorem addChange_commits (hdev : own ∈ db.devices.map (·.id)) (dataId : QByteArray) (keyIndex : ℕ)
    (salt data : QByteArray) :
    if (db.toTables.deleteDataChanges fun c => c.deviceid = own ∧ c.dataid = dataId).HitsQuota own data.length then
      addChange db own dataId keyIndex salt data = .error .check_violation
    else ∃ db', addChange db own dataId keyIndex salt data = .ok db' := by
  have hnew : ∀ c ∈ (db.deleteDataChanges fun c => c.deviceid = own ∧ c.dataid = dataId).datachanges,
      ¬ (c.deviceid = own ∧ c.dataid = dataId) :=
    fun c hc => of_decide_eq_false (Tables.mem_deleteDataChanges.mp hc).2
  have hins := Database.insertDataChange_of_quota (db.deleteDataChanges fun c => c.deviceid = own ∧ c.dataid = dataId)
    keyIndex salt data hdev hnew
  by_cases hhits :
      (db.toTables.deleteDataChanges fun c => c.deviceid = own ∧ c.dataid = dataId).HitsQuota own data.length
  · rw [if_pos hhits]
    have herr := (if_pos hhits).mp hins
    simp only [addChange, herr, bind, Except.bind]
  · rw [if_neg hhits]
    obtain ⟨db₁, h₁⟩ := (if_neg hhits).mp hins
    obtain ⟨-, -, ht₁⟩ := Database.insertDataChange_ok h₁
    have hrows : ∃ db₂, db₁.insertDeviceChanges ((otherDevices db₁ own).map fun d => ⟨d.id, db.nextDataId⟩) =
        .ok db₂ := by
      refine Database.insertDeviceChanges_new (n := db.nextDataId) ?_ (fun x hx he => ?_) ?_ fun x hx => ?_
      · rw [ht₁]
        exact List.mem_map_of_mem (Tables.mem_insertDataChange.mpr (Or.inr rfl))
      · -- the id is new, so no row has it
        rw [ht₁] at hx
        have hold := (Tables.mem_devicechanges_deleteDataChanges.mp hx).1
        obtain ⟨c, hc, hid⟩ := List.mem_map.mp (db.constraints.devicechanges_dataid x hold)
        exact absurd (hid.trans he) (Nat.ne_of_lt (db.constraints.datachanges_seq c hc))
      · refine List.Nodup.map_on (fun d hd d' hd' he => ?_) ?_
        · exact List.inj_on_of_nodup_map db₁.constraints.devices_pkey (List.mem_of_mem_filter hd)
            (List.mem_of_mem_filter hd') (congrArg DeviceChange.deviceid he)
        · exact (List.Nodup.of_map _ db₁.constraints.devices_pkey).filter _
      · obtain ⟨d, hd, rfl⟩ := List.mem_map.mp hx
        exact ⟨rfl, List.mem_map_of_mem (List.mem_of_mem_filter hd)⟩
    obtain ⟨db₂, h₂⟩ := hrows
    simp only [addChange, h₁, bind, Except.bind]
    have h₂' : db₁.insertDeviceChanges ((otherDevices db₁ own).map fun d =>
        ⟨d.id, (db.deleteDataChanges fun c => c.deviceid = own ∧ c.dataid = dataId).nextDataId⟩) = .ok db₂ := h₂
    simp only [h₂']
    split_ifs
    · exact ⟨_, rfl⟩
    · exact ⟨_, rfl⟩

/-- `addDeviceChange` for a device is committed unless there is no row yet and the quota is hit. -/
theorem addDeviceChange_commits (hdev : own ∈ db.devices.map (·.id)) (htarget : target ∈ db.devices.map (·.id))
    (dataId : QByteArray) (keyIndex : ℕ) (salt data : QByteArray) :
    if (∀ c ∈ db.datachanges, ¬ (c.deviceid = own ∧ c.dataid = dataId)) ∧ db.HitsQuota own data.length then
      addDeviceChange db own target dataId keyIndex salt data = .error .check_violation
    else ∃ db', addDeviceChange db own target dataId keyIndex salt data = .ok db' := by
  by_cases hhits : (∀ c ∈ db.datachanges, ¬ (c.deviceid = own ∧ c.dataid = dataId)) ∧ db.HitsQuota own data.length
  · rw [if_pos hhits]
    have herr := (if_pos hhits.2).mp (Database.insertDataChange_of_quota db keyIndex salt data hdev hhits.1)
    have hfind : db.datachanges.find? (fun c => c.deviceid = own ∧ c.dataid = dataId) = none :=
      List.find?_eq_none.mpr fun c hc h => hhits.1 c hc (of_decide_eq_true h)
    simp only [addDeviceChange, insertOrFind, hfind, herr, bind, Except.bind]
  · rw [if_neg hhits]
    have hfound : ∃ db₁ nId, insertOrFind db own dataId keyIndex salt data = .ok (db₁, nId) := by
      unfold insertOrFind
      split
      · exact ⟨_, _, rfl⟩
      · rename_i hnone
        have hnew : ∀ c ∈ db.datachanges, ¬ (c.deviceid = own ∧ c.dataid = dataId) :=
          fun c hc h => List.find?_eq_none.mp hnone c hc (decide_eq_true h)
        obtain ⟨db₁, h₁⟩ := (if_neg fun h => hhits ⟨hnew, h⟩).mp
          (Database.insertDataChange_of_quota db keyIndex salt data hdev hnew)
        exact ⟨db₁, _, h₁⟩
    obtain ⟨db₁, nId, h₁⟩ := hfound
    have hrow : db₁.devices = db.devices ∧ nId ∈ db₁.datachanges.map (·.id) := by
      rcases insertOrFind_ok h₁ with ⟨c, hc, -, -, rfl, rfl⟩ | ⟨-, -, ht₁⟩
      · exact ⟨rfl, List.mem_map_of_mem hc⟩
      · rw [ht₁]
        exact ⟨rfl, List.mem_map_of_mem (Tables.mem_insertDataChange.mpr (Or.inr rfl))⟩
    simp only [addDeviceChange, h₁, bind, Except.bind]
    split_ifs with hmem
    · exact ⟨_, rfl⟩
    · unfold Database.insertDeviceChanges
      have hnodup : (db₁.devicechanges ++ [(⟨target, nId⟩ : DeviceChange Dev)]).Nodup := by
        refine List.nodup_append.mpr ⟨db₁.constraints.devicechanges_pkey, List.nodup_singleton _, fun x hx y hy => ?_⟩
        rw [List.mem_singleton] at hy
        subst hy
        rintro rfl
        exact hmem hx
      rw [dif_pos hnodup, dif_pos]
      · exact ⟨_, rfl⟩
      · refine List.forall_mem_singleton.mpr ⟨?_, hrow.2⟩
        rw [hrow.1]
        exact htarget

end DatabaseController

/-! ### The rows that stay -/

namespace Tables.RowsKept

open DatabaseController

section

variable {db db' : Database Dev} {own target : Dev} {userId : ℕ}

/-- The data that a statement deletes takes the `devicechanges` rows along that lead to it. -/
theorem mem_deleteDataChanges_iff {p : DataChange Dev → Bool} {x : DeviceChange Dev} :
    x ∈ (db.deleteDataChanges p).devicechanges ↔
      x ∈ db.devicechanges ∧ ∀ c ∈ db.datachanges, c.id = x.dataid → p c = false := by
  refine Iff.trans Tables.mem_devicechanges_deleteDataChanges (and_congr_right fun hx => ⟨fun hm c hcm hid => ?_, fun hall => ?_⟩)
  · obtain ⟨c', hc', hid'⟩ := List.mem_map.mp hm
    obtain ⟨hc', hp⟩ := Tables.mem_deleteDataChanges.mp hc'
    rw [← Database.eq_of_id hc' hcm (hid'.trans hid.symm)]
    exact hp
  · obtain ⟨c, hc, hid⟩ := List.mem_map.mp (db.constraints.devicechanges_dataid x hx)
    exact List.mem_map.mpr ⟨c, Tables.mem_deleteDataChanges.mpr ⟨hc, hall c hc hid⟩, hid⟩

/-- The rows of other accounts after `addChange`: those that the deletion of the old data leaves. -/
theorem foreign_addChange (huser : db.deviceUserId own = some userId) {dataId salt data : QByteArray} {keyIndex : ℕ}
    (h : addChange db own dataId keyIndex salt data = .ok db') :
    db'.devices = db.devices ∧
      (∀ c, db.IsForeign userId c.deviceid → (c ∈ db'.datachanges ↔ c ∈ db.datachanges)) ∧
      ∀ x, db.IsForeign userId x.deviceid → (x ∈ db'.devicechanges ↔
        x ∈ (db.deleteDataChanges fun c => c.deviceid = own ∧ c.dataid = dataId).devicechanges) := by
  have hdata : ∀ c, db.IsForeign userId c.deviceid →
      (c ∈ (addedChange db own dataId keyIndex salt data).datachanges ↔ c ∈ db.datachanges) := by
    intro c hf
    refine Iff.trans Tables.mem_insertDataChange ⟨fun hc => ?_, fun hc => ?_⟩
    · rcases hc with hc | rfl
      · exact (Tables.mem_deleteDataChanges.mp hc).1
      · exact absurd rfl (hf.ne huser)
    · exact Or.inl (Tables.mem_deleteDataChanges.mpr ⟨hc, decide_eq_false fun hs => hf.ne huser hs.1⟩)
  have hchanges : ∀ x, db.IsForeign userId x.deviceid →
      (x ∈ (addedChange db own dataId keyIndex salt data).devicechanges ↔
        x ∈ (db.deleteDataChanges fun c => c.deviceid = own ∧ c.dataid = dataId).devicechanges) := by
    intro x hf
    refine Iff.trans Tables.mem_insertDeviceChanges (or_iff_left fun hx => ?_)
    -- the new rows are for devices of the own account
    obtain ⟨d, hd, rfl⟩ := List.mem_map.mp hx
    obtain ⟨hd, hother⟩ := List.mem_filter.mp hd
    have hsame := (of_decide_eq_true hother).2
    obtain ⟨u, hu, hne⟩ := hf
    rw [deviceUserId_of_mem db.constraints.devices_pkey hd] at hu
    exact hne (Option.some.inj (hu.symm.trans (hsame.trans huser)))
  have ht := addChange_ok h
  split_ifs at ht
  · rw [ht]
    refine ⟨rfl, fun c hf => ?_, fun x hf => ?_⟩
    · rw [Tables.mem_deleteDataChanges, hdata c hf]
      exact and_iff_left_of_imp fun hc => decide_eq_false (Nat.ne_of_lt (db.constraints.datachanges_seq c hc))
    · rw [Tables.mem_devicechanges_deleteDataChanges, hchanges x hf]
      refine and_iff_left_of_imp fun hx => ?_
      obtain ⟨hx, hm⟩ := Tables.mem_devicechanges_deleteDataChanges.mp hx
      obtain ⟨c, hc, hid⟩ := List.mem_map.mp hm
      have hold := (Tables.mem_deleteDataChanges.mp hc).1
      exact List.mem_map.mpr ⟨c, Tables.mem_deleteDataChanges.mpr ⟨Tables.mem_insertDataChange.mpr (Or.inl hc),
        decide_eq_false (Nat.ne_of_lt (db.constraints.datachanges_seq c hold))⟩, hid⟩
  · rw [ht]
    exact ⟨rfl, hdata, hchanges⟩

/-- **`addChange`** takes the foreign rows that lead to the data it replaces, unless the quota is hit. -/
theorem addChange_iff (huser : db.deviceUserId own = some userId) (dataId : QByteArray) (keyIndex : ℕ)
    (salt data : QByteArray) :
    RowsKept userId db.toTables (Transaction.next db (.addChange own dataId keyIndex salt data)).toTables ↔
      (db.toTables.deleteDataChanges fun c => c.deviceid = own ∧ c.dataid = dataId).HitsQuota own data.length ∨
        ∀ c ∈ db.datachanges, c.deviceid = own → c.dataid = dataId →
          ∀ x ∈ db.devicechanges, x.dataid = c.id → ¬ db.IsForeign userId x.deviceid := by
  have hcommit := addChange_commits (Tables.mem_of_deviceUserId huser) dataId keyIndex salt data
  by_cases hhits :
      (db.toTables.deleteDataChanges fun c => c.deviceid = own ∧ c.dataid = dataId).HitsQuota own data.length
  · have herr := (if_pos hhits).mp hcommit
    have hsame : Transaction.next db (.addChange own dataId keyIndex salt data) = db := Transaction.next_of_error herr
    rw [hsame]
    exact iff_of_true (.refl userId _) (Or.inl hhits)
  · obtain ⟨db', hok⟩ := (if_neg hhits).mp hcommit
    have hnext : Transaction.next db (.addChange own dataId keyIndex salt data) = db' := Transaction.next_of_ok hok
    obtain ⟨hdevices, hdata, hchanges⟩ := foreign_addChange huser hok
    rw [hnext, or_iff_right hhits]
    constructor
    · intro h c hc hown hid x hx he hf
      have hx' := (hchanges x hf).mp ((h.devicechanges x hf).mpr hx)
      exact of_decide_eq_false ((mem_deleteDataChanges_iff.mp hx').2 c hc he.symm) ⟨hown, hid⟩
    · refine fun h => ⟨fun d _ => by rw [hdevices], hdata, fun x hf => (hchanges x hf).trans ?_⟩
      refine mem_deleteDataChanges_iff.trans (and_iff_left_of_imp fun hx c hc he => ?_)
      exact decide_eq_false fun hs => h c hc hs.1 hs.2 x hx he.symm hf

/-- The rows of other accounts after `addDeviceChange`: there is one more, if the target is foreign. -/
theorem foreign_addDeviceChange (huser : db.deviceUserId own = some userId) {dataId salt data : QByteArray}
    {keyIndex : ℕ}
    (h : addDeviceChange db own target dataId keyIndex salt data = .ok db') :
    db'.devices = db.devices ∧
      (∀ c, db.IsForeign userId c.deviceid → (c ∈ db'.datachanges ↔ c ∈ db.datachanges)) ∧
      ∃ nId, (∀ x, x ∈ db'.devicechanges ↔ x ∈ db.devicechanges ∨ x = ⟨target, nId⟩) ∧
        ((∃ c ∈ db.datachanges, c.deviceid = own ∧ c.dataid = dataId ∧ nId = c.id) ∨
          (∀ c ∈ db.datachanges, ¬ (c.deviceid = own ∧ c.dataid = dataId)) ∧ nId = db.nextDataId) := by
  obtain ⟨db₁, nId, h₁, ht⟩ := addDeviceChange_ok h
  have hfirst : db₁.devices = db.devices ∧ db₁.devicechanges = db.devicechanges ∧
      (∀ c, db.IsForeign userId c.deviceid → (c ∈ db₁.datachanges ↔ c ∈ db.datachanges)) ∧
      ((∃ c ∈ db.datachanges, c.deviceid = own ∧ c.dataid = dataId ∧ nId = c.id) ∨
        (∀ c ∈ db.datachanges, ¬ (c.deviceid = own ∧ c.dataid = dataId)) ∧ nId = db.nextDataId) := by
    rcases insertOrFind_ok h₁ with ⟨c, hc, hown, hid, hn, rfl⟩ | ⟨hnone, hn, ht₁⟩
    · exact ⟨rfl, rfl, fun _ _ => Iff.rfl, Or.inl ⟨c, hc, hown, hid, hn⟩⟩
    · rw [ht₁]
      refine ⟨rfl, rfl, fun c hf => Tables.mem_insertDataChange.trans (or_iff_left ?_), Or.inr ⟨hnone, hn⟩⟩
      rintro rfl
      exact hf.ne huser rfl
  obtain ⟨hdevices, hchanges, hdata, hid⟩ := hfirst
  split_ifs at ht with hmem
  · rw [ht]
    refine ⟨hdevices, hdata, nId, fun x => ?_, hid⟩
    rw [← hchanges]
    refine (or_iff_left_of_imp ?_).symm
    rintro rfl
    exact hmem
  · rw [ht]
    refine ⟨hdevices, hdata, nId, fun x => ?_, hid⟩
    rw [Tables.mem_insertDeviceChanges, hchanges, List.mem_singleton]

/-- **`addDeviceChange`** gives a device of another account a row, unless it has it or the quota is hit. -/
theorem addDeviceChange_iff (huser : db.deviceUserId own = some userId) (dataId : QByteArray) (keyIndex : ℕ)
    (salt data : QByteArray) :
    RowsKept userId db.toTables (Transaction.next db (.addDeviceChange own target dataId keyIndex salt data)).toTables ↔
      ¬ db.IsForeign userId target ∨
        (∃ c ∈ db.datachanges, c.deviceid = own ∧ c.dataid = dataId ∧ ⟨target, c.id⟩ ∈ db.devicechanges) ∨
        (∀ c ∈ db.datachanges, ¬ (c.deviceid = own ∧ c.dataid = dataId)) ∧ db.HitsQuota own data.length := by
  have hdev := Tables.mem_of_deviceUserId huser
  rcases hrun : addDeviceChange db own target dataId keyIndex salt data with e | db'
  · -- not committed: the target is no device, or the quota is hit
    have hsame : Transaction.next db (.addDeviceChange own target dataId keyIndex salt data) = db :=
      Transaction.next_of_error hrun
    rw [hsame]
    refine iff_of_true (.refl userId _) ?_
    by_cases hf : db.IsForeign userId target
    · refine Or.inr (Or.inr ?_)
      by_contra hhits
      obtain ⟨db', hok⟩ := (if_neg hhits).mp (addDeviceChange_commits hdev hf.mem dataId keyIndex salt data)
      cases hrun.symm.trans hok
    · exact Or.inl hf
  · have hnext : Transaction.next db (.addDeviceChange own target dataId keyIndex salt data) = db' :=
      Transaction.next_of_ok hrun
    obtain ⟨hdevices, hdata, nId, hchanges, hid⟩ := foreign_addDeviceChange huser hrun
    rw [hnext]
    constructor
    · intro h
      by_cases hf : db.IsForeign userId target
      · have hold : ⟨target, nId⟩ ∈ db.devicechanges := (h.devicechanges _ hf).mp ((hchanges _).mpr (Or.inr rfl))
        rcases hid with ⟨c, hc, hown, hdata, rfl⟩ | ⟨-, rfl⟩
        · exact Or.inr (Or.inl ⟨c, hc, hown, hdata, hold⟩)
        · obtain ⟨c, hc, he⟩ := List.mem_map.mp (db.constraints.devicechanges_dataid _ hold)
          exact absurd he (Nat.ne_of_lt (db.constraints.datachanges_seq c hc))
      · exact Or.inl hf
    · refine fun h => ⟨fun d _ => by rw [hdevices], hdata, fun x hf => (hchanges x).trans (or_iff_left_of_imp ?_)⟩
      rintro rfl
      rcases h with hnf | ⟨c, hc, hown, hcid, hx⟩ | ⟨hnone, hhits⟩
      · exact absurd hf hnf
      · rcases hid with ⟨c', hc', hown', hcid', rfl⟩ | ⟨hnone, -⟩
        · rwa [Database.eq_of_slot hc' hc (hown'.trans hown.symm) (hcid'.trans hcid.symm)]
        · exact absurd ⟨hown, hcid⟩ (hnone c hc)
      · have herr := (if_pos ⟨hnone, hhits⟩).mp (addDeviceChange_commits hdev hf.mem dataId keyIndex salt data)
        cases hrun.symm.trans herr

/-- **`completeChange`** removes data of another account exactly if the device is the last one that waits for it. -/
theorem completeChange_iff (huser : db.deviceUserId own = some userId) (i : ℕ) :
    RowsKept userId db.toTables (Transaction.next db (.completeChange own i)).toTables ↔
      ∀ c ∈ db.datachanges, c.id = i → db.IsForeign userId c.deviceid →
        ∃ x ∈ db.devicechanges, x.dataid = i ∧ x.deviceid ≠ own := by
  have hlast : ∀ c : DataChange Dev, c ∈ (Transaction.next db (.completeChange own i)).datachanges ↔
      c ∈ db.datachanges ∧ (c.id = i → ∃ x ∈ db.devicechanges, x.dataid = i ∧ x.deviceid ≠ own) := by
    intro c
    refine Iff.trans Tables.mem_deleteDataChanges (and_congr_right fun _ => decide_eq_false_iff_not.trans ?_)
    rw [not_and]
    refine imp_congr_right fun _ => ?_
    push Not
    refine exists_congr fun x => ⟨fun ⟨hx, he⟩ => ?_, fun ⟨hx, he, hne⟩ => ?_⟩
    · obtain ⟨hx, hp⟩ := Tables.mem_deleteDeviceChanges.mp hx
      exact ⟨hx, he, fun hown => of_decide_eq_false hp ⟨hown, he⟩⟩
    · exact ⟨Tables.mem_deleteDeviceChanges.mpr ⟨hx, decide_eq_false fun h => hne h.1⟩, he⟩
  constructor
  · intro h c hc hi hf
    exact ((hlast c).mp ((h.datachanges c hf).mpr hc)).2 hi
  · refine fun h => ⟨fun d _ => Iff.rfl, fun c hf => (hlast c).trans (and_iff_left_of_imp fun hc hi => h c hc hi hf),
      fun x hf => ⟨fun hx => ?_, fun hx => ?_⟩⟩
    · exact (Tables.mem_deleteDeviceChanges.mp (Tables.mem_devicechanges_deleteDataChanges.mp hx).1).1
    · have hx' : x ∈ (db.deleteDeviceChanges fun x => x.deviceid = own ∧ x.dataid = i).devicechanges :=
        Tables.mem_deleteDeviceChanges.mpr ⟨hx, decide_eq_false fun h => hf.ne huser h.1⟩
      refine mem_deleteDataChanges_iff.mpr ⟨hx', fun c _ hid => decide_eq_false fun hgone => ?_⟩
      -- the row itself keeps the data
      exact hgone.2 x hx' (hid.symm.trans hgone.1)

/-- The devices that are left. -/
theorem mem_devices_removeDevice (huser : db.deviceUserId own = some userId) {d : Dev} :
    d ∈ (db.deleteDevices ((Transaction.removeDevice own target).removes db)).devices.map (·.id) ↔
      d ∈ db.devices.map (·.id) ∧ ¬ (d = target ∧ db.deviceUserId target = some userId) := by
  have hrow : ∀ row ∈ db.devices, (Transaction.removeDevice own target).removes db row = false ↔
      ¬ (row.id = target ∧ db.deviceUserId target = some userId) := by
    intro row hm
    have hid := deviceUserId_of_mem db.constraints.devices_pkey hm
    refine decide_eq_false_iff_not.trans (not_congr (and_congr_right fun he => ?_))
    rw [← he, hid, huser, Option.getD_some, Option.some.injEq]
  constructor
  · intro hd
    obtain ⟨row, hm, rfl⟩ := List.mem_map.mp hd
    obtain ⟨hm, hkept⟩ := Tables.mem_deleteDevices.mp hm
    exact ⟨List.mem_map_of_mem hm, (hrow row hm).mp hkept⟩
  · rintro ⟨hd, hne⟩
    obtain ⟨row, hm, rfl⟩ := List.mem_map.mp hd
    exact List.mem_map_of_mem (Tables.mem_deleteDevices.mpr ⟨hm, (hrow row hm).mpr hne⟩)

/-- **`removeDevice`** of a device of the own account takes the foreign rows that lead to its data. -/
theorem removeDevice_iff (huser : db.deviceUserId own = some userId) :
    RowsKept userId db.toTables (Transaction.next db (.removeDevice own target)).toTables ↔
      (db.deviceUserId target = some userId → ∀ x ∈ db.devicechanges, db.IsForeign userId x.deviceid →
        ∀ c ∈ db.datachanges, c.id = x.dataid → c.deviceid ≠ target) := by
  have hremoval : (Transaction.removeDevice own target).isRemoval = true := rfl
  obtain ⟨q, -, ht⟩ := Transaction.removal_ok db hremoval
  have hforeign : ∀ d, db.IsForeign userId d →
      d ∈ (db.deleteDevices ((Transaction.removeDevice own target).removes db)).devices.map (·.id) := by
    refine fun d hf => (mem_devices_removeDevice huser).mpr ⟨hf.mem, ?_⟩
    rintro ⟨rfl, hu⟩
    obtain ⟨u', hu', hne⟩ := hf
    exact hne (Option.some.inj (hu'.symm.trans hu))
  rw [ht]
  constructor
  · rintro h htarget x hx hf c hc hid rfl
    obtain ⟨-, -, hm⟩ := Tables.mem_devicechanges_deleteDevices.mp ((h.devicechanges x hf).mpr hx)
    obtain ⟨c', hc', hid'⟩ := List.mem_map.mp hm
    obtain ⟨hc', hdev⟩ := Tables.mem_datachanges_deleteDevices.mp hc'
    rw [Database.eq_of_id hc' hc (hid'.trans hid.symm)] at hdev
    exact ((mem_devices_removeDevice huser).mp hdev).2 ⟨rfl, htarget⟩
  · refine fun h => ⟨fun d hf => ?_, fun c hf => ?_, fun x hf => ?_⟩
    · refine Tables.mem_deleteDevices.trans (and_iff_left_of_imp fun hd => decide_eq_false ?_)
      rintro ⟨-, hu⟩
      rw [huser] at hu
      exact hf hu
    · exact Tables.mem_datachanges_deleteDevices.trans (and_iff_left_of_imp fun _ => hforeign _ hf)
    · refine Tables.mem_devicechanges_deleteDevices.trans (and_iff_left_of_imp fun hx => ⟨hforeign _ hf, ?_⟩)
      obtain ⟨c, hc, hid⟩ := List.mem_map.mp (db.constraints.devicechanges_dataid x hx)
      refine List.mem_map.mpr ⟨c, Tables.mem_datachanges_deleteDevices.mpr ⟨hc, ?_⟩, hid⟩
      refine (mem_devices_removeDevice huser).mpr ⟨db.constraints.datachanges_deviceid c hc, fun hgone => ?_⟩
      exact h hgone.2 x hx hf c hc hid hgone.1

end

end Tables.RowsKept

end QtDataSync.Server
