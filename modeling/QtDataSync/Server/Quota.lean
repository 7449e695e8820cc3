import Mathlib.Algebra.Order.BigOperators.Group.List
import Mathlib.Algebra.Order.Ring.Nat
import QtDataSync.Server.Removal

/-!
# Server.Quota — the quota counter of the users

`users.quota` is maintained by the triggers of `datachanges` only.  It equals the stored data of the user's devices
(`QuotaExact`) as long as no removal takes a device with stored data and leaves the user (`ReleasesQuota`): the rows
of a removed device go by the cascade, after the device row, and `downquota` then finds no user.
-/

namespace QtDataSync.Server

variable {Dev : Type*} [DecidableEq Dev]

namespace Tables

/-- What the change adds to the quota of the user. -/
def share (t : Tables Dev) (uid : ℕ) (c : DataChange Dev) : ℕ :=
  if some uid = t.deviceUserId c.deviceid then c.data.length else 0

/-- `octet_length(data)`, summed up over the changes of the user's devices. -/
def used (t : Tables Dev) (uid : ℕ) : ℕ := (t.datachanges.map (t.share uid)).sum

end Tables

/-- The quota of every user is what his devices store. -/
def QuotaExact (t : Tables Dev) : Prop := ∀ u ∈ t.users, u.quota = t.used u.id

instance (t : Tables Dev) : Decidable (QuotaExact t) :=
  inferInstanceAs (Decidable (∀ u ∈ t.users, u.quota = t.used u.id))

/-- The transaction removes no device with stored data, unless it removes all devices of the user. -/
def ReleasesQuota (db : Database Dev) (tx : Transaction Dev) : Prop :=
  ∀ c ∈ db.datachanges, ∀ d ∈ db.devices, d.id = c.deviceid → tx.removes db d = true →
    c.data.length = 0 ∨ ∀ d' ∈ db.devices, d'.userid = d.userid → tx.removes db d' = true

instance (db : Database Dev) (tx : Transaction Dev) : Decidable (ReleasesQuota db tx) :=
  inferInstanceAs (Decidable (∀ c ∈ db.datachanges, ∀ d ∈ db.devices, _ → _ →
    (_ ∨ ∀ d' ∈ db.devices, _ → _)))

/-! ### The owner of a device -/

section Owner

variable {t : Tables Dev}

theorem deviceUserId_of_mem (hpkey : (t.devices.map (·.id)).Nodup) {d : Device Dev} (hd : d ∈ t.devices) :
    t.deviceUserId d.id = some d.userid := by
  unfold Tables.deviceUserId
  rcases h : t.devices.find? fun d' => d'.id = d.id with _ | d'
  · rw [List.find?_eq_none] at h
    exact absurd (decide_eq_true rfl) (h d hd)
  · have hid := List.find?_some h
    rw [decide_eq_true_eq] at hid
    have he : d' = d := List.inj_on_of_nodup_map hpkey (List.mem_of_find?_eq_some h) hd hid
    rw [h, he, Option.map_some]

/-- Tables that agree on the row of the device agree on its owner. -/
theorem deviceUserId_congr {t' : Tables Dev} (hpkey : (t.devices.map (·.id)).Nodup)
    (hpkey' : (t'.devices.map (·.id)).Nodup) {d : Device Dev} (hd : d ∈ t.devices)
    (hd' : ∃ d' ∈ t'.devices, d'.id = d.id ∧ d'.userid = d.userid) :
    t'.deviceUserId d.id = t.deviceUserId d.id := by
  obtain ⟨d', hd', hid, huser⟩ := hd'
  rw [← hid, deviceUserId_of_mem hpkey' hd', hid, deviceUserId_of_mem hpkey hd, huser]

end Owner

namespace QuotaExact

open DatabaseController

variable {t : Tables Dev}

omit [DecidableEq Dev] in
theorem sum_filter (p : DataChange Dev → Bool) (f : DataChange Dev → ℕ) (l : List (DataChange Dev)) :
    ((l.filter p).map f).sum + ((l.filter fun c => !p c).map f).sum = (l.map f).sum := by
  have h := ((List.filter_append_perm p l).map f).sum_eq
  rwa [List.map_append, List.sum_append] at h

/-- The trigger, for every deleted row: the user loses his share of each. -/
theorem foldl_downquota (t : Tables Dev) (l : List (DataChange Dev)) (users : List User) :
    l.foldl t.downquota users = users.map fun u => { u with quota := u.quota - (l.map (t.share u.id)).sum } := by
  induction l generalizing users with
  | nil => simp
  | cons c l ih =>
    rw [List.foldl_cons, ih, Tables.downquota, List.map_map]
    refine List.map_congr_left fun u _ => ?_
    simp only [Function.comp_apply, List.map_cons, List.sum_cons, Tables.share]
    split
    · rw [Nat.sub_sub]
    · rw [Nat.zero_add]

theorem deleteDataChanges (h : QuotaExact t) (p : DataChange Dev → Bool) : QuotaExact (t.deleteDataChanges p) := by
  intro u hu
  have hu' : u ∈ (t.datachanges.filter p).foldl t.downquota t.users := hu
  rw [foldl_downquota] at hu'
  obtain ⟨u₀, hu₀, rfl⟩ := List.mem_map.mp hu'
  have hsum := sum_filter p (t.share u₀.id) t.datachanges
  have hex : u₀.quota = (t.datachanges.map (t.share u₀.id)).sum := h u₀ hu₀
  show u₀.quota - ((t.datachanges.filter p).map (t.share u₀.id)).sum =
    ((t.datachanges.filter fun c => !p c).map (t.share u₀.id)).sum
  omega

theorem insertDataChange (h : QuotaExact t) (c : DataChange Dev) : QuotaExact (t.insertDataChange c) := by
  intro u hu
  obtain ⟨u₀, hu₀, rfl⟩ := List.mem_map.mp hu
  have hex : u₀.quota = (t.datachanges.map (t.share u₀.id)).sum := h u₀ hu₀
  have hsum : ((t.datachanges ++ [c]).map (t.share u₀.id)).sum = u₀.quota + t.share u₀.id c := by
    rw [List.map_append, List.sum_append, ← hex]
    simp
  split
  · rename_i howner
    show u₀.quota + c.data.length = ((t.datachanges ++ [c]).map (t.share u₀.id)).sum
    rw [hsum, Tables.share, if_pos howner]
  · rename_i howner
    show u₀.quota = ((t.datachanges ++ [c]).map (t.share u₀.id)).sum
    rw [hsum, Tables.share, if_neg howner, Nat.add_zero]

/-- The owners decide the shares. -/
theorem used_congr {t' : Tables Dev} (hdata : t'.datachanges = t.datachanges)
    (howner : ∀ c ∈ t.datachanges, t'.deviceUserId c.deviceid = t.deviceUserId c.deviceid) (uid : ℕ) :
    t'.used uid = t.used uid := by
  unfold Tables.used
  rw [hdata]
  refine congrArg List.sum (List.map_congr_left fun c hc => ?_)
  rw [Tables.share, Tables.share, howner c hc]

/-- No device of the user, nothing stored. -/
theorem used_eq_zero (hc : Constraints t) {uid : ℕ} (h : ∀ d ∈ t.devices, d.userid ≠ uid) : t.used uid = 0 := by
  refine List.sum_eq_zero fun n hn => ?_
  obtain ⟨c, hmem, rfl⟩ := List.mem_map.mp hn
  obtain ⟨d, hd, he⟩ := List.mem_map.mp (hc.datachanges_deviceid c hmem)
  rw [Tables.share, ← he, deviceUserId_of_mem hc.devices_pkey hd, if_neg]
  exact fun hcon => h d hd (Option.some.inj hcon).symm

/-- Another device: the owners of the others stay. -/
theorem insertDevice {db db' : Database Dev} (h : QuotaExact db.toTables) {d : Device Dev}
    (ht : db'.toTables = db.toTables.insertDevice d) : QuotaExact db'.toTables := by
  intro u hu
  have hpkey' := db'.constraints.devices_pkey
  rw [ht] at hpkey' hu ⊢
  have hused : (db.toTables.insertDevice d).used u.id = db.toTables.used u.id := by
    apply used_congr
    · rfl
    intro c hc
    obtain ⟨d₀, hd₀, he⟩ := List.mem_map.mp (db.constraints.datachanges_deviceid c hc)
    rw [← he]
    exact deviceUserId_congr db.constraints.devices_pkey hpkey' hd₀ ⟨d₀, List.mem_append_left _ hd₀, rfl, rfl⟩
  rw [hused]
  exact h u hu

theorem insertUser {db db' : Database Dev} (h : QuotaExact db.toTables) {quotalimit : ℕ}
    (ht : db'.toTables = db.toTables.insertUser quotalimit) : QuotaExact db'.toTables := by
  intro u hu
  rw [ht] at hu ⊢
  rcases List.mem_append.mp hu with hu | hu
  · exact h u hu
  · rw [List.mem_singleton] at hu
    subst hu
    refine (used_eq_zero db.constraints fun d hd he => ?_).symm
    -- the id is a new one
    obtain ⟨u, hu, hid⟩ := List.mem_map.mp (db.constraints.devices_userid d hd)
    have hlt := db.constraints.users_seq u hu
    exact absurd (hid.trans he) (Nat.ne_of_lt hlt)

theorem updateLastlogin (h : QuotaExact t) (device : Dev) (date : ℕ) : QuotaExact (t.updateLastlogin device date) := by
  intro u hu
  have hused : (t.updateLastlogin device date).used u.id = t.used u.id := by
    apply used_congr
    · rfl
    intro c _
    have hp : ((fun d : Device Dev => decide (d.id = c.deviceid)) ∘
        fun d => if d.id = device then { d with lastlogin := date } else d) =
        fun d => decide (d.id = c.deviceid) := by
      funext d
      simp only [Function.comp_apply]
      split <;> rfl
    simp only [Tables.deviceUserId, Tables.updateLastlogin, List.find?_map, Option.map_map, hp]
    refine congrArg (fun f => Option.map f _) (funext fun d => ?_)
    simp only [Function.comp_apply]
    split <;> rfl
  rw [hused]
  exact h u hu

/-- What the removal of devices does to the stored data of a user. -/
theorem used_deleteDevices (db : Database Dev) (p : Device Dev → Bool) (uid : ℕ) :
    (db.toTables.deleteDevices p).used uid +
      ((db.datachanges.filter fun c => !decide (c.deviceid ∈ (db.toTables.deleteDevices p).devices.map (·.id))).map
        (db.toTables.share uid)).sum = db.toTables.used uid := by
  have hsum := sum_filter (fun c => decide (c.deviceid ∈ (db.toTables.deleteDevices p).devices.map (·.id)))
    (db.toTables.share uid) db.datachanges
  rw [Tables.used, Tables.used, ← hsum]
  refine congrArg (· + _) (congrArg List.sum (List.map_congr_left fun c hc => ?_))
  -- the sender of a row that stays has kept its owner
  have hdev : c.deviceid ∈ (db.toTables.deleteDevices p).devices.map (·.id) := of_decide_eq_true (List.mem_filter.mp hc).2
  obtain ⟨d, hd, he⟩ := List.mem_map.mp hdev
  rw [Tables.share, Tables.share, ← he]
  have howner : (db.toTables.deleteDevices p).deviceUserId d.id = db.toTables.deviceUserId d.id :=
    deviceUserId_congr db.constraints.devices_pkey (db.deleteDevices p).constraints.devices_pkey
      (Tables.mem_deleteDevices.mp hd).1 ⟨d, hd, rfl, rfl⟩
  rw [howner]

/-- **A removal** keeps the quota exact if and only if the data that goes is that of users that go. -/
theorem removal_iff {db : Database Dev} (h : QuotaExact db.toTables) {tx : Transaction Dev}
    (htx : tx.isRemoval = true) : QuotaExact (tx.next db).toTables ↔ ReleasesQuota db tx := by
  obtain ⟨q, ⟨hq1, hq2⟩, ht⟩ := Transaction.removal_ok db htx
  have hdel := used_deleteDevices db (tx.removes db)
  have hmem (c : DataChange Dev) : c ∈ db.datachanges.filter (fun c =>
      !decide (c.deviceid ∈ (db.toTables.deleteDevices (tx.removes db)).devices.map (·.id))) ↔
      c ∈ db.datachanges ∧ ∀ d ∈ db.devices, d.id = c.deviceid → tx.removes db d = true := by
    rw [List.mem_filter]
    refine and_congr_right fun _ => ?_
    simp only [List.mem_map, Tables.mem_deleteDevices, Bool.not_eq_true', decide_eq_false_iff_not, not_exists,
      not_and, and_imp]
    refine forall₂_congr fun d _ => ⟨fun hd he => ?_, fun hd hp he => ?_⟩
    · by_contra hp
      exact hd (by simpa using hp) he
    · rw [hd he] at hp
      cases hp
  rw [ht]
  constructor
  · intro hex c hc d hd he hrem
    by_contra hcon
    push Not at hcon
    obtain ⟨hlen, d', hd', huser, hstay⟩ := hcon
    obtain ⟨u, hu, hid⟩ := List.mem_map.mp (db.constraints.devices_userid d hd)
    -- the user stays, and his quota with it
    have hqu : q u = false := by
      by_contra hqu
      exact hstay (hq1 u (by simpa using hqu) d' hd' (huser.trans hid.symm))
    have hkeep := hex u (List.mem_filter.mpr ⟨hu, by simpa using hqu⟩)
    have hshare : db.toTables.share u.id c = c.data.length := by
      rw [Tables.share, ← he, deviceUserId_of_mem db.constraints.devices_pkey hd, hid, if_pos rfl]
    have hgone : db.toTables.share u.id c ∈ ((db.datachanges.filter fun c =>
        !decide (c.deviceid ∈ (db.toTables.deleteDevices (tx.removes db)).devices.map (·.id))).map
          (db.toTables.share u.id)) := by
      refine List.mem_map_of_mem ((hmem c).mpr ⟨hc, fun d₁ hd₁ he₁ => ?_⟩)
      rw [List.inj_on_of_nodup_map db.constraints.devices_pkey hd₁ hd (he₁.trans he.symm)]
      exact hrem
    have hle := List.single_le_sum (by simp) _ hgone
    have hsum := hdel u.id
    have hexact := h u hu
    have hused : ((db.toTables.deleteDevices (tx.removes db)).deleteUsers q).used u.id =
        (db.toTables.deleteDevices (tx.removes db)).used u.id := rfl
    omega
  · intro hrel u hu
    obtain ⟨hu, hqu⟩ := List.mem_filter.mp hu
    have hzero : ((db.datachanges.filter fun c =>
        !decide (c.deviceid ∈ (db.toTables.deleteDevices (tx.removes db)).devices.map (·.id))).map
          (db.toTables.share u.id)).sum = 0 := by
      refine List.sum_eq_zero fun n hn => ?_
      obtain ⟨c, hc, rfl⟩ := List.mem_map.mp hn
      obtain ⟨hc, hall⟩ := (hmem c).mp hc
      obtain ⟨d, hd, he⟩ := List.mem_map.mp (db.constraints.datachanges_deviceid c hc)
      rw [Tables.share]
      split
      · rename_i howner
        rw [← he, deviceUserId_of_mem db.constraints.devices_pkey hd] at howner
        rcases hrel c hc d hd he (hall d hd he) with hlen | hgone
        · exact hlen
        · -- the user has gone with his devices
          have hqu' : q u = true := by
            refine hq2 u hu (fun d' hd' he' => hgone d' hd' ?_) ⟨d, hd, (Option.some.inj howner).symm⟩
            exact he'.trans (Option.some.inj howner)
          simp [hqu'] at hqu
      · rfl
    have hsum := hdel u.id
    have hexact := h u hu
    show u.quota = (db.toTables.deleteDevices (tx.removes db)).used u.id
    omega

theorem addChange {db db' : Database Dev} {deviceId : Dev} {dataId salt data : QByteArray} {keyIndex : ℕ}
    (h : QuotaExact db.toTables)
    (hdb' : DatabaseController.addChange db deviceId dataId keyIndex salt data = .ok db') :
    QuotaExact db'.toTables := by
  have hadded : QuotaExact (DatabaseController.addedChange db deviceId dataId keyIndex salt data) :=
    (h.deleteDataChanges _).insertDataChange _
  have ht := DatabaseController.addChange_ok hdb'
  split_ifs at ht
  · rw [ht]
    exact hadded.deleteDataChanges _
  · rw [ht]
    exact hadded

theorem addDeviceChange {db db' : Database Dev} {deviceId targetId : Dev} {dataId salt data : QByteArray}
    {keyIndex : ℕ} (h : QuotaExact db.toTables)
    (hdb' : DatabaseController.addDeviceChange db deviceId targetId dataId keyIndex salt data = .ok db') :
    QuotaExact db'.toTables := by
  obtain ⟨db₁, nId, h₁, ht⟩ := DatabaseController.addDeviceChange_ok hdb'
  have h1 : QuotaExact db₁.toTables := by
    rcases DatabaseController.insertOrFind_ok h₁ with ⟨-, -, -, -, -, rfl⟩ | ⟨-, -, ht₁⟩
    · exact h
    · rw [ht₁]
      exact h.insertDataChange _
  split_ifs at ht
  · rw [ht]
    exact h1
  · rw [ht]
    exact h1

/-- **One transaction.** -/
theorem next_iff {db : Database Dev} (h : QuotaExact db.toTables) (tx : Transaction Dev) :
    QuotaExact (tx.next db).toTables ↔ ReleasesQuota db tx := by
  rcases htx : tx.isRemoval with _ | _
  · refine iff_of_true ?_ fun c _ d _ _ hrem => ?_
    · rcases tx.next_cases db with hrun | he
      · cases tx with
        | addNewDevice quota deviceId today =>
          obtain ⟨db₁, uid, h₁, h₂⟩ := DatabaseController.addNewDevice_split hrun
          have ht₁ := (Database.insertUser_ok h₁).2
          obtain ⟨_, -, ht₂⟩ := Database.insertDevice_ok h₂
          exact (h.insertUser ht₁).insertDevice ht₂
        | addNewDeviceToUser new partner today =>
          obtain ⟨uid, -, ht⟩ := Database.insertDevice_ok hrun
          exact h.insertDevice ht
        | updateLogin deviceId today => exact h.updateLastlogin deviceId today
        | removeDevice deviceId deleteId => cases htx
        | cleanupDevices today days =>
          have hdays : days = 0 := by simpa [Transaction.isRemoval] using htx
          rw [show Transaction.next db (.cleanupDevices today days) = db from Transaction.next_of_ok (if_pos hdays)]
          exact h
        | addChange deviceId dataId keyIndex salt data => exact h.addChange hrun
        | addDeviceChange deviceId targetId dataId keyIndex salt data => exact h.addDeviceChange hrun
        | completeChange deviceId dataIndex => exact h.deleteDataChanges _
      · rw [he]
        exact h
    · rw [Transaction.removes_eq_false htx] at hrem
      cases hrem
  · exact h.removal_iff htx

/-- **The quota counter** is exact and below the limit in all states of a run, if and only if no transaction of the run
removes a device with stored data and leaves another device of its user. -/
theorem accounting_iff {db : Database Dev} {tr : List (Database Dev × Transaction Dev × Database Dev)}
    (hr : LTS.Run lts LTS.free .empty tr db) :
    (∀ x ∈ tr, QuotaExact x.2.2.toTables ∧ ∀ u ∈ x.2.2.users, u.quota < u.quotalimit) ↔
      ∀ x ∈ tr, ReleasesQuota x.1 x.2.1 := by
  have hlimit : (∀ x ∈ tr, QuotaExact x.2.2.toTables ∧ ∀ u ∈ x.2.2.users, u.quota < u.quotalimit) ↔
      ∀ x ∈ tr, QuotaExact x.2.2.toTables :=
    forall₂_congr fun x _ => and_iff_left x.2.2.constraints.users_check
  rw [hlimit]
  refine hr.forall_iff (I := fun db => QuotaExact db.toTables) (fun _ hu => by cases hu) ?_
  rintro db tx db' h hst
  rw [show db' = tx.next db from hst]
  exact h.next_iff tx

/-- Device 2 stores a change and leaves together with its account. -/
theorem accounting_account_removed : ∃ tr db, LTS.Run lts LTS.free (.empty : Database ℕ) tr db ∧
    tr.map (fun x => x.2.1) = [.addNewDevice 100 1 0, .addNewDeviceToUser 2 1 0, .addChange 2 [10] 0 [0] [7],
      .cleanupDevices 91 90] ∧
    ∀ x ∈ tr, QuotaExact x.2.2.toTables ∧ ∀ u ∈ x.2.2.users, u.quota < u.quotalimit :=
  have hr := Sample.trace_run .empty [.addNewDevice 100 1 0, .addNewDeviceToUser 2 1 0, .addChange 2 [10] 0 [0] [7],
    .cleanupDevices 91 90]
  ⟨_, _, hr, rfl, (accounting_iff hr).mpr (by decide)⟩

/-- Device 2 stores a change and is removed, and its account keeps paying for it. -/
theorem removeDevice_keeps_quota : ¬ ∀ db : Database ℕ, lts.Reachable LTS.free db →
    QuotaExact db.toTables ∧ ∀ u ∈ db.users, u.quota < u.quotalimit := by
  intro h
  have hexact := (h _ (Sample.run_reachable (.init rfl)
    [.addNewDevice 100 1 0, .addNewDeviceToUser 2 1 0, .addChange 2 [10] 0 [0] [7], .removeDevice 1 2])).1
  exact absurd hexact (by decide)

end QuotaExact

end QtDataSync.Server
