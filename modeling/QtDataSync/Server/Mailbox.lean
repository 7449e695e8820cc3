import QtDataSync.Exchange.Lane
import QtDataSync.Server.Removal

/-!
# Server.Mailbox — the tables of the server are a mailbox

For its clients the server is a mailbox: one slot for each sender and data id, with the devices that still have to receive
the change that is in it.  `Tables.mailbox` reads it off the tables, every transaction does with it what `Mailbox.next`
says (`mailbox_next`), and `loadNextChanges` hands out what is pending in it (`loadNextChanges_mailbox`).
-/

namespace QtDataSync.Server

/-- The key, the salt and the data of a change. -/
abbrev Payload : Type := ℕ × QByteArray × QByteArray

/-- The slots, and the id of the next change. -/
@[ext] structure Mailbox (Dev : Type*) where
  slot : Dev → QByteArray → Option (StoredChange Dev Payload)
  nextId : ℕ

variable {Dev : Type*} [DecidableEq Dev]

namespace Mailbox

inductive Action (Dev : Type*) where
  | store (sender : Dev) (dataId : QByteArray) (payload : Payload) (receivers : Finset Dev)
  | forward (sender : Dev) (dataId : QByteArray) (payload : Payload) (receiver : Dev)
  | complete (receiver : Dev) (id : ℕ)
  | keep (staying : Finset Dev)
  | idle

def setSlot (m : Mailbox Dev) (sender : Dev) (dataId : QByteArray) (o : Option (StoredChange Dev Payload))
    (nextId : ℕ) : Mailbox Dev :=
  ⟨fun s d => if s = sender ∧ d = dataId then o else m.slot s d, nextId⟩

/-- A new change replaces the one in its slot, one for a single device only joins it, a completed one stays for the other
devices, and devices that are removed neither send nor receive. -/
def next (m : Mailbox Dev) : Action Dev → Mailbox Dev
  | .store sender dataId payload receivers =>
    m.setSlot sender dataId (StoredChange.add m.nextId payload receivers) (m.nextId + 1)
  | .forward sender dataId payload receiver =>
    match m.slot sender dataId with
    | some st => m.setSlot sender dataId (some { st with pending := insert receiver st.pending }) m.nextId
    | none => m.setSlot sender dataId (some ⟨m.nextId, payload, {receiver}⟩) (m.nextId + 1)
  | .complete receiver id => { m with slot := fun s d => StoredChange.complete receiver id (m.slot s d) }
  | .keep staying => { m with slot := fun s d =>
      if s ∈ staying then (m.slot s d).map fun st => { st with pending := st.pending ∩ staying } else none }
  | .idle => m

end Mailbox

/-! ### The mailbox of the tables -/

namespace Tables

variable (t : Tables Dev)

/-- The row of a slot. -/
def row (sender : Dev) (dataId : QByteArray) : Option (DataChange Dev) :=
  t.datachanges.find? fun c => c.deviceid = sender ∧ c.dataid = dataId

/-- The devices that a `datachanges` row is pending for. -/
def receivers (id : ℕ) : Finset Dev := ((t.devicechanges.filter fun x => x.dataid = id).map (·.deviceid)).toFinset

/-- The devices of the server. -/
def deviceIds : Finset Dev := (t.devices.map (·.id)).toFinset

def stored (c : DataChange Dev) : StoredChange Dev Payload := ⟨c.id, (c.keyid, c.salt, c.data), t.receivers c.id⟩

def mailbox : Mailbox Dev := ⟨fun sender dataId => (t.row sender dataId).map t.stored, t.nextDataId⟩

variable {t} {sender : Dev} {dataId : QByteArray} {c : DataChange Dev}

theorem mem_receivers {id : ℕ} {device : Dev} : device ∈ t.receivers id ↔ ⟨device, id⟩ ∈ t.devicechanges := by
  simp only [receivers, List.mem_toFinset, List.mem_map, List.mem_filter, decide_eq_true_eq]
  constructor
  · rintro ⟨⟨device', id'⟩, ⟨hx, rfl⟩, rfl⟩
    exact hx
  · exact fun hx => ⟨_, ⟨hx, rfl⟩, rfl⟩

theorem mem_deviceIds {device : Dev} : device ∈ t.deviceIds ↔ device ∈ t.devices.map (·.id) := List.mem_toFinset

theorem receivers_congr {t' : Tables Dev} {id : ℕ} (h : ∀ device : Dev, ⟨device, id⟩ ∈ t'.devicechanges ↔
    ⟨device, id⟩ ∈ t.devicechanges) : t'.receivers id = t.receivers id := by
  ext device
  rw [mem_receivers, mem_receivers, h]

/-- A slot has at most one row. -/
theorem row_eq_some (h : Constraints t) :
    t.row sender dataId = some c ↔ c ∈ t.datachanges ∧ c.deviceid = sender ∧ c.dataid = dataId := by
  constructor
  · intro hrow
    have hslot := List.find?_some hrow
    rw [decide_eq_true_eq] at hslot
    exact ⟨List.mem_of_find?_eq_some hrow, hslot⟩
  · rintro ⟨hc, rfl, rfl⟩
    rcases hrow : t.row c.deviceid c.dataid with - | c'
    · have hnone := List.find?_eq_none.mp hrow c hc
      simp at hnone
    · have hslot := List.find?_some hrow
      rw [decide_eq_true_eq] at hslot
      have hinj := List.inj_on_of_nodup_map h.datachanges_unique (List.mem_of_find?_eq_some hrow) hc
      rw [hinj (Prod.ext hslot.1 hslot.2)]

theorem slot_eq_some (h : Constraints t) {st : StoredChange Dev Payload} :
    t.mailbox.slot sender dataId = some st ↔
      ∃ c ∈ t.datachanges, c.deviceid = sender ∧ c.dataid = dataId ∧ t.stored c = st := by
  show (t.row sender dataId).map t.stored = some st ↔ _
  rw [Option.map_eq_some_iff]
  constructor
  · rintro ⟨c, hrow, rfl⟩
    obtain ⟨hc, hs, hd⟩ := (row_eq_some h).mp hrow
    exact ⟨c, hc, hs, hd, rfl⟩
  · rintro ⟨c, hc, hs, hd, rfl⟩
    exact ⟨c, (row_eq_some h).mpr ⟨hc, hs, hd⟩, rfl⟩

/-! ### The slots after the statements -/

theorem slot_deleteDataChanges (h : Constraints t) (p : DataChange Dev → Bool) :
    (t.deleteDataChanges p).mailbox.slot sender dataId = ((t.row sender dataId).filter fun c => !p c).map t.stored := by
  have hrow : (t.deleteDataChanges p).row sender dataId = (t.row sender dataId).filter fun c => !p c := by
    ext c
    rw [row_eq_some (h.deleteDataChanges p), mem_deleteDataChanges, Option.filter_eq_some_iff, row_eq_some h,
      Bool.not_eq_true']
    tauto
  show ((t.deleteDataChanges p).row sender dataId).map (t.deleteDataChanges p).stored = _
  rw [hrow]
  refine Option.map_congr fun c hc => ?_
  obtain ⟨hc, hp⟩ := Option.filter_eq_some_iff.mp hc
  have hmem : c ∈ (t.deleteDataChanges p).datachanges :=
    mem_deleteDataChanges.mpr ⟨((row_eq_some h).mp hc).1, by simpa using hp⟩
  show StoredChange.mk c.id (c.keyid, c.salt, c.data) ((t.deleteDataChanges p).receivers c.id) = _
  rw [receivers_congr (t := t)]
  · rfl
  · intro device
    rw [mem_devicechanges_deleteDataChanges]
    exact and_iff_left (List.mem_map_of_mem hmem)

theorem slot_insertDataChange (h : Constraints t) (h' : Constraints (t.insertDataChange c)) :
    (t.insertDataChange c).mailbox.slot sender dataId =
      if c.deviceid = sender ∧ c.dataid = dataId then some (t.stored c) else t.mailbox.slot sender dataId := by
  have hrow : (t.insertDataChange c).row sender dataId =
      if c.deviceid = sender ∧ c.dataid = dataId then some c else t.row sender dataId := by
    ext c'
    rw [row_eq_some h', mem_insertDataChange]
    split_ifs with hslot
    · constructor
      · rintro ⟨hc', hs, hd⟩
        have hnew := (row_eq_some h').mpr ⟨mem_insertDataChange.mpr (Or.inr rfl), hslot.1, hslot.2⟩
        exact hnew.symm.trans ((row_eq_some h').mpr ⟨mem_insertDataChange.mpr hc', hs, hd⟩)
      · intro he
        obtain rfl := Option.some.inj he
        exact ⟨Or.inr rfl, hslot⟩
    · rw [row_eq_some h]
      constructor
      · rintro ⟨hc' | rfl, hs, hd⟩
        · exact ⟨hc', hs, hd⟩
        · exact absurd ⟨hs, hd⟩ hslot
      · rintro ⟨hc', hs, hd⟩
        exact ⟨Or.inl hc', hs, hd⟩
  show ((t.insertDataChange c).row sender dataId).map t.stored = _
  rw [hrow]
  split_ifs <;> rfl

theorem slot_insertDeviceChanges (rows : List (DeviceChange Dev)) :
    (t.insertDeviceChanges rows).mailbox.slot sender dataId = (t.row sender dataId).map fun c =>
      ⟨c.id, (c.keyid, c.salt, c.data),
        t.receivers c.id ∪ ((rows.filter fun x => x.dataid = c.id).map (·.deviceid)).toFinset⟩ := by
  show (t.row sender dataId).map (t.insertDeviceChanges rows).stored = _
  refine Option.map_congr fun c _ => ?_
  show StoredChange.mk c.id (c.keyid, c.salt, c.data) ((t.insertDeviceChanges rows).receivers c.id) = _
  congr 1
  unfold receivers Tables.insertDeviceChanges
  rw [List.filter_append, List.map_append, List.toFinset_append]

theorem slot_deleteDevices (h : Constraints t) (p : Device Dev → Bool) :
    (t.deleteDevices p).mailbox.slot sender dataId =
      if sender ∈ (t.deleteDevices p).deviceIds then
        (t.mailbox.slot sender dataId).map fun st =>
          { st with pending := st.pending ∩ (t.deleteDevices p).deviceIds }
      else none := by
  have hrow : (t.deleteDevices p).row sender dataId =
      if sender ∈ (t.deleteDevices p).deviceIds then t.row sender dataId else none := by
    ext c
    rw [row_eq_some (h.deleteDevices p), mem_datachanges_deleteDevices]
    split_ifs with hmem
    · rw [row_eq_some h]
      constructor
      · rintro ⟨⟨hc, -⟩, hs, hd⟩
        exact ⟨hc, hs, hd⟩
      · rintro ⟨hc, rfl, hd⟩
        exact ⟨⟨hc, mem_deviceIds.mp hmem⟩, rfl, hd⟩
    · simp only [iff_false]
      rintro ⟨⟨-, hmem'⟩, rfl, -⟩
      exact hmem (mem_deviceIds.mpr hmem')
  show ((t.deleteDevices p).row sender dataId).map (t.deleteDevices p).stored = _
  rw [hrow]
  split_ifs with hmem
  · show _ = ((t.row sender dataId).map t.stored).map _
    rw [Option.map_map]
    refine Option.map_congr fun c hc => ?_
    obtain ⟨hmemc, rfl, -⟩ := (row_eq_some h).mp hc
    show StoredChange.mk c.id (c.keyid, c.salt, c.data) ((t.deleteDevices p).receivers c.id) =
      ⟨c.id, (c.keyid, c.salt, c.data), t.receivers c.id ∩ (t.deleteDevices p).deviceIds⟩
    congr 1
    ext device
    rw [mem_receivers, mem_devicechanges_deleteDevices, Finset.mem_inter, mem_receivers, mem_deviceIds]
    have hdata : c.id ∈ (t.deleteDevices p).datachanges.map (·.id) :=
      List.mem_map_of_mem (mem_datachanges_deleteDevices.mpr ⟨hmemc, mem_deviceIds.mp hmem⟩)
    exact ⟨fun hx => ⟨hx.1, hx.2.1⟩, fun hx => ⟨hx.1, hx.2, hdata⟩⟩
  · rfl

theorem slot_deleteDataChanges_of_row (h : Constraints t) {p : DataChange Dev → Bool}
    (hp : ∀ c, t.row sender dataId = some c → p c = false) :
    (t.deleteDataChanges p).mailbox.slot sender dataId = t.mailbox.slot sender dataId := by
  rw [slot_deleteDataChanges h]
  show _ = (t.row sender dataId).map t.stored
  rcases hrow : t.row sender dataId with - | c
  · rfl
  · rw [Option.filter_some, hp c hrow]
    rfl

theorem slot_insertDeviceChanges_of_row {rows : List (DeviceChange Dev)}
    (hrows : ∀ c, t.row sender dataId = some c → ∀ x ∈ rows, x.dataid ≠ c.id) :
    (t.insertDeviceChanges rows).mailbox.slot sender dataId = t.mailbox.slot sender dataId := by
  rw [slot_insertDeviceChanges]
  show _ = (t.row sender dataId).map t.stored
  refine Option.map_congr fun c hc => ?_
  have hnone : rows.filter (fun x => x.dataid = c.id) = [] := List.filter_eq_nil_iff.mpr fun x hx => by
    simpa using hrows c hc x hx
  rw [hnone, List.map_nil, List.toFinset_nil, Finset.union_empty]
  rfl

theorem slot_lt (h : Constraints t) {st : StoredChange Dev Payload} (hslot : t.mailbox.slot sender dataId = some st) :
    st.id < t.nextDataId := by
  obtain ⟨c, hc, -, -, rfl⟩ := (slot_eq_some h).mp hslot
  exact h.datachanges_seq c hc

theorem receivers_new (h : Constraints t) : t.receivers t.nextDataId = ∅ := by
  refine Finset.eq_empty_of_forall_notMem fun device hdevice => ?_
  obtain ⟨c, hc, hid⟩ := List.mem_map.mp (h.devicechanges_dataid _ (mem_receivers.mp hdevice))
  exact Nat.ne_of_lt (h.datachanges_seq c hc) hid

end Tables

/-! ### The transactions -/

open DatabaseController

variable {db db' : Database Dev}

namespace Transaction

/-- What a transaction does with the mailbox. -/
def action (db : Database Dev) : Transaction Dev → Mailbox.Action Dev
  | .addChange deviceId dataId keyIndex salt data =>
    .store deviceId dataId (keyIndex, salt, data) ((otherDevices db deviceId).map (·.id)).toFinset
  | .addDeviceChange deviceId targetId dataId keyIndex salt data =>
    .forward deviceId dataId (keyIndex, salt, data) targetId
  | .completeChange deviceId dataIndex => .complete deviceId dataIndex
  | tx => if tx.isRemoval then .keep (tx.staying db).toFinset else .idle

end Transaction

/-- The databases that `addChange` goes through. -/
theorem addChange_split {deviceId : Dev} {dataId salt data : QByteArray} {keyIndex : ℕ}
    (h : addChange db deviceId dataId keyIndex salt data = .ok db') :
    ∃ db₁ db₂ : Database Dev, db₁.toTables = ((db.deleteDataChanges fun c => c.deviceid = deviceId ∧
        c.dataid = dataId).toTables.insertDataChange ⟨db.nextDataId, deviceId, dataId, keyIndex, salt, data⟩) ∧
      db₂.toTables = db₁.toTables.insertDeviceChanges
        ((otherDevices db deviceId).map fun d => ⟨d.id, db.nextDataId⟩) ∧
      db' = if (otherDevices db deviceId).length = 0 then db₂.deleteDataChanges fun c => c.id = db.nextDataId
        else db₂ := by
  simp only [addChange, bind, Except.bind] at h
  split at h
  · cases h
  · rename_i x hx
    obtain ⟨db₁, nId⟩ := x
    obtain ⟨rfl, -, ht₁⟩ := Database.insertDataChange_ok hx
    have hother : otherDevices db₁ deviceId = otherDevices db deviceId := by
      simp only [otherDevices, Tables.deviceUserId, ht₁]
      rfl
    simp only at h
    split at h
    · cases h
    · rename_i db₂ h₂
      have ht₂ := Database.insertDeviceChanges_ok h₂
      rw [hother] at ht₂
      refine ⟨db₁, db₂, ht₁, ht₂, ?_⟩
      simp only [List.length_map, hother] at h
      split_ifs at h ⊢
      · cases h
        rfl
      · cases h
        rfl

namespace Mailbox

theorem addChange {deviceId : Dev} {dataId salt data : QByteArray} {keyIndex : ℕ}
    (h : DatabaseController.addChange db deviceId dataId keyIndex salt data = .ok db') :
    db'.mailbox = db.mailbox.next (.store deviceId dataId (keyIndex, salt, data)
      ((otherDevices db deviceId).map (·.id)).toFinset) := by
  obtain ⟨db₁, db₂, ht₁, ht₂, rfl⟩ := addChange_split h
  -- the row of the slot is replaced
  have hcleared := (db.deleteDataChanges fun c => c.deviceid = deviceId ∧ c.dataid = dataId).constraints
  have hinserted := db₁.constraints
  rw [ht₁] at hinserted
  have hrow : ∀ s d, db₂.row s d = db₁.row s d := by
    intro s d
    rw [ht₂]
    rfl
  have hself : db₂.mailbox.slot deviceId dataId = some ⟨db.nextDataId, (keyIndex, salt, data),
      ((otherDevices db deviceId).map (·.id)).toFinset⟩ := by
    have hnew : db₁.row deviceId dataId = some ⟨db.nextDataId, deviceId, dataId, keyIndex, salt, data⟩ := by
      rw [Tables.row_eq_some db₁.constraints, ht₁]
      exact ⟨Tables.mem_insertDataChange.mpr (Or.inr rfl), rfl, rfl⟩
    rw [ht₂, Tables.slot_insertDeviceChanges, hnew, Option.map_some]
    have hold : db₁.receivers db.nextDataId = ∅ := by
      rw [ht₁]
      exact Tables.receivers_new hcleared
    rw [hold, Finset.empty_union, List.filter_eq_self.mpr, List.map_map]
    · rfl
    · intro x hx
      obtain ⟨d, -, rfl⟩ := List.mem_map.mp hx
      exact decide_eq_true rfl
  have hother : ∀ s d, ¬ (s = deviceId ∧ d = dataId) → db₂.mailbox.slot s d = db.mailbox.slot s d := by
    intro s d hne
    have hne' : ¬ (deviceId = s ∧ dataId = d) := fun h => hne ⟨h.1.symm, h.2.symm⟩
    have hslot₁ : db₁.mailbox.slot s d = db.mailbox.slot s d := by
      rw [ht₁, Tables.slot_insertDataChange hcleared hinserted, if_neg hne']
      refine Tables.slot_deleteDataChanges_of_row db.constraints fun c hc => ?_
      obtain ⟨-, rfl, rfl⟩ := (Tables.row_eq_some db.constraints).mp hc
      exact decide_eq_false hne
    rw [ht₂, Tables.slot_insertDeviceChanges_of_row, hslot₁]
    intro c hc x hx
    obtain ⟨d', -, rfl⟩ := List.mem_map.mp hx
    obtain ⟨hmem, rfl, rfl⟩ := (Tables.row_eq_some db₁.constraints).mp hc
    rw [ht₁] at hmem
    rcases Tables.mem_insertDataChange.mp hmem with hold | rfl
    · exact (Nat.ne_of_lt (hcleared.datachanges_seq c hold)).symm
    · exact absurd ⟨rfl, rfl⟩ hne
  have hnext : db₂.nextDataId = db.nextDataId + 1 := by
    rw [ht₂]
    show db₁.nextDataId = _
    rw [ht₁]
    rfl
  split_ifs with hlen
  · -- nobody receives it
    have hempty : otherDevices db deviceId = [] := List.length_eq_zero_iff.mp hlen
    rw [hempty, List.map_nil, List.toFinset_nil]
    refine Mailbox.ext (funext₂ fun s d => ?_) hnext
    show (db₂.toTables.deleteDataChanges fun c => c.id = db.nextDataId).mailbox.slot s d =
      if s = deviceId ∧ d = dataId then StoredChange.add db.nextDataId _ ∅ else db.mailbox.slot s d
    split_ifs with hslot
    · obtain ⟨rfl, rfl⟩ := hslot
      obtain ⟨c, hc, hst⟩ := Option.map_eq_some_iff.mp hself
      have hid : c.id = db.nextDataId := congrArg StoredChange.id hst
      rw [Tables.slot_deleteDataChanges db₂.constraints, hc, Option.filter_some, hid]
      simp [StoredChange.add]
    · rw [Tables.slot_deleteDataChanges_of_row db₂.constraints, hother s d hslot]
      intro c hc
      have hst : db.mailbox.slot s d = some (db₂.stored c) := by
        rw [← hother s d hslot]
        exact congrArg (Option.map db₂.stored) hc
      exact decide_eq_false (Nat.ne_of_lt (Tables.slot_lt db.constraints hst))
  · refine Mailbox.ext (funext₂ fun s d => ?_) hnext
    show db₂.mailbox.slot s d = if s = deviceId ∧ d = dataId then
      StoredChange.add db.nextDataId (keyIndex, salt, data) ((otherDevices db deviceId).map (·.id)).toFinset
        else db.mailbox.slot s d
    split_ifs with hslot
    · obtain ⟨rfl, rfl⟩ := hslot
      obtain ⟨device, hdevice⟩ := List.exists_mem_of_length_pos (Nat.pos_of_ne_zero hlen)
      rw [hself, StoredChange.add_of_mem (List.mem_toFinset.mpr (List.mem_map_of_mem hdevice))]
    · exact hother s d hslot

theorem addDeviceChange {deviceId targetId : Dev} {dataId salt data : QByteArray} {keyIndex : ℕ}
    (h : DatabaseController.addDeviceChange db deviceId targetId dataId keyIndex salt data = .ok db') :
    db'.mailbox = db.mailbox.next (.forward deviceId dataId (keyIndex, salt, data) targetId) := by
  obtain ⟨db₁, nId, h₁, ht⟩ := addDeviceChange_ok h
  -- the target joins the receivers of the row
  have hjoin : ∀ {c : DataChange Dev}, db₁.row deviceId dataId = some c → c.id = nId →
      db'.mailbox = db₁.mailbox.setSlot deviceId dataId
        (some ⟨c.id, (c.keyid, c.salt, c.data), insert targetId (db₁.receivers c.id)⟩) db₁.nextDataId := by
    rintro c hrow rfl
    have hc := (Tables.row_eq_some db₁.constraints).mp hrow
    split_ifs at ht with hthere
    · rw [ht]
      refine Mailbox.ext (funext₂ fun s d => ?_) rfl
      show db₁.mailbox.slot s d = if s = deviceId ∧ d = dataId then _ else db₁.mailbox.slot s d
      split_ifs with hslot
      · obtain ⟨rfl, rfl⟩ := hslot
        rw [Finset.insert_eq_of_mem (Tables.mem_receivers.mpr hthere)]
        exact congrArg (Option.map db₁.stored) hrow
      · rfl
    · rw [ht]
      refine Mailbox.ext (funext₂ fun s d => ?_) rfl
      show (db₁.toTables.insertDeviceChanges [⟨targetId, c.id⟩]).mailbox.slot s d =
        if s = deviceId ∧ d = dataId then _ else db₁.mailbox.slot s d
      split_ifs with hslot
      · obtain ⟨rfl, rfl⟩ := hslot
        rw [Tables.slot_insertDeviceChanges, hrow, Option.map_some, List.filter_eq_self.mpr, Finset.insert_eq,
          Finset.union_comm]
        · rfl
        · simp
      · refine Tables.slot_insertDeviceChanges_of_row fun c' hc' x hx hid => ?_
        obtain ⟨hmem, hs, hd⟩ := (Tables.row_eq_some db₁.constraints).mp hc'
        rw [List.mem_singleton.mp hx] at hid
        have hsame := List.inj_on_of_nodup_map (db₁.constraints.datachanges_pkey.imp Nat.ne_of_lt) hc.1 hmem hid
        rw [← hsame] at hs hd
        exact hslot ⟨hs.symm.trans hc.2.1, hd.symm.trans hc.2.2⟩
  rcases insertOrFind_ok h₁ with ⟨c, hc, rfl, rfl, rfl, rfl⟩ | ⟨hnone, rfl, ht₁⟩
  · have hrow := (Tables.row_eq_some db₁.constraints).mpr ⟨hc, rfl, rfl⟩
    rw [hjoin hrow rfl]
    have hslot : db₁.mailbox.slot c.deviceid c.dataid = some (db₁.stored c) := congrArg (Option.map db₁.stored) hrow
    simp only [Mailbox.next, hslot]
    rfl
  · have hinserted := db₁.constraints
    rw [ht₁] at hinserted
    have hrow : db₁.row deviceId dataId = some ⟨db.nextDataId, deviceId, dataId, keyIndex, salt, data⟩ := by
      rw [Tables.row_eq_some db₁.constraints, ht₁]
      exact ⟨Tables.mem_insertDataChange.mpr (Or.inr rfl), rfl, rfl⟩
    have hempty : db₁.receivers db.nextDataId = ∅ := by
      rw [ht₁]
      exact Tables.receivers_new db.constraints
    have hslot : db.mailbox.slot deviceId dataId = none := by
      have hrow' : db.row deviceId dataId = none :=
        List.find?_eq_none.mpr fun c hc => by simpa using hnone c hc
      exact congrArg (Option.map db.stored) hrow'
    rw [hjoin hrow rfl, hempty]
    simp only [Mailbox.next, hslot]
    refine Mailbox.ext (funext₂ fun s d => ?_) ?_
    · show (if s = deviceId ∧ d = dataId then _ else db₁.mailbox.slot s d) =
        if s = deviceId ∧ d = dataId then _ else db.mailbox.slot s d
      split_ifs with hsd
      · rfl
      · rw [ht₁, Tables.slot_insertDataChange db.constraints hinserted, if_neg fun h => hsd ⟨h.1.symm, h.2.symm⟩]
    · show db₁.nextDataId = db.nextDataId + 1
      rw [ht₁]
      rfl

theorem completeChange (deviceId : Dev) (dataIndex : ℕ) :
    (Transaction.next db (.completeChange deviceId dataIndex)).mailbox =
      db.mailbox.next (.complete deviceId dataIndex) := by
  refine Mailbox.ext (funext₂ fun s d => ?_) rfl
  have hcompleted := db.constraints.deleteDeviceChanges fun x => x.deviceid = deviceId ∧ x.dataid = dataIndex
  refine (Tables.slot_deleteDataChanges hcompleted _).trans ?_
  show ((db.row s d).filter _).map _ = StoredChange.complete deviceId dataIndex ((db.row s d).map db.stored)
  rcases db.row s d with - | c
  · rfl
  have hreceivers : ∀ device, device ∈ (db.toTables.deleteDeviceChanges fun x => x.deviceid = deviceId ∧
      x.dataid = dataIndex).receivers c.id ↔ device ∈ db.receivers c.id ∧ ¬ (device = deviceId ∧ c.id = dataIndex) := by
    intro device
    rw [Tables.mem_receivers, Tables.mem_deleteDeviceChanges, Tables.mem_receivers, decide_eq_false_iff_not]
  rw [Option.filter_some, Option.map_some]
  by_cases hid : c.id = dataIndex
  · have herase :
        (db.toTables.deleteDeviceChanges fun x => x.deviceid = deviceId ∧ x.dataid = dataIndex).receivers c.id =
        (db.receivers c.id).erase deviceId := by
      ext device
      rw [hreceivers, Finset.mem_erase]
      tauto
    have hcomplete : StoredChange.complete deviceId dataIndex (some (db.stored c)) =
        StoredChange.add c.id (c.keyid, c.salt, c.data) ((db.receivers c.id).erase deviceId) := if_pos hid
    rw [hcomplete, ← herase, StoredChange.add]
    -- the data is collected with the last row
    by_cases hlast : ∀ x ∈ (db.deleteDeviceChanges fun x => x.deviceid = deviceId ∧ x.dataid = dataIndex).devicechanges,
        x.dataid ≠ dataIndex
    · rw [if_neg, if_pos]
      · rfl
      · refine Finset.eq_empty_of_forall_notMem fun device hdevice => ?_
        exact hlast _ (Tables.mem_receivers.mp hdevice) hid
      · rw [Bool.not_eq_true', decide_eq_false_iff_not, not_not]
        exact ⟨hid, hlast⟩
    · rw [if_pos, if_neg]
      · rfl
      · push Not at hlast
        obtain ⟨⟨device, id⟩, hx, he⟩ := hlast
        obtain rfl : id = c.id := he.trans hid.symm
        exact Finset.ne_empty_of_mem (Tables.mem_receivers.mpr hx)
      · rw [Bool.not_eq_true', decide_eq_false_iff_not]
        exact fun h => hlast h.2
  · have hkeep : StoredChange.complete deviceId dataIndex (some (db.stored c)) = some (db.stored c) := if_neg hid
    have hsame :
        (db.toTables.deleteDeviceChanges fun x => x.deviceid = deviceId ∧ x.dataid = dataIndex).receivers c.id =
        db.receivers c.id := by
      ext device
      rw [hreceivers]
      exact and_iff_left fun h => hid h.2
    rw [hkeep, if_pos, Option.map_some]
    · show some (StoredChange.mk c.id (c.keyid, c.salt, c.data) _) = _
      rw [hsame]
      rfl
    · rw [Bool.not_eq_true', decide_eq_false_iff_not]
      exact fun h => hid h.1

theorem removal {tx : Transaction Dev} (h : tx.isRemoval = true) :
    (tx.next db).mailbox = db.mailbox.next (.keep (tx.staying db).toFinset) := by
  obtain ⟨q, -, ht⟩ := tx.removal_ok db h
  rw [ht]
  refine Mailbox.ext (funext₂ fun s d => ?_) rfl
  exact Tables.slot_deleteDevices db.constraints (tx.removes db)

end Mailbox

/-- **One transaction** that is committed. -/
theorem mailbox_next {tx : Transaction Dev} (h : tx.run db = .ok (tx.next db)) :
    (tx.next db).mailbox = db.mailbox.next (tx.action db) := by
  cases tx with
  | addNewDevice quota deviceId today =>
    obtain ⟨uid, ht⟩ := addNewDevice_ok h
    rw [ht]
    rfl
  | addNewDeviceToUser new partner today =>
    obtain ⟨uid, -, ht⟩ := Database.insertDevice_ok h
    rw [ht]
    rfl
  | updateLogin deviceId today => rfl
  | removeDevice deviceId deleteId => exact Mailbox.removal rfl
  | cleanupDevices today days =>
    show _ = db.mailbox.next (if Transaction.isRemoval (.cleanupDevices today days) then _ else _)
    split_ifs with hremoval
    · exact Mailbox.removal hremoval
    · have hdays : days = 0 := by simpa [Transaction.isRemoval] using hremoval
      have hsame : Transaction.next db (.cleanupDevices today days) = db := Transaction.next_of_ok (if_pos hdays)
      rw [hsame]
      rfl
  | addChange deviceId dataId keyIndex salt data => exact Mailbox.addChange h
  | addDeviceChange deviceId targetId dataId keyIndex salt data => exact Mailbox.addDeviceChange h
  | completeChange deviceId dataIndex => exact Mailbox.completeChange deviceId dataIndex

/-- **What a device is handed**: the changes that are pending for it, by ascending id. -/
theorem loadNextChanges_mailbox (db : Database Dev) (device : Dev) : ∃ l : List (StoredChange Dev Payload),
    (l.map (·.id)).Pairwise (· < ·) ∧
    (∀ st, st ∈ l ↔ (∃ sender dataId, db.mailbox.slot sender dataId = some st) ∧ device ∈ st.pending) ∧
    ∀ count skip, loadNextChanges db device count skip = ((l.drop skip).take count).map fun st => (st.id, st.payload) := by
  refine ⟨(pendingChanges db device).map db.stored, ?_, fun st => ?_, fun count skip => ?_⟩
  · rw [List.map_map]
    exact db.constraints.datachanges_pkey.sublist (List.filter_sublist.map _)
  · simp only [List.mem_map, pendingChanges, List.mem_filter, decide_eq_true_eq]
    constructor
    · rintro ⟨c, ⟨hc, hpending⟩, rfl⟩
      exact ⟨⟨c.deviceid, c.dataid, (Tables.slot_eq_some db.constraints).mpr ⟨c, hc, rfl, rfl, rfl⟩⟩,
        Tables.mem_receivers.mpr hpending⟩
    · rintro ⟨⟨sender, dataId, hslot⟩, hpending⟩
      obtain ⟨c, hc, -, -, rfl⟩ := (Tables.slot_eq_some db.constraints).mp hslot
      exact ⟨c, ⟨hc, Tables.mem_receivers.mp hpending⟩, rfl⟩
  · rw [loadNextChanges, ← List.map_drop, ← List.map_take, List.map_map]
    rfl

/-! ### Runs -/

namespace Mailbox

def lts : LTS (Mailbox Dev) (Action Dev) := LTS.ofStep (fun m => m = ⟨fun _ _ => none, 1⟩) fun m a => some (m.next a)

/-- A step of the server as one of its mailbox; what is rolled back does nothing. -/
def ofServer (x : Database Dev × Transaction Dev × Database Dev) : Mailbox Dev × Action Dev × Mailbox Dev :=
  (x.1.mailbox, if (x.2.1.run x.1).isOk then x.2.1.action x.1 else .idle, x.2.2.mailbox)

end Mailbox

/-- **The server is a mailbox**: every run of its transactions is a run of the mailbox, and in each state of it a device
is handed what is pending for it there. -/
theorem server_mailbox {db₀ : Database Dev} {tr : List (Database Dev × Transaction Dev × Database Dev)}
    (hr : lts.Run LTS.free db₀ tr db) :
    Mailbox.lts.Run LTS.free db₀.mailbox (tr.map Mailbox.ofServer) db.mailbox ∧
      ∀ device, ∃ l : List (StoredChange Dev Payload), (l.map (·.id)).Pairwise (· < ·) ∧
        (∀ st, st ∈ l ↔ (∃ sender dataId, db.mailbox.slot sender dataId = some st) ∧ device ∈ st.pending) ∧
        ∀ count skip, loadNextChanges db device count skip =
          ((l.drop skip).take count).map fun st => (st.id, st.payload) := by
  refine ⟨?_, loadNextChanges_mailbox db⟩
  induction hr with
  | nil => exact .nil _
  | @snoc db db' tr tx hr _ hst ih =>
    rw [List.map_append]
    refine ih.snoc trivial ?_
    rw [show db' = tx.next db from hst]
    show some (db.mailbox.next (if (tx.run db).isOk then tx.action db else .idle)) = some (tx.next db).mailbox
    split_ifs with hok
    · rw [mailbox_next (tx.run_eq_ok hok)]
    · rcases tx.next_cases db with hrun | hsame
      · rw [hrun] at hok
        exact absurd rfl hok
      · rw [hsame]
        rfl

/-- A device has uploaded a change for another one. -/
theorem server_mailbox_uploaded :
    (∃ tr, Mailbox.lts.Run LTS.free Sample.account.mailbox tr Sample.uploaded.mailbox) ∧
      (Sample.uploaded.mailbox.slot 1 [10]).map (fun st => (st.id, st.payload, st.pending)) =
        some (1, (0, [0], [7]), {2}) :=
  ⟨⟨_, (server_mailbox (Sample.trace_run Sample.account _)).1⟩, by decide⟩

end QtDataSync.Server
