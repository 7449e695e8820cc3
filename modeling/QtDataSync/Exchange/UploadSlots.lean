import QtDataSync.Messages.Utf8String
import QtDataSync.Server.DatabaseController
import QtDataSync.Store.Client

/-!
# Exchange.UploadSlots — objects are known by the hash of their key

The active uploads of a device, the rows of the server and the acknowledgements between them know an object by
`ObjectKey::hashed` only.  All devices and the server are run together here, with the object each of these is about
kept beside it; messages may be lost, repeated and reordered.  No two objects of a device ever meet in a slot exactly
if no two of its keys feed the same bytes to the hash.
-/

namespace QtDataSync

/-- `ObjectKey::hashed`: the type name and the id are fed to the hash one after the other. -/
def ObjectKey.hashed (sha3 : List UInt8 → QByteArray) (key : ObjectKey) : QByteArray :=
  sha3 (key.typeName ++ toUtf8 key.id)

namespace UploadSlots

open Server

/-! ## Keys that are confused -/

/-- The type name of `k` is that of `k'` and the beginning of its id; the id of `k` is what is left of that. -/
def Extends (k k' : ObjectKey) : Prop :=
  ∃ x, k.typeName = k'.typeName ++ x ∧ toUtf8 k'.id = x ++ toUtf8 k.id

/-- The keys cannot be told apart when their two strings follow each other without a border. -/
def Ambiguous (k k' : ObjectKey) : Prop := Extends k k' ∨ Extends k' k

theorem ambiguous_iff {k k' : ObjectKey} :
    Ambiguous k k' ↔ k.typeName ++ toUtf8 k.id = k'.typeName ++ toUtf8 k'.id := by
  rw [List.append_eq_append_iff]
  constructor
  · rintro (⟨x, ht, hi⟩ | ⟨x, ht, hi⟩)
    · exact Or.inr ⟨x, ht, hi⟩
    · exact Or.inl ⟨x, ht, hi⟩
  · rintro (⟨x, ht, hi⟩ | ⟨x, ht, hi⟩)
    · exact Or.inr ⟨x, ht, hi⟩
    · exact Or.inl ⟨x, ht, hi⟩

theorem hashed_eq_iff {sha3 : List UInt8 → QByteArray} (hsha : Function.Injective sha3) {k k' : ObjectKey} :
    k.hashed sha3 = k'.hashed sha3 ↔ Ambiguous k k' := by
  rw [ambiguous_iff]
  exact hsha.eq_iff

/-- No two different objects of a device have keys that are confused. -/
def Unambiguous (K : Set ObjectKey) : Prop := ∀ k ∈ K, ∀ k' ∈ K, k ≠ k' → ¬ Ambiguous k k'

theorem Unambiguous.eq {K : Set ObjectKey} (h : Unambiguous K) {sha3 : List UInt8 → QByteArray}
    (hsha : Function.Injective sha3) {k k' : ObjectKey} (hk : k ∈ K) (hk' : k' ∈ K)
    (he : k.hashed sha3 = k'.hashed sha3) : k = k' := by
  by_contra hne
  exact h k hk k' hk' hne ((hashed_eq_iff hsha).mp he)

/-! ## The devices and the server -/

section

variable {Dev Data Checksum : Type*} {jsonHash : Data → Checksum}

/-- `ChangeMessage`, or `DeviceChangeMessage` with its target, and the change that was encrypted for it. -/
structure ChangeMessage (Dev Data : Type*) where
  sender : Dev
  target : Option Dev
  dataId : QByteArray
  change : Change Data

/-- `ChangeAckMessage`, `DeviceChangeAckMessage`, or a queued `uploadDone`, and the object it is about. -/
structure Ack (Dev : Type*) where
  receiver : Dev
  target : Option Dev
  dataId : QByteArray
  object : ObjectKey

/-- All devices, the server, and what is on its way; `origin` is the object that a row of `datachanges` is of. -/
structure System (Dev : Type*) {Data Checksum : Type*} (jsonHash : Data → Checksum) where
  clients : Dev → Client Dev jsonHash
  database : Database Dev
  changes : List (ChangeMessage Dev Data)
  acks : List (Ack Dev)
  origin : ℕ → Option ObjectKey

/-- A device does something or resets its store, where `readable` tells whose data files can be read; the server receives a change, which
`CryptoController` has encrypted somehow, or does something else; a device receives an acknowledgement. -/
inductive Event (Dev Data : Type*) where
  | client (deviceId : Dev) (a : Client.Action Dev Data) (readable : ObjectKey → Bool)
  | receive (m : ChangeMessage Dev Data) (keyIndex : ℕ) (salt data : QByteArray)
  | server (tx : Transaction Dev)
  | acknowledge (a : Ack Dev)
  | reset (deviceId : Dev) (keepData : Bool)

/-- The uploads that `uploadNext` has started. -/
def started (cc cc' : ChangeController Dev Data) [DecidableEq Dev] :
    List (Sigma fun _ : QByteArray × Option Dev => ChangeController.UploadInfo Data) :=
  cc'.activeUploads.entries.filter fun x => (cc.activeUploads.lookup x.1).isNone

/-- Deletions are sent as they are, changes with the data of the object. -/
def sends (readable : ObjectKey → Bool)
    (x : Sigma fun _ : QByteArray × Option Dev => ChangeController.UploadInfo Data) : Bool :=
  x.2.isDelete || readable x.2.key

def Ack.action (a : Ack Dev) : Client.Action Dev Data :=
  match a.target with
  | none => .uploadDone a.dataId
  | some deviceId => .deviceUploadDone a.dataId deviceId

/-- `Client::onChange` and `Client::onDeviceChange` of the server. -/
def ChangeMessage.transaction (m : ChangeMessage Dev Data) (keyIndex : ℕ) (salt data : QByteArray) :
    Transaction Dev :=
  match m.target with
  | none => .addChange m.sender m.dataId keyIndex salt data
  | some deviceId => .addDeviceChange m.sender deviceId m.dataId keyIndex salt data

def ChangeMessage.ack (m : ChangeMessage Dev Data) : Ack Dev := ⟨m.sender, m.target, m.dataId, m.change.key⟩

def isAck : Client.Action Dev Data → Bool
  | .uploadDone _ => true
  | .deviceUploadDone _ _ => true
  | _ => false

def isUpload : Transaction Dev → Bool
  | .addChange .. => true
  | .addDeviceChange .. => true
  | _ => false

variable [DecidableEq Dev] [LinearOrder Checksum]

namespace System

/-- A step of one device.  What it cannot read for an upload it assumes to be unchanged, by a queued `uploadDone`. -/
def act (d : Defaults Data) (sha3 : List UInt8 → QByteArray) (s : System Dev jsonHash) (deviceId : Dev)
    (a : Client.Action Dev Data) (readable : ObjectKey → Bool) : System Dev jsonHash :=
  let client := (s.clients deviceId).next d (ObjectKey.hashed sha3) a
  let uploads := started (s.clients deviceId).changeController client.changeController
  { s with
    clients := Function.update s.clients deviceId client
    changes := s.changes ++ (uploads.filter (sends readable)).map fun x => ⟨deviceId, x.1.2, x.1.1, x.2.payload⟩
    acks := s.acks ++ (uploads.filter fun x => !sends readable x).map fun x => ⟨deviceId, none, x.1.1, x.2.key⟩ }

def next (d : Defaults Data) (sha3 : List UInt8 → QByteArray) (s : System Dev jsonHash) :
    Event Dev Data → System Dev jsonHash
  | .client deviceId a readable => s.act d sha3 deviceId a readable
  | .receive m keyIndex salt data =>
    match (m.transaction keyIndex salt data).run s.database with
    | .ok db => { s with
        database := db
        acks := m.ack :: s.acks
        origin := Function.update s.origin s.database.nextDataId (some m.change.key) } -- the row that is inserted
    | .error _ => s
  | .server tx => { s with database := tx.next s.database }
  | .acknowledge a => { s with
      clients := Function.update s.clients a.receiver
        ((s.clients a.receiver).next d (ObjectKey.hashed sha3) a.action) }
  | .reset deviceId keepData => { s with
      clients := Function.update s.clients deviceId { s.clients deviceId with
        database := (s.clients deviceId).database.write
          (DataIndex.reset keepData (s.clients deviceId).database.dataIndex) } }

def Enabled (s : System Dev jsonHash) : Event Dev Data → Prop
  | .client deviceId a _ => isAck a = false ∧ Client.Queried (s.clients deviceId) a
  | .receive m _ _ _ => m ∈ s.changes
  | .server tx => isUpload tx = false
  | .acknowledge a => a ∈ s.acks
  | .reset _ _ => True

/-- All start with empty stores. -/
def lts (d : Defaults Data) (sha3 : List UInt8 → QByteArray) : LTS (System Dev jsonHash) (Event Dev Data) where
  init s := (∀ x, (s.clients x).database = .empty ∧ (s.clients x).changeController.activeUploads = ∅) ∧
    s.database = .empty ∧ s.changes = [] ∧ s.acks = []
  step s e t := s.Enabled e ∧ t = s.next d sha3 e

/-- Only objects of `K` are stored on the devices. -/
def Stores (K : Dev → Set ObjectKey) (_ : System Dev jsonHash) : Event Dev Data → Prop
  | .client deviceId (.save key _) _ => key ∈ K deviceId
  | .client deviceId (.syncChange c) _ => c.key ∈ K deviceId
  | _ => True

/-- Every slot is used by one object: what `uploadNext` skips as active is active, what an upload replaces or is merged
with on the server is of the same object, and what is acknowledged is what was stored. -/
structure Separate (sha3 : List UInt8 → QByteArray) (s : System Dev jsonHash) : Prop where
  active : ∀ deviceId k target info, (s.clients deviceId).database.dataIndex k ≠ none →
    (s.clients deviceId).changeController.activeUploads.lookup (k.hashed sha3, target) = some info → info.key = k
  stored : ∀ m ∈ s.changes, ∀ c ∈ s.database.datachanges, c.deviceid = m.sender → c.dataid = m.dataId →
    s.origin c.id = some m.change.key
  acknowledged : ∀ a ∈ s.acks, ∀ info, (s.clients a.receiver).changeController.activeUploads.lookup
    (a.dataId, a.target) = some info → info.key = a.object

end System

/-! ## Slots hold objects with their hash -/

variable {d : Defaults Data} {sha3 : List UInt8 → QByteArray} {K : Dev → Set ObjectKey}

/-- A device stores objects of `K`, and uploads them under their hash. -/
structure Hashed (sha3 : List UInt8 → QByteArray) (K : Set ObjectKey) (c : Client Dev jsonHash) : Prop where
  rows : ∀ k, c.database.dataIndex k ≠ none → k ∈ K
  active : ∀ key info, c.changeController.activeUploads.lookup key = some info →
    key.1 = info.key.hashed sha3 ∧ info.key ∈ K

/-- The object that a step may store. -/
def StoresOnly (K : Set ObjectKey) : Client.Action Dev Data → Prop
  | .save key _ => key ∈ K
  | .syncChange c => c.key ∈ K
  | _ => True

theorem Hashed.next {K : Set ObjectKey} {c : Client Dev jsonHash} {a : Client.Action Dev Data}
    (h : Hashed sha3 K c) (hq : c.Queried a) (ha : StoresOnly K a) :
    Hashed sha3 K (c.next d (ObjectKey.hashed sha3) a) := by
  constructor
  · intro k hk
    by_cases hold : c.database.dataIndex k = none
    · obtain ⟨r, hr⟩ := Option.ne_none_iff_exists'.mp hk
      rcases Client.dataIndex_next d (ObjectKey.hashed sha3) c a with he | ⟨op, hop, he⟩
      · rw [he] at hk
        exact absurd hold hk
      · rw [he] at hr
        -- the row is new: it is saved or received
        rcases DataIndex.run_of_none hold hr with ⟨data, rfl⟩ | ⟨c', rfl, rfl, -, -⟩
        · cases hop
          exact ha
        · cases hop
          exact ha
    · exact h.rows k hold
  · intro key info hl
    rcases Client.lookup_next hq hl with hold | ⟨-, -, hkey, r, hr, -, -⟩
    · exact h.active key info hold
    · exact ⟨hkey, h.rows info.key (by rw [hr]; exact Option.some_ne_none r)⟩

/-- What `uploadNext` starts is loaded from a row, and sent under the hash of its object. -/
theorem Hashed.started {K : Set ObjectKey} {c : Client Dev jsonHash} {a : Client.Action Dev Data}
    (h : Hashed sha3 K c) (hq : c.Queried a)
    {x : Sigma fun _ : QByteArray × Option Dev => ChangeController.UploadInfo Data}
    (hx : x ∈ started c.changeController (c.next d (ObjectKey.hashed sha3) a).changeController) :
    x.1.1 = x.2.key.hashed sha3 ∧ x.2.key ∈ K ∧ x.2.payload.key = x.2.key := by
  obtain ⟨hmem, hnew⟩ := List.mem_filter.mp hx
  rw [Option.isNone_iff_eq_none] at hnew
  have hl : (c.next d (ObjectKey.hashed sha3) a).changeController.activeUploads.lookup x.1 = some x.2 :=
    AList.mem_lookup_iff.mpr hmem
  rcases Client.lookup_next hq hl with hold | ⟨-, -, hkey, r, hr, hinfo, -⟩
  · rw [hnew] at hold
    cases hold
  · exact ⟨hkey, h.rows _ (by rw [hr]; exact Option.some_ne_none r), congrArg (fun info => info.payload.key) hinfo⟩

/-- A row after a transaction was there before, or is the one that an upload has inserted. -/
theorem mem_of_run {tx : Transaction Dev} {db db' : Database Dev} (h : tx.run db = .ok db') {c : DataChange Dev}
    (hc : c ∈ db'.datachanges) : c ∈ db.datachanges ∨ c.id = db.nextDataId ∧
      ((∃ keyIndex salt data, tx = .addChange c.deviceid c.dataid keyIndex salt data) ∨
        ∃ target keyIndex salt data, tx = .addDeviceChange c.deviceid target c.dataid keyIndex salt data) := by
  cases tx with
  | addNewDevice quota deviceId today =>
    obtain ⟨uid, ht⟩ := DatabaseController.addNewDevice_ok h
    rw [ht] at hc
    exact Or.inl hc
  | addNewDeviceToUser new partner today =>
    obtain ⟨uid, -, ht⟩ := Database.insertDevice_ok h
    rw [ht] at hc
    exact Or.inl hc
  | updateLogin deviceId today =>
    cases h
    exact Or.inl hc
  | removeDevice deviceId deleteId =>
    rw [Database.deleteUsers_ok h] at hc
    exact Or.inl (Tables.mem_datachanges_deleteDevices.mp hc).1
  | cleanupDevices today days =>
    by_cases hd : days = 0
    · cases (if_pos hd).symm.trans h
      exact Or.inl hc
    · rw [Database.deleteUsers_ok ((if_neg hd).symm.trans h)] at hc
      exact Or.inl (Tables.mem_datachanges_deleteDevices.mp hc).1
  | addChange deviceId dataId keyIndex salt data =>
    have hadded : c ∈ (DatabaseController.addedChange db deviceId dataId keyIndex salt data).datachanges := by
      have ht := DatabaseController.addChange_ok h
      split_ifs at ht
      · rw [ht] at hc
        exact (Tables.mem_deleteDataChanges.mp hc).1
      · rw [ht] at hc
        exact hc
    rcases Tables.mem_insertDataChange.mp hadded with hold | rfl
    · exact Or.inl (Tables.mem_deleteDataChanges.mp hold).1
    · exact Or.inr ⟨rfl, Or.inl ⟨keyIndex, salt, data, rfl⟩⟩
  | addDeviceChange deviceId targetId dataId keyIndex salt data =>
    obtain ⟨db₁, nId, h₁, ht⟩ := DatabaseController.addDeviceChange_ok h
    have hfound : c ∈ db₁.datachanges := by
      split_ifs at ht
      · rw [ht] at hc
        exact hc
      · rw [ht] at hc
        exact hc
    rcases DatabaseController.insertOrFind_ok h₁ with ⟨-, -, -, -, -, rfl⟩ | ⟨-, rfl, ht₁⟩
    · exact Or.inl hfound
    · rw [ht₁] at hfound
      rcases Tables.mem_insertDataChange.mp hfound with hold | rfl
      · exact Or.inl hold
      · exact Or.inr ⟨rfl, Or.inr ⟨targetId, keyIndex, salt, data, rfl⟩⟩
  | completeChange deviceId dataIndex =>
    cases h
    exact Or.inl (Tables.mem_deleteDataChanges.mp hc).1

namespace System

/-- Everything that is known by a hash is of an object of its device with this hash. -/
structure Invariant (sha3 : List UInt8 → QByteArray) (K : Dev → Set ObjectKey) (s : System Dev jsonHash) : Prop where
  clients : ∀ x, Hashed sha3 (K x) (s.clients x)
  changes : ∀ m ∈ s.changes, m.dataId = m.change.key.hashed sha3 ∧ m.change.key ∈ K m.sender
  stored : ∀ c ∈ s.database.datachanges, ∃ k ∈ K c.deviceid, s.origin c.id = some k ∧ c.dataid = k.hashed sha3
  acks : ∀ a ∈ s.acks, a.dataId = a.object.hashed sha3 ∧ a.object ∈ K a.receiver

omit [LinearOrder Checksum] in
theorem Invariant.update {s : System Dev jsonHash} (h : Invariant sha3 K s) {deviceId : Dev}
    {c : Client Dev jsonHash} (hc : Hashed sha3 (K deviceId) c) (x : Dev) :
    Hashed sha3 (K x) (Function.update s.clients deviceId c x) := by
  by_cases hx : x = deviceId
  · subst hx
    rw [Function.update_self]
    exact hc
  · rw [Function.update_of_ne hx]
    exact h.clients x

theorem Invariant.act {s : System Dev jsonHash} (h : Invariant sha3 K s) {deviceId : Dev}
    {a : Client.Action Dev Data} {readable : ObjectKey → Bool} (hq : (s.clients deviceId).Queried a)
    (ha : StoresOnly (K deviceId) a) : Invariant sha3 K (s.act d sha3 deviceId a readable) where
  clients := h.update ((h.clients deviceId).next hq ha)
  changes := by
    intro m hm
    rcases List.mem_append.mp hm with hm | hm
    · exact h.changes m hm
    · obtain ⟨x, hx, rfl⟩ := List.mem_map.mp hm
      obtain ⟨hkey, hobject, hpayload⟩ := (h.clients deviceId).started hq (List.mem_of_mem_filter hx)
      dsimp only
      rw [hpayload]
      exact ⟨hkey, hobject⟩
  stored := h.stored
  acks := by
    intro a' ha'
    rcases List.mem_append.mp ha' with ha' | ha'
    · exact h.acks a' ha'
    · obtain ⟨x, hx, rfl⟩ := List.mem_map.mp ha'
      obtain ⟨hkey, hobject, -⟩ := (h.clients deviceId).started hq (List.mem_of_mem_filter hx)
      exact ⟨hkey, hobject⟩

omit [LinearOrder Checksum] in
/-- A row after any transaction is of an object, if the one that an upload inserts is. -/
theorem Invariant.stored_of_run {s : System Dev jsonHash} (h : Invariant sha3 K s) {tx : Transaction Dev}
    {db : Database Dev} (hrun : tx.run s.database = .ok db) {origin : ℕ → Option ObjectKey}
    (horigin : ∀ i < s.database.nextDataId, origin i = s.origin i)
    (hnew : ∀ sender dataId, (∃ keyIndex salt data, tx = .addChange sender dataId keyIndex salt data) ∨
      (∃ target keyIndex salt data, tx = .addDeviceChange sender target dataId keyIndex salt data) →
      ∃ k ∈ K sender, origin s.database.nextDataId = some k ∧ dataId = k.hashed sha3) :
    ∀ c ∈ db.datachanges, ∃ k ∈ K c.deviceid, origin c.id = some k ∧ c.dataid = k.hashed sha3 := by
  intro c hc
  rcases mem_of_run hrun hc with hold | ⟨hid, htx⟩
  · rw [horigin c.id (s.database.constraints.datachanges_seq c hold)]
    exact h.stored c hold
  · rw [hid]
    exact hnew c.deviceid c.dataid htx

theorem Invariant.next {s t : System Dev jsonHash} {e : Event Dev Data} (h : Invariant sha3 K s)
    (hg : s.Stores K e) (hst : (lts d sha3).step s e t) : Invariant sha3 K t := by
  obtain ⟨he, rfl⟩ := hst
  rcases e with ⟨deviceId, a, readable⟩ | ⟨m, keyIndex, salt, data⟩ | tx | a | ⟨deviceId, keepData⟩
  · have ha : StoresOnly (K deviceId) a := by
      cases a <;> exact hg
    exact h.act he.2 ha
  · rw [System.next]
    split
    · rename_i db hrun
      obtain ⟨hhash, hobject⟩ := h.changes m he
      refine ⟨h.clients, h.changes, ?_, List.forall_mem_cons.mpr ⟨⟨hhash, hobject⟩, h.acks⟩⟩
      apply h.stored_of_run hrun
      · exact fun i hi => Function.update_of_ne (Nat.ne_of_lt hi) _ _
      · intro sender dataId htx
        have hslot : sender = m.sender ∧ dataId = m.dataId := by
          rw [ChangeMessage.transaction] at htx
          split at htx
          · rcases htx with ⟨_, _, _, htx⟩ | ⟨_, _, _, _, htx⟩
            · cases htx
              exact ⟨rfl, rfl⟩
            · cases htx
          · rcases htx with ⟨_, _, _, htx⟩ | ⟨_, _, _, _, htx⟩
            · cases htx
            · cases htx
              exact ⟨rfl, rfl⟩
        obtain ⟨rfl, rfl⟩ := hslot
        exact ⟨m.change.key, hobject, Function.update_self _ _ _, hhash⟩
    · exact h
  · refine ⟨h.clients, h.changes, ?_, h.acks⟩
    rcases tx.next_cases s.database with hrun | hsame
    · refine h.stored_of_run hrun (fun _ _ => rfl) fun sender dataId htx => ?_
      have hno : isUpload tx = false := he
      rcases htx with ⟨_, _, _, rfl⟩ | ⟨_, _, _, _, rfl⟩
      · cases hno
      · cases hno
    · show ∀ c ∈ (tx.next s.database).datachanges, _
      rw [hsame]
      exact h.stored
  · have hq : (s.clients a.receiver).Queried a.action := by
      rw [Ack.action]
      split <;> trivial
    have ha : StoresOnly (K a.receiver) (a.action : Client.Action Dev Data) := by
      rw [Ack.action]
      split <;> trivial
    exact ⟨h.update ((h.clients a.receiver).next hq ha), h.changes, h.stored, h.acks⟩
  · refine ⟨h.update ⟨fun k hk => (h.clients deviceId).rows k fun hnone => hk ?_, (h.clients deviceId).active⟩,
      h.changes, h.stored, h.acks⟩
    show LocalStore.reset keepData ((s.clients deviceId).database.dataIndex k) = none
    rw [hnone, LocalStore.reset]
    split <;> rfl

theorem invariant {s : System Dev jsonHash} (h : (lts d sha3).Reachable (Stores K) s) : Invariant sha3 K s := by
  refine LTS.Reachable.invariant (I := Invariant sha3 K) ?_ (fun s e t _ hs hg hst => hs.next hg hst) h
  rintro s ⟨hclients, hdb, hchanges, hacks⟩
  constructor
  · intro x
    obtain ⟨hempty, hactive⟩ := hclients x
    constructor
    · intro k hk
      rw [hempty] at hk
      exact absurd rfl hk
    · intro key info hl
      rw [hactive, AList.lookup_empty] at hl
      cases hl
  · rw [hchanges]
    exact fun m hm => absurd hm List.not_mem_nil
  · rw [hdb]
    exact fun c hc => absurd hc List.not_mem_nil
  · rw [hacks]
    exact fun a ha => absurd ha List.not_mem_nil

omit [LinearOrder Checksum] in
/-- Objects that are not confused have slots of their own. -/
theorem Invariant.separate (hsha : Function.Injective sha3) (hK : ∀ x, Unambiguous (K x)) {s : System Dev jsonHash}
    (h : Invariant sha3 K s) : Separate sha3 s where
  active := by
    intro deviceId k target info hk hl
    obtain ⟨hhash, hobject⟩ := (h.clients deviceId).active _ info hl
    exact (hK deviceId).eq hsha hobject ((h.clients deviceId).rows k hk) hhash.symm
  stored := by
    intro m hm c hc hdev hslot
    obtain ⟨k, hk, horigin, hhash⟩ := h.stored c hc
    obtain ⟨hhash', hobject⟩ := h.changes m hm
    rw [hdev] at hk
    rw [horigin, (hK m.sender).eq hsha hk hobject (hhash.symm.trans (hslot.trans hhash'))]
  acknowledged := by
    intro a ha info hl
    obtain ⟨hhash, hobject⟩ := h.acks a ha
    obtain ⟨hhash', hobject'⟩ := (h.clients a.receiver).active _ info hl
    exact (hK a.receiver).eq hsha hobject' hobject (hhash'.symm.trans hhash)

/-! ## Two objects in one slot -/

omit [DecidableEq Dev] in
theorem run_save {index : DataIndex jsonHash} {key : ObjectKey} (h : index key = none) (data : Data) :
    DataIndex.run d index (.save key data) = Function.update index key (some ⟨1, some (.write data), true⟩) := by
  simp only [DataIndex.run, DataIndex.save, h]
  rfl

omit [LinearOrder Checksum] in
/-- The first row that `uploadNext` visits becomes active. -/
theorem lookup_uploadNext_cons {db : LocalDatabase Dev jsonHash} {hashed : ObjectKey → QByteArray} {k : ObjectKey}
    {r : Row jsonHash} (hr : db.dataIndex k = some r) (keys : List ObjectKey) :
    ((⟨∅, 10⟩ : ChangeController Dev Data).uploadNext hashed db (k :: keys) []).activeUploads.lookup
      (hashed k, none) ≠ none := by
  have hfirst : (ChangeController.upload hashed (⟨∅, 10⟩ : ChangeController Dev Data)
      ⟨k, r.version, r.content, none⟩).1.activeUploads.lookup (hashed k, none) ≠ none := by
    show (AList.insert _ _ ∅).lookup _ ≠ none
    rw [AList.lookup_insert]
    exact Option.some_ne_none _
  have hload : db.load k none = some ⟨k, r.version, r.content, none⟩ := by
    rw [LocalDatabase.load, hr]
    rfl
  -- what is active stays active in later visits
  have hkeep : ∀ l, (visitAll (ChangeController.upload hashed) (ChangeController.upload hashed
      (⟨∅, 10⟩ : ChangeController Dev Data) ⟨k, r.version, r.content, none⟩).1 l).1.activeUploads.lookup
      (hashed k, none) ≠ none := by
    intro l
    refine visitAll_invariant (P := fun cc : ChangeController Dev Data => cc.activeUploads.lookup (hashed k, none) ≠ none) hfirst ?_
    intro cc x _ hcc
    rcases ChangeController.lookup_upload hashed cc x (hashed k, none) with he | ⟨hnone, -⟩
    · rw [he]
      exact hcc
    · exact absurd hnone hcc
  have hnext : visitAll (ChangeController.upload hashed) (⟨∅, 10⟩ : ChangeController Dev Data)
      (⟨k, r.version, r.content, none⟩ :: keys.filterMap fun k => db.load k none) =
      visitAll (ChangeController.upload hashed) _ (keys.filterMap fun k => db.load k none) := if_pos rfl
  have hfree : ¬ (⟨∅, 10⟩ : ChangeController Dev Data).uploadLimit ≤ (⟨∅, 10⟩ : ChangeController Dev Data).size :=
    Nat.not_le.mpr (Nat.zero_lt_succ 9)
  rw [ChangeController.uploadNext, if_neg hfree, LocalDatabase.loadChanges, List.filterMap_cons, hload]
  dsimp only [List.filterMap_nil]
  rw [hnext]
  split
  · exact hkeep _
  · exact hkeep _

/-- All stores are empty, and the limit is the one before the server has announced another. -/
def start : System Dev jsonHash := ⟨fun _ => ⟨.empty, ⟨∅, 10⟩⟩, .empty, [], [], fun _ => none⟩

/-- A device has saved two objects. -/
def saved (d : Defaults Data) (sha3 : List UInt8 → QByteArray) (deviceId : Dev) (k k' : ObjectKey) (data : Data) :
    System Dev jsonHash :=
  (start.next d sha3 (.client deviceId (.save k data) fun _ => true)).next d sha3
    (.client deviceId (.save k' data) fun _ => true)

section

variable {deviceId : Dev} {k k' : ObjectKey} {data : Data}

theorem dataIndex_saved (hne : k' ≠ k) :
    ((saved d sha3 deviceId k k' data : System Dev jsonHash).clients deviceId).database.dataIndex =
      Function.update (Function.update (fun _ => none) k (some ⟨1, some (.write data), true⟩)) k'
        (some ⟨1, some (.write data), true⟩) := by
  simp only [saved, System.next, System.act, Function.update_self]
  show DataIndex.run d (DataIndex.run d (fun _ => none) (.save k data)) (.save k' data) = _
  have hfirst : DataIndex.run d (fun _ => none : DataIndex jsonHash) (.save k data) = _ := run_save rfl data
  rw [hfirst, run_save (Function.update_of_ne hne _ _)]

theorem changeController_saved :
    ((saved d sha3 deviceId k k' data : System Dev jsonHash).clients deviceId).changeController = ⟨∅, 10⟩ := by
  simp only [saved, System.next, System.act, Function.update_self]
  rfl

theorem deviceUploads_saved (key : ObjectKey) (x : Dev) :
    ((saved d sha3 deviceId k k' data : System Dev jsonHash).clients deviceId).database.deviceUploads key x =
      false := by
  simp only [saved, System.next, System.act, Function.update_self]
  rfl

/-- Both objects are found by `loadChanges`. -/
theorem queried_saved (hne : k' ≠ k) :
    ((saved d sha3 deviceId k k' data : System Dev jsonHash).clients deviceId).Queried (.uploadNext [k, k'] []) := by
  have hrow : ∀ key r, ((saved d sha3 deviceId k k' data : System Dev jsonHash).clients deviceId).database.dataIndex
      key = some r ↔ key ∈ [k, k'] ∧ r = ⟨1, some (.write data), true⟩ := by
    intro key r
    rw [dataIndex_saved hne]
    by_cases h' : key = k'
    · subst h'
      simp [eq_comm]
    · by_cases h : key = k
      · subst h
        rw [Function.update_of_ne h', Function.update_self]
        simp [eq_comm]
      · rw [Function.update_of_ne h', Function.update_of_ne h]
        simp [h, h']
  rw [Client.Queried, changeController_saved]
  constructor
  · refine ⟨by simp [hne.symm], fun key hkey => ⟨_, (hrow key _).mpr ⟨hkey, rfl⟩, rfl⟩, by simp, ?_⟩
    exact fun _ key r hr _ => ((hrow key r).mp hr).1
  · refine ⟨List.nodup_nil, fun x hx => absurd hx List.not_mem_nil, Nat.zero_le _, ?_⟩
    intro _ key x r hup
    rw [deviceUploads_saved] at hup
    cases hup

variable (deviceId) in
/-- Two objects of a device with one hash: when one of them is uploaded, the other one is skipped. -/
theorem exists_not_separate (data : Data) (hne : k' ≠ k) (hK : k ∈ K deviceId) (hK' : k' ∈ K deviceId)
    (hhash : k.hashed sha3 = k'.hashed sha3) :
    ∃ s : System Dev jsonHash, (lts d sha3).Reachable (Stores K) s ∧ ¬ Separate sha3 s := by
  have h0 : (lts d sha3).Reachable (Stores K) (start : System Dev jsonHash) :=
    .init ⟨fun _ => ⟨rfl, rfl⟩, rfl, rfl, rfl⟩
  have h1 : (lts d sha3).Reachable (Stores K) ((start : System Dev jsonHash).next d sha3
      (.client deviceId (.save k data) fun _ => true)) :=
    h0.step (a := .client deviceId (.save k data) fun _ => true) hK ⟨⟨rfl, trivial⟩, rfl⟩
  have h2 : (lts d sha3).Reachable (Stores K) (saved d sha3 deviceId k k' data : System Dev jsonHash) :=
    h1.step (a := .client deviceId (.save k' data) fun _ => true) hK' ⟨⟨rfl, trivial⟩, rfl⟩
  have h3 : (lts d sha3).Reachable (Stores K) ((saved d sha3 deviceId k k' data : System Dev jsonHash).next d sha3
      (.client deviceId (.uploadNext [k, k'] []) fun _ => true)) :=
    h2.step (a := .client deviceId (.uploadNext [k, k'] []) fun _ => true) trivial ⟨⟨rfl, queried_saved hne⟩, rfl⟩
  refine ⟨_, h3, fun hsep => ?_⟩
  have hclient : ((saved d sha3 deviceId k k' data : System Dev jsonHash).next d sha3
      (.client deviceId (.uploadNext [k, k'] []) fun _ => true)).clients deviceId =
      ((saved d sha3 deviceId k k' data).clients deviceId).next d (ObjectKey.hashed sha3) (.uploadNext [k, k'] []) :=
    Function.update_self _ _ _
  have hrow : ∀ key ∈ [k, k'], ∃ r, ((saved d sha3 deviceId k k' data : System Dev jsonHash).clients
      deviceId).database.dataIndex key = some r := by
    intro key hkey
    have hq : ((saved d sha3 deviceId k k' data : System Dev jsonHash).clients deviceId).Queried
        (.uploadNext [k, k'] []) := queried_saved hne
    obtain ⟨r, hr, -⟩ := hq.1.changed key hkey
    exact ⟨r, hr⟩
  -- something is active under the hash of both
  obtain ⟨r, hr⟩ := hrow k List.mem_cons_self
  have hcc : ((saved d sha3 deviceId k k' data : System Dev jsonHash).clients deviceId).changeController =
      ⟨∅, 10⟩ := changeController_saved
  have hactive : ((⟨∅, 10⟩ : ChangeController Dev Data).uploadNext (ObjectKey.hashed sha3)
      ((saved d sha3 deviceId k k' data).clients deviceId).database [k, k'] []).activeUploads.lookup
      (k.hashed sha3, none) ≠ none := lookup_uploadNext_cons hr [k']
  rw [← hcc] at hactive
  obtain ⟨info, hl⟩ := Option.ne_none_iff_exists'.mp hactive
  have hkey : ∀ key ∈ [k, k'], key.hashed sha3 = k.hashed sha3 → info.key = key := by
    intro key hkey hh
    obtain ⟨r, hr⟩ := hrow key hkey
    refine hsep.active deviceId key none info ?_ ?_
    · rw [hclient]
      show ((saved d sha3 deviceId k k' data).clients deviceId).database.dataIndex key ≠ none
      rw [hr]
      exact Option.some_ne_none r
    · rw [hclient, hh]
      exact hl
  have hk := hkey k List.mem_cons_self rfl
  have hk' := hkey k' (List.mem_cons_of_mem k List.mem_cons_self) hhash.symm
  exact hne (hk'.symm.trans hk)

end

/-- **Slots are not shared.**  Two different keys have different hashes exactly if they are not ambiguous, and all
runs in which the devices store objects of `K` keep the slots separate exactly if `K` has no ambiguous keys. -/
theorem separate_iff [Nonempty Data] (d : Defaults Data) (hsha : Function.Injective sha3) :
    (∀ k k' : ObjectKey, k ≠ k' → (k.hashed sha3 ≠ k'.hashed sha3 ↔ ¬ Ambiguous k k')) ∧
      ∀ K : Dev → Set ObjectKey,
        (∀ s : System Dev jsonHash, (lts d sha3).Reachable (Stores K) s → Separate sha3 s) ↔
          ∀ x, Unambiguous (K x) := by
  refine ⟨fun k k' _ => not_congr (hashed_eq_iff hsha), fun K => ⟨fun h x k hk k' hk' hne ha => ?_, fun hK s hs => ?_⟩⟩
  · obtain ⟨data⟩ := ‹Nonempty Data›
    have hex : ∃ s : System Dev jsonHash, (lts d sha3).Reachable (Stores K) s ∧ ¬ Separate sha3 s :=
      exists_not_separate x data hne.symm hk hk' ((hashed_eq_iff hsha).mpr ha)
    obtain ⟨s, hs, hnot⟩ := hex
    exact hnot (h s hs)
  · exact (invariant hs).separate hsha hK

end System

end

/-! ## Objects of two types -/

/-- The type `Foo` has an object `12`, and the type `Foo1` an object `2`. -/
def foo : ObjectKey := ⟨[0x46, 0x6F, 0x6F], "12"⟩

def foo1 : ObjectKey := ⟨[0x46, 0x6F, 0x6F, 0x31], "2"⟩

def defaults : Defaults ℕ := ⟨false, .PreferChanged, none⟩

/-- Objects of one type are never confused. -/
theorem separate_foo : (foo.hashed id ≠ (⟨foo.typeName, "2"⟩ : ObjectKey).hashed id) ∧
    ∀ s : System Unit (fun n : ℕ => n), (System.lts defaults id).Reachable
      (System.Stores fun _ => {foo, ⟨foo.typeName, "2"⟩}) s → System.Separate id s := by
  have hne : ¬ Ambiguous foo ⟨foo.typeName, "2"⟩ := by
    rw [ambiguous_iff]
    decide
  have hsep : _ ∧ ∀ K : Unit → Set ObjectKey, (∀ s : System Unit (fun n : ℕ => n), _ → System.Separate id s) ↔ _ :=
    System.separate_iff defaults Function.injective_id
  refine ⟨(hsep.1 _ _ (by decide)).mpr hne, (hsep.2 _).mpr fun _ => ?_⟩
  rintro k (rfl | rfl) k' (rfl | rfl) hkk'
  · exact absurd rfl hkk'
  · exact hne
  · exact fun h => hne h.symm
  · exact absurd rfl hkk'

/-- Both objects have one hash, and a device that has both uploads one of them only. -/
theorem foo_foo1_not_separate : foo ≠ foo1 ∧ ∀ sha3 : List UInt8 → QByteArray, foo.hashed sha3 = foo1.hashed sha3 ∧
    ∃ s : System Unit (fun n : ℕ => n), (System.lts defaults sha3).Reachable LTS.free s ∧
      ¬ System.Separate sha3 s := by
  refine ⟨by decide, fun sha3 => ?_⟩
  have hhash : foo.hashed sha3 = foo1.hashed sha3 := congrArg sha3 (by decide)
  obtain ⟨s, hs, hnot⟩ : ∃ s : System Unit (fun n : ℕ => n), (System.lts defaults sha3).Reachable
      (System.Stores fun _ => Set.univ) s ∧ ¬ System.Separate sha3 s :=
    System.exists_not_separate () 5 (by decide) (Set.mem_univ foo) (Set.mem_univ foo1) hhash
  exact ⟨hhash, s, hs.mono fun _ _ _ => trivial, hnot⟩

end UploadSlots

end QtDataSync
