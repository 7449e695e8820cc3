import Mathlib.Algebra.Order.Ring.Nat
import QtDataSync.Store.Client

/-!
# Engine.ExchangeEngine — uploads, the calls that are queued for them, and the state of the engine

`ChangeController` with all its members and `ExchangeEngine` with its state, on the database of the device.  Signals
between the two are direct calls, so an error while a change is handed to the connector clears the uploads in the
middle of `uploadNext`.  What is called through the event loop waits in `queue`, in order; what the server has to
answer is in `acks`, in any order.  What the queries of a call return, and what fails, is an argument (`UploadEnv`).
-/

namespace QtDataSync

open LocalStore

/-- `SyncManager::SyncState`. -/
inductive SyncState where
  | Initializing
  | Downloading
  | Uploading
  | Synchronized
  | Error
  | Disconnected
deriving DecidableEq, Repr

/-- `RemoteConnector::RemoteEvent`. -/
inductive RemoteEvent where
  | RemoteDisconnected
  | RemoteConnecting
  | RemoteReady
  | RemoteReadyWithChanges
deriving DecidableEq, Repr

/-- The signals of the controller and of the engine.  `activated` is no signal: an entry is added to
`_activeUploads`. -/
inductive EngineSignal (Dev Data : Type*) where
  | stateChanged (state : SyncState)
  | uploadingChanged (uploading : Bool)
  | progressAdded (estimate : ℕ)
  | progressIncrement
  | activated (key : QByteArray × Option Dev)
  | uploadChange (key : QByteArray) (change : Change Data)
  | uploadDeviceChange (key : QByteArray) (deviceId : Dev) (change : Change Data)
  | controllerError

/-- The slots that are called through the event loop. -/
inductive Call where
  | changeTriggered
  | uploadNext
  | uploadDone (key : QByteArray)
deriving DecidableEq, Repr

/-- What becomes of an upload: it is sent, `readJson` fails, or the connector fails to encrypt it. -/
inductive Emission where
  | sent
  | unreadable
  | error
deriving DecidableEq, Repr

/-- Where a call throws: in `changeCount`, at the start or at the end of `loadChanges`, or in the completion of an
upload. -/
inductive Fault where
  | count
  | load
  | commit
  | complete
deriving DecidableEq, Repr

/-- What a call finds: the result of `changeCount`, the rows of `loadChanges`, what becomes of uploads, and the
fault. -/
structure UploadEnv (Dev : Type*) where
  count : ℕ
  changedRows : List ObjectKey
  deviceRows : List (ObjectKey × Dev)
  emission : ObjectKey → Option Dev → Emission
  fault : Option Fault

/-- The last call of `uploadNext`: whether uploading was enabled, and whether it has found a change, if it has looked
for one. -/
structure Search where
  enabled : Bool
  found : Option Bool
deriving DecidableEq, Repr

/-- The members of the controller and of the engine, with the database, the queued calls, and the uploads that the
server has yet to answer.  `cleared` is set by `clearUploads` until uploading is enabled, and `log` has all signals,
with `_uploadingEnabled` at that moment. -/
structure ExchangeEngine (Dev : Type*) {Data Checksum : Type*} (jsonHash : Data → Checksum) where
  database : LocalDatabase Dev jsonHash
  state : SyncState
  controller : ChangeController Dev Data
  uploadingEnabled : Bool
  changeEstimate : ℕ
  queue : List Call
  acks : List (QByteArray × Option Dev)
  search : Search
  cleared : Bool
  log : List (Bool × EngineSignal Dev Data)

section

variable {Dev Data Checksum : Type*} {jsonHash : Data → Checksum}

/-! ### The database -/

namespace LocalDatabase

/-- `changeCount` counts the change, which is for all devices or for one. -/
def Pending (db : LocalDatabase Dev jsonHash) : ObjectKey × Option Dev → Prop
  | (k, none) => ∃ r, db.dataIndex k = some r ∧ r.changed = true
  | (k, some d) => db.deviceUploads k d = true ∧ ∃ r, db.dataIndex k = some r ∧ ¬ (r.changed = true ∧ r.file = none)

/-- What `changeCount` returns, an unsigned number. -/
def Counts (db : LocalDatabase Dev jsonHash) (count : ℕ) : Prop :=
  ∃ rows : List (ObjectKey × Option Dev), rows.Nodup ∧ (∀ x, x ∈ rows ↔ db.Pending x) ∧ count = rows.length % 2 ^ 32

/-- The foreign key of `DeviceUploads`. -/
def Linked (db : LocalDatabase Dev jsonHash) : Prop := ∀ k d, db.deviceUploads k d = true → (db.dataIndex k).isSome

/-- The rows that `loadChanges` visits. -/
def rows (db : LocalDatabase Dev jsonHash) (changedRows : List ObjectKey) (deviceRows : List (ObjectKey × Dev)) :
    List (LoadedChange Dev Data) :=
  changedRows.filterMap (fun k => db.load k none) ++ deviceRows.filterMap fun x => db.load x.1 (some x.2)

/-- `LocalStore::reset`; without rows there are no `DeviceUploads`. -/
def reset (db : LocalDatabase Dev jsonHash) (keepData : Bool) : LocalDatabase Dev jsonHash where
  dataIndex := DataIndex.reset keepData db.dataIndex
  deviceUploads _ _ := false

end LocalDatabase

theorem visitAll_append {σ α : Type*} {visitor : σ → α → σ × Bool} (s : σ) (l l' : List α) :
    visitAll visitor s (l ++ l') =
      if (visitAll visitor s l).2 then visitAll visitor (visitAll visitor s l).1 l' else visitAll visitor s l := by
  induction l generalizing s with
  | nil => rfl
  | cons x l ih =>
    rw [List.cons_append, visitAll, visitAll]
    split
    · exact ih _
    · simp

/-- What every visit establishes and keeps holds after the visits of some rows. -/
theorem visitAll_of_ne_nil {σ α : Type*} {visitor : σ → α → σ × Bool} {P : σ → Prop} {l : List α} {s : σ} (hl : l ≠ [])
    (h : ∀ x ∈ l, P (visitor s x).1) (hv : ∀ s, ∀ x ∈ l, P s → P (visitor s x).1) : P (visitAll visitor s l).1 := by
  rcases l with - | ⟨x, l⟩
  · exact absurd rfl hl
  · rw [visitAll]
    split
    · exact visitAll_invariant (h x List.mem_cons_self) fun s y hy => hv s y (List.mem_cons_of_mem _ hy)
    · exact h x List.mem_cons_self

namespace LocalDatabase

variable {db : LocalDatabase Dev jsonHash} {limit : ℕ} {changedRows : List ObjectKey}
  {deviceRows : List (ObjectKey × Dev)}

/-- The two queries return one list of rows. -/
theorem loadChanges_eq {σ : Type*} {visitor : σ → LoadedChange Dev Data → σ × Bool} {s : σ}
    (hd : db.DeviceRows (limit - changedRows.length) deviceRows) :
    db.loadChanges limit changedRows deviceRows visitor s =
      (visitAll visitor s (db.rows changedRows deviceRows)).1 := by
  unfold loadChanges rows
  rw [visitAll_append]
  by_cases hlt : changedRows.length < limit
  · simp only [hlt, decide_true, Bool.and_true]
    split <;> rfl
  · have hnil : deviceRows = [] := by
      have hle := hd.length_le
      rw [← List.length_eq_zero_iff]
      omega
    simp only [hlt, decide_false, Bool.and_false, hnil, List.filterMap_nil, visitAll]
    rw [if_neg Bool.false_ne_true]
    split <;> rfl

theorem mem_rows {row : LoadedChange Dev Data} (h : row ∈ db.rows changedRows deviceRows) :
    (row.key ∈ changedRows ∧ row.device = none ∨ ∃ d, (row.key, d) ∈ deviceRows ∧ row.device = some d) ∧
      db.load row.key row.device = some row := by
  have hload : ∀ {k : ObjectKey} {device : Option Dev}, db.load k device = some row →
      row.key = k ∧ row.device = device := by
    intro k device h
    obtain ⟨r, -, rfl⟩ := Option.map_eq_some_iff.mp h
    exact ⟨rfl, rfl⟩
  rcases List.mem_append.mp h with h | h
  · obtain ⟨k, hk, hr⟩ := List.mem_filterMap.mp h
    obtain ⟨rfl, hd⟩ := hload hr
    exact ⟨Or.inl ⟨hk, hd⟩, hd ▸ hr⟩
  · obtain ⟨⟨k, d⟩, hk, hr⟩ := List.mem_filterMap.mp h
    obtain ⟨rfl, hd⟩ := hload hr
    exact ⟨Or.inr ⟨d, hk, hd⟩, hd ▸ hr⟩

/-- There is a row exactly if a change is pending. -/
theorem rows_ne_nil_iff (hlimit : 0 < limit) (hc : db.ChangedRows limit changedRows)
    (hd : db.DeviceRows (limit - changedRows.length) deviceRows) :
    db.rows changedRows deviceRows ≠ [] ↔ ∃ x, db.Pending x := by
  have hchanged : ∀ k ∈ changedRows, db.rows changedRows deviceRows ≠ [] := by
    intro k hk hnil
    obtain ⟨r, hr, -⟩ := hc.changed k hk
    have hmem : (⟨k, r.version, r.content, none⟩ : LoadedChange Dev Data) ∈ db.rows changedRows deviceRows :=
      List.mem_append_left _ (List.mem_filterMap.mpr ⟨k, hk, by rw [load, hr]; rfl⟩)
    rw [hnil] at hmem
    cases hmem
  have hdevice : ∀ x ∈ deviceRows, db.rows changedRows deviceRows ≠ [] := by
    intro x hx hnil
    obtain ⟨-, r, hr, -⟩ := hd.listed x hx
    have hmem : (⟨x.1, r.version, r.content, some x.2⟩ : LoadedChange Dev Data) ∈ db.rows changedRows deviceRows :=
      List.mem_append_right _ (List.mem_filterMap.mpr ⟨x, hx, by rw [load, hr]; rfl⟩)
    rw [hnil] at hmem
    cases hmem
  constructor
  · intro hne
    obtain ⟨row, hrow⟩ := List.exists_mem_of_ne_nil _ hne
    rcases (mem_rows hrow).1 with ⟨hk, -⟩ | ⟨d, hk, -⟩
    · exact ⟨(row.key, none), hc.changed _ hk⟩
    · exact ⟨(row.key, some d), hd.listed _ hk⟩
  · rintro ⟨⟨k, device⟩, hpending⟩
    rcases changedRows with - | ⟨k', changedRows⟩
    · rcases device with - | d
      · obtain ⟨r, hr, hch⟩ := hpending
        exact absurd (hc.complete hlimit k r hr hch) List.not_mem_nil
      · obtain ⟨hup, r, hr, hch⟩ := hpending
        by_cases hlt : deviceRows.length < limit
        · exact hdevice _ (hd.complete hlt k d r hup hr hch)
        · obtain ⟨x, hx⟩ := List.exists_mem_of_length_pos (by omega : 0 < deviceRows.length)
          exact hdevice x hx
    · exact hchanged k' List.mem_cons_self

/-- Nothing is counted without a pending change. -/
theorem count_eq_zero {count : ℕ} (h : db.Counts count) (hnone : ¬ ∃ x, db.Pending x) : count = 0 := by
  obtain ⟨rows, -, hall, rfl⟩ := h
  have hnil : rows = [] := List.eq_nil_iff_forall_not_mem.mpr fun x hx => hnone ⟨x, (hall x).mp hx⟩
  rw [hnil]
  rfl

end LocalDatabase

/-- The operation emits `uploadNeeded` after its commit: what is written as changed has a new version. -/
def StoreOp.uploadNeeded [LinearOrder Checksum] (d : Defaults Data) (index : DataIndex jsonHash) : StoreOp Data → Bool
  | .save _ _ => true
  | .remove key => (LocalStore.remove (index key)).2
  | .clear _ => true
  | .markUnchanged _ _ _ => false
  | .syncChange c =>
    match SyncController.applyChange d (index c.key) c with
    | none => false
    | some r' => r'.changed && decide ((index c.key).map (·.version) ≠ some r'.version)

namespace ExchangeEngine

/-! ### Signals -/

/-- A signal that nobody reacts to. -/
def emit (s : ExchangeEngine Dev jsonHash) (signal : EngineSignal Dev Data) : ExchangeEngine Dev jsonHash :=
  { s with log := s.log ++ [(s.uploadingEnabled, signal)] }

def upstate (s : ExchangeEngine Dev jsonHash) (state : SyncState) : ExchangeEngine Dev jsonHash :=
  if s.state = state then s else { s with state := state }.emit (.stateChanged state)

/-- The signal, and the slot of the engine. -/
def uploadingChanged (s : ExchangeEngine Dev jsonHash) (uploading : Bool) : ExchangeEngine Dev jsonHash :=
  let s := s.emit (.uploadingChanged uploading)
  if s.state = .Error then s
  else if uploading then s.upstate .Uploading
  else if s.state = .Uploading then s.upstate .Synchronized
  else s

/-- `setUploadingEnabled(false)`. -/
def disableUploads (s : ExchangeEngine Dev jsonHash) : ExchangeEngine Dev jsonHash :=
  { s with uploadingEnabled := false }.uploadingChanged false

def clearUploads (s : ExchangeEngine Dev jsonHash) : ExchangeEngine Dev jsonHash :=
  let s := s.disableUploads
  { s with controller := s.controller.clearUploads, changeEstimate := 0, cleared := true }

/-- The signal of a controller, and the slot of the engine. -/
def controllerError (s : ExchangeEngine Dev jsonHash) : ExchangeEngine Dev jsonHash :=
  ((s.emit .controllerError).upstate .Error).clearUploads

/-! ### Uploads -/

variable [DecidableEq Dev] (hashed : ObjectKey → QByteArray)

/-- An unknown change becomes active. -/
def activate (s : ExchangeEngine Dev jsonHash) (row : LoadedChange Dev Data) : ExchangeEngine Dev jsonHash :=
  { s with controller := (ChangeController.upload hashed s.controller row).1 }.emit
    (.activated (hashed row.key, row.device))

/-- `uploadChange` or `uploadDeviceChange`. -/
def emitUpload (s : ExchangeEngine Dev jsonHash) (row : LoadedChange Dev Data) : ExchangeEngine Dev jsonHash :=
  match row.device with
  | none => s.emit (.uploadChange (hashed row.key) ⟨row.key, row.version, row.content⟩)
  | some deviceId => s.emit (.uploadDeviceChange (hashed row.key) deviceId ⟨row.key, row.version, row.content⟩)

/-- A deletion has no file to be read; what cannot be read is completed later. -/
def startUpload (s : ExchangeEngine Dev jsonHash) (env : UploadEnv Dev) (row : LoadedChange Dev Data) :
    ExchangeEngine Dev jsonHash :=
  match row.content, env.emission row.key row.device with
  | some _, .unreadable => { s with queue := s.queue ++ [.uploadDone (hashed row.key)] }
  | _, .error => (s.emitUpload hashed row).controllerError
  | _, _ => { s.emitUpload hashed row with acks := s.acks ++ [(hashed row.key, row.device)] }

/-- The first upload of a call signals that uploading has started. -/
def beginUploading (s : ExchangeEngine Dev jsonHash) (emitStarted emitProgress : Bool) :
    ExchangeEngine Dev jsonHash :=
  if emitStarted then
    if emitProgress then (s.uploadingChanged true).emit (.progressAdded s.changeEstimate) else s.uploadingChanged true
  else s

/-- The visitor of `uploadNext`, with `emitStarted`. -/
def visit (env : UploadEnv Dev) (emitProgress : Bool) (x : ExchangeEngine Dev jsonHash × Bool)
    (row : LoadedChange Dev Data) : (ExchangeEngine Dev jsonHash × Bool) × Bool :=
  if (x.1.controller.activeUploads.lookup (hashed row.key, row.device)).isSome then (x, true)
  else
    let s := ((x.1.beginUploading x.2 emitProgress).activate hashed row).startUpload hashed env row
    ((s, false), decide (s.controller.size < s.controller.uploadLimit))

/-- The estimate is only counted anew when it is 0. -/
def updateEstimate (s : ExchangeEngine Dev jsonHash) (count : ℕ) (emitStarted : Bool) : ExchangeEngine Dev jsonHash :=
  if s.changeEstimate = 0 then
    let s := { s with changeEstimate := count }
    if 0 < count ∧ emitStarted = false then s.emit (.progressAdded count) else s
  else s

/-- The visits, and what comes after them. -/
def loadUploads (s : ExchangeEngine Dev jsonHash) (env : UploadEnv Dev) (emitStarted emitProgress : Bool) :
    ExchangeEngine Dev jsonHash :=
  let found := !(env.changedRows.isEmpty && env.deviceRows.isEmpty)
  let s := { s with search := ⟨s.uploadingEnabled, some found⟩ }
  let s := (s.database.loadChanges s.controller.uploadLimit env.changedRows env.deviceRows
    (visit hashed env emitProgress) (s, emitStarted)).1
  if env.fault = some .commit then s.controllerError
  else if s.controller.size = 0 then s.uploadingChanged false
  else s

def uploadNext (s : ExchangeEngine Dev jsonHash) (env : UploadEnv Dev) (emitStarted : Bool) :
    ExchangeEngine Dev jsonHash :=
  -- uploads already exist: the signal is emitted no matter whether any are started
  let active := emitStarted && decide (s.controller.size ≠ 0)
  let s := if active then s.uploadingChanged true else s
  let s := { s with search := ⟨s.uploadingEnabled, none⟩ }
  let emitStarted := emitStarted && !active
  if s.controller.uploadLimit ≤ s.controller.size then s
  else if s.changeEstimate = 0 ∧ env.fault = some .count then s.controllerError
  else
    let emitProgress := decide (s.changeEstimate = 0 ∧ 0 < env.count) && emitStarted
    let s := s.updateEstimate env.count emitStarted
    if env.fault = some .load then s.controllerError
    else s.loadUploads hashed env emitStarted emitProgress

def setUploadingEnabled (s : ExchangeEngine Dev jsonHash) (env : UploadEnv Dev) (uploading : Bool) :
    ExchangeEngine Dev jsonHash :=
  if uploading then { s with uploadingEnabled := true, cleared := false }.uploadNext hashed env true
  else s.disableUploads

def changeTriggered (s : ExchangeEngine Dev jsonHash) (env : UploadEnv Dev) : ExchangeEngine Dev jsonHash :=
  if s.uploadingEnabled then s.uploadNext hashed env (decide (s.controller.size = 0)) else s

/-- The end of a completion: the next uploads are queued. -/
def completed (s : ExchangeEngine Dev jsonHash) (controller : ChangeController Dev Data)
    (database : LocalDatabase Dev jsonHash) : ExchangeEngine Dev jsonHash :=
  let s := { s with
    controller := controller
    database := database
    changeEstimate := (s.changeEstimate + 2 ^ 32 - 1) % 2 ^ 32 }.emit .progressIncrement
  if s.uploadingEnabled = true ∧ s.controller.size < s.controller.uploadLimit then
    { s with queue := s.queue ++ [.uploadNext] }
  else s

/-- An unknown key is ignored. -/
def uploadDone (s : ExchangeEngine Dev jsonHash) (persistDeleted fails : Bool) (key : QByteArray) :
    ExchangeEngine Dev jsonHash :=
  if (s.controller.activeUploads.lookup (key, none)).isSome then
    let x := s.controller.uploadDone persistDeleted s.database key
    if fails then { s with controller := x.1 }.controllerError else s.completed x.1 x.2
  else s

def deviceUploadDone (s : ExchangeEngine Dev jsonHash) (fails : Bool) (key : QByteArray) (deviceId : Dev) :
    ExchangeEngine Dev jsonHash :=
  if (s.controller.activeUploads.lookup (key, some deviceId)).isSome then
    let x := s.controller.deviceUploadDone s.database key deviceId
    if fails then { s with controller := x.1 }.controllerError else s.completed x.1 x.2
  else s

/-- The completion of an upload by an answer of the server. -/
def complete (s : ExchangeEngine Dev jsonHash) (persistDeleted fails : Bool) (key : QByteArray × Option Dev) :
    ExchangeEngine Dev jsonHash :=
  match key with
  | (key, none) => s.uploadDone persistDeleted fails key
  | (key, some deviceId) => s.deviceUploadDone fails key deviceId

/-! ### The engine -/

def remoteEvent (s : ExchangeEngine Dev jsonHash) (env : UploadEnv Dev) (event : RemoteEvent) :
    ExchangeEngine Dev jsonHash :=
  if s.state = .Error ∧ event ≠ .RemoteConnecting then s
  else
    match event with
    | .RemoteDisconnected => (s.upstate .Disconnected).clearUploads
    | .RemoteConnecting => (s.upstate .Initializing).clearUploads
    | .RemoteReady => (s.upstate .Uploading).setUploadingEnabled hashed env true
    | .RemoteReadyWithChanges => (s.upstate .Downloading).setUploadingEnabled hashed env false

/-- A reset that deletes the data triggers an upload. -/
def resetAccount (s : ExchangeEngine Dev jsonHash) (keepData : Bool) : ExchangeEngine Dev jsonHash :=
  let s := s.clearUploads
  { s with
    database := s.database.reset keepData
    queue := s.queue ++ if keepData then [] else [.changeTriggered] }

/-- A queued call. -/
def call (s : ExchangeEngine Dev jsonHash) (persistDeleted : Bool) (env : UploadEnv Dev) :
    Call → ExchangeEngine Dev jsonHash
  | .changeTriggered => s.changeTriggered hashed env
  | .uploadNext => s.uploadNext hashed env false
  | .uploadDone key => s.uploadDone persistDeleted (decide (env.fault = some .complete)) key

/-- What happens, in any order: operations of the store, calls of the slots of the controller, calls from the queue,
answers of the server, and events of the engine.  `affected` tells whether `prepareAccountAdded` has written rows. -/
inductive Step (Dev Data : Type*) where
  | store (op : StoreOp Data)
  | prepareAccountAdded (deviceId : Dev) (affected : Bool)
  | setUploadingEnabled (env : UploadEnv Dev) (uploading : Bool)
  | clearUploads
  | updateUploadLimit (limit : ℕ)
  | deliver (env : UploadEnv Dev)
  | ack (key : QByteArray × Option Dev) (fails : Bool)
  | remoteEvent (env : UploadEnv Dev) (event : RemoteEvent)
  | resetAccount (keepData : Bool)
  | controllerError

variable [LinearOrder Checksum] (d : Defaults Data)

/-- An operation of the store and the trigger of its upload. -/
def store (s : ExchangeEngine Dev jsonHash) (op : StoreOp Data) : ExchangeEngine Dev jsonHash :=
  { s with
    database := s.database.write (DataIndex.run d s.database.dataIndex op)
    queue := s.queue ++ if op.uploadNeeded d s.database.dataIndex then [.changeTriggered] else [] }

def next (s : ExchangeEngine Dev jsonHash) : Step Dev Data → Option (ExchangeEngine Dev jsonHash)
  | .store (.markUnchanged _ _ _) => none -- only from the controller
  | .store op => some (s.store d op)
  | .prepareAccountAdded deviceId affected => some { s with
      database := s.database.prepareAccountAdded deviceId
      queue := s.queue ++ if affected then [.changeTriggered] else [] }
  | .setUploadingEnabled env uploading => some (s.setUploadingEnabled hashed env uploading)
  | .clearUploads => some s.clearUploads
  | .updateUploadLimit limit => some { s with controller := s.controller.updateUploadLimit limit }
  | .deliver env =>
    match s.queue with
    | [] => none
    | c :: queue => some ({ s with queue := queue }.call hashed d.persistDeleted env c)
  | .ack key fails =>
    if key ∈ s.acks then some ({ s with acks := s.acks.erase key }.complete d.persistDeleted fails key) else none
  | .remoteEvent env event => some (s.remoteEvent hashed env event)
  | .resetAccount keepData => some (s.resetAccount keepData)
  | .controllerError => some s.controllerError

/-- The environment is what the queries return. -/
structure Finds (s : ExchangeEngine Dev jsonHash) (env : UploadEnv Dev) : Prop where
  count : s.database.Counts env.count
  changed : s.database.ChangedRows s.controller.uploadLimit env.changedRows
  device : s.database.DeviceRows (s.controller.uploadLimit - env.changedRows.length) env.deviceRows

/-- A newly started engine on any database. -/
def Init (s : ExchangeEngine Dev jsonHash) : Prop :=
  s.database.Linked ∧ s.state = .Initializing ∧ s.controller.activeUploads = ∅ ∧ s.uploadingEnabled = false ∧
    s.changeEstimate = 0 ∧ s.queue = [] ∧ s.acks = [] ∧ s.search = ⟨false, none⟩ ∧ s.cleared = true ∧
    s.log = []

/-- The arguments of the step are what the database returns. -/
def Answered (s : ExchangeEngine Dev jsonHash) : Step Dev Data → Prop
  | .setUploadingEnabled env _ => s.Finds env
  | .deliver env => s.Finds env
  | .remoteEvent env _ => s.Finds env
  | .prepareAccountAdded _ affected => affected = false → ∀ k, s.database.dataIndex k = none
  | _ => True

def lts : LTS (ExchangeEngine Dev jsonHash) (Step Dev Data) where
  init := Init
  step s a t := Answered s a ∧ s.next hashed d a = some t

/-! ### Rules -/

section

omit [DecidableEq Dev] [LinearOrder Checksum]

variable {s : ExchangeEngine Dev jsonHash}

theorem upstate_eq (s : ExchangeEngine Dev jsonHash) (state : SyncState) :
    ∃ l, s.upstate state = { s with state := state, log := s.log ++ l } ∧ ∀ x ∈ l, x.2 = .stateChanged state := by
  unfold upstate
  split_ifs with h
  · exact ⟨[], by rw [← h, List.append_nil], by simp⟩
  · exact ⟨[(s.uploadingEnabled, .stateChanged state)], rfl, by simp⟩

/-- The signal changes the state of the engine only. -/
theorem uploadingChanged_eq (s : ExchangeEngine Dev jsonHash) (uploading : Bool) :
    ∃ state l, s.uploadingChanged uploading = { s with state := state, log := s.log ++ l } ∧
      ∀ x ∈ l, x.2 = .uploadingChanged uploading ∨ ∃ state, x.2 = .stateChanged state := by
  have hstate : ∀ state, ∃ state' l, (s.emit (.uploadingChanged uploading)).upstate state =
      { s with state := state', log := s.log ++ l } ∧
        ∀ x ∈ l, x.2 = .uploadingChanged uploading ∨ ∃ state, x.2 = .stateChanged state := by
    intro state
    obtain ⟨l, hl, hall⟩ := upstate_eq (s.emit (.uploadingChanged uploading)) state
    refine ⟨state, (s.uploadingEnabled, .uploadingChanged uploading) :: l, ?_, ?_⟩
    · rw [hl]
      simp [emit]
    · intro x hx
      rcases List.mem_cons.mp hx with rfl | hx
      · exact Or.inl rfl
      · exact Or.inr ⟨state, hall x hx⟩
  have hsame : ∃ state l, s.emit (.uploadingChanged uploading) = { s with state := state, log := s.log ++ l } ∧
      ∀ x ∈ l, x.2 = .uploadingChanged uploading ∨ ∃ state, x.2 = .stateChanged state :=
    ⟨s.state, [(s.uploadingEnabled, .uploadingChanged uploading)], rfl, by simp⟩
  unfold uploadingChanged
  simp only
  split_ifs
  · exact hsame
  · exact hstate _
  · exact hstate _
  · exact hsame

theorem beginUploading_eq (s : ExchangeEngine Dev jsonHash) (emitStarted emitProgress : Bool) :
    ∃ state l, s.beginUploading emitStarted emitProgress = { s with state := state, log := s.log ++ l } := by
  unfold beginUploading
  obtain ⟨state, l, hl, -⟩ := uploadingChanged_eq s true
  split_ifs
  · refine ⟨state, l ++ [(s.uploadingEnabled, .progressAdded s.changeEstimate)], ?_⟩
    rw [hl]
    simp [emit]
  · exact ⟨state, l, hl⟩
  · exact ⟨s.state, [], by simp⟩

theorem updateEstimate_eq (s : ExchangeEngine Dev jsonHash) (count : ℕ) (emitStarted : Bool) :
    ∃ estimate l, s.updateEstimate count emitStarted = { s with changeEstimate := estimate, log := s.log ++ l } ∧
      (estimate = s.changeEstimate ∨ estimate = count) ∧ ∀ x ∈ l, x.2 = .progressAdded count := by
  unfold updateEstimate
  simp only
  split_ifs
  · exact ⟨count, [(s.uploadingEnabled, .progressAdded count)], rfl, Or.inr rfl, by simp⟩
  · exact ⟨count, [], by simp⟩
  · exact ⟨s.changeEstimate, [], by simp⟩

end

section

variable {hashed} {s : ExchangeEngine Dev jsonHash} {env : UploadEnv Dev}

omit [LinearOrder Checksum]

/-- `uploadNext` stage by stage: `A` holds until the estimate is updated, `E` until the visits start, and `B` in the
end. -/
theorem uploadNext_rule {A E B : ExchangeEngine Dev jsonHash → Prop} {emitStarted : Bool} (hs : A s)
    (hstarted : emitStarted = true → s.controller.size ≠ 0 → A (s.uploadingChanged true))
    (hsearch : ∀ u, A u → A { u with search := ⟨u.uploadingEnabled, none⟩ })
    (hfull : ∀ u, A u → u.controller.uploadLimit ≤ u.controller.size → B u)
    (herror : ∀ u, A u ∨ E u → env.fault ≠ none → B u.controllerError)
    (hestimate : ∀ u b, A u → E (u.updateEstimate env.count b))
    (hload : ∀ u b b', E u → u.controller.size < u.controller.uploadLimit → (b = true → emitStarted = true) →
      ¬ (s.changeEstimate = 0 ∧ env.fault = some .count) → env.fault ≠ some .load →
      B (u.loadUploads hashed env b b')) : B (s.uploadNext hashed env emitStarted) := by
  have hfirst : A (if (emitStarted && decide (s.controller.size ≠ 0)) then s.uploadingChanged true else s) ∧
      (if (emitStarted && decide (s.controller.size ≠ 0)) then s.uploadingChanged true else s).changeEstimate =
        s.changeEstimate := by
    split_ifs with h
    · rw [Bool.and_eq_true, decide_eq_true_eq] at h
      obtain ⟨state, l, hl, -⟩ := uploadingChanged_eq s true
      exact ⟨hstarted h.1 h.2, by rw [hl]⟩
    · exact ⟨hs, rfl⟩
  unfold uploadNext
  simp only
  generalize (if (emitStarted && decide (s.controller.size ≠ 0)) then s.uploadingChanged true else s) = u at hfirst ⊢
  have hu := hsearch u hfirst.1
  split_ifs with hlimit hcount hfault
  · exact hfull _ hu hlimit
  · exact herror _ (Or.inl hu) (by rw [hcount.2]; simp)
  · exact herror _ (Or.inr (hestimate _ _ hu)) (by rw [hfault]; simp)
  · refine hload _ _ _ (hestimate _ _ hu) ?_ ?_ (by rw [← hfirst.2]; exact hcount) hfault
    · have hcontroller : ∀ b, (updateEstimate { u with search := ⟨u.uploadingEnabled, none⟩ } env.count b).controller =
          u.controller := by
        intro b
        unfold updateEstimate
        split_ifs <;> rfl
      rw [hcontroller]
      exact not_le.mp hlimit
    · intro h
      rw [Bool.and_eq_true] at h
      exact h.1

/-- The visits, as an invariant, and what comes after them. -/
theorem loadUploads_rule {V B : ExchangeEngine Dev jsonHash → Prop} {emitStarted emitProgress : Bool}
    (hvisits : V (visitAll (visit hashed env emitProgress)
      ({ s with search := ⟨s.uploadingEnabled, some !(env.changedRows.isEmpty && env.deviceRows.isEmpty)⟩ },
        emitStarted)
      (s.database.rows env.changedRows env.deviceRows)).1.1)
    (hd : s.database.DeviceRows (s.controller.uploadLimit - env.changedRows.length) env.deviceRows)
    (hcommit : ∀ u, V u → env.fault ≠ none → B u.controllerError)
    (hempty : ∀ u, V u → u.controller.size = 0 → B (u.uploadingChanged false))
    (hdone : ∀ u, V u → u.controller.size ≠ 0 → B u) : B (s.loadUploads hashed env emitStarted emitProgress) := by
  unfold loadUploads
  simp only
  rw [LocalDatabase.loadChanges_eq hd]
  split_ifs with hfault hsize
  · exact hcommit _ hvisits (by rw [hfault]; simp)
  · exact hempty _ hvisits hsize
  · exact hdone _ hvisits hsize

end

end ExchangeEngine

end

end QtDataSync
