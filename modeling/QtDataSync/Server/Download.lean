import Mathlib.Algebra.Order.Ring.Nat
import QtDataSync.Lib.Window
import QtDataSync.Server.Removal

/-!
# Server.Download — the download window of a connection

`Client::triggerDownload` and the handlers that call it, one database query at a time: transactions of other
connections may commit between any two of them.  `loadNextChanges` finds the next page by `OFFSET`, the number of
downloads that are not acknowledged.  This is right as long as these are the pending changes with the lowest ids,
which the own steps of the connection keep.  Others can break it: the upload of a new version deletes a row that is
outstanding, and a device upload can make a row pending that is older than the outstanding ones.
-/

namespace QtDataSync.Server.Download

open DatabaseController

/-- `quint32` subtraction. -/
def sub32 (a b : ℕ) : ℕ := (a + 2 ^ 32 - b) % 2 ^ 32

theorem sub32_eq {a b : ℕ} (h : b ≤ a) (ha : a < 2 ^ 32) : sub32 a b = a - b := by
  unfold sub32
  omega

/-- A row of `loadNextChanges`. -/
abbrev Change := ℕ × ℕ × QByteArray × QByteArray

inductive Message where
  | welcome (hasChanges : Bool)
  | changed (change : Change)
  | changedInfo (changeEstimate : ℕ) (change : Change)
  | lastChanged
deriving DecidableEq, Repr

/-- Where the running task stands in `triggerDownload`: before `loadNextChanges`, or in the loop. -/
inductive Task where
  | load (forceUpdate skipNoChanges : Bool)
  | send (changes : List Change) (updateChange skipNoChanges : Bool)
deriving DecidableEq, Repr

/-- The members of `Client` that the downloads use, the running task and what is sent. -/
structure Client (Dev : Type*) where
  deviceId : Dev
  downLimit : ℕ
  downThreshold : ℕ
  idle : Bool
  cachedChanges : ℕ
  activeDownloads : List ℕ
  task : Option Task
  sent : List Message
deriving DecidableEq, Repr

variable {Dev : Type*} [DecidableEq Dev]

namespace Client

/-- The end of `triggerDownload`. -/
def finish (c : Client Dev) (skipNoChanges : Bool) : Client Dev :=
  if c.activeDownloads.isEmpty ∧ !skipNoChanges then
    { c with cachedChanges := 0, task := none, sent := c.sent ++ [.lastChanged] }
  else { c with task := none }

/-- `triggerDownload` up to the loop. -/
def load (db : Database Dev) (c : Client Dev) (forceUpdate skipNoChanges : Bool) : Client Dev :=
  let cnt := sub32 c.downLimit c.activeDownloads.length
  if c.downThreshold ≤ cnt then
    let changes := loadNextChanges db c.deviceId cnt c.activeDownloads.length
    { c with task := some (.send changes forceUpdate skipNoChanges) }
  else c.finish skipNoChanges

/-- The "constant" members. -/
theorem load_constant (db : Database Dev) (c : Client Dev) (forceUpdate skipNoChanges : Bool) :
    (c.load db forceUpdate skipNoChanges).deviceId = c.deviceId ∧
      (c.load db forceUpdate skipNoChanges).downLimit = c.downLimit ∧
      (c.load db forceUpdate skipNoChanges).downThreshold = c.downThreshold := by
  unfold load
  simp only
  split
  · exact ⟨rfl, rfl, rfl⟩
  · unfold finish
    split
    · exact ⟨rfl, rfl, rfl⟩
    · exact ⟨rfl, rfl, rfl⟩

/-- The changes that the estimate of the next `ChangedInfoMessage` counts. -/
def estimate (db : Database Dev) (c : Client Dev) : ℕ :=
  if c.cachedChanges = 0 then sub32 (changeCount db c.deviceId % 2 ^ 32) c.activeDownloads.length else c.cachedChanges

/-- One pass of the loop. -/
def send (db : Database Dev) (c : Client Dev) (change : Change) (changes : List Change)
    (updateChange skipNoChanges : Bool) : Client Dev :=
  let cachedChanges := c.estimate db
  let message := if updateChange ∨ c.cachedChanges = 0 then Message.changedInfo cachedChanges change
    else Message.changed change
  { c with
    task := some (.send changes false skipNoChanges) -- only the first message has that info
    sent := c.sent ++ [message]
    activeDownloads := c.activeDownloads ++ [change.1]
    cachedChanges := sub32 cachedChanges 1 }

def onLogin (db : Database Dev) (c : Client Dev) : Client Dev :=
  let cachedChanges := changeCount db c.deviceId % 2 ^ 32
  { c with
    cachedChanges := cachedChanges
    sent := c.sent ++ [.welcome (0 < cachedChanges)]
    idle := true
    task := some (.load true (cachedChanges = 0)) }

def triggerDownload (c : Client Dev) : Client Dev := { c with task := some (.load false false) }

end Client

structure State (Dev : Type*) where
  db : Database Dev
  client : Client Dev

/-- The handlers, the next query of the running task, and the transactions of other connections. -/
inductive Step (Dev : Type*) where
  | onLogin
  | onSync
  | notifyChanged
  | onChangedAck (dataIndex : ℕ)
  | proceed
  | transaction (tx : Transaction Dev)

def next (s : State Dev) : Step Dev → Option (State Dev)
  | .onLogin =>
    if s.client.idle = false ∧ s.client.task = none then some { s with client := s.client.onLogin s.db } else none
  | .onSync | .notifyChanged =>
    if s.client.idle ∧ s.client.task = none then some { s with client := s.client.triggerDownload } else none
  | .onChangedAck dataIndex =>
    if s.client.idle ∧ s.client.task = none then
      let client := { s.client with activeDownloads := s.client.activeDownloads.erase dataIndex }
      some ⟨(Transaction.completeChange s.client.deviceId dataIndex).next s.db, client.triggerDownload⟩
    else none
  | .proceed =>
    match s.client.task with
    | none => none
    | some (.load forceUpdate skipNoChanges) =>
      some { s with client := s.client.load s.db forceUpdate skipNoChanges }
    | some (.send [] _ skipNoChanges) => some { s with client := s.client.finish skipNoChanges }
    | some (.send (change :: changes) updateChange skipNoChanges) =>
      some { s with client := s.client.send s.db change changes updateChange skipNoChanges }
  | .transaction tx => some { s with db := tx.next s.db }

/-- A connection before the login of the device. -/
def connection (deviceId : Dev) (downLimit downThreshold : ℕ) : Client Dev where
  deviceId := deviceId
  downLimit := downLimit
  downThreshold := downThreshold
  idle := false
  cachedChanges := 0
  activeDownloads := []
  task := none
  sent := []

/-- A connection of the device on a server in any state. -/
def lts (deviceId : Dev) (downLimit downThreshold : ℕ) : LTS (State Dev) (Step Dev) :=
  LTS.ofStep (fun s => s.client = connection deviceId downLimit downThreshold) next

/-! ### The window -/

namespace State

/-- The changes that the loop has yet to send. -/
def sending (s : State Dev) : List Change :=
  match s.client.task with
  | some (.send changes _ _) => changes
  | _ => []

/-- The indexes of the changes that are handed out, or are about to be, and not acknowledged. -/
def outstanding (s : State Dev) : List ℕ := s.client.activeDownloads ++ s.sending.map (·.1)

/-- The ids of the pending changes, in ascending order. -/
def pending (s : State Dev) : List ℕ := (pendingChanges s.db s.client.deviceId).map (·.id)

/-- The subtractions that the running task does next, with what is subtracted. -/
def subtractions (s : State Dev) : List (ℕ × ℕ) :=
  match s.client.task with
  | some (.load _ _) => [(s.client.downLimit, s.client.activeDownloads.length)]
  | some (.send (_ :: _) _ _) =>
    (if s.client.cachedChanges = 0 then
      [(changeCount s.db s.client.deviceId % 2 ^ 32, s.client.activeDownloads.length)] else []) ++
    [(s.client.estimate s.db, 1)]
  | _ => []

end State

/-- No transaction of another connection takes a change away that is outstanding, or makes one pending that is older
than an outstanding one; and the pending changes can be counted by a `quint32`. -/
def Undisturbed (s : State Dev) : Step Dev → Prop
  | .transaction tx =>
    (∀ i ∈ s.outstanding, i ∈ State.pending ⟨tx.next s.db, s.client⟩) ∧
      ∀ i ∈ State.pending ⟨tx.next s.db, s.client⟩, i ∉ s.pending → ∀ j ∈ s.outstanding, j < i
  | .proceed => s.pending.length < 2 ^ 32
  | _ => True

theorem mem_pending {s : State Dev} {i : ℕ} : i ∈ s.pending ↔ ⟨s.client.deviceId, i⟩ ∈ s.db.devicechanges := by
  unfold State.pending pendingChanges
  rw [List.mem_map]
  constructor
  · rintro ⟨c, hc, rfl⟩
    exact of_decide_eq_true (List.mem_filter.mp hc).2
  · intro hx
    obtain ⟨c, hc, he⟩ := List.mem_map.mp (s.db.constraints.devicechanges_dataid _ hx)
    have he' : c.id = i := he
    subst he'
    exact ⟨c, List.mem_filter.mpr ⟨hc, decide_eq_true hx⟩, rfl⟩

theorem pending_sorted (s : State Dev) : s.pending.Pairwise (· < ·) :=
  s.db.constraints.datachanges_pkey.sublist (List.filter_sublist.map _)

theorem pending_nodup (s : State Dev) : s.pending.Nodup := (pending_sorted s).imp Nat.ne_of_lt

/-- `changeCount` counts the pending changes. -/
theorem changeCount_eq (s : State Dev) : changeCount s.db s.client.deviceId = s.pending.length := by
  have hnodup : ((s.db.devicechanges.filter fun x => x.deviceid = s.client.deviceId).map (·.dataid)).Nodup := by
    refine List.Nodup.map_on (fun x hx y hy he => ?_) (s.db.constraints.devicechanges_pkey.filter _)
    have hx' := of_decide_eq_true (List.mem_filter.mp hx).2
    have hy' := of_decide_eq_true (List.mem_filter.mp hy).2
    cases x
    cases y
    simp only [DeviceChange.mk.injEq]
    exact ⟨hx'.trans hy'.symm, he⟩
  have hperm : ((s.db.devicechanges.filter fun x => x.deviceid = s.client.deviceId).map (·.dataid)).Perm
      s.pending := by
    rw [List.perm_ext_iff_of_nodup hnodup (pending_nodup s)]
    intro i
    rw [mem_pending, List.mem_map]
    constructor
    · rintro ⟨⟨device, n⟩, hx, rfl⟩
      obtain ⟨hx, hdev⟩ := List.mem_filter.mp hx
      have hdev' : device = s.client.deviceId := of_decide_eq_true hdev
      subst hdev'
      exact hx
    · intro hx
      exact ⟨_, List.mem_filter.mpr ⟨hx, decide_eq_true rfl⟩, rfl⟩
  rw [← hperm.length_eq, List.length_map]
  rfl

/-- The page that is loaded. -/
theorem map_loadNextChanges (s : State Dev) (count skip : ℕ) :
    (loadNextChanges s.db s.client.deviceId count skip).map (·.1) = (s.pending.drop skip).take count := by
  unfold loadNextChanges State.pending
  rw [List.map_map, ← List.map_drop, ← List.map_take]
  rfl

/-- The own acknowledgement takes one change out of the pending ones. -/
theorem pending_completeChange (s : State Dev) (client : Client Dev) (hdev : client.deviceId = s.client.deviceId)
    (i : ℕ) : State.pending ⟨(Transaction.completeChange s.client.deviceId i).next s.db, client⟩ =
      s.pending.erase i := by
  refine List.Pairwise.eq_of_mem_iff (pending_sorted _) ((pending_sorted s).sublist List.erase_sublist) fun j => ?_
  rw [(pending_nodup s).mem_erase_iff, mem_pending, mem_pending, hdev]
  have hrow : ⟨s.client.deviceId, j⟩ ∈
      ((Transaction.completeChange s.client.deviceId i).next s.db).devicechanges ↔
      ⟨s.client.deviceId, j⟩ ∈ (s.db.deleteDeviceChanges fun x =>
        x.deviceid = s.client.deviceId ∧ x.dataid = i).devicechanges ∧
      j ∈ ((Transaction.completeChange s.client.deviceId i).next s.db).datachanges.map (·.id) :=
    Tables.mem_devicechanges_deleteDataChanges
  rw [hrow]
  constructor
  · rintro ⟨hx, -⟩
    obtain ⟨hx, hne⟩ := Tables.mem_deleteDeviceChanges.mp hx
    exact ⟨fun he => of_decide_eq_false hne ⟨rfl, he⟩, hx⟩
  · rintro ⟨hne, hx⟩
    have hx' : ⟨s.client.deviceId, j⟩ ∈ (s.db.deleteDeviceChanges fun x =>
        x.deviceid = s.client.deviceId ∧ x.dataid = i).devicechanges :=
      Tables.mem_deleteDeviceChanges.mpr ⟨hx, decide_eq_false fun hcon => hne hcon.2⟩
    refine ⟨hx', ?_⟩
    obtain ⟨c, hc, rfl⟩ := List.mem_map.mp (s.db.constraints.devicechanges_dataid _ hx)
    exact List.mem_map_of_mem (Tables.mem_deleteDataChanges.mpr ⟨hc, decide_eq_false fun hcon => hne hcon.1⟩)

end QtDataSync.Server.Download
