import QtDataSync.Exchange.Agreement
import QtDataSync.Exchange.Ties
import QtDataSync.Server.Mailbox
import QtDataSync.Server.Quota

/-!
# Exchange.Deployed — the exchange with the tables of the server

`System` carries what the server stores as one change for each sender and data id.  Here the server is its database, the
uploads are the encrypted data that `SyncHelper::extract` gets the change back from (`extract`), and a device is sent what
`loadNextChanges` selects.  Every run of it is a run of `System` (`reachable_state`, `run_state`), and so the devices
converge, break ties and agree here as they do there.
-/

namespace QtDataSync

namespace System

open Server DatabaseController

/-- The devices of one account, and the server. -/
structure Deployed (Dev : Type) {Data Checksum : Type} (jsonHash : Data → Checksum) where
  index : Dev → DataIndex jsonHash
  activeUploads : Dev → QByteArray → Option (Upload (Change Data))
  db : Database Dev
  inbox : Dev → List (Message (Change Data))
  received : Dev → List (Message (Change Data))

/-- A device does something without the server; its upload is stored, with what it was encrypted to; the server sends it
the change behind the first `skip` ones that are pending for it; or it completes a change. -/
inductive Deployed.Action (Dev Data : Type)
  | own (action : System.Action Dev Data)
  | addChange (dev : Dev) (dataId : QByteArray) (payload : Payload)
  | send (dev : Dev) (skip : ℕ)
  | complete (dev : Dev) (n : ℕ)

/-- The actions that the server takes part in. -/
def Action.OfServer {Dev Data : Type} : Action Dev Data → Bool
  | .addChange .. | .send .. | .complete .. => true
  | _ => false

namespace Deployed

section Exchange

variable {Dev Data Checksum : Type} {jsonHash : Data → Checksum} [DecidableEq Dev] [DecidableEq Data]
  (extract : Payload → Option (Change Data))

/-- What is stored, decrypted. -/
def stored (st : StoredChange Dev Payload) : Option (StoredChange Dev (Change Data)) :=
  (extract st.payload).map fun c => ⟨st.id, c, st.pending⟩

/-- The state of `System`. -/
def state (s : Deployed Dev jsonHash) : State Dev jsonHash where
  index := s.index
  activeUploads := s.activeUploads
  datachanges sender dataId := (s.db.mailbox.slot sender dataId).bind (stored extract)
  inbox := s.inbox
  received := s.received
  nextId := s.db.nextDataId

/-- The devices, as they are in a state of `System`. -/
def withDevices (s : Deployed Dev jsonHash) (t : State Dev jsonHash) : Deployed Dev jsonHash :=
  { s with index := t.index, activeUploads := t.activeUploads, inbox := t.inbox, received := t.received }

variable [Fintype Dev] [LinearOrder Checksum] (conf : Dev → Defaults Data) (hashed : ObjectKey → QByteArray)

def step (s : Deployed Dev jsonHash) : Deployed.Action Dev Data → Option (Deployed Dev jsonHash)
  | .own a => if a.OfServer then none else (System.step conf hashed (s.state extract) a).map s.withDevices
  | .addChange dev dataId payload =>
    match s.activeUploads dev dataId with
    | some ⟨c, false⟩ =>
      if extract payload = some c then
        match DatabaseController.addChange s.db dev dataId payload.1 payload.2.1 payload.2.2 with
        | .ok db => some { s with
            activeUploads := Function.update s.activeUploads dev
              (Function.update (s.activeUploads dev) dataId (some ⟨c, true⟩))
            db := db }
        | .error _ => none
      else none
    | _ => none
  | .send dev skip =>
    match loadNextChanges s.db dev 1 skip with
    | [(id, payload)] => (extract payload).map fun c =>
      { s with inbox := Function.update s.inbox dev (s.inbox dev ++ [⟨id, c⟩]) }
    | _ => none
  | .complete dev n =>
    match (s.received dev)[n]? with
    | some m =>
      match DatabaseController.completeChange s.db dev m.id with
      | .ok db => some { s with db := db }
      | .error _ => none
    | none => none

/-- Only keys of `K` are ever saved. -/
def Action.Uses (K : Set ObjectKey) : Deployed.Action Dev Data → Prop
  | .own a => System.Action.Uses K a
  | _ => True

/-- The action edits the key. -/
def Action.Edits (k : ObjectKey) : Deployed.Action Dev Data → Prop
  | .own a => System.Action.Edits k a
  | _ => False

/-- What the action is in `System`; what the server sends may be from any sender. -/
def Action.Performs : Deployed.Action Dev Data → System.Action Dev Data → Prop
  | .own a, b => b = a
  | .addChange dev dataId _, b => b = .addChange dev dataId
  | .send dev _, b => ∃ sender dataId, b = .send dev sender dataId
  | .complete dev n, b => b = .complete dev n

/-- All devices belong to one account, of which nothing is stored. -/
structure Init (s : Deployed Dev jsonHash) : Prop where
  index : s.index = fun _ _ => none
  activeUploads : s.activeUploads = fun _ _ => none
  inbox : s.inbox = fun _ => []
  received : s.received = fun _ => []
  devices : ∀ dev, dev ∈ s.db.devices.map (·.id)
  account : ∀ d ∈ s.db.devices, ∀ d' ∈ s.db.devices, d.userid = d'.userid
  datachanges : s.db.datachanges = []
  nextDataId : s.db.nextDataId = 1

def lts : LTS (Deployed Dev jsonHash) (Deployed.Action Dev Data) := .ofStep Init (step extract conf hashed)

/-! ### The server of `System` -/

omit [DecidableEq Dev] [DecidableEq Data] [Fintype Dev] [LinearOrder Checksum] in
theorem state_ext {u v : State Dev jsonHash} (hindex : u.index = v.index) (huploads : u.activeUploads = v.activeUploads)
    (hdata : u.datachanges = v.datachanges) (hinbox : u.inbox = v.inbox) (hreceived : u.received = v.received)
    (hnext : u.nextId = v.nextId) : u = v := by
  obtain ⟨index, activeUploads, datachanges, inbox, received, nextId⟩ := u
  obtain rfl : index = v.index := hindex
  obtain rfl : activeUploads = v.activeUploads := huploads
  obtain rfl : datachanges = v.datachanges := hdata
  obtain rfl : inbox = v.inbox := hinbox
  obtain rfl : received = v.received := hreceived
  obtain rfl : nextId = v.nextId := hnext
  rfl

variable {extract conf hashed} {s t : Deployed Dev jsonHash} {dev : Dev}

omit [Fintype Dev] in
theorem update_slot {α : Type} (f : Dev → QByteArray → α) (dev : Dev) (dataId : QByteArray) (o : α) (sender : Dev)
    (d : QByteArray) : Function.update f dev (Function.update (f dev) dataId o) sender d =
      if sender = dev ∧ d = dataId then o else f sender d := by
  rcases eq_or_ne sender dev with rfl | hs
  · rw [Function.update_self, Function.update_apply]
    simp
  · rw [Function.update_of_ne hs, if_neg fun h => hs h.1]

omit [DecidableEq Data] [Fintype Dev] [LinearOrder Checksum] in
theorem stored_add {id : ℕ} {payload : Payload} {receivers : Finset Dev} {c : Change Data}
    (h : extract payload = some c) :
    (StoredChange.add id payload receivers).bind (stored extract) = StoredChange.add id c receivers := by
  unfold StoredChange.add
  split_ifs
  · rfl
  · simp [stored, h]

omit [DecidableEq Data] [Fintype Dev] [LinearOrder Checksum] in
theorem stored_complete (o : Option (StoredChange Dev Payload)) (id : ℕ) :
    (StoredChange.complete dev id o).bind (stored extract) =
      StoredChange.complete dev id (o.bind (stored extract)) := by
  rcases o with - | st
  · rfl
  rcases hc : extract st.payload with - | c
  · have hnone : stored extract st = none := by simp [stored, hc]
    simp only [StoredChange.complete, Option.bind_some, hnone]
    split_ifs
    · unfold StoredChange.add
      split_ifs
      · rfl
      · simp [stored, hc]
    · exact hnone
  · have hsome : stored extract st = some ⟨st.id, c, st.pending⟩ := by simp [stored, hc]
    simp only [StoredChange.complete, Option.bind_some, hsome]
    split_ifs
    · exact stored_add hc
    · exact hsome

/-- All devices belong to one account. -/
def OneAccount (db : Database Dev) : Prop :=
  (∀ dev, dev ∈ db.devices.map (·.id)) ∧ ∀ d ∈ db.devices, ∀ d' ∈ db.devices, d.userid = d'.userid

theorem otherDevices_eq {db : Database Dev} (h : OneAccount db) (dev : Dev) :
    ((otherDevices db dev).map (·.id)).toFinset = Finset.univ.erase dev := by
  ext other
  simp only [otherDevices, List.mem_toFinset, List.mem_map, List.mem_filter, decide_eq_true_eq, Finset.mem_erase,
    Finset.mem_univ, and_true]
  constructor
  · rintro ⟨d, ⟨-, hne, -⟩, rfl⟩
    exact hne
  · intro hne
    obtain ⟨d, hd, rfl⟩ := List.mem_map.mp (h.1 other)
    refine ⟨d, ⟨hd, hne, ?_⟩, rfl⟩
    obtain ⟨own, hown, rfl⟩ := List.mem_map.mp (h.1 dev)
    rw [deviceUserId_of_mem db.constraints.devices_pkey hown, h.2 d hd own hown]

theorem step_addChange {dataId : QByteArray} {payload : Payload}
    (hst : step extract conf hashed s (.addChange dev dataId payload) = some t) :
    ∃ c db, s.activeUploads dev dataId = some ⟨c, false⟩ ∧ extract payload = some c ∧
      DatabaseController.addChange s.db dev dataId payload.1 payload.2.1 payload.2.2 = .ok db ∧
      t = { s with
        activeUploads := Function.update s.activeUploads dev
          (Function.update (s.activeUploads dev) dataId (some ⟨c, true⟩))
        db := db } := by
  simp only [step] at hst
  split at hst
  · split_ifs at hst with hextract
    split at hst
    · cases hst
      exact ⟨_, _, ‹_›, hextract, ‹_›, rfl⟩
    · cases hst
  · cases hst

theorem step_send {skip : ℕ} (hst : step extract conf hashed s (.send dev skip) = some t) :
    ∃ id payload c, loadNextChanges s.db dev 1 skip = [(id, payload)] ∧ extract payload = some c ∧
      t = { s with inbox := Function.update s.inbox dev (s.inbox dev ++ [⟨id, c⟩]) } := by
  simp only [step] at hst
  split at hst
  · obtain ⟨c, hc, rfl⟩ := Option.map_eq_some_iff.mp hst
    exact ⟨_, _, c, ‹_›, hc, rfl⟩
  · cases hst

theorem step_complete {n : ℕ} (hst : step extract conf hashed s (.complete dev n) = some t) :
    ∃ m db, (s.received dev)[n]? = some m ∧ DatabaseController.completeChange s.db dev m.id = .ok db ∧
      t = { s with db := db } := by
  simp only [step] at hst
  split at hst
  · split at hst
    · cases hst
      exact ⟨_, _, ‹_›, ‹_›, rfl⟩
    · cases hst
  · cases hst

theorem step_own {a : System.Action Dev Data} (hst : step extract conf hashed s (.own a) = some t) :
    a.OfServer = false ∧ ∃ u, System.step conf hashed (s.state extract) a = some u ∧ t = s.withDevices u := by
  simp only [step] at hst
  split_ifs at hst with ha
  obtain ⟨u, hu, rfl⟩ := Option.map_eq_some_iff.mp hst
  exact ⟨by simpa using ha, u, hu, rfl⟩

omit [DecidableEq Data] [Fintype Dev] [LinearOrder Checksum] in
theorem devices_addChange {db db' : Database Dev} {dataId salt data : QByteArray} {keyIndex : ℕ}
    (h : DatabaseController.addChange db dev dataId keyIndex salt data = .ok db') : db'.devices = db.devices := by
  have ht := addChange_ok h
  split_ifs at ht
  · rw [ht]
    rfl
  · rw [ht]
    rfl

theorem step_account {a : Deployed.Action Dev Data} (hst : step extract conf hashed s a = some t)
    (h : OneAccount s.db) :
    OneAccount t.db := by
  cases a with
  | own a =>
    obtain ⟨-, u, -, rfl⟩ := step_own hst
    exact h
  | addChange dev dataId payload =>
    obtain ⟨c, db, -, -, hdb, rfl⟩ := step_addChange hst
    unfold OneAccount
    rw [devices_addChange hdb]
    exact h
  | send dev skip =>
    obtain ⟨id, payload, c, -, -, rfl⟩ := step_send hst
    exact h
  | complete dev n =>
    obtain ⟨m, db, -, hdb, rfl⟩ := step_complete hst
    obtain rfl := Except.ok.inj hdb
    exact h

omit [DecidableEq Data] in
/-- An action of the devices leaves the server as it is. -/
theorem server_of_own {a : System.Action Dev Data} {u v : State Dev jsonHash} (ha : a.OfServer = false)
    (h : System.step conf hashed u a = some v) : v.datachanges = u.datachanges ∧ v.nextId = u.nextId := by
  cases a with
  | save dev key data =>
    obtain ⟨e, -, rfl⟩ := System.step_save h
    exact ⟨rfl, rfl⟩
  | remove dev key =>
    rw [System.step_remove h]
    exact ⟨rfl, rfl⟩
  | clear dev typeName =>
    rw [System.step_clear h]
    exact ⟨rfl, rfl⟩
  | upload dev key =>
    obtain ⟨r, -, -, -, rfl⟩ := System.step_upload h
    exact ⟨rfl, rfl⟩
  | addChange dev dataId => cases ha
  | uploadDone dev dataId =>
    obtain ⟨c, -, rfl⟩ := System.step_uploadDone h
    exact ⟨rfl, rfl⟩
  | send dev sender dataId => cases ha
  | deliver dev n =>
    obtain ⟨m, e, -, -, rfl⟩ := System.step_deliver h
    exact ⟨rfl, rfl⟩
  | complete dev n => cases ha

/-- **One step.** -/
theorem step_state {a : Deployed.Action Dev Data} (hst : step extract conf hashed s a = some t) (h : OneAccount s.db) :
    ∃ b, a.Performs b ∧ System.step conf hashed (s.state extract) b = some (t.state extract) := by
  cases a with
  | own a =>
    obtain ⟨ha, u, hu, rfl⟩ := step_own hst
    obtain ⟨hdata, hnext⟩ := server_of_own ha hu
    refine ⟨a, rfl, hu.trans (congrArg some ?_)⟩
    obtain ⟨index, activeUploads, datachanges, inbox, received, nextId⟩ := u
    obtain rfl : datachanges = (s.state extract).datachanges := hdata
    obtain rfl : nextId = s.db.nextDataId := hnext
    rfl
  | addChange dev dataId payload =>
    obtain ⟨c, db, hupload, hextract, hdb, rfl⟩ := step_addChange hst
    have hmailbox := Mailbox.addChange hdb
    rw [otherDevices_eq h] at hmailbox
    refine ⟨.addChange dev dataId, rfl, ?_⟩
    have huploads : (s.state extract).activeUploads dev dataId = some ⟨c, false⟩ := hupload
    simp only [System.step, huploads]
    refine congrArg some (state_ext rfl rfl (funext₂ fun sender d => ?_) rfl rfl ?_)
    · refine (update_slot _ _ _ _ sender d).trans ?_
      show _ = (db.mailbox.slot sender d).bind (stored extract)
      rw [hmailbox]
      show _ = (if sender = dev ∧ d = dataId then _ else s.db.mailbox.slot sender d).bind (stored extract)
      split_ifs
      · exact (stored_add hextract).symm
      · rfl
    · exact (congrArg Mailbox.nextId hmailbox).symm
  | send dev skip =>
    obtain ⟨id, payload, c, hload, hextract, rfl⟩ := step_send hst
    obtain ⟨l, -, hl, hloads⟩ := loadNextChanges_mailbox s.db dev
    rw [hloads] at hload
    -- the change is the one in some slot
    obtain ⟨st, hst, hid, hpayload⟩ : ∃ st ∈ l, st.id = id ∧ st.payload = payload := by
      obtain ⟨st, rest, htake, hfst, -⟩ := List.map_eq_cons_iff.mp hload
      have hmem : st ∈ (l.drop skip).take 1 := by
        rw [htake]
        exact List.mem_cons_self
      exact ⟨st, List.mem_of_mem_drop (List.mem_of_mem_take hmem), (Prod.mk.inj hfst).1, (Prod.mk.inj hfst).2⟩
    obtain ⟨⟨sender, dataId, hslot⟩, hpending⟩ := (hl st).mp hst
    refine ⟨.send dev sender dataId, ⟨sender, dataId, rfl⟩, ?_⟩
    have hstored : (s.state extract).datachanges sender dataId = some ⟨id, c, st.pending⟩ := by
      show (s.db.mailbox.slot sender dataId).bind (stored extract) = _
      rw [hslot, Option.bind_some, stored, hpayload, hextract, hid]
      rfl
    simp only [System.step, hstored]
    exact if_pos hpending
  | complete dev n =>
    obtain ⟨m, db, hm, hdb, rfl⟩ := step_complete hst
    have hmailbox : db.mailbox = s.db.mailbox.next (.complete dev m.id) := by
      have hnext : Transaction.next s.db (.completeChange dev m.id) = db := Transaction.next_of_ok hdb
      rw [← hnext]
      exact Mailbox.completeChange dev m.id
    refine ⟨.complete dev n, rfl, ?_⟩
    have hreceived : ((s.state extract).received dev)[n]? = some m := hm
    simp only [System.step, hreceived]
    refine congrArg some (state_ext rfl rfl (funext₂ fun sender d => ?_) rfl rfl ?_)
    · show StoredChange.complete dev m.id ((s.db.mailbox.slot sender d).bind (stored extract)) =
        (db.mailbox.slot sender d).bind (stored extract)
      rw [hmailbox]
      exact (stored_complete _ _).symm
    · exact (congrArg Mailbox.nextId hmailbox).symm

omit [DecidableEq Data] [Fintype Dev] [LinearOrder Checksum] in
theorem init_state (h : Init s) : s.state extract = State.empty := by
  refine state_ext h.index h.activeUploads (funext₂ fun sender d => ?_) h.inbox h.received h.nextDataId
  have hnone : s.db.mailbox.slot sender d = none := by
    show (s.db.row sender d).map s.db.stored = none
    rw [Tables.row, h.datachanges]
    rfl
  show (s.db.mailbox.slot sender d).bind (stored extract) = none
  rw [hnone]
  rfl

section Refinement

variable {G : Deployed Dev jsonHash → Deployed.Action Dev Data → Prop}
  {H : State Dev jsonHash → System.Action Dev Data → Prop}

theorem account_of_reachable (h : (lts extract conf hashed).Reachable G s) : OneAccount s.db := by
  refine h.invariant (I := fun s : Deployed Dev jsonHash => OneAccount s.db) ?_ ?_
  · intro s hs
    have hs' : Init s := hs
    exact ⟨hs'.devices, hs'.account⟩
  · intro s a t _ hI _ hst
    have hst' : step extract conf hashed s a = some t := hst
    exact step_account hst' hI

/-- **The exchange with the tables of the server is one of `System`.** -/
theorem reachable_state (hG : ∀ s a b, a.Performs b → G s a → H (s.state extract) b)
    (h : (lts extract conf hashed).Reachable G s) : (System.lts conf hashed).Reachable H (s.state extract) := by
  refine LTS.Reachable.sim (state extract) (fun s hs => init_state hs) (fun s a t hr ha hst => ?_) h
  have hst' : step extract conf hashed s a = some t := hst
  obtain ⟨b, hperforms, hb⟩ := step_state hst' (account_of_reachable hr)
  exact Or.inr ⟨b, hG s a b hperforms ha, hb⟩

/-- So is every run, with the same number of marked steps. -/
theorem run_state (hG : ∀ s a b, a.Performs b → G s a → H (s.state extract) b)
    (mark : Deployed Dev jsonHash × Deployed.Action Dev Data × Deployed Dev jsonHash → Bool)
    (mark' : State Dev jsonHash × System.Action Dev Data × State Dev jsonHash → Bool)
    (hmark : ∀ s a t b, a.Performs b → mark (s, a, t) = mark' (s.state extract, b, t.state extract))
    {tr : List (Deployed Dev jsonHash × Deployed.Action Dev Data × Deployed Dev jsonHash)}
    (h : LTS.Run (lts extract conf hashed) G s tr t) (haccount : OneAccount s.db) :
    ∃ tr', LTS.Run (System.lts conf hashed) H (s.state extract) tr' (t.state extract) ∧
      tr.countP mark = tr'.countP mark' := by
  refine h.sim (I := fun s : Deployed Dev jsonHash => OneAccount s.db) (state extract) mark mark' ?_ ?_ haccount
  · intro s a t hI _ hst
    have hst' : step extract conf hashed s a = some t := hst
    exact step_account hst' hI
  · intro s a t hI ha hst
    have hst' : step extract conf hashed s a = some t := hst
    obtain ⟨b, hperforms, hb⟩ := step_state hst' hI
    exact Or.inr ⟨b, hG s a b hperforms ha, hb, hmark s a t b hperforms⟩

end Refinement

omit [DecidableEq Dev] [Fintype Dev] [LinearOrder Checksum] [DecidableEq Data] in
theorem Action.Performs.uses {K : Set ObjectKey} {a : Deployed.Action Dev Data} {b : System.Action Dev Data}
    (h : a.Performs b) (ha : a.Uses K) : b.Uses K := by
  cases a with
  | own a =>
    obtain rfl : b = a := h
    exact ha
  | addChange dev dataId payload =>
    obtain rfl : b = .addChange dev dataId := h
    trivial
  | send dev skip =>
    obtain ⟨sender, dataId, rfl⟩ := h
    trivial
  | complete dev n =>
    obtain rfl : b = .complete dev n := h
    trivial

omit [DecidableEq Dev] [Fintype Dev] [LinearOrder Checksum] [DecidableEq Data] in
theorem Action.Performs.edits {k : ObjectKey} {a : Deployed.Action Dev Data} {b : System.Action Dev Data}
    (h : a.Performs b) (hb : b.Edits k) : a.Edits k := by
  cases a with
  | own a =>
    obtain rfl : b = a := h
    exact hb
  | addChange dev dataId payload =>
    obtain rfl : b = .addChange dev dataId := h
    exact hb
  | send dev skip =>
    obtain ⟨sender, dataId, rfl⟩ := h
    exact hb
  | complete dev n =>
    obtain rfl : b = .complete dev n := h
    exact hb

/-! ### What holds of the exchange -/

/-- No row of `devicechanges` is left, no row of a device is marked changed and no upload is active. -/
structure Quiescent (s : Deployed Dev jsonHash) : Prop where
  devicechanges : s.db.devicechanges = []
  unchanged : ∀ d k r, s.index d k = some r → r.changed = false
  upload : ∀ d dataId, s.activeUploads d dataId = none

omit [DecidableEq Data] [Fintype Dev] [LinearOrder Checksum] in
theorem Quiescent.state (hq : Quiescent s) : System.Quiescent (s.state extract) := by
  refine ⟨fun sender dataId st hst => ?_, hq.unchanged, hq.upload⟩
  obtain ⟨st', hslot, hst'⟩ := Option.bind_eq_some_iff.mp hst
  obtain ⟨c, -, rfl⟩ := Option.map_eq_some_iff.mp hst'
  obtain ⟨row, -, rfl⟩ := Option.map_eq_some_iff.mp hslot
  show s.db.receivers row.id = ∅
  rw [Tables.receivers, hq.devicechanges]
  rfl

section Results

variable {K : Set ObjectKey} {k : ObjectKey}

/-- **Convergence with the tables of the server**: with `PersistDeleted`, and when nothing is left to be done, all devices
have the same rows. -/
theorem rows_converge (hj : Function.Injective jsonHash) (hh : Set.InjOn hashed K)
    (hp : ∀ d, (conf d).persistDeleted = true) (h : (lts extract conf hashed).Reachable (fun _ a => a.Uses K) s)
    (hq : Quiescent s) (d d' : Dev) (k : ObjectKey) : s.index d k = s.index d' k := by
  have hr := reachable_state (H := fun _ b => b.Uses K) (fun _ _ _ hb => hb.uses) h
  by_cases hk : k ∈ K
  · exact (conv_reachable hj hh hp (fun _ _ hg => hg) hr hk).row_eq (hq.state.lane k) d d'
  · have W := WellFormed.reachable (fun _ _ hg => hg) hr
    exact (W.index_eq_none hk d).trans (W.index_eq_none hk d').symm

open Classical in
/-- The steps that mark a row of the key `k` as changed. -/
noncomputable def marksChanged (k : ObjectKey)
    (x : Deployed Dev jsonHash × Deployed.Action Dev Data × Deployed Dev jsonHash) : Bool :=
  decide (∃ d r, x.2.2.index d k = some r ∧ r.changed = true ∧ x.1.index d k ≠ some r)

/-- The steps that upload a change of the key `k`. -/
def uploads (k : ObjectKey) (x : Deployed Dev jsonHash × Deployed.Action Dev Data × Deployed Dev jsonHash) : Bool :=
  match x.2.1 with
  | .own (.upload _ key) => key == k
  | _ => false

omit [DecidableEq Dev] [Fintype Dev] [LinearOrder Checksum] [DecidableEq Data] in
theorem uploads_performs {a : Deployed.Action Dev Data} {b : System.Action Dev Data} (h : a.Performs b)
    (u v : State Dev jsonHash) : uploads k (s, a, t) = System.uploads k (u, b, v) := by
  cases a with
  | own a =>
    obtain rfl : b = a := h
    cases b <;> rfl
  | addChange dev dataId payload =>
    obtain rfl : b = .addChange dev dataId := h
    rfl
  | send dev skip =>
    obtain ⟨sender, dataId, rfl⟩ := h
    rfl
  | complete dev n =>
    obtain rfl : b = .complete dev n := h
    rfl

/-- **Ties end with the tables of the server**: from any reachable state, without resolvers and further edits of the key,
its versions stay below a bound, and so do the numbers of marks and of uploads. -/
theorem ties_end (hj : Function.Injective jsonHash) (hh : Set.InjOn hashed K) (hk : k ∈ K)
    (hp : ∀ d, (conf d).persistDeleted = true) {policy : SyncPolicy} (hpol : ∀ d, (conf d).conflictPolicy = policy)
    (hres : ∀ d, (conf d).conflictResolver = none)
    (hs : (lts extract conf hashed).Reachable (fun _ a => a.Uses K) s) {V : ℕ} {S : Finset (Option Data)}
    (hV : ∀ x, Lane.Held (lane hashed k (s.state extract)) x → x.version ≤ V ∧ x.content ∈ S)
    {tr : List (Deployed Dev jsonHash × Deployed.Action Dev Data × Deployed Dev jsonHash)}
    (hrun : LTS.Run (lts extract conf hashed) (fun _ a => a.Uses K ∧ ¬ a.Edits k) s tr t) :
    (∀ d r, t.index d k = some r → r.version ≤ V + S.card - 1) ∧
      tr.countP (marksChanged k) ≤ Fintype.card Dev * (V + S.card - 1) ∧
      tr.countP (uploads k) ≤ Fintype.card Dev * (V + S.card) := by
  have hG : ∀ (s : Deployed Dev jsonHash) (a : Deployed.Action Dev Data) (b : System.Action Dev Data), a.Performs b →
      a.Uses K ∧ ¬ a.Edits k → b.Uses K ∧ ¬ b.Edits k := fun _ _ _ hb ha => ⟨hb.uses ha.1, fun he => ha.2 (hb.edits he)⟩
  have haccount := account_of_reachable hs
  have I := TieInv.of_reachable hj hh hk hp policy (reachable_state (fun _ _ _ hb => hb.uses) hs) hV
  obtain ⟨tr₁, hrun₁, hmarks⟩ := run_state (H := fun _ b => b.Uses K ∧ ¬ b.Edits k) hG (marksChanged k)
    (System.marksChanged hashed k)
    (fun _ _ _ _ _ => decide_eq_decide.mpr Iff.rfl) hrun haccount
  obtain ⟨tr₂, hrun₂, huploads⟩ := run_state (H := fun _ b => b.Uses K ∧ ¬ b.Edits k) hG (uploads k) (System.uploads k)
    (fun _ _ _ _ hb => uploads_performs hb _ _) hrun haccount
  refine ⟨fun d r hr => (I.run hj hh hk hp hpol hres hrun₁).version_le (x := r.item) (Or.inl ⟨d, r, hr, rfl⟩), ?_, ?_⟩
  · rw [hmarks]
    exact I.countP_marksChanged_le hj hh hk hp hpol hres hrun₁
  · rw [huploads]
    exact I.countP_uploads_le hj hh hk hp hpol hres hrun₂

/-! ### Without `PersistDeleted` -/

variable (extract conf hashed K)

/-- The exchange with a history of the rows that have been deletions. -/
def removalLts : LTS (Deployed Dev jsonHash × (ObjectKey → Dev → Bool)) (Deployed.Action Dev Data) :=
  (lts extract conf hashed).withHistory (fun _ _ => false)
    fun removed _ _ t k d => Lane.removedBy (removed k d) (t.index d k)

/-- Deliveries are in order, and no device saves a key again that it has deleted. -/
def Assumed (p : Deployed Dev jsonHash × (ObjectKey → Dev → Bool)) (a : Deployed.Action Dev Data) : Prop :=
  ∀ b, a.Performs b → System.Assumed hashed K (p.1.state extract, p.2) b

/-- The step forgets nothing of any key that other devices depend on. -/
def Keeps (s : Deployed Dev jsonHash) (a : Deployed.Action Dev Data) : Prop :=
  ∀ b, a.Performs b → System.Keeps conf hashed K (s.state extract) b

variable {extract conf hashed K}

/-- With the history, too, the exchange is one of `System`. -/
theorem removal_state {p : Deployed Dev jsonHash × (ObjectKey → Dev → Bool)}
    (h : (removalLts extract conf hashed).Reachable
      (fun p a => Assumed extract hashed K p a ∧ Keeps extract conf hashed K p.1 a) p) :
    (System.removalLts conf hashed).Reachable
      (fun p a => System.Assumed hashed K p a ∧ System.Keeps conf hashed K p.1 a) (p.1.state extract, p.2) := by
  refine LTS.Reachable.sim (M := System.removalLts conf hashed)
    (fun p : Deployed Dev jsonHash × (ObjectKey → Dev → Bool) => (p.1.state extract, p.2)) ?_ ?_ h
  · rintro ⟨s, removed⟩ ⟨hs, hremoved⟩
    exact ⟨init_state hs, hremoved⟩
  · rintro ⟨s, removed⟩ a ⟨t, removed'⟩ hreach ⟨hassumed, hkeeps⟩ ⟨hst, hremoved⟩
    have hst' : step extract conf hashed s a = some t := hst
    have haccount := account_of_reachable (LTS.Reachable.of_withHistory (G := LTS.free) (fun _ _ _ => trivial) hreach)
    obtain ⟨b, hperforms, hb⟩ := step_state hst' haccount
    exact Or.inr ⟨b, ⟨hassumed b hperforms, hkeeps b hperforms⟩, hb, hremoved⟩

theorem wellFormed_of_removal {p : Deployed Dev jsonHash × (ObjectKey → Dev → Bool)}
    (h : (removalLts extract conf hashed).Reachable
      (fun p a => Assumed extract hashed K p a ∧ Keeps extract conf hashed K p.1 a) p) :
    WellFormed hashed K (p.1.state extract) :=
  WellFormed.reachable (fun _ _ hg => hg)
    (LTS.Reachable.of_withHistory (G := fun _ a => a.Uses K) (fun _ _ hg => hg.1.1) (removal_state h))

/-- **Agreement with the tables of the server**: without `PersistDeleted`, if every step keeps what other devices depend
on, then all devices have the same object of a key, or none has one, when nothing is left to be done. -/
theorem objects_agree {removed : ObjectKey → Dev → Bool} (hj : Function.Injective jsonHash) (hh : Set.InjOn hashed K)
    (hp : ∀ d, (conf d).persistDeleted = false)
    (h : (removalLts extract conf hashed).Reachable
      (fun p a => Assumed extract hashed K p a ∧ Keeps extract conf hashed K p.1 a) (s, removed))
    (hq : Quiescent s) (k : ObjectKey) :
    (∃ x : Lane.Item Data, x.content ≠ none ∧ ∀ d, (s.index d k).map Row.item = some x) ∨ ∀ d, s.index d k = none := by
  obtain ⟨W, D⟩ := discard_reachable hj hh hp (removal_state h)
  exact agree_of_discard W D hq.state k

end Results

end Exchange

/-! ### An account of two devices -/

namespace Sample

open scoped System.Sample
open System.Sample (key hashed conf settled heldItems)

/-- The key index stands for the version, and the data for the object. -/
def extract (p : Payload) : Option (Change ℕ) := some ⟨key, p.1, p.2.2.head?.map UInt8.toNat⟩

/-- Two devices of one account. -/
def start : Deployed (Fin 2) (fun n : ℕ => n) where
  index _ _ := none
  activeUploads _ _ := none
  db := [Transaction.addNewDevice 100 (0 : Fin 2) 0, .addNewDeviceToUser 1 0 0].foldl Transaction.next .empty
  inbox _ := []
  received _ := []

theorem init_start : Init start := ⟨rfl, rfl, rfl, rfl, by decide, by decide, rfl, rfl⟩

/-- Both devices save the key, and the conflict is exchanged until nothing is left to be done. -/
def conflict : List (Deployed.Action (Fin 2) ℕ) :=
  [.own (.save 0 key 5), .own (.save 1 key 7), .own (.upload 0 key), .own (.upload 1 key),
    .addChange 0 [1] (1, [], [5]), .addChange 1 [1] (1, [], [7]), .own (.uploadDone 0 [1]), .own (.uploadDone 1 [1]),
    .send 1 0, .send 0 0, .own (.deliver 0 0), .own (.deliver 1 0), .complete 0 0, .complete 1 0,
    .own (.upload 0 key), .own (.upload 1 key), .addChange 0 [1] (2, [], [7]), .addChange 1 [1] (2, [], [7]),
    .send 1 0, .send 0 0, .own (.deliver 0 1), .own (.deliver 1 1), .complete 0 1, .complete 1 1,
    .own (.uploadDone 0 [1]), .own (.uploadDone 1 [1])]

def savesKey : Deployed.Action (Fin 2) ℕ → Bool
  | .own a => System.Sample.savesKey a
  | _ => true

theorem uses_of_savesKey {a : Deployed.Action (Fin 2) ℕ} (h : savesKey a = true) : a.Uses {key} := by
  cases a with
  | own a => exact System.Sample.uses_of_savesKey h
  | _ => trivial

def run (l : List (Deployed.Action (Fin 2) ℕ)) : Option (Deployed (Fin 2) fun n : ℕ => n) :=
  LTS.exec (step extract (conf true) hashed) (fun _ a => savesKey a) start l

theorem reachable {l : List (Deployed.Action (Fin 2) ℕ)} {s : Deployed (Fin 2) fun n : ℕ => n} (h : run l = some s) :
    (lts extract (conf true) hashed).Reachable (fun _ a => a.Uses {key}) s :=
  LTS.exec_reachable (fun _ _ => uses_of_savesKey) init_start h

/-- Nothing is left to be done. -/
def done (s : Deployed (Fin 2) fun n : ℕ => n) : Bool := s.db.devicechanges.isEmpty && settled (s.state extract)

theorem quiescent {s : Deployed (Fin 2) fun n : ℕ => n} (W : WellFormed hashed {key} (s.state extract))
    (h : done s = true) : Quiescent s := by
  rw [done, Bool.and_eq_true, List.isEmpty_iff] at h
  have hq := System.Sample.quiescent W h.2
  exact ⟨h.1, hq.unchanged, hq.upload⟩

end Sample

/-- The conflict of two saves ends with the object of the larger checksum on both devices. -/
theorem rows_converge_conflict : ∃ s : Deployed (Fin 2) fun n : ℕ => n,
    (s.index 0 System.Sample.key).map Row.item = some ⟨2, some 7⟩ ∧
    s.index 0 System.Sample.key = s.index 1 System.Sample.key := by
  have h : (Sample.run Sample.conflict).any (fun s => Sample.done s &&
      ((s.index 0 System.Sample.key).map Row.item == some ⟨2, some 7⟩)) = true := by decide +kernel
  rw [Option.any_eq_true] at h
  obtain ⟨s, hs, hdone⟩ := h
  rw [Bool.and_eq_true, beq_iff_eq] at hdone
  have hr := Sample.reachable hs
  have W := WellFormed.reachable (fun _ _ hg => hg)
    (reachable_state (H := fun _ b => b.Uses {System.Sample.key}) (fun _ _ _ hb => hb.uses) hr)
  exact ⟨s, hdone.2, rows_converge (fun _ _ h => h) System.Sample.injOn_hashed (fun _ => rfl) hr
    (Sample.quiescent W hdone.1) 0 1 System.Sample.key⟩

namespace Sample

open scoped System.Sample
open System.Sample (key hashed conf)

def isEdit : Deployed.Action (Fin 2) ℕ → Bool
  | .own a => System.Sample.isEdit a
  | _ => false

/-- A continuation without edits. -/
def rest (s : Deployed (Fin 2) fun n : ℕ => n) (l : List (Deployed.Action (Fin 2) ℕ)) :
    Option (Deployed (Fin 2) fun n : ℕ => n) :=
  LTS.exec (step extract (conf true) hashed) (fun _ a => !isEdit a) s l

theorem run_of_rest {s t : Deployed (Fin 2) fun n : ℕ => n} {l : List (Deployed.Action (Fin 2) ℕ)}
    (h : rest s l = some t) :
    ∃ tr, LTS.Run (lts extract (conf true) hashed) (fun _ a => a.Uses {key} ∧ ¬ a.Edits key) s tr t := by
  refine LTS.exec_run _ (fun _ a ha => ?_) h
  cases a with
  | own a => exact System.Sample.uses_of_not_isEdit ha
  | _ => exact ⟨trivial, fun hx => hx⟩

end Sample

/-- After both have uploaded, at most version 2 is ever held, and no more than 6 changes are uploaded. -/
theorem ties_end_conflict : ∃ s t : Deployed (Fin 2) fun n : ℕ => n, ∃ tr,
    LTS.Run (lts Sample.extract (System.Sample.conf true) System.Sample.hashed)
      (fun _ a => a.Uses {System.Sample.key} ∧ ¬ a.Edits System.Sample.key) s tr t ∧
    (t.index 0 System.Sample.key).map Row.item = some ⟨2, some 7⟩ ∧
    (∀ d r, t.index d System.Sample.key = some r → r.version ≤ 2) ∧ tr.countP (uploads System.Sample.key) ≤ 6 := by
  have h : (Sample.run (Sample.conflict.take 10)).any (fun s =>
      (System.Sample.heldItems (s.state Sample.extract)).all
        (fun x => x.version ≤ 1 && x.content ∈ [some 5, some 7]) &&
      (Sample.rest s (Sample.conflict.drop 10)).any fun t =>
        (t.index 0 System.Sample.key).map Row.item == some ⟨2, some 7⟩) = true := by decide +kernel
  rw [Option.any_eq_true] at h
  obtain ⟨s, hs, hrest⟩ := h
  rw [Bool.and_eq_true, Option.any_eq_true] at hrest
  obtain ⟨hheld, t, ht, hrow⟩ := hrest
  obtain ⟨tr, htr⟩ := Sample.run_of_rest ht
  have hV : ∀ x, Lane.Held (lane System.Sample.hashed System.Sample.key (s.state Sample.extract)) x →
      x.version ≤ 1 ∧ x.content ∈ ({some 5, some 7} : Finset (Option ℕ)) := by
    intro x hx
    have := List.all_eq_true.mp hheld x (System.Sample.mem_heldItems hx)
    simpa using this
  have hT := ties_end (fun _ _ h => h) System.Sample.injOn_hashed rfl (fun _ => rfl) (fun _ => rfl) (fun _ => rfl)
    (Sample.reachable hs) hV htr
  exact ⟨s, t, tr, htr, beq_iff_eq.mp hrow, hT.1, hT.2.2⟩

namespace Sample

open scoped System.Sample
open System.Sample (key hashed conf)

/-- An object is sent to the other device and deleted. -/
def deletion : List (Deployed.Action (Fin 2) ℕ) :=
  [.own (.save 0 key 5), .own (.upload 0 key), .addChange 0 [1] (1, [], [5]), .own (.uploadDone 0 [1]), .send 1 0,
    .own (.deliver 1 0), .complete 1 0, .own (.remove 0 key), .own (.upload 0 key), .addChange 0 [1] (2, [], []),
    .own (.uploadDone 0 [1]), .send 1 0, .own (.deliver 1 1), .complete 1 1, .own (.upload 1 key),
    .addChange 1 [1] (2, [], []), .own (.uploadDone 1 [1]), .send 0 0, .own (.deliver 0 0), .complete 0 0]

def ok (p : Deployed (Fin 2) (fun n : ℕ => n) × (ObjectKey → Fin 2 → Bool)) : Deployed.Action (Fin 2) ℕ → Bool
  | .own a => System.Sample.assumed (p.1.state extract, p.2) a && System.Sample.keeps (p.1.state extract) a
  | .addChange dev dataId _ => System.Sample.keeps (p.1.state extract) (.addChange dev dataId)
  | _ => true

theorem guard_of_ok {p : Deployed (Fin 2) (fun n : ℕ => n) × (ObjectKey → Fin 2 → Bool)}
    {a : Deployed.Action (Fin 2) ℕ} (h : ok p a = true) :
    Assumed extract hashed {key} p a ∧ Keeps extract (conf false) hashed {key} p.1 a := by
  have hcheck : ∀ b, a.Performs b → System.Sample.assumed (p.1.state extract, p.2) b = true ∧
      System.Sample.keeps (p.1.state extract) b = true := by
    intro b hb
    cases a with
    | own a =>
      obtain rfl : b = a := hb
      exact Bool.and_eq_true_iff.mp h
    | addChange dev dataId payload =>
      obtain rfl : b = .addChange dev dataId := hb
      exact ⟨rfl, h⟩
    | send dev skip =>
      obtain ⟨sender, dataId, rfl⟩ := hb
      exact ⟨rfl, rfl⟩
    | complete dev n =>
      obtain rfl : b = .complete dev n := hb
      exact ⟨rfl, rfl⟩
  exact ⟨fun b hb => System.Sample.assumed_of_check (hcheck b hb).1,
    fun b hb => System.Sample.keeps_of_check (hcheck b hb).2⟩

def removalRun (l : List (Deployed.Action (Fin 2) ℕ)) :
    Option (Deployed (Fin 2) (fun n : ℕ => n) × (ObjectKey → Fin 2 → Bool)) :=
  LTS.exec (fun p a => (step extract (conf false) hashed p.1 a).map fun t =>
    (t, fun k d => Lane.removedBy (p.2 k d) (t.index d k))) ok (start, fun _ _ => false) l

end Sample

/-- The object that the other device had, and its deletion, are gone on both devices. -/
theorem objects_agree_deletion : ∃ p : Deployed (Fin 2) (fun n : ℕ => n) × (ObjectKey → Fin 2 → Bool),
    p.2 System.Sample.key 1 = true ∧
    ((∃ x : Lane.Item ℕ, x.content ≠ none ∧ ∀ d, (p.1.index d System.Sample.key).map Row.item = some x) ∨
      ∀ d, p.1.index d System.Sample.key = none) := by
  have h : (Sample.removalRun Sample.deletion).any (fun p => Sample.done p.1 && p.2 System.Sample.key 1) = true := by
    decide +kernel
  rw [Option.any_eq_true] at h
  obtain ⟨p, hp, hdone⟩ := h
  rw [Bool.and_eq_true] at hdone
  have hr : (removalLts Sample.extract (System.Sample.conf false) System.Sample.hashed).Reachable
      (fun p a => Assumed Sample.extract System.Sample.hashed {System.Sample.key} p a ∧
        Keeps Sample.extract (System.Sample.conf false) System.Sample.hashed {System.Sample.key} p.1 a) p :=
    LTS.exec_withHistory (fun _ _ => Sample.guard_of_ok) Sample.init_start hp
  have W := wellFormed_of_removal hr
  exact ⟨p, hdone.2, objects_agree (fun _ _ h => h) System.Sample.injOn_hashed (fun _ => rfl) hr
    (Sample.quiescent W hdone.1) System.Sample.key⟩

end Deployed

end System

end QtDataSync
