import QtDataSync.Lib.Transition
import QtDataSync.Exchange.Lane

/-!
# Exchange.System — the exchange of all keys between the devices of one account

The devices are fixed, with their tables and their active uploads; the server keeps one change for each sender and
data id.  Every action is one transaction of the source and is computed by `step`; `uploadNext` is any number of
`upload` actions.  What the server stores is encrypted end to end, so it is carried as the change that
`SyncHelper::extract` gets back from it.
-/

namespace QtDataSync

namespace System

/-- The devices, the server and the network between them. -/
structure State (Dev : Type*) {Data Checksum : Type*} (jsonHash : Data → Checksum) where
  index : Dev → DataIndex jsonHash
  activeUploads : Dev → QByteArray → Option (Upload (Change Data))
  datachanges : Dev → QByteArray → Option (StoredChange Dev (Change Data))
  inbox : Dev → List (Message (Change Data))
  received : Dev → List (Message (Change Data))
  nextId : ℕ

/-- The transactions; `deliver` and `complete` name a message by its place among those sent and received. -/
inductive Action (Dev Data : Type*)
  | save (dev : Dev) (key : ObjectKey) (data : Data)
  | remove (dev : Dev) (key : ObjectKey)
  | clear (dev : Dev) (typeName : QByteArray)
  | upload (dev : Dev) (key : ObjectKey)
  | addChange (dev : Dev) (dataId : QByteArray)
  | uploadDone (dev : Dev) (dataId : QByteArray)
  | send (dev sender : Dev) (dataId : QByteArray)
  | deliver (dev : Dev) (n : ℕ)
  | complete (dev : Dev) (n : ℕ)

section

variable {Dev Data Checksum : Type*} {jsonHash : Data → Checksum} [DecidableEq Dev]

/-- A new account. -/
def State.empty : State Dev jsonHash where
  index _ _ := none
  activeUploads _ _ := none
  datachanges _ _ := none
  inbox _ := []
  received _ := []
  nextId := 1

def State.setIndex (s : State Dev jsonHash) (dev : Dev) (index : DataIndex jsonHash) :
    State Dev jsonHash :=
  { s with index := Function.update s.index dev index }

def State.setUpload (s : State Dev jsonHash) (dev : Dev) (dataId : QByteArray)
    (o : Option (Upload (Change Data))) : State Dev jsonHash :=
  { s with activeUploads :=
      Function.update s.activeUploads dev (Function.update (s.activeUploads dev) dataId o) }

def State.setStored (s : State Dev jsonHash) (dev : Dev) (dataId : QByteArray)
    (o : Option (StoredChange Dev (Change Data))) : State Dev jsonHash :=
  { s with datachanges :=
      Function.update s.datachanges dev (Function.update (s.datachanges dev) dataId o) }

def State.sendTo (s : State Dev jsonHash) (dev : Dev) (m : Message (Change Data)) :
    State Dev jsonHash :=
  { s with inbox := Function.update s.inbox dev (s.inbox dev ++ [m]) }

def State.receive (s : State Dev jsonHash) (dev : Dev) (m : Message (Change Data)) :
    State Dev jsonHash :=
  { s with received := Function.update s.received dev (s.received dev ++ [m]) }

def State.complete (s : State Dev jsonHash) (dev : Dev) (id : ℕ) : State Dev jsonHash :=
  { s with datachanges := fun sender dataId => StoredChange.complete dev id (s.datachanges sender dataId) }

variable [Fintype Dev]

/-- The server stores the change of a sender for all other devices. -/
def State.addChange (s : State Dev jsonHash) (dev : Dev) (dataId : QByteArray) (c : Change Data) :
    State Dev jsonHash :=
  { s.setStored dev dataId (StoredChange.add s.nextId c (Finset.univ.erase dev)) with
    nextId := s.nextId + 1 }

variable [LinearOrder Checksum] (conf : Dev → Defaults Data) (hashed : ObjectKey → QByteArray)

/-- One transaction; `none` if it cannot happen now or if the operation throws. -/
def step (s : State Dev jsonHash) : Action Dev Data → Option (State Dev jsonHash)
  | .save dev key data =>
    match DataIndex.save (s.index dev) key data with
    | .ok index => some (s.setIndex dev index)
    | .error _ => none
  | .remove dev key => some (s.setIndex dev (DataIndex.remove (s.index dev) key).1)
  | .clear dev typeName => some (s.setIndex dev (DataIndex.clear (s.index dev) typeName))
  | .upload dev key =>
    match s.index dev key, s.activeUploads dev (hashed key) with
    | some r, none =>
      if r.changed then some (s.setUpload dev (hashed key) (some ⟨⟨key, r.version, r.content⟩, false⟩))
      else none
    | _, _ => none
  | .addChange dev dataId =>
    match s.activeUploads dev dataId with
    | some ⟨c, false⟩ =>
      some ((s.setUpload dev dataId (some ⟨c, true⟩)).addChange dev dataId c)
    | _ => none
  | .uploadDone dev dataId =>
    match s.activeUploads dev dataId with
    | some ⟨c, true⟩ =>
      some ((s.setIndex dev (DataIndex.markUnchanged (conf dev).persistDeleted (s.index dev) c.key
        c.version c.data.isNone)).setUpload dev dataId none)
    | _ => none
  | .send dev sender dataId =>
    match s.datachanges sender dataId with
    | some st =>
      if dev ∈ st.pending then some (s.sendTo dev ⟨st.id, st.payload⟩) else none
    | none => none
  | .deliver dev n =>
    match (s.inbox dev)[n]? with
    | some m =>
      match DataIndex.syncChange (conf dev) (s.index dev) m.payload with
      | .ok index => some ((s.setIndex dev index).receive dev m)
      | .error _ => none
    | none => none
  | .complete dev n =>
    match (s.received dev)[n]? with
    | some m => some (s.complete dev m.id)
    | none => none

/-- Only keys of `K` are ever saved. -/
def Action.Uses (K : Set ObjectKey) : Action Dev Data → Prop
  | .save _ key _ => key ∈ K
  | _ => True

/-- The exchange, from the start of the account. -/
def lts : LTS (State Dev jsonHash) (Action Dev Data) :=
  .ofStep (fun s => s = State.empty) (step conf hashed)

/-- No change is pending on the server, no row is marked changed and no upload is active. -/
structure Quiescent (s : State Dev jsonHash) : Prop where
  stored : ∀ d h st, s.datachanges d h = some st → st.pending = ∅
  unchanged : ∀ d k r, s.index d k = some r → r.changed = false
  upload : ∀ d h, s.activeUploads d h = none

/-! ### Inversion of the steps -/

variable {conf hashed} {s t : State Dev jsonHash} {dev : Dev}

theorem step_save {key : ObjectKey} {data : Data} (h : step conf hashed s (.save dev key data) = some t) :
    ∃ e, LocalStore.save (s.index dev key) data = .ok e ∧
      t = s.setIndex dev (Function.update (s.index dev) key e) := by
  simp only [step, DataIndex.save] at h
  cases he : LocalStore.save (s.index dev key) data with
  | error ex => rw [he] at h; cases h
  | ok e => rw [he] at h; cases h; exact ⟨e, rfl, rfl⟩

theorem step_remove {key : ObjectKey} (h : step conf hashed s (.remove dev key) = some t) :
    t = s.setIndex dev (Function.update (s.index dev) key (LocalStore.remove (s.index dev key)).1) := by
  simp only [step, DataIndex.remove, Option.some.injEq] at h
  exact h.symm

theorem step_clear {typeName : QByteArray} (h : step conf hashed s (.clear dev typeName) = some t) :
    t = s.setIndex dev (DataIndex.clear (s.index dev) typeName) := by
  simp only [step, Option.some.injEq] at h
  exact h.symm

theorem step_upload {key : ObjectKey} (h : step conf hashed s (.upload dev key) = some t) :
    ∃ r, s.index dev key = some r ∧ r.changed = true ∧ s.activeUploads dev (hashed key) = none ∧
      t = s.setUpload dev (hashed key) (some ⟨Change.ofItem key r.item, false⟩) := by
  simp only [step] at h
  split at h
  · split_ifs at h with hch
    · cases h
      exact ⟨_, ‹_›, hch, ‹_›, rfl⟩
  · cases h

theorem step_addChange {dataId : QByteArray} (h : step conf hashed s (.addChange dev dataId) = some t) :
    ∃ c, s.activeUploads dev dataId = some ⟨c, false⟩ ∧
      t = (s.setUpload dev dataId (some ⟨c, true⟩)).addChange dev dataId c := by
  simp only [step] at h
  split at h
  · cases h
    exact ⟨_, ‹_›, rfl⟩
  · cases h

theorem step_uploadDone {dataId : QByteArray} (h : step conf hashed s (.uploadDone dev dataId) = some t) :
    ∃ c, s.activeUploads dev dataId = some ⟨c, true⟩ ∧
      t = (s.setIndex dev (Function.update (s.index dev) c.key (LocalStore.markUnchangedImpl
        (conf dev).persistDeleted (s.index dev c.key) c.version c.data.isNone))).setUpload dev dataId none := by
  simp only [step] at h
  split at h
  · cases h
    exact ⟨_, ‹_›, rfl⟩
  · cases h

theorem step_send {sender : Dev} {dataId : QByteArray}
    (h : step conf hashed s (.send dev sender dataId) = some t) :
    ∃ st, s.datachanges sender dataId = some st ∧ dev ∈ st.pending ∧
      t = s.sendTo dev ⟨st.id, st.payload⟩ := by
  simp only [step] at h
  split at h
  · split_ifs at h with hp
    · cases h
      exact ⟨_, ‹_›, hp, rfl⟩
  · cases h

theorem step_deliver {n : ℕ} (h : step conf hashed s (.deliver dev n) = some t) :
    ∃ m e, (s.inbox dev)[n]? = some m ∧
      SyncController.syncChange (conf dev) (s.index dev m.payload.key) m.payload = .ok e ∧
      t = (s.setIndex dev (Function.update (s.index dev) m.payload.key e)).receive dev m := by
  simp only [step] at h
  split at h
  next m hm =>
    cases he : SyncController.syncChange (conf dev) (s.index dev m.payload.key) m.payload with
    | error ex => simp only [DataIndex.syncChange, he] at h; cases h
    | ok e =>
      simp only [DataIndex.syncChange, he] at h
      cases h
      exact ⟨m, e, hm, he, rfl⟩
  next => cases h

theorem step_complete {n : ℕ} (h : step conf hashed s (.complete dev n) = some t) :
    ∃ m, (s.received dev)[n]? = some m ∧ t = s.complete dev m.id := by
  simp only [step] at h
  split at h
  · cases h
    exact ⟨_, ‹_›, rfl⟩
  · cases h

end

/-! ### Ids and data ids -/

section

variable {Dev Data Checksum : Type*} {jsonHash : Data → Checksum} {hashed : ObjectKey → QByteArray}
  {K : Set ObjectKey}

variable (hashed K) in
/-- Changes of the keys in use travel under the hash of their key, and the ids of the server identify them. -/
structure WellFormed (s : State Dev jsonHash) : Prop where
  row_key : ∀ d k r, s.index d k = some r → k ∈ K
  upload_key : ∀ d h u, s.activeUploads d h = some u → u.payload.key ∈ K ∧ hashed u.payload.key = h
  stored_key : ∀ d h st, s.datachanges d h = some st → st.payload.key ∈ K ∧ hashed st.payload.key = h
  inbox_key : ∀ f, ∀ m ∈ s.inbox f, m.payload.key ∈ K
  stored_lt : ∀ d h st, s.datachanges d h = some st → st.id < s.nextId
  stored_inj : ∀ d d' h h' st st', s.datachanges d h = some st → s.datachanges d' h' = some st' →
    st.id = st'.id → d = d' ∧ h = h'
  sender : ∀ d h st, s.datachanges d h = some st → d ∉ st.pending
  inbox_lt : ∀ f, ∀ m ∈ s.inbox f, m.id < s.nextId
  inbox_stored : ∀ f, ∀ m ∈ s.inbox f, ∀ d h st, s.datachanges d h = some st → m.id = st.id →
    m.payload = st.payload
  inbox_inj : ∀ f f', ∀ m ∈ s.inbox f, ∀ m' ∈ s.inbox f', m.id = m'.id → m.payload = m'.payload
  received_inbox : ∀ f, ∀ m ∈ s.received f, m ∈ s.inbox f

theorem WellFormed.init : WellFormed hashed K (State.empty : State Dev jsonHash) where
  row_key _ _ _ h := by cases h
  upload_key _ _ _ h := by cases h
  stored_key _ _ _ h := by cases h
  inbox_key _ _ h := by cases h
  stored_lt _ _ _ h := by cases h
  stored_inj _ _ _ _ _ _ h := by cases h
  sender _ _ _ h := by cases h
  inbox_lt _ _ h := by cases h
  inbox_stored _ _ h := by cases h
  inbox_inj _ _ _ h := by cases h
  received_inbox _ _ h := by cases h

variable [DecidableEq Dev] {s t : State Dev jsonHash}

/-- Of the tables of the devices only the keys matter. -/
theorem WellFormed.setIndex (W : WellFormed hashed K s) (dev : Dev) {index : DataIndex jsonHash}
    (hi : ∀ k r, index k = some r → k ∈ K ∨ ∃ r, s.index dev k = some r) :
    WellFormed hashed K (s.setIndex dev index) := by
  refine { W with row_key := ?_ }
  intro d k r hr
  simp only [State.setIndex] at hr
  by_cases hd : d = dev
  · subst hd
    rw [Function.update_self] at hr
    rcases hi k r hr with hk | ⟨r', hr'⟩
    · exact hk
    · exact W.row_key d k r' hr'
  · rw [Function.update_of_ne hd] at hr
    exact W.row_key d k r hr

/-- The row of one key is written, which is in use if the row is new. -/
theorem WellFormed.setRow (W : WellFormed hashed K s) (dev : Dev) {key : ObjectKey} {e : Entry jsonHash}
    (he : ∀ r, e = some r → key ∈ K ∨ ∃ r, s.index dev key = some r) :
    WellFormed hashed K (s.setIndex dev (Function.update (s.index dev) key e)) := by
  refine W.setIndex dev ?_
  intro k r hr
  by_cases hk : k = key
  · subst hk
    rw [Function.update_self] at hr
    exact he r hr
  · rw [Function.update_of_ne hk] at hr
    exact Or.inr ⟨r, hr⟩

theorem WellFormed.setUpload (W : WellFormed hashed K s) (dev : Dev) (dataId : QByteArray)
    {o : Option (Upload (Change Data))}
    (ho : ∀ u, o = some u → u.payload.key ∈ K ∧ hashed u.payload.key = dataId) :
    WellFormed hashed K (s.setUpload dev dataId o) := by
  refine { W with upload_key := ?_ }
  intro d h u hu
  simp only [State.setUpload] at hu
  by_cases hd : d = dev
  · subst hd
    by_cases hh : h = dataId
    · subst hh
      simp only [Function.update_self] at hu
      exact ho u hu
    · simp only [Function.update_self, Function.update_of_ne hh] at hu
      exact W.upload_key _ _ u hu
  · rw [Function.update_of_ne hd] at hu
    exact W.upload_key _ _ u hu

/-- The server stores a change under the next id. -/
theorem WellFormed.addChange [Fintype Dev] (W : WellFormed hashed K s) (dev : Dev) {c : Change Data}
    {dataId : QByteArray} (hc : c.key ∈ K ∧ hashed c.key = dataId) :
    WellFormed hashed K (s.addChange dev dataId c) := by
  -- the stored changes after the step: the old ones of other data ids and the new one
  have hcases : ∀ d h st, (s.addChange dev dataId c).datachanges d h = some st →
      (¬ (d = dev ∧ h = dataId) ∧ s.datachanges d h = some st) ∨
      (d = dev ∧ h = dataId ∧ st = ⟨s.nextId, c, Finset.univ.erase dev⟩) := by
    intro d h st hst
    simp only [State.addChange, State.setStored] at hst
    by_cases hd : d = dev
    · subst hd
      by_cases hh : h = dataId
      · subst hh
        simp only [Function.update_self] at hst
        exact Or.inr ⟨rfl, rfl, StoredChange.add_eq_some hst⟩
      · simp only [Function.update_self, Function.update_of_ne hh] at hst
        exact Or.inl ⟨fun hx => hh hx.2, hst⟩
    · rw [Function.update_of_ne hd] at hst
      exact Or.inl ⟨fun hx => hd hx.1, hst⟩
  refine ⟨W.row_key, W.upload_key, ?_, W.inbox_key, ?_, ?_, ?_, ?_, ?_, W.inbox_inj, W.received_inbox⟩
  · intro d h st hst
    rcases hcases d h st hst with ⟨-, hst⟩ | ⟨-, rfl, rfl⟩
    · exact W.stored_key d h st hst
    · exact hc
  · intro d h st hst
    rcases hcases d h st hst with ⟨-, hst⟩ | ⟨-, -, rfl⟩
    · have := W.stored_lt d h st hst
      simp only [State.addChange]; omega
    · simp [State.addChange]
  · intro d d' h h' st st' hst hst' hid
    rcases hcases d h st hst with ⟨-, hst⟩ | ⟨hd, hh, rfl⟩ <;>
      rcases hcases d' h' st' hst' with ⟨-, hst'⟩ | ⟨hd', hh', rfl⟩
    · exact W.stored_inj d d' h h' st st' hst hst' hid
    · have := W.stored_lt d h st hst
      simp only at hid; omega
    · have := W.stored_lt d' h' st' hst'
      simp only at hid; omega
    · exact ⟨hd.trans hd'.symm, hh.trans hh'.symm⟩
  · intro d h st hst
    rcases hcases d h st hst with ⟨-, hst⟩ | ⟨hd, -, rfl⟩
    · exact W.sender d h st hst
    · simp [hd]
  · intro f m hm
    have := W.inbox_lt f m hm
    simp only [State.addChange]; omega
  · intro f m hm d h st hst hid
    rcases hcases d h st hst with ⟨-, hst⟩ | ⟨-, -, rfl⟩
    · exact W.inbox_stored f m hm d h st hst hid
    · have := W.inbox_lt f m hm
      simp only at hid; omega

theorem WellFormed.complete (W : WellFormed hashed K s) (dev : Dev) (id : ℕ) :
    WellFormed hashed K (s.complete dev id) := by
  refine ⟨W.row_key, W.upload_key, ?_, W.inbox_key, ?_, ?_, ?_, W.inbox_lt, ?_, W.inbox_inj,
    W.received_inbox⟩
  · intro d h st' hst'
    obtain ⟨st, hst, -, hpay, -⟩ := StoredChange.complete_eq_some hst'
    rw [hpay]
    exact W.stored_key d h st hst
  · intro d h st' hst'
    obtain ⟨st, hst, hid, -, -⟩ := StoredChange.complete_eq_some hst'
    rw [hid]
    exact W.stored_lt d h st hst
  · intro d d' h h' st₁ st₂ h1 h2 he
    obtain ⟨st, hst, hid, -, -⟩ := StoredChange.complete_eq_some h1
    obtain ⟨st', hst', hid', -, -⟩ := StoredChange.complete_eq_some h2
    exact W.stored_inj d d' h h' st st' hst hst' (by rw [← hid, ← hid', he])
  · intro d h st' hst'
    obtain ⟨st, hst, -, -, hsub⟩ := StoredChange.complete_eq_some hst'
    exact fun hd => W.sender d h st hst (hsub hd)
  · intro f m hm d h st' hst' hid'
    obtain ⟨st, hst, hid, hpay, -⟩ := StoredChange.complete_eq_some hst'
    rw [hpay]
    exact W.inbox_stored f m hm d h st hst (hid'.trans hid)

theorem WellFormed.sendTo (W : WellFormed hashed K s) (dev : Dev) {sender : Dev} {dataId : QByteArray}
    {st : StoredChange Dev (Change Data)} (hst : s.datachanges sender dataId = some st) :
    WellFormed hashed K (s.sendTo dev ⟨st.id, st.payload⟩) := by
  have hcases : ∀ f m, m ∈ (s.sendTo dev ⟨st.id, st.payload⟩).inbox f →
      m ∈ s.inbox f ∨ m = ⟨st.id, st.payload⟩ := by
    intro f m hm
    simp only [State.sendTo] at hm
    by_cases hf : f = dev
    · subst hf
      simpa using hm
    · rw [Function.update_of_ne hf] at hm
      exact Or.inl hm
  refine ⟨W.row_key, W.upload_key, W.stored_key, ?_, W.stored_lt, W.stored_inj, W.sender, ?_, ?_, ?_, ?_⟩
  · intro f m hm
    rcases hcases f m hm with hm | rfl
    · exact W.inbox_key f m hm
    · exact (W.stored_key _ _ st hst).1
  · intro f m hm
    rcases hcases f m hm with hm | rfl
    · exact W.inbox_lt f m hm
    · exact W.stored_lt _ _ st hst
  · intro f m hm d h st' hst' hid
    rcases hcases f m hm with hm | rfl
    · exact W.inbox_stored f m hm d h st' hst' hid
    · obtain ⟨rfl, rfl⟩ := W.stored_inj _ _ _ _ st st' hst hst' hid
      obtain rfl := Option.some.inj (hst.symm.trans hst')
      rfl
  · intro f f' m hm m' hm' hid
    rcases hcases f m hm with hm | rfl <;> rcases hcases f' m' hm' with hm' | rfl
    · exact W.inbox_inj f f' m hm m' hm' hid
    · exact W.inbox_stored f m hm _ _ st hst hid
    · exact (W.inbox_stored f' m' hm' _ _ st hst hid.symm).symm
    · rfl
  · intro f m hm
    by_cases hf : f = dev
    · subst hf
      simpa [State.sendTo] using Or.inl (W.received_inbox f m hm)
    · simpa [State.sendTo, Function.update_of_ne hf] using W.received_inbox f m hm

theorem WellFormed.receive (W : WellFormed hashed K s) {dev : Dev} {m : Message (Change Data)}
    (hm : m ∈ s.inbox dev) : WellFormed hashed K (s.receive dev m) := by
  refine { W with received_inbox := ?_ }
  intro f m' hm'
  simp only [State.receive] at hm'
  by_cases hf : f = dev
  · subst hf
    simp only [Function.update_self, List.mem_append, List.mem_singleton] at hm'
    rcases hm' with hm' | rfl
    · exact W.received_inbox f m' hm'
    · exact hm
  · simp only [Function.update_of_ne hf] at hm'
    exact W.received_inbox f m' hm'

variable [Fintype Dev] [LinearOrder Checksum] {conf : Dev → Defaults Data}

theorem WellFormed.step (W : WellFormed hashed K s) {a : Action Dev Data} (ha : a.Uses K)
    (h : step conf hashed s a = some t) : WellFormed hashed K t := by
  cases a with
  | save dev key data =>
    obtain ⟨e, -, rfl⟩ := step_save h
    exact W.setRow dev fun _ _ => Or.inl ha
  | remove dev key =>
    rw [step_remove h]
    refine W.setRow dev fun r hr => Or.inr ?_
    cases hs : s.index dev key with
    | none => rw [hs] at hr; cases hr
    | some r => exact ⟨r, rfl⟩
  | clear dev typeName =>
    rw [step_clear h]
    refine W.setIndex dev fun k r hr => Or.inr ?_
    cases hs : s.index dev k with
    | none => simp [DataIndex.clear, LocalStore.clear, hs] at hr
    | some r => exact ⟨r, rfl⟩
  | upload dev key =>
    obtain ⟨r, hr, -, -, rfl⟩ := step_upload h
    exact W.setUpload dev _ (by rintro u ⟨⟩; exact ⟨W.row_key dev key r hr, rfl⟩)
  | addChange dev dataId =>
    obtain ⟨c, hc, rfl⟩ := step_addChange h
    have hkey := W.upload_key dev dataId _ hc
    exact (W.setUpload dev dataId (by rintro u ⟨⟩; exact hkey)).addChange dev hkey
  | uploadDone dev dataId =>
    obtain ⟨c, hc, rfl⟩ := step_uploadDone h
    have hkey := W.upload_key dev dataId _ hc
    exact (W.setRow dev fun _ _ => Or.inl hkey.1).setUpload dev dataId (by rintro u ⟨⟩)
  | send dev sender dataId =>
    obtain ⟨st, hst, -, rfl⟩ := step_send h
    exact W.sendTo dev hst
  | deliver dev n =>
    obtain ⟨m, e, hm, -, rfl⟩ := step_deliver h
    have hmem := List.mem_of_getElem? hm
    exact (W.setRow dev fun _ _ => Or.inl (W.inbox_key dev m hmem)).receive hmem
  | complete dev n =>
    obtain ⟨m, -, rfl⟩ := step_complete h
    exact W.complete dev m.id

theorem WellFormed.reachable {G : State Dev jsonHash → Action Dev Data → Prop}
    (hG : ∀ s a, G s a → a.Uses K) (h : (lts conf hashed).Reachable G s) : WellFormed hashed K s :=
  h.invariant (by rintro s rfl; exact .init) fun _ _ _ _ W hg hst => W.step (hG _ _ hg) hst

end

end System

end QtDataSync
