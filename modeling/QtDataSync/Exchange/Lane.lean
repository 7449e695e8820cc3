import Mathlib.Data.Finset.Basic
import Mathlib.Data.Fintype.Basic
import Mathlib.Data.Set.Insert
import QtDataSync.Store.Growth

/-!
# Exchange.Lane — the exchange of one key between the devices of an account

A lane is what the devices, the network and the server hold of one key: the row of each device, its unfinished
upload, the change the server stores for each sender with the devices that still have to receive it, and the
messages of the server.  The steps are the transactions of the source, each atomic.  A message stays where it is
after its delivery, so that it can be delivered again and arbitrarily late.

`Exchange.System` is the exchange of all keys; every step of it is a step or a stutter of the lane of each key.
-/

namespace QtDataSync

/-- An entry of `_activeUploads` with what was handed to `uploadChange`; `stored` after the server's `addChange`. -/
structure Upload (π : Type*) where
  payload : π
  stored : Bool

/-- A `datachanges` row of the server with the receivers of its `devicechanges` rows. -/
structure StoredChange (Dev π : Type*) where
  id : ℕ
  payload : π
  pending : Finset Dev

/-- A change on its way to a device. -/
structure Message (π : Type*) where
  id : ℕ
  payload : π
deriving DecidableEq

section Slots

variable {Dev π : Type*} [DecidableEq Dev]

/-- What `DatabaseController::addChange` stores; without receivers the data is removed again. -/
def StoredChange.add (id : ℕ) (payload : π) (receivers : Finset Dev) : Option (StoredChange Dev π) :=
  if receivers = ∅ then none else some ⟨id, payload, receivers⟩

/-- `DatabaseController::completeChange` on one `datachanges` row. -/
def StoredChange.complete (dev : Dev) (id : ℕ) (o : Option (StoredChange Dev π)) :
    Option (StoredChange Dev π) :=
  match o with
  | none => none
  | some st => if st.id = id then StoredChange.add st.id st.payload (st.pending.erase dev) else some st

theorem StoredChange.add_eq_some {id : ℕ} {payload : π} {receivers : Finset Dev}
    {st : StoredChange Dev π} (h : StoredChange.add id payload receivers = some st) :
    st = ⟨id, payload, receivers⟩ := by
  unfold StoredChange.add at h
  split at h
  · cases h
  · exact (Option.some.inj h).symm

theorem StoredChange.add_of_mem {id : ℕ} {payload : π} {receivers : Finset Dev} {dev : Dev}
    (h : dev ∈ receivers) : StoredChange.add id payload receivers = some ⟨id, payload, receivers⟩ := by
  unfold StoredChange.add
  rw [if_neg]
  rintro rfl
  simp at h

/-- Completing keeps what is stored and adds no receiver. -/
theorem StoredChange.complete_eq_some {dev : Dev} {id : ℕ} {o : Option (StoredChange Dev π)}
    {st' : StoredChange Dev π} (h : StoredChange.complete dev id o = some st') :
    ∃ st, o = some st ∧ st'.id = st.id ∧ st'.payload = st.payload ∧ st'.pending ⊆ st.pending := by
  cases o with
  | none => cases h
  | some st =>
    refine ⟨st, rfl, ?_⟩
    simp only [StoredChange.complete] at h
    split at h
    · rw [StoredChange.add_eq_some h]
      exact ⟨rfl, rfl, Finset.erase_subset _ _⟩
    · rw [← Option.some.inj h]
      exact ⟨rfl, rfl, subset_rfl⟩

/-- Completing takes a receiver away only from its own change. -/
theorem StoredChange.mem_complete {dev f : Dev} {id : ℕ} {st : StoredChange Dev π}
    (hf : f ∈ st.pending) (hne : ¬ (f = dev ∧ st.id = id)) :
    ∃ st', StoredChange.complete dev id (some st) = some st' ∧ st'.id = st.id ∧
      st'.payload = st.payload ∧ f ∈ st'.pending := by
  simp only [StoredChange.complete]
  split
  · have hfd : f ≠ dev := fun h => hne ⟨h, ‹_›⟩
    have hm : f ∈ st.pending.erase dev := Finset.mem_erase.mpr ⟨hfd, hf⟩
    exact ⟨_, StoredChange.add_of_mem hm, rfl, rfl, hm⟩
  · exact ⟨st, rfl, rfl, rfl, hf⟩

end Slots

section

variable {Data : Type*}

/-- The change of a key with a given version and content. -/
def Change.ofItem (key : ObjectKey) (x : Versioned (Option Data)) : Change Data :=
  ⟨key, x.version, x.content⟩

@[simp] theorem Change.item_ofItem (key : ObjectKey) (x : Versioned (Option Data)) :
    (Change.ofItem key x).item = x := rfl

@[simp] theorem Change.ofItem_item (c : Change Data) : Change.ofItem c.key c.item = c := rfl

end

namespace Lane

/-- The content of the exchange: a version with an object or a deletion. -/
abbrev Item (Data : Type*) := Versioned (Option Data)

/-- What devices, server and network hold of one key. -/
@[ext] structure State (Dev : Type*) {Data Checksum : Type*} (jsonHash : Data → Checksum) where
  row : Dev → Entry jsonHash
  upload : Dev → Option (Upload (Item Data))
  stored : Dev → Option (StoredChange Dev (Item Data))
  inbox : Dev → Set (Message (Item Data))
  received : Dev → Set (Message (Item Data))
  nextId : ℕ

/-- The steps of a lane; `skip` is the id taken by a change of another key. -/
inductive Action (Dev Data : Type*)
  | save (dev : Dev) (data : Data)
  | remove (dev : Dev)
  | upload (dev : Dev)
  | addChange (dev : Dev)
  | uploadDone (dev : Dev)
  | send (dev sender : Dev)
  | deliver (dev : Dev) (m : Message (Item Data))
  | complete (dev : Dev) (m : Message (Item Data))
  | skip

/-- The steps made by the user of a device. -/
def Action.IsEdit {Dev Data : Type*} : Action Dev Data → Prop
  | .save _ _ => True
  | .remove _ => True
  | _ => False

section Steps

variable {Dev Data Checksum : Type*} {jsonHash : Data → Checksum} [DecidableEq Dev]

/-- The state with another row on one device. -/
def State.setRow (s : State Dev jsonHash) (dev : Dev) (e : Entry jsonHash) : State Dev jsonHash :=
  { s with row := Function.update s.row dev e }

@[simp] theorem State.setRow_row_self (s : State Dev jsonHash) (dev : Dev) (e : Entry jsonHash) :
    (s.setRow dev e).row dev = e := Function.update_self ..

theorem State.setRow_row_of_ne (s : State Dev jsonHash) {dev f : Dev} (h : f ≠ dev)
    (e : Entry jsonHash) : (s.setRow dev e).row f = s.row f := Function.update_of_ne h ..

/-- With nothing held, sent or stored. -/
def State.empty : State Dev jsonHash where
  row _ := none
  upload _ := none
  stored _ := none
  inbox _ := ∅
  received _ := ∅
  nextId := 1

variable [Fintype Dev] [LinearOrder Checksum] (conf : Dev → Defaults Data) (key : ObjectKey)

/-- One transaction of a device or of the server. -/
inductive Step : State Dev jsonHash → Action Dev Data → State Dev jsonHash → Prop
  | save {s dev data e} : LocalStore.save (s.row dev) data = .ok e →
      Step s (.save dev data) (s.setRow dev e)
  | remove {s dev} : Step s (.remove dev) (s.setRow dev (LocalStore.remove (s.row dev)).1)
  | upload {s dev r} : s.row dev = some r → r.changed = true → s.upload dev = none →
      Step s (.upload dev) { s with upload := Function.update s.upload dev (some ⟨r.item, false⟩) }
  | addChange {s dev x} : s.upload dev = some ⟨x, false⟩ →
      Step s (.addChange dev)
        { s with upload := Function.update s.upload dev (some ⟨x, true⟩),
                 stored := Function.update s.stored dev
                   (StoredChange.add s.nextId x (Finset.univ.erase dev)),
                 nextId := s.nextId + 1 }
  | uploadDone {s dev x} : s.upload dev = some ⟨x, true⟩ →
      Step s (.uploadDone dev)
        { s.setRow dev (LocalStore.markUnchangedImpl (conf dev).persistDeleted (s.row dev) x.version
            x.content.isNone) with
          upload := Function.update s.upload dev none }
  | send {s dev sender st} : s.stored sender = some st → dev ∈ st.pending →
      Step s (.send dev sender)
        { s with inbox := Function.update s.inbox dev (insert ⟨st.id, st.payload⟩ (s.inbox dev)) }
  | deliver {s dev m e} : m ∈ s.inbox dev →
      SyncController.syncChange (conf dev) (s.row dev) (Change.ofItem key m.payload) = .ok e →
      Step s (.deliver dev m)
        { s.setRow dev e with received := Function.update s.received dev (insert m (s.received dev)) }
  | complete {s dev m} : m ∈ s.received dev →
      Step s (.complete dev m)
        { s with stored := fun sender => StoredChange.complete dev m.id (s.stored sender) }
  | skip {s} : Step s .skip { s with nextId := s.nextId + 1 }

/-- Nothing is left to be done for the key. -/
structure Quiescent (s : State Dev jsonHash) : Prop where
  stored : ∀ d st, s.stored d = some st → st.pending = ∅
  unchanged : ∀ d r, s.row d = some r → r.changed = false
  upload : ∀ d, s.upload d = none

/-! ### What one step does -/

variable {conf key} {s t : State Dev jsonHash} {a : Action Dev Data}

/-- A row is written by four kinds of steps. -/
theorem Step.row (h : Step conf key s a t) (f : Dev) :
    t.row f = s.row f ∨
    (∃ data, a = .save f data ∧ LocalStore.save (s.row f) data = .ok (t.row f)) ∨
    (a = .remove f ∧ t.row f = (LocalStore.remove (s.row f)).1) ∨
    (∃ x, a = .uploadDone f ∧ s.upload f = some ⟨x, true⟩ ∧
      t.row f = LocalStore.markUnchangedImpl (conf f).persistDeleted (s.row f) x.version
        x.content.isNone) ∨
    (∃ m, a = .deliver f m ∧ m ∈ s.inbox f ∧
      SyncController.syncChange (conf f) (s.row f) (Change.ofItem key m.payload) = .ok (t.row f)) := by
  cases h with
  | @save dev data e he =>
    by_cases hf : f = dev
    · subst hf
      exact Or.inr (Or.inl ⟨data, rfl, by simpa using he⟩)
    · exact Or.inl (State.setRow_row_of_ne s hf _)
  | @remove dev =>
    by_cases hf : f = dev
    · subst hf
      exact Or.inr (Or.inr (Or.inl ⟨rfl, by simp⟩))
    · exact Or.inl (State.setRow_row_of_ne s hf _)
  | @uploadDone dev x hu =>
    by_cases hf : f = dev
    · subst hf
      exact Or.inr (Or.inr (Or.inr (Or.inl ⟨x, rfl, hu, by simp⟩)))
    · exact Or.inl (State.setRow_row_of_ne s hf _)
  | @deliver dev m e hm he =>
    by_cases hf : f = dev
    · subst hf
      exact Or.inr (Or.inr (Or.inr (Or.inr ⟨m, rfl, hm, by simpa using he⟩)))
    · exact Or.inl (State.setRow_row_of_ne s hf _)
  | upload _ _ _ => exact Or.inl rfl
  | addChange _ => exact Or.inl rfl
  | send _ _ => exact Or.inl rfl
  | complete _ => exact Or.inl rfl
  | skip => exact Or.inl rfl

/-- An upload after the step: an old one, a new one of the changed row, or one just stored. -/
theorem Step.upload_some (h : Step conf key s a t) {f : Dev} {u : Upload (Item Data)}
    (hu : t.upload f = some u) :
    s.upload f = some u ∨
    (∃ r, a = .upload f ∧ s.row f = some r ∧ r.changed = true ∧ t.row f = some r ∧ u = ⟨r.item, false⟩) ∨
    (∃ x, a = .addChange f ∧ s.upload f = some ⟨x, false⟩ ∧ u = ⟨x, true⟩) := by
  cases h with
  | @upload dev r hr hch hn =>
    by_cases hf : f = dev
    · subst hf
      simp only [Function.update_self, Option.some.injEq] at hu
      exact Or.inr (Or.inl ⟨r, rfl, hr, hch, hr, hu.symm⟩)
    · exact Or.inl (by simpa [Function.update_of_ne hf] using hu)
  | @addChange dev x hx =>
    by_cases hf : f = dev
    · subst hf
      simp only [Function.update_self, Option.some.injEq] at hu
      exact Or.inr (Or.inr ⟨x, rfl, hx, hu.symm⟩)
    · exact Or.inl (by simpa [Function.update_of_ne hf] using hu)
  | @uploadDone dev x hx =>
    by_cases hf : f = dev
    · subst hf
      simp at hu
    · exact Or.inl (by simpa [Function.update_of_ne hf] using hu)
  | save _ => exact Or.inl hu
  | remove => exact Or.inl hu
  | deliver _ _ => exact Or.inl hu
  | send _ _ => exact Or.inl hu
  | complete _ => exact Or.inl hu
  | skip => exact Or.inl hu

/-- A stored change after the step: an old one, or the upload that the server stores under a new id. -/
theorem Step.stored_some (h : Step conf key s a t) {f : Dev} {st' : StoredChange Dev (Item Data)}
    (hst : t.stored f = some st') :
    (∃ st, s.stored f = some st ∧ st'.id = st.id ∧ st'.payload = st.payload ∧
      st'.pending ⊆ st.pending) ∨
    (∃ x, a = .addChange f ∧ s.upload f = some ⟨x, false⟩ ∧ t.nextId = s.nextId + 1 ∧
      st' = ⟨s.nextId, x, Finset.univ.erase f⟩) := by
  cases h with
  | @addChange dev x hx =>
    by_cases hf : f = dev
    · subst hf
      simp only [Function.update_self] at hst
      exact Or.inr ⟨x, rfl, hx, rfl, StoredChange.add_eq_some hst⟩
    · exact Or.inl ⟨st', by simpa [Function.update_of_ne hf] using hst, rfl, rfl, subset_rfl⟩
  | @complete dev m hm => exact Or.inl (StoredChange.complete_eq_some hst)
  | save _ => exact Or.inl ⟨st', hst, rfl, rfl, subset_rfl⟩
  | remove => exact Or.inl ⟨st', hst, rfl, rfl, subset_rfl⟩
  | upload _ _ _ => exact Or.inl ⟨st', hst, rfl, rfl, subset_rfl⟩
  | uploadDone _ => exact Or.inl ⟨st', hst, rfl, rfl, subset_rfl⟩
  | deliver _ _ => exact Or.inl ⟨st', hst, rfl, rfl, subset_rfl⟩
  | send _ _ => exact Or.inl ⟨st', hst, rfl, rfl, subset_rfl⟩
  | skip => exact Or.inl ⟨st', hst, rfl, rfl, subset_rfl⟩

/-- A receiver stays pending until it has received the change or the sender's next upload is stored. -/
theorem Step.stored_pending (h : Step conf key s a t) {d f : Dev} {st : StoredChange Dev (Item Data)}
    (hst : s.stored d = some st) (hf : f ∈ st.pending) :
    (∃ st', t.stored d = some st' ∧ st'.id = st.id ∧ st'.payload = st.payload ∧ f ∈ st'.pending) ∨
    (∃ m, a = .complete f m ∧ m ∈ s.received f ∧ st.id = m.id) ∨
    (∃ x, a = .addChange d ∧ s.upload d = some ⟨x, false⟩ ∧
      t.stored d = StoredChange.add s.nextId x (Finset.univ.erase d)) := by
  cases h with
  | @addChange dev x hx =>
    by_cases hd : d = dev
    · subst hd
      exact Or.inr (Or.inr ⟨x, rfl, hx, by simp⟩)
    · exact Or.inl ⟨st, by simpa [Function.update_of_ne hd] using hst, rfl, rfl, hf⟩
  | @complete dev m hm =>
    by_cases hc : f = dev ∧ st.id = m.id
    · obtain ⟨rfl, hid⟩ := hc
      exact Or.inr (Or.inl ⟨m, rfl, hm, hid⟩)
    · simp only [hst]
      exact Or.inl (StoredChange.mem_complete hf hc)
  | save _ => exact Or.inl ⟨st, hst, rfl, rfl, hf⟩
  | remove => exact Or.inl ⟨st, hst, rfl, rfl, hf⟩
  | upload _ _ _ => exact Or.inl ⟨st, hst, rfl, rfl, hf⟩
  | uploadDone _ => exact Or.inl ⟨st, hst, rfl, rfl, hf⟩
  | deliver _ _ => exact Or.inl ⟨st, hst, rfl, rfl, hf⟩
  | send _ _ => exact Or.inl ⟨st, hst, rfl, rfl, hf⟩
  | skip => exact Or.inl ⟨st, hst, rfl, rfl, hf⟩

/-- A message after the step: an old one, or one sent from a stored change. -/
theorem Step.mem_inbox (h : Step conf key s a t) {f : Dev} {m : Message (Item Data)}
    (hm : m ∈ t.inbox f) :
    m ∈ s.inbox f ∨ ∃ d st, a = .send f d ∧ s.stored d = some st ∧ f ∈ st.pending ∧
      m = ⟨st.id, st.payload⟩ := by
  cases h with
  | @send dev sender st hst hp =>
    by_cases hf : f = dev
    · subst hf
      simp only [Function.update_self, Set.mem_insert_iff] at hm
      rcases hm with hm | hm
      · exact Or.inr ⟨sender, st, rfl, hst, hp, hm⟩
      · exact Or.inl hm
    · exact Or.inl (by simpa [Function.update_of_ne hf] using hm)
  | save _ => exact Or.inl hm
  | remove => exact Or.inl hm
  | upload _ _ _ => exact Or.inl hm
  | addChange _ => exact Or.inl hm
  | uploadDone _ => exact Or.inl hm
  | deliver _ _ => exact Or.inl hm
  | complete _ => exact Or.inl hm
  | skip => exact Or.inl hm

/-- A message counts as received when it is delivered. -/
theorem Step.mem_received (h : Step conf key s a t) {f : Dev} {m : Message (Item Data)}
    (hm : m ∈ t.received f) : m ∈ s.received f ∨ a = .deliver f m ∧ m ∈ s.inbox f := by
  cases h with
  | @deliver dev m' e hm' he =>
    by_cases hf : f = dev
    · subst hf
      simp only [Function.update_self, Set.mem_insert_iff] at hm
      rcases hm with rfl | hm
      · exact Or.inr ⟨rfl, hm'⟩
      · exact Or.inl hm
    · exact Or.inl (by simpa [Function.update_of_ne hf] using hm)
  | save _ => exact Or.inl hm
  | remove => exact Or.inl hm
  | upload _ _ _ => exact Or.inl hm
  | addChange _ => exact Or.inl hm
  | uploadDone _ => exact Or.inl hm
  | send _ _ => exact Or.inl hm
  | complete _ => exact Or.inl hm
  | skip => exact Or.inl hm

theorem Step.received_mono (h : Step conf key s a t) (f : Dev) : s.received f ⊆ t.received f := by
  cases h with
  | @deliver dev m' e hm' he =>
    intro m hm
    by_cases hf : f = dev
    · subst hf
      simpa using Or.inr hm
    · simpa [Function.update_of_ne hf] using hm
  | _ => exact subset_rfl

/-! ### Ids -/

/-- The ids of the server identify the changes, and no change is sent back to its sender. -/
structure Ids (s : State Dev jsonHash) : Prop where
  stored_lt : ∀ d st, s.stored d = some st → st.id < s.nextId
  inbox_lt : ∀ f m, m ∈ s.inbox f → m.id < s.nextId
  stored_inj : ∀ d d' st st', s.stored d = some st → s.stored d' = some st' → st.id = st'.id → d = d'
  inbox_stored : ∀ f m d st, m ∈ s.inbox f → s.stored d = some st → m.id = st.id → m.payload = st.payload
  inbox_inj : ∀ f f' m m', m ∈ s.inbox f → m' ∈ s.inbox f' → m.id = m'.id → m.payload = m'.payload
  received_inbox : ∀ f m, m ∈ s.received f → m ∈ s.inbox f
  sender : ∀ d st, s.stored d = some st → d ∉ st.pending

/-! ### Growth -/

/-- With `PersistDeleted` no step takes a row back. -/
theorem Step.itemOf_le (hp : ∀ d, (conf d).persistDeleted = true)
    (h : Step conf key s a t) (f : Dev) : itemOf (s.row f) ≤ itemOf (t.row f) := by
  rcases h.row f with h | ⟨data, -, h⟩ | ⟨-, h⟩ | ⟨x, -, -, h⟩ | ⟨m, -, -, h⟩
  · rw [h]
  · exact (LocalStore.itemOf_save h).1.le
  · rw [h]
    exact LocalStore.le_itemOf_remove _
  · rw [h, hp f, LocalStore.itemOf_markUnchangedImpl]
  · exact (SyncController.le_itemOf_syncChange (hp f) h).1

end Steps

end Lane

end QtDataSync
