import QtDataSync.Exchange.System

/-!
# Exchange.Projection — the lane of a key in the exchange of all keys

`lane k s` is what the state `s` of the system holds of the key `k`.  Every step of the system is the step
`laneAction` of that lane or leaves it alone (`lane_step`), as long as the keys in use have different hashes; so what
the steps of a lane keep holds of each lane of a reachable state (`lane_invariant`).
-/

namespace QtDataSync

section Payloads

variable {Dev π ρ : Type*}

def Upload.map (g : π → ρ) (u : Upload π) : Upload ρ := ⟨g u.payload, u.stored⟩

def StoredChange.map (g : π → ρ) (st : StoredChange Dev π) : StoredChange Dev ρ :=
  ⟨st.id, g st.payload, st.pending⟩

def Message.map (g : π → ρ) (m : Message π) : Message ρ := ⟨m.id, g m.payload⟩

variable [DecidableEq Dev]

theorem StoredChange.add_map (g : π → ρ) (id : ℕ) (payload : π) (receivers : Finset Dev) :
    (StoredChange.add id payload receivers).map (StoredChange.map g) =
      StoredChange.add id (g payload) receivers := by
  unfold StoredChange.add
  split <;> rfl

theorem StoredChange.complete_map (g : π → ρ) (dev : Dev) (id : ℕ) (o : Option (StoredChange Dev π)) :
    (StoredChange.complete dev id o).map (StoredChange.map g) =
      StoredChange.complete dev id (o.map (StoredChange.map g)) := by
  cases o with
  | none => rfl
  | some st =>
    simp only [StoredChange.complete, Option.map_some, StoredChange.map]
    split
    · rw [StoredChange.add_map]
    · rfl

end Payloads

namespace System

section

variable {Dev Data Checksum : Type*} {jsonHash : Data → Checksum} (hashed : ObjectKey → QByteArray)

/-- The messages of a list that are about the key `k`. -/
def messagesOf (k : ObjectKey) (l : List (Message (Change Data))) : Set (Message (Lane.Item Data)) :=
  {m | ∃ m' ∈ l, m'.payload.key = k ∧ m = m'.map Change.item}

/-- What the system holds of the key `k`. -/
def lane (k : ObjectKey) (s : State Dev jsonHash) : Lane.State Dev jsonHash where
  row d := s.index d k
  upload d := (s.activeUploads d (hashed k)).map (Upload.map Change.item)
  stored d := (s.datachanges d (hashed k)).map (StoredChange.map Change.item)
  inbox d := messagesOf k (s.inbox d)
  received d := messagesOf k (s.received d)
  nextId := s.nextId

/-- What an action does to the lane of `k`, if anything. -/
def laneAction (k : ObjectKey) (s : State Dev jsonHash) : Action Dev Data → Option (Lane.Action Dev Data)
  | .save dev key data => if key = k then some (.save dev data) else none
  | .remove dev key => if key = k then some (.remove dev) else none
  | .clear dev typeName => if k.typeName = typeName then some (.remove dev) else none
  | .upload dev key => if key = k then some (.upload dev) else none
  | .addChange dev dataId => if dataId = hashed k then some (.addChange dev) else some .skip
  | .uploadDone dev dataId => if dataId = hashed k then some (.uploadDone dev) else none
  | .send dev sender dataId => if dataId = hashed k then some (.send dev sender) else none
  | .deliver dev n =>
    match (s.inbox dev)[n]? with
    | some m => if m.payload.key = k then some (.deliver dev (m.map Change.item)) else none
    | none => none
  | .complete dev n =>
    match (s.received dev)[n]? with
    | some m => if m.payload.key = k then some (.complete dev (m.map Change.item)) else none
    | none => none

/-- The user of a device saves, removes or clears the key. -/
def Action.Edits (k : ObjectKey) : Action Dev Data → Prop
  | .save _ key _ => key = k
  | .remove _ key => key = k
  | .clear _ typeName => k.typeName = typeName
  | _ => False

variable {hashed} in
theorem edits_of_laneAction {k : ObjectKey} {s : State Dev jsonHash} {a : Action Dev Data}
    {b : Lane.Action Dev Data} (h : laneAction hashed k s a = some b) (hb : b.IsEdit) : a.Edits k := by
  cases a with
  | save dev key data => exact (Option.ite_none_right_eq_some.mp h).1
  | remove dev key => exact (Option.ite_none_right_eq_some.mp h).1
  | clear dev typeName => exact (Option.ite_none_right_eq_some.mp h).1
  | upload dev key =>
    cases (Option.ite_none_right_eq_some.mp h).2
    exact hb
  | addChange dev dataId =>
    simp only [laneAction] at h
    split at h <;> cases h <;> exact hb
  | uploadDone dev dataId =>
    cases (Option.ite_none_right_eq_some.mp h).2
    exact hb
  | send dev sender dataId =>
    cases (Option.ite_none_right_eq_some.mp h).2
    exact hb
  | deliver dev n =>
    simp only [laneAction] at h
    split at h
    · cases (Option.ite_none_right_eq_some.mp h).2
      exact hb
    · cases h
  | complete dev n =>
    simp only [laneAction] at h
    split at h
    · cases (Option.ite_none_right_eq_some.mp h).2
      exact hb
    · cases h

end

section

variable {Dev Data Checksum : Type*} {jsonHash : Data → Checksum} {hashed : ObjectKey → QByteArray}
  {K : Set ObjectKey} [DecidableEq Dev] {s t : State Dev jsonHash} (k : ObjectKey)

omit [DecidableEq Dev] in
@[simp] theorem lane_empty : lane hashed k (State.empty : State Dev jsonHash) = Lane.State.empty := by
  simp [lane, State.empty, Lane.State.empty, messagesOf]

/-- The state of the lane depends on the row of its key only. -/
theorem lane_setIndex (s : State Dev jsonHash) (dev : Dev) (index : DataIndex jsonHash) :
    lane hashed k (s.setIndex dev index) = (lane hashed k s).setRow dev (index k) := by
  refine Lane.State.ext ?_ rfl rfl rfl rfl rfl
  funext d
  by_cases hd : d = dev
  · subst hd
    simp [lane, State.setIndex]
  · simp [lane, State.setIndex, Lane.State.setRow_row_of_ne _ hd, Function.update_of_ne hd]

theorem lane_setIndex_of_eq (s : State Dev jsonHash) (dev : Dev) {index : DataIndex jsonHash}
    (h : index k = s.index dev k) : lane hashed k (s.setIndex dev index) = lane hashed k s := by
  rw [lane_setIndex, h]
  exact Lane.State.ext (Function.update_eq_self dev _) rfl rfl rfl rfl rfl

theorem lane_setUpload_self (s : State Dev jsonHash) (dev : Dev) (o : Option (Upload (Change Data))) :
    lane hashed k (s.setUpload dev (hashed k) o) =
      { lane hashed k s with
        upload := Function.update (lane hashed k s).upload dev (o.map (Upload.map Change.item)) } := by
  refine Lane.State.ext rfl ?_ rfl rfl rfl rfl
  funext d
  by_cases hd : d = dev
  · subst hd
    simp [lane, State.setUpload]
  · simp [lane, State.setUpload, Function.update_of_ne hd]

theorem lane_setUpload_of_ne (s : State Dev jsonHash) (dev : Dev) {dataId : QByteArray}
    (h : dataId ≠ hashed k) (o : Option (Upload (Change Data))) :
    lane hashed k (s.setUpload dev dataId o) = lane hashed k s := by
  refine Lane.State.ext rfl ?_ rfl rfl rfl rfl
  funext d
  by_cases hd : d = dev
  · subst hd
    simp [lane, State.setUpload, Function.update_of_ne h.symm]
  · simp [lane, State.setUpload, Function.update_of_ne hd]

theorem lane_addChange_self [Fintype Dev] (s : State Dev jsonHash) (dev : Dev) (c : Change Data) :
    lane hashed k (s.addChange dev (hashed k) c) =
      { lane hashed k s with
        stored := Function.update (lane hashed k s).stored dev
          (StoredChange.add s.nextId c.item (Finset.univ.erase dev)),
        nextId := s.nextId + 1 } := by
  refine Lane.State.ext rfl rfl ?_ rfl rfl rfl
  funext d
  by_cases hd : d = dev
  · subst hd
    simp [lane, State.addChange, State.setStored, StoredChange.add_map]
  · simp [lane, State.addChange, State.setStored, Function.update_of_ne hd]

theorem lane_addChange_of_ne [Fintype Dev] (s : State Dev jsonHash) (dev : Dev) {dataId : QByteArray}
    (h : dataId ≠ hashed k) (c : Change Data) :
    lane hashed k (s.addChange dev dataId c) = { lane hashed k s with nextId := s.nextId + 1 } := by
  refine Lane.State.ext rfl rfl ?_ rfl rfl rfl
  funext d
  by_cases hd : d = dev
  · subst hd
    simp [lane, State.addChange, State.setStored, Function.update_of_ne h.symm]
  · simp [lane, State.addChange, State.setStored, Function.update_of_ne hd]

omit [DecidableEq Dev] in
theorem messagesOf_concat_self (l : List (Message (Change Data))) {m : Message (Change Data)}
    (hm : m.payload.key = k) :
    messagesOf k (l ++ [m]) = insert (m.map Change.item) (messagesOf k l) := by
  ext x
  constructor
  · rintro ⟨m', hm', hk, rfl⟩
    rcases List.mem_append.mp hm' with h | h
    · exact Or.inr ⟨m', h, hk, rfl⟩
    · rw [List.mem_singleton] at h
      exact Or.inl (by rw [h])
  · rintro (rfl | ⟨m', hm', hk, rfl⟩)
    · exact ⟨m, by simp, hm, rfl⟩
    · exact ⟨m', List.mem_append_left _ hm', hk, rfl⟩

omit [DecidableEq Dev] in
theorem messagesOf_concat_of_ne (l : List (Message (Change Data))) {m : Message (Change Data)}
    (hm : m.payload.key ≠ k) : messagesOf k (l ++ [m]) = messagesOf k l := by
  ext x
  constructor
  · rintro ⟨m', hm', hk, rfl⟩
    rcases List.mem_append.mp hm' with h | h
    · exact ⟨m', h, hk, rfl⟩
    · rw [List.mem_singleton] at h
      exact absurd (h ▸ hk) hm
  · rintro ⟨m', hm', hk, rfl⟩
    exact ⟨m', List.mem_append_left _ hm', hk, rfl⟩

theorem lane_sendTo_self (s : State Dev jsonHash) (dev : Dev) {m : Message (Change Data)}
    (hm : m.payload.key = k) :
    lane hashed k (s.sendTo dev m) =
      { lane hashed k s with
        inbox := Function.update (lane hashed k s).inbox dev
          (insert (m.map Change.item) ((lane hashed k s).inbox dev)) } := by
  refine Lane.State.ext rfl rfl rfl ?_ rfl rfl
  funext d
  by_cases hd : d = dev
  · subst hd
    simp [lane, State.sendTo, messagesOf_concat_self k _ hm]
  · simp [lane, State.sendTo, Function.update_of_ne hd]

theorem lane_sendTo_of_ne (s : State Dev jsonHash) (dev : Dev) {m : Message (Change Data)}
    (hm : m.payload.key ≠ k) : lane hashed k (s.sendTo dev m) = lane hashed k s := by
  refine Lane.State.ext rfl rfl rfl ?_ rfl rfl
  funext d
  by_cases hd : d = dev
  · subst hd
    simp [lane, State.sendTo, messagesOf_concat_of_ne k _ hm]
  · simp [lane, State.sendTo, Function.update_of_ne hd]

theorem lane_receive_self (s : State Dev jsonHash) (dev : Dev) {m : Message (Change Data)}
    (hm : m.payload.key = k) :
    lane hashed k (s.receive dev m) =
      { lane hashed k s with
        received := Function.update (lane hashed k s).received dev
          (insert (m.map Change.item) ((lane hashed k s).received dev)) } := by
  refine Lane.State.ext rfl rfl rfl rfl ?_ rfl
  funext d
  by_cases hd : d = dev
  · subst hd
    simp [lane, State.receive, messagesOf_concat_self k _ hm]
  · simp [lane, State.receive, Function.update_of_ne hd]

theorem lane_receive_of_ne (s : State Dev jsonHash) (dev : Dev) {m : Message (Change Data)}
    (hm : m.payload.key ≠ k) : lane hashed k (s.receive dev m) = lane hashed k s := by
  refine Lane.State.ext rfl rfl rfl rfl ?_ rfl
  funext d
  by_cases hd : d = dev
  · subst hd
    simp [lane, State.receive, messagesOf_concat_of_ne k _ hm]
  · simp [lane, State.receive, Function.update_of_ne hd]

theorem lane_complete (s : State Dev jsonHash) (dev : Dev) (id : ℕ) :
    lane hashed k (s.complete dev id) =
      { lane hashed k s with
        stored := fun sender => StoredChange.complete dev id ((lane hashed k s).stored sender) } := by
  refine Lane.State.ext rfl rfl ?_ rfl rfl rfl
  funext d
  simp [lane, State.complete, StoredChange.complete_map]

/-- A change of another key is not stored for the lane. -/
theorem lane_complete_of_ne (W : WellFormed hashed K s) (dev : Dev) {f : Dev} {m : Message (Change Data)}
    (hm : m ∈ s.inbox f) (hk : hashed m.payload.key ≠ hashed k) :
    lane hashed k (s.complete dev m.id) = lane hashed k s := by
  rw [lane_complete]
  refine Lane.State.ext rfl rfl ?_ rfl rfl rfl
  funext d
  cases hst : s.datachanges d (hashed k) with
  | none => simp [lane, hst, StoredChange.complete]
  | some st =>
    have hne : st.id ≠ m.id := by
      intro hid
      have hpay := W.inbox_stored f m hm d _ st hst hid.symm
      rw [hpay] at hk
      exact hk (W.stored_key d _ st hst).2
    simp [lane, hst, StoredChange.complete, StoredChange.map, hne]

omit [DecidableEq Dev] in
/-- The ids of the server identify the changes of the lane. -/
theorem WellFormed.lane (W : WellFormed hashed K s) : Lane.Ids (lane hashed k s) := by
  have hst : ∀ d st', (System.lane hashed k s).stored d = some st' →
      ∃ st, s.datachanges d (hashed k) = some st ∧ st' = st.map Change.item := by
    intro d st' h
    obtain ⟨st, h1, h2⟩ := Option.map_eq_some_iff.mp h
    exact ⟨st, h1, h2.symm⟩
  refine ⟨?_, ?_, ?_, ?_, ?_, ?_, ?_⟩
  · intro d st' h
    obtain ⟨st, h1, rfl⟩ := hst d st' h
    exact W.stored_lt d _ st h1
  · rintro f _ ⟨m, hm, -, rfl⟩
    exact W.inbox_lt f m hm
  · intro d d' st₁ st₂ h h' hid
    obtain ⟨st, h1, rfl⟩ := hst d st₁ h
    obtain ⟨st', h2, rfl⟩ := hst d' st₂ h'
    exact (W.stored_inj d d' _ _ st st' h1 h2 hid).1
  · rintro f _ d st' ⟨m, hm, -, rfl⟩ h hid
    obtain ⟨st, h1, rfl⟩ := hst d st' h
    exact congrArg Change.item (W.inbox_stored f m hm d _ st h1 hid)
  · rintro f f' _ _ ⟨m, hm, -, rfl⟩ ⟨m', hm', -, rfl⟩ hid
    exact congrArg Change.item (W.inbox_inj f f' m hm m' hm' hid)
  · rintro f _ ⟨m, hm, hk, rfl⟩
    exact ⟨m, W.received_inbox f m hm, hk, rfl⟩
  · intro d st' h
    obtain ⟨st, h1, rfl⟩ := hst d st' h
    exact W.sender d _ st h1

variable [Fintype Dev] [LinearOrder Checksum] {conf : Dev → Defaults Data}

/-- **A step of the system is a step of the lane** of each key, or does not touch it. -/
theorem lane_step (hh : Set.InjOn hashed K) (hK : k ∈ K) (W : WellFormed hashed K s)
    {a : Action Dev Data} (h : step conf hashed s a = some t) :
    match laneAction hashed k s a with
    | some b => Lane.Step conf k (lane hashed k s) b (lane hashed k t)
    | none => lane hashed k t = lane hashed k s := by
  cases a with
  | save dev key data =>
    obtain ⟨e, he, rfl⟩ := step_save h
    simp only [laneAction]
    split_ifs with hk
    · subst hk
      simp only [lane_setIndex, Function.update_self]
      exact .save he
    · exact lane_setIndex_of_eq k s dev (Function.update_of_ne (Ne.symm hk) ..)
  | remove dev key =>
    rw [step_remove h]
    simp only [laneAction]
    split_ifs with hk
    · subst hk
      simp only [lane_setIndex, Function.update_self]
      exact .remove
    · exact lane_setIndex_of_eq k s dev (Function.update_of_ne (Ne.symm hk) ..)
  | clear dev typeName =>
    rw [step_clear h]
    simp only [laneAction]
    split_ifs with hk
    · simp only [lane_setIndex, DataIndex.clear, if_pos hk, LocalStore.clear_eq_remove]
      exact .remove
    · exact lane_setIndex_of_eq k s dev (if_neg hk)
  | upload dev key =>
    obtain ⟨r, hr, hch, hn, rfl⟩ := step_upload h
    simp only [laneAction]
    split_ifs with hk
    · subst hk
      rw [lane_setUpload_self]
      exact .upload hr hch (by simp [lane, hn])
    · exact lane_setUpload_of_ne k s dev (fun hx => hk (hh (W.row_key dev key r hr) hK hx)) _
  | addChange dev dataId =>
    obtain ⟨c, hc, rfl⟩ := step_addChange h
    simp only [laneAction]
    split_ifs with hk
    · subst hk
      rw [lane_addChange_self, lane_setUpload_self]
      exact .addChange (by simp [lane, hc, Upload.map])
    · simp only [lane_addChange_of_ne k _ dev hk, lane_setUpload_of_ne k s dev hk]
      exact .skip
  | uploadDone dev dataId =>
    obtain ⟨c, hc, rfl⟩ := step_uploadDone h
    obtain ⟨hcK, hkey⟩ := W.upload_key dev dataId _ hc
    simp only [laneAction]
    split_ifs with hk
    · have hck : c.key = k := hh hcK hK (hkey.trans hk)
      subst hck hk
      simp only [lane_setUpload_self, lane_setIndex, Function.update_self]
      exact .uploadDone (x := c.item) (by simp [lane, hc, Upload.map])
    · have hck : c.key ≠ k := by
        rintro rfl
        exact hk hkey.symm
      rw [lane_setUpload_of_ne k _ dev hk, lane_setIndex_of_eq k s dev (Function.update_of_ne hck.symm ..)]
  | send dev sender dataId =>
    obtain ⟨st, hst, hp, rfl⟩ := step_send h
    obtain ⟨hcK, hkey⟩ := W.stored_key sender dataId st hst
    simp only [laneAction]
    split_ifs with hk
    · have hck : st.payload.key = k := hh hcK hK (hkey.trans hk)
      subst hk
      rw [lane_sendTo_self k s dev hck]
      have hst' : (lane hashed k s).stored sender = some (st.map Change.item) := by simp [lane, hst]
      exact .send hst' hp
    · refine lane_sendTo_of_ne k s dev ?_
      rintro rfl
      exact hk hkey.symm
  | deliver dev n =>
    obtain ⟨m, e, hm, he, rfl⟩ := step_deliver h
    simp only [laneAction, hm]
    split_ifs with hk
    · rw [lane_receive_self k _ dev hk, lane_setIndex]
      subst hk
      rw [Function.update_self]
      exact .deliver ⟨m, List.mem_of_getElem? hm, rfl, rfl⟩ he
    · rw [lane_receive_of_ne k _ dev hk,
        lane_setIndex_of_eq k s dev (Function.update_of_ne (Ne.symm hk) ..)]
  | complete dev n =>
    obtain ⟨m, hm, rfl⟩ := step_complete h
    have hmem := List.mem_of_getElem? hm
    simp only [laneAction, hm]
    split_ifs with hk
    · rw [lane_complete]
      exact .complete (m := m.map Change.item) ⟨m, hmem, hk, rfl⟩
    · have hinb := W.received_inbox dev m hmem
      exact lane_complete_of_ne k W dev hinb fun hx => hk (hh (W.inbox_key dev m hinb) hK hx)

variable {G : State Dev jsonHash → Action Dev Data → Prop}

/-- What the steps of a lane keep holds of the lane in every reachable state. -/
theorem lane_invariant (hh : Set.InjOn hashed K) (hK : k ∈ K) (hG : ∀ s a, G s a → a.Uses K) {P : Lane.State Dev jsonHash → Prop}
    (h0 : P .empty)
    (hs : ∀ s a b t, (lts conf hashed).Reachable G s → G s a → laneAction hashed k s a = some b →
      Lane.Ids (lane hashed k s) → P (lane hashed k s) → Lane.Step conf k (lane hashed k s) b t → P t)
    (h : (lts conf hashed).Reachable G s) : P (lane hashed k s) := by
  refine h.invariant (I := fun s => P (lane hashed k s)) ?_ ?_
  · rintro s rfl
    rw [lane_empty]
    exact h0
  · intro s a t hr hP hg hst
    have W := WellFormed.reachable hG hr
    have hl := lane_step k hh hK W hst
    split at hl
    · exact hs s a _ _ hr hg ‹_› (W.lane k) hP hl
    · rw [hl]
      exact hP

omit [DecidableEq Dev] [Fintype Dev] [LinearOrder Checksum] in
theorem Quiescent.lane (hq : Quiescent s) : Lane.Quiescent (lane hashed k s) where
  stored d st' h := by
    obtain ⟨st, hst, rfl⟩ := Option.map_eq_some_iff.mp h
    exact hq.stored d _ st hst
  unchanged d r h := hq.unchanged d k r h
  upload d := by simp [System.lane, hq.upload d]

omit [DecidableEq Dev] [Fintype Dev] [LinearOrder Checksum] in
/-- Only the keys in use can have anything left to be done. -/
theorem Quiescent.of_lanes (W : WellFormed hashed K s)
    (h : ∀ k ∈ K, Lane.Quiescent (System.lane hashed k s)) : Quiescent s where
  stored d h' st hst := by
    obtain ⟨hk, rfl⟩ := W.stored_key d h' st hst
    exact (h _ hk).stored d (st.map Change.item) (by simp [System.lane, hst])
  unchanged d k r hr := (h k (W.row_key d k r hr)).unchanged d r hr
  upload d h' := by
    cases hu : s.activeUploads d h' with
    | none => rfl
    | some u =>
      obtain ⟨hk, rfl⟩ := W.upload_key d h' u hu
      have := (h _ hk).upload d
      simp [System.lane, hu] at this

end

end System

end QtDataSync
