import QtDataSync.Exchange.Upload

/-!
# Exchange.Discard — one key without `PersistDeleted`

Deletions are dropped when their upload is acknowledged and when another deletion arrives; nothing then tells a device
any more which versions it has seen, and what an erased row stood for must be carried by the other devices.  `ledger`
reads that off the state of a lane.  Every step is one or two steps of the ledger as long as it forgets nothing that
other devices depend on (`Keeps`), so the ledger is `Sound` in every state that such a run reaches.
-/

namespace QtDataSync

namespace Lane

variable {Dev Data Checksum : Type*} {jsonHash : Data → Checksum}

section Ledger

open Classical in
/-- What the devices hold, have to send and are to receive. -/
noncomputable def ledger (s : State Dev jsonHash) : Ledger Dev Data where
  object d := objectOf (s.row d)
  unsent d := unsentOf (s.row d) (s.upload d)
  waiting f d := (s.stored f).bind fun st =>
    if d ∈ st.pending ∧ ∀ m ∈ s.received d, m.id ≠ st.id then some ⟨st.id, st.payload⟩ else none

variable {s t : State Dev jsonHash}

theorem ledger_waiting {f d : Dev} {m : Message (Item Data)} :
    (ledger s).waiting f d = some m ↔ ∃ st, s.stored f = some st ∧ d ∈ st.pending ∧
      (∀ m' ∈ s.received d, m'.id ≠ st.id) ∧ m = ⟨st.id, st.payload⟩ := by
  show (s.stored f).bind _ = some m ↔ _
  rw [Option.bind_eq_some_iff]
  constructor
  · rintro ⟨st, hst, h⟩
    split_ifs at h with hp
    cases h
    exact ⟨st, hst, hp.1, hp.2, rfl⟩
  · rintro ⟨st, hst, hp, hr, rfl⟩
    exact ⟨st, hst, if_pos ⟨hp, hr⟩⟩

end Ledger

/-! ### What the steps must not forget -/

section Guard

variable [LinearOrder Checksum] (conf : Dev → Defaults Data) (key : ObjectKey) (s : State Dev jsonHash)

/-- The change is pending for the device, which has received all that are pending for it with a lower id. -/
def InOrder (dev : Dev) (m : Message (Item Data)) : Prop :=
  (∃ d st, s.stored d = some st ∧ dev ∈ st.pending ∧ st.id = m.id) ∧
    ∀ d st, s.stored d = some st → dev ∈ st.pending → st.id < m.id → ∃ m' ∈ s.received dev, m'.id = st.id

/-- Deliveries are in order, and no device saves a key of which it has stored a deletion. -/
def Assumed (removed : Dev → Bool) : Action Dev Data → Prop
  | .save dev _ => removed dev = false
  | .deliver dev m => InOrder s dev m
  | _ => True

/-- What a delivery does not forget. -/
structure KeepsDelivery (dev : Dev) (m : Message (Item Data)) : Prop where
  /-- A change that was received before changes nothing. -/
  again : m ∈ s.received dev →
    SyncController.syncChange (conf dev) (s.row dev) (Change.ofItem key m.payload) = .ok (s.row dev)
  /-- While an upload of the erased row is active, no object of a lower version is stored. -/
  stored : s.row dev = none → m.payload.content ≠ none → ∀ u, s.upload dev = some u →
    u.payload.version ≤ m.payload.version
  /-- When a deletion is dropped that is not on the server, no object is being uploaded, and all lower objects are
  superseded. -/
  erased : m.payload.content = none → ∀ r, s.row dev = some r → r.content = none → r.version ≤ m.payload.version →
    sent (s.upload dev) r.version = false → (∀ u, s.upload dev = some u → u.payload.content = none) ∧
      (ledger s).Superseded dev fun x => x.version < r.version
  /-- When an object is dropped for a deletion that waits for its acknowledgement, it is superseded elsewhere. -/
  dropped : m.payload.content ≠ none → ∀ r, s.row dev = some r → r.content = none → m.payload.version < r.version →
    sent (s.upload dev) r.version = true → (ledger s).Superseded dev (· ≤ m.payload)

/-- The step forgets nothing that other devices depend on. -/
def Keeps : Action Dev Data → Prop
  | .addChange dev => ∀ x, s.upload dev = some ⟨x, false⟩ → ∀ e m, (ledger s).waiting dev e = some m → m.payload ≤ x
  | .deliver dev m => KeepsDelivery conf key s dev m
  | _ => True

end Guard

/-! ### The steps of the ledger -/

section Steps

variable [DecidableEq Dev] {s t : State Dev jsonHash}

theorem ledger_setRow (dev : Dev) (e : Entry jsonHash) :
    ledger (s.setRow dev e) = (ledger s).write dev (objectOf e) (unsentOf e (s.upload dev)) := by
  refine Ledger.ext_some (fun d => ?_) (fun d => ?_) fun _ _ _ => Iff.rfl
  · show objectOf ((s.setRow dev e).row d) = _
    rcases eq_or_ne d dev with rfl | hd
    · rw [State.setRow_row_self, Ledger.write_object_self]
    · rw [State.setRow_row_of_ne s hd, Ledger.write_object_of_ne hd]
      rfl
  · show unsentOf ((s.setRow dev e).row d) (s.upload d) = _
    rcases eq_or_ne d dev with rfl | hd
    · rw [State.setRow_row_self, Ledger.write_unsent_self]
    · rw [State.setRow_row_of_ne s hd, Ledger.write_unsent_of_ne hd]
      rfl

/-- The first delivery of a pending change takes it from those to be received. -/
theorem ledger_receive (I : Ids s) {g dev : Dev} {m : Message (Item Data)}
    (hm : (ledger s).waiting g dev = some m) :
    ledger { s with received := Function.update s.received dev (insert m (s.received dev)) } =
      (ledger s).drop g dev := by
  obtain ⟨st, hst, -, -, rfl⟩ := ledger_waiting.mp hm
  refine Ledger.ext_some (fun _ => rfl) (fun _ => rfl) fun f d m' => ?_
  rw [ledger_waiting]
  rcases eq_or_ne d dev with rfl | hd
  · simp only [Function.update_self, Set.mem_insert_iff, forall_eq_or_imp]
    rcases eq_or_ne f g with rfl | hf
    · constructor
      · rintro ⟨st', hst', -, ⟨hid, -⟩, -⟩
        rw [hst, Option.some.injEq] at hst'
        exact absurd (congrArg StoredChange.id hst') hid
      · intro h
        simp [Ledger.drop] at h
    · rw [Ledger.waiting_drop_of_ne fun h => hf h.1, ledger_waiting]
      constructor
      · rintro ⟨st', hst', hp, ⟨-, hr⟩, rfl⟩
        exact ⟨st', hst', hp, hr, rfl⟩
      · rintro ⟨st', hst', hp, hr, rfl⟩
        exact ⟨st', hst', hp, ⟨fun hid => hf (I.stored_inj _ _ _ _ hst' hst hid.symm), hr⟩, rfl⟩
  · rw [Ledger.waiting_drop_of_ne fun h => hd h.2, ledger_waiting]
    simp only [Function.update_of_ne hd]

/-- A completed change was received before. -/
theorem ledger_complete {dev : Dev} {m : Message (Item Data)} (hm : m ∈ s.received dev) :
    ledger { s with stored := fun sender => StoredChange.complete dev m.id (s.stored sender) } = ledger s := by
  refine Ledger.ext_some (fun _ => rfl) (fun _ => rfl) fun f d m' => ?_
  rw [ledger_waiting, ledger_waiting]
  constructor
  · rintro ⟨st', hst', hp, hr, rfl⟩
    obtain ⟨st, hst, hid, hpay, hsub⟩ := StoredChange.complete_eq_some hst'
    exact ⟨st, hst, hsub hp, by rw [← hid]; exact hr, by rw [hid, hpay]⟩
  · rintro ⟨st, hst, hp, hr, rfl⟩
    have hne : ¬ (d = dev ∧ st.id = m.id) := by
      rintro ⟨rfl, hid⟩
      exact hr m hm hid.symm
    obtain ⟨st', hst', hid, hpay, hp'⟩ := StoredChange.mem_complete hp hne
    refine ⟨st', ?_, hp', by rw [hid]; exact hr, by rw [hid, hpay]⟩
    show StoredChange.complete dev m.id (s.stored f) = some st'
    rw [hst, hst']

/-- The acknowledgement of an upload: its version no longer counted as to be sent. -/
theorem Kept.uploadDone_eq {e : Entry jsonHash} {x : Item Data} {removed : Bool}
    (h : Kept e (some ⟨x, true⟩) removed) :
    objectOf (LocalStore.markUnchangedImpl false e x.version x.content.isNone) = objectOf e ∧
      unsentOf (LocalStore.markUnchangedImpl false e x.version x.content.isNone) none =
        unsentOf e (some ⟨x, true⟩) := by
  cases e with
  | none =>
    rw [LocalStore.markUnchangedImpl_none]
    exact ⟨rfl, rfl⟩
  | some r =>
    by_cases hv : r.version = x.version
    · have hsent : unsentOf (some r) (some ⟨x, true⟩) = none :=
        unsentOf_eq_none (Or.inr (sent_eq_true.mpr ⟨x, rfl, hv.symm⟩))
      rw [hsent]
      rcases (h.upload _ rfl).1 with hlt | heq | ⟨-, hn, hc, hch⟩
      · simp only at hlt
        omega
      · have hc : r.content = x.content := congrArg Versioned.content heq
        cases hx : x.content with
        | none =>
          rw [hx] at hc
          rw [Option.isNone_none, LocalStore.markUnchangedImpl_delete hv (Option.map_eq_none_iff.mp hc),
            objectOf_deletion hc]
          exact ⟨rfl, rfl⟩
        | some data =>
          have hne : r.content ≠ none := by
            rw [hc, hx]
            exact Option.some_ne_none data
          rw [Option.isNone_some, LocalStore.markUnchangedImpl_change, Option.map_some, if_pos hv,
            objectOf_some hne]
          exact ⟨objectOf_some hne, unsentOf_eq_none (Or.inl rfl)⟩
      · -- the row is not the deletion that was acknowledged
        have hmark : LocalStore.markUnchangedImpl false (some r) x.version x.content.isNone = some r := by
          have hn' : x.content = none := hn
          rw [hn', Option.isNone_none, LocalStore.markUnchangedImpl_object hc]
        rw [hmark]
        exact ⟨rfl, unsentOf_eq_none (Or.inl hch)⟩
    · rw [LocalStore.markUnchangedImpl_ne _ hv]
      refine ⟨rfl, ?_⟩
      have hs : sent (some (⟨x, true⟩ : Upload (Item Data))) r.version = false := by
        refine Lane.sent_eq_false fun y hy => ?_
        cases hy
        exact fun h' => hv h'.symm
      unfold unsentOf
      rw [Option.filter_some, Option.filter_some, hs]
      rfl

theorem ledger_uploadDone {dev : Dev} {x : Item Data} {removed : Bool} (hu : s.upload dev = some ⟨x, true⟩)
    (h : Kept (s.row dev) (s.upload dev) removed) :
    ledger { s.setRow dev (LocalStore.markUnchangedImpl false (s.row dev) x.version x.content.isNone) with
      upload := Function.update s.upload dev none } = ledger s := by
  rw [hu] at h
  obtain ⟨ho, hw⟩ := h.uploadDone_eq
  refine Ledger.ext_some (fun d => ?_) (fun d => ?_) fun _ _ _ => Iff.rfl
  · show objectOf ((s.setRow dev _).row d) = objectOf (s.row d)
    rcases eq_or_ne d dev with rfl | hd
    · rw [State.setRow_row_self, ho]
    · rw [State.setRow_row_of_ne s hd]
  · show unsentOf ((s.setRow dev _).row d) (Function.update s.upload dev none d) = unsentOf (s.row d) (s.upload d)
    rcases eq_or_ne d dev with rfl | hd
    · rw [State.setRow_row_self, Function.update_self, hw, hu]
    · rw [State.setRow_row_of_ne s hd, Function.update_of_ne hd]

/-- An upload that is only begun sends nothing yet. -/
theorem ledger_upload {dev : Dev} {x : Item Data} (hu : s.upload dev = none) :
    ledger { s with upload := Function.update s.upload dev (some ⟨x, false⟩) } = ledger s := by
  refine Ledger.ext_some (fun _ => rfl) (fun d => ?_) fun _ _ _ => Iff.rfl
  show unsentOf (s.row d) (Function.update s.upload dev (some ⟨x, false⟩) d) = unsentOf (s.row d) (s.upload d)
  rcases eq_or_ne d dev with rfl | hd
  · rw [Function.update_self, hu]
    unfold unsentOf sent
    rfl
  · rw [Function.update_of_ne hd]

variable [Fintype Dev]

/-- What the server stores under the next id waits for all other devices. -/
theorem ledger_addChange (I : Ids s) {dev : Dev} {x : Item Data} (hu : s.upload dev = some ⟨x, false⟩) :
    ledger { s with
      upload := Function.update s.upload dev (some ⟨x, true⟩),
      stored := Function.update s.stored dev (StoredChange.add s.nextId x (Finset.univ.erase dev)),
      nextId := s.nextId + 1 } = (ledger s).store dev ⟨s.nextId, x⟩ := by
  refine Ledger.ext_some (fun _ => rfl) (fun d => ?_) fun f d m' => ?_
  · show unsentOf (s.row d) (Function.update s.upload dev (some ⟨x, true⟩) d) = _
    rcases eq_or_ne d dev with rfl | hd
    · rw [Function.update_self]
      have hold : ∀ v, sent (s.upload d) v = false := by
        intro v
        rw [hu]
        exact sent_eq_false fun y hy => by cases hy
      by_cases hw : (ledger s).unsent d = some x.version
      · rw [Ledger.unsent_store_sent hw]
        obtain ⟨r, hr, -, -, hv⟩ := unsentOf_eq_some.mp hw
        rw [hr]
        exact unsentOf_eq_none (Or.inr (sent_eq_true.mpr ⟨x, rfl, hv.symm⟩))
      · rw [Ledger.unsent_store_self hw]
        show _ = unsentOf (s.row d) (s.upload d)
        refine Option.ext fun w => ?_
        rw [unsentOf_eq_some, unsentOf_eq_some]
        constructor
        · rintro ⟨r, hr, hch, -, rfl⟩
          exact ⟨r, hr, hch, hold r.version, rfl⟩
        · rintro ⟨r, hr, hch, hs, rfl⟩
          refine ⟨r, hr, hch, sent_eq_false fun y hy hv => hw ?_, rfl⟩
          cases hy
          rw [hv]
          exact unsentOf_eq_some.mpr ⟨r, hr, hch, hs, rfl⟩
    · rw [Function.update_of_ne hd, Ledger.unsent_store_of_ne hd]
      rfl
  · rw [ledger_waiting]
    show (∃ st, Function.update s.stored dev _ f = some st ∧ _) ↔ _
    rcases eq_or_ne f dev with rfl | hf
    · rw [Function.update_self]
      constructor
      · rintro ⟨st, hst, hp, -, rfl⟩
        rw [StoredChange.add_eq_some hst] at hp ⊢
        exact Ledger.waiting_store_self (Finset.ne_of_mem_erase hp)
      · intro h
        obtain ⟨hf, -⟩ | ⟨-, hd, rfl⟩ := Ledger.of_waiting_store h
        · exact absurd rfl hf
        have hmem : d ∈ Finset.univ.erase f := Finset.mem_erase.mpr ⟨hd, Finset.mem_univ d⟩
        refine ⟨_, StoredChange.add_of_mem hmem, hmem, fun m hm hid => ?_, rfl⟩
        have := I.inbox_lt d m (I.received_inbox d m hm)
        have hid' : m.id = s.nextId := hid
        omega
    · rw [Function.update_of_ne hf, Ledger.waiting_store_of_ne hf, ledger_waiting]

/-! ### The invariant -/

/-- The invariant of the exchange without `PersistDeleted`; `removed` holds where the row has been a deletion. -/
structure Discard (s : State Dev jsonHash) (removed : Dev → Bool) : Prop where
  nextId_pos : 0 < s.nextId
  kept : ∀ d, Kept (s.row d) (s.upload d) (removed d)
  sound : (ledger s).Sound

omit [DecidableEq Dev] [Fintype Dev] in
theorem Discard.init : Discard (State.empty : State Dev jsonHash) fun _ => false where
  nextId_pos := Nat.one_pos
  kept _ := ⟨fun _ h => (nomatch h), fun _ h => (nomatch h)⟩
  sound := by
    have hw : ∀ f d m, (ledger (State.empty : State Dev jsonHash)).waiting f d ≠ some m := by
      intro f d m h
      obtain ⟨st, hst, -⟩ := ledger_waiting.mp h
      cases hst
    refine ⟨fun d x i hb => ?_, fun f d m hm => absurd hm (hw f d m)⟩
    rcases hb with ⟨⟨hx, -⟩, -⟩ | ⟨f, m, hm, -⟩
    · cases hx
    · exact absurd hm (hw f d m)

variable [LinearOrder Checksum] {conf : Dev → Defaults Data} {key : ObjectKey} {removed : Dev → Bool}

omit [Fintype Dev] [LinearOrder Checksum] in
/-- A new version of a row raises the ledger. -/
theorem Discard.raise (D : Discard s removed) {dev : Dev} {r : Row jsonHash} (hch : r.changed = true)
    (hlt : ∀ r₀, s.row dev = some r₀ → r₀.version < r.version)
    (hu : ∀ x, s.upload dev = some x → x.payload.version < r.version) :
    ((ledger s).write dev (objectOf (some r)) (unsentOf (some r) (s.upload dev))).Sound := by
  have hs : sent (s.upload dev) r.version = false := sent_eq_false fun x hx => (hu _ hx).ne
  rw [unsentOf_changed hch hs]
  refine D.sound.raise (fun x hx => ?_) fun v hv => ?_
  · obtain ⟨r₀, hr₀, rfl, -⟩ := objectOf_eq_some.mp hx
    exact hlt r₀ hr₀
  · obtain ⟨r₀, hr₀, -, -, rfl⟩ := unsentOf_eq_some.mp hv
    exact hlt r₀ hr₀

omit [DecidableEq Dev] [Fintype Dev] in
/-- The upload of a device can be stored. -/
theorem Discard.storable (I : Ids s) (D : Discard s removed) {dev : Dev} {x : Item Data}
    (hu : s.upload dev = some ⟨x, false⟩) (hk : Keeps conf key s (.addChange dev)) :
    (ledger s).Storable dev ⟨s.nextId, x⟩ := by
  have hunsent : ∀ v, sent (s.upload dev) v = false := by
    intro v
    rw [hu]
    exact sent_eq_false fun y hy => by cases hy
  have hfollows := ((D.kept dev).upload _ hu).1
  refine ⟨D.nextId_pos, ?_, ?_, fun e m hm => hk x hu e m hm, ?_, ?_, ?_, ?_⟩
  · intro f e m hm
    obtain ⟨st, hst, -, -, rfl⟩ := ledger_waiting.mp hm
    exact I.stored_lt f st hst
  · rw [Option.eq_none_iff_forall_ne_some]
    intro m hm
    obtain ⟨st, hst, hp, -⟩ := ledger_waiting.mp hm
    exact I.sender dev st hst hp
  · intro w hw
    obtain ⟨r, hr, -, -, rfl⟩ := unsentOf_eq_some.mp hw
    rw [hr] at hfollows
    exact hfollows.version_le
  · intro y hy
    obtain ⟨r, hr, rfl, -⟩ := objectOf_eq_some.mp hy
    rw [hr] at hfollows
    exact hfollows.version_le
  · intro hw
    obtain ⟨r, hr, hch, -, hv⟩ := unsentOf_eq_some.mp hw
    show objectOf (s.row dev) = _
    rw [hr] at hfollows ⊢
    rcases hfollows with hlt | heq | ⟨-, -, -, hch'⟩
    · exact absurd hv hlt.ne'
    · have hx : r.item = x := heq
      unfold objectOf
      rw [Option.map_some, hx, Option.filter_some]
    · rw [hch] at hch'
      cases hch'
  · intro hc
    cases hr : s.row dev with
    | none =>
      rw [hr] at hfollows
      exact absurd hfollows hc
    | some r =>
      rw [hr] at hfollows
      by_cases hrc : r.content = none
      · -- the row is a deletion of a higher version, which is still to be uploaded
        have hch := ((D.kept dev).deletion r hr hrc).1
        refine Or.inr ⟨r.version, unsentOf_eq_some.mpr ⟨r, hr, hch, hunsent _, rfl⟩, ?_⟩
        rcases hfollows with hlt | heq | ⟨-, hn, -⟩
        · exact hlt
        · have hx : r.content = x.content := congrArg Versioned.content heq
          exact absurd (hx.symm.trans hrc) hc
        · exact absurd hn hc
      · refine Or.inl ⟨r.item, objectOf_eq_some.mpr ⟨r, hr, rfl, hrc⟩, ?_⟩
        rcases hfollows with hlt | heq | ⟨-, hn, -⟩
        · exact Versioned.le_of_version_lt hlt
        · exact le_of_eq heq.symm
        · exact absurd hn hc

/-- **A delivery** writes the row and takes the change from those to be received. -/
theorem Discard.deliver (hj : Function.Injective jsonHash) (D : Discard s removed) {g dev : Dev}
    {m : Message (Item Data)} {e : Entry jsonHash} (hp : (conf dev).persistDeleted = false)
    (hm : (ledger s).waiting g dev = some m)
    (horder : ∀ g' m', (ledger s).waiting g' dev = some m' → m.id ≤ m'.id)
    (hk : KeepsDelivery conf key s dev m)
    (ho : SyncController.SyncOutcome jsonHash (conf dev) (Change.ofItem key m.payload) (s.row dev) e) :
    (((ledger s).write dev (objectOf e) (unsentOf e (s.upload dev))).drop g dev).Sound := by
  obtain ⟨e₀, he₀⟩ : ∃ e₀, s.row dev = e₀ := ⟨_, rfl⟩
  have hobj : (ledger s).object dev = objectOf e₀ := by
    rw [← he₀]
    rfl
  have hunsent : (ledger s).unsent dev = unsentOf e₀ (s.upload dev) := by
    rw [← he₀]
    rfl
  have hself : (ledger s).write dev (objectOf e₀) (unsentOf e₀ (s.upload dev)) = ledger s := by
    rw [← hobj, ← hunsent]
    exact Ledger.write_self dev
  have hne : ∀ {c : Option Data}, (conf dev).persistDeleted = true ∨ c ≠ none → c ≠ none := by
    intro c hc
    exact hc.resolve_left (by rw [hp]; exact Bool.false_ne_true)
  -- an object that is stored without a new version is held for good
  have hsettle : ∀ r' : Row jsonHash, r'.item = m.payload → r'.changed = false → m.payload.content ≠ none →
      (∀ r, e₀ = some r → r.item ≤ m.payload) →
      (((ledger s).write dev (objectOf (some r')) (unsentOf (some r') (s.upload dev))).drop g dev).Sound := by
    intro r' hi hch hc hle
    have hc' : r'.content ≠ none := by
      rw [← Row.item_content, hi]
      exact hc
    rw [objectOf_some hc', hi, unsentOf_eq_none (Or.inl hch)]
    refine (D.sound.settle hm hc (fun x hx => ?_) fun v hv => ?_).receive hm horder (Or.inl ⟨m.payload, ?_, hc, le_rfl⟩)
    · rw [hobj] at hx
      obtain ⟨r, hr, rfl, -⟩ := objectOf_eq_some.mp hx
      exact hle r hr
    · rw [hunsent] at hv
      obtain ⟨r, hr, -, -, rfl⟩ := unsentOf_eq_some.mp hv
      exact Versioned.version_mono (hle r hr)
    · exact ⟨Ledger.write_object_self .., Ledger.write_unsent_self ..⟩
  -- a new version is to be sent
  have hraise : ∀ r r' : Row jsonHash, e₀ = some r → r'.changed = true → r.version < r'.version →
      m.payload.version ≤ r'.version → (m.payload.content ≠ none → m.payload.version < r'.version) →
      (((ledger s).write dev (objectOf (some r')) (unsentOf (some r') (s.upload dev))).drop g dev).Sound := by
    intro r r' hr hch hlt hmr hmr'
    have hkept := D.kept dev
    rw [he₀, hr] at hkept
    have hr₀ : ∀ r₀, s.row dev = some r₀ → r₀.version < r'.version := by
      intro r₀ h0
      rw [he₀, hr, Option.some.injEq] at h0
      exact h0 ▸ hlt
    have hu : ∀ x, s.upload dev = some x → x.payload.version < r'.version :=
      fun x hx => (hkept.upload_version_le hx).trans_lt hlt
    have hs : sent (s.upload dev) r'.version = false := sent_eq_false fun x hx => (hu _ hx).ne
    refine (D.raise hch hr₀ hu).receive hm horder (Or.inr (Or.inl ⟨r'.version, ?_, hmr, hmr'⟩))
    rw [Ledger.write_unsent_self, unsentOf_changed hch hs]
  rw [he₀] at ho
  cases ho with
  | @newer r hlt =>
    rw [hself]
    refine D.sound.receive hm horder ?_
    rw [hobj, hunsent]
    by_cases hc : r.content = none
    · have hch := ((D.kept dev).deletion r he₀ hc).1
      cases hs : sent (s.upload dev) r.version with
      | false =>
        have hlt' : m.payload.version < r.version := hlt
        exact Or.inr (Or.inl ⟨r.version, unsentOf_changed hch hs, hlt'.le, fun _ => hlt'⟩)
      | true => exact Or.inr (Or.inr ⟨objectOf_deletion hc, fun hmc => hk.dropped hmc r he₀ hc hlt hs⟩)
    · have hlt' : m.payload.version < r.version := hlt
      cases hw : unsentOf (some r) (s.upload dev) with
      | none =>
        refine Or.inl ⟨r.item, ⟨?_, ?_⟩, hc, Versioned.le_of_version_lt hlt'⟩
        · rw [hobj, objectOf_some hc]
        · rw [hunsent, hw]
      | some w =>
        obtain ⟨r', hr', -, -, rfl⟩ := unsentOf_eq_some.mp hw
        cases hr'
        exact Or.inr (Or.inl ⟨_, rfl, hlt'.le, fun _ => hlt'⟩)
  | ignored _ hc =>
    rw [hself]
    exact D.sound.receive hm horder (Or.inr (Or.inr ⟨hobj, fun hmc => absurd hc hmc⟩))
  | @taken _ r' hlt hc hi hch =>
    exact hsettle r' hi hch (hne hc) fun r hr => Versioned.le_of_version_lt (hlt r hr)
  | @identical r hc hv hcs =>
    have hi : r.item = m.payload := SyncController.item_eq_of_checksum hj hv hcs
    refine hsettle { r with changed := false } hi rfl (hne hc) fun r' hr' => ?_
    cases hr'
    exact hi.le
  | @echo r r' _ hc _ hlt hi hch =>
    have hv : r'.version = m.payload.version := congrArg Versioned.version hi
    exact hraise r r' rfl hch (by rw [hv]; exact hlt) hv.ge fun hmc => absurd hc hmc
  | @tie r r' hv _ _ hv' hch =>
    have h1 : r.version = m.payload.version := hv
    have h2 : r'.version = m.payload.version + 1 := hv'
    exact hraise r r' rfl hch (by omega) (by omega) fun _ => by omega
  | @erased r _ hc hrc hle =>
    have hforget : ((ledger s).write dev none none).Sound := by
      refine D.sound.forget (by rw [hobj, objectOf_deletion hrc]) fun w hw => ?_
      rw [hunsent] at hw
      obtain ⟨r', hr', -, hs, rfl⟩ := unsentOf_eq_some.mp hw
      cases hr'
      exact (hk.erased hc r he₀ hrc hle hs).2
    refine hforget.receive hm horder (Or.inr (Or.inr ⟨?_, fun hmc => absurd hc hmc⟩))
    exact Ledger.write_object_self ..

omit [DecidableEq Dev] [Fintype Dev] [LinearOrder Checksum] in
/-- A pending change that is delivered in order was received before, or is the first of those to be received. -/
theorem InOrder.first (I : Ids s) {dev : Dev} {m : Message (Item Data)} (hin : m ∈ s.inbox dev)
    (h : InOrder s dev m) : m ∈ s.received dev ∨
      (∃ g, (ledger s).waiting g dev = some m) ∧
        ∀ g' m', (ledger s).waiting g' dev = some m' → m.id ≤ m'.id := by
  obtain ⟨⟨g, st, hst, hp, hid⟩, hlow⟩ := h
  have hpay := I.inbox_stored dev m g st hin hst hid.symm
  by_cases hr : m ∈ s.received dev
  · exact Or.inl hr
  refine Or.inr ⟨⟨g, ledger_waiting.mpr ⟨st, hst, hp, fun m' hm' hid' => hr ?_, ?_⟩⟩, fun g' m' hm' => ?_⟩
  · -- the id determines the message
    have hpay' := I.inbox_inj dev dev m' m (I.received_inbox dev m' hm') hin (hid'.trans hid)
    have heq : m' = m := by
      obtain ⟨i, x⟩ := m
      obtain ⟨i', x'⟩ := m'
      simp only at hpay' hid hid'
      rw [hpay', hid', hid]
    exact heq ▸ hm'
  · obtain ⟨i, x⟩ := m
    simp only at hid hpay
    rw [hid, hpay]
  · obtain ⟨st', hst', hp', hr', rfl⟩ := ledger_waiting.mp hm'
    by_contra hlt
    obtain ⟨m'', hm'', hid''⟩ := hlow g' st' hst' hp' (not_le.mp hlt)
    exact hr' m'' hm'' hid''

omit [Fintype Dev] [LinearOrder Checksum] in
/-- Only the row of one device is written. -/
theorem Discard.setRow (D : Discard s removed) {dev : Dev} {e : Entry jsonHash}
    (hkept : Kept e (s.upload dev) (removedBy (removed dev) e))
    (hsound : ((ledger s).write dev (objectOf e) (unsentOf e (s.upload dev))).Sound) :
    Discard (s.setRow dev e) fun d => removedBy (removed d) ((s.setRow dev e).row d) := by
  refine ⟨D.nextId_pos, fun d => ?_, by rw [ledger_setRow]; exact hsound⟩
  rcases eq_or_ne d dev with rfl | hd
  · rw [State.setRow_row_self]
    exact hkept
  · rw [State.setRow_row_of_ne s hd]
    exact (D.kept d).mono

omit [Fintype Dev] [LinearOrder Checksum] in
/-- A row that is written as it is. -/
theorem Discard.setRow_self (D : Discard s removed) (dev : Dev) :
    Discard (s.setRow dev (s.row dev)) fun d => removedBy (removed d) ((s.setRow dev (s.row dev)).row d) := by
  refine D.setRow (D.kept dev).mono ?_
  show ((ledger s).write dev ((ledger s).object dev) ((ledger s).unsent dev)).Sound
  rw [Ledger.write_self]
  exact D.sound

omit [Fintype Dev] [LinearOrder Checksum] in
/-- The row of a device stays, and so does what its upload carries. -/
theorem Discard.setUpload (D : Discard s removed) {dev : Dev} {u : Option (Upload (Item Data))}
    (hu : ∀ x, u = some x → Follows x.payload (s.row dev) ∧ (x.payload.content = none → removed dev = true))
    (d : Dev) : Kept (s.row d) (Function.update s.upload dev u d) (removedBy (removed d) (s.row d)) := by
  rcases eq_or_ne d dev with rfl | hd
  · rw [Function.update_self]
    exact Kept.mono ⟨(D.kept d).deletion, hu⟩
  · rw [Function.update_of_ne hd]
    exact (D.kept d).mono

/-- **Every step keeps the invariant**, if what is assumed of the users and the server holds and nothing is forgotten. -/
theorem Discard.step (hj : Function.Injective jsonHash) (hp : ∀ d, (conf d).persistDeleted = false) (I : Ids s)
    (D : Discard s removed) {a : Action Dev Data} (ha : Assumed s removed a) (hk : Keeps conf key s a)
    (h : Step conf key s a t) : Discard t fun d => removedBy (removed d) (t.row d) := by
  have hmono : ∀ d, Kept (s.row d) (s.upload d) (removedBy (removed d) (s.row d)) := fun d => (D.kept d).mono
  cases h with
  | @save dev data e he =>
    obtain ⟨r, rfl, hch, hlt, hu⟩ := (D.kept dev).save ha he
    exact D.setRow ((D.kept dev).raise hch hu) (D.raise hch hlt hu)
  | @remove dev =>
    obtain ⟨e, he⟩ : ∃ e, s.row dev = e := ⟨_, rfl⟩
    have hkept := D.kept dev
    rw [he] at hkept
    cases e with
    | none =>
      rw [he, LocalStore.remove_fst_none, ← he]
      exact D.setRow_self dev
    | some r =>
      rw [he, LocalStore.remove_fst_some]
      split_ifs with hf
      · have hlt : ∀ r₀, s.row dev = some r₀ → r₀.version < r.version + 1 := by
          intro r₀ h0
          rw [he, Option.some.injEq] at h0
          rw [h0]
          exact Nat.lt_succ_self _
        have hu : ∀ x, s.upload dev = some x → x.payload.version < r.version + 1 :=
          fun x hx => Nat.lt_succ_of_le (hkept.upload_version_le hx)
        let r' : Row jsonHash := ⟨r.version + 1, none, true⟩
        have hch : r'.changed = true := rfl
        exact D.setRow ((D.kept dev).raise hch hu) (D.raise hch hlt hu)
      · rw [← he]
        exact D.setRow_self dev
  | @upload dev r hr hch hn =>
    refine ⟨D.nextId_pos, D.setUpload fun x hx => ?_, by rw [ledger_upload hn]; exact D.sound⟩
    cases hx
    rw [hr]
    exact ⟨Or.inr (Or.inl rfl), fun hc => ((D.kept dev).deletion r hr hc).2⟩
  | @addChange dev x hu =>
    refine ⟨Nat.succ_pos _, D.setUpload fun y hy => ?_, ?_⟩
    · have hx := (D.kept dev).upload _ hu
      cases hy
      exact hx
    · rw [ledger_addChange I hu]
      exact D.sound.store (D.storable I hu hk)
  | @uploadDone dev x hu =>
    have hkept := D.kept dev
    rw [hu] at hkept
    refine ⟨D.nextId_pos, fun d => ?_, ?_⟩
    · show Kept ((s.setRow dev _).row d) (Function.update s.upload dev none d) _
      rcases eq_or_ne d dev with rfl | hd
      · rw [State.setRow_row_self, Function.update_self, hp d]
        exact hkept.uploadDone.mono
      · rw [State.setRow_row_of_ne s hd, Function.update_of_ne hd]
        exact hmono d
    · rw [hp dev, ledger_uploadDone hu (D.kept dev)]
      exact D.sound
  | @send dev sender st hst hpend => exact ⟨D.nextId_pos, hmono, D.sound⟩
  | @deliver dev m e hm he =>
    have ho := SyncController.syncChange_outcome he
    rcases InOrder.first I hm ha with hr | ⟨⟨g, hg⟩, hfirst⟩
    · -- it is received again, and nothing changes
      have hagain := hk.again hr
      rw [he, Except.ok.injEq] at hagain
      rw [hagain, Set.insert_eq_of_mem hr, Function.update_eq_self]
      exact D.setRow_self dev
    · refine ⟨D.nextId_pos, fun d => ?_, ?_⟩
      · show Kept ((s.setRow dev e).row d) (s.upload d) (removedBy (removed d) ((s.setRow dev e).row d))
        rcases eq_or_ne d dev with rfl | hd
        · rw [State.setRow_row_self]
          refine (D.kept d).deliver (hp d) ho hk.stored fun r hr hn hs => ?_
          subst hn
          rw [hr] at ho
          cases ho with
          | erased _ hc hrc hle => exact (hk.erased hc r hr hrc hle hs).1
        · rw [State.setRow_row_of_ne s hd]
          exact hmono d
      · have I' : Ids (s.setRow dev e) := ⟨I.stored_lt, I.inbox_lt, I.stored_inj, I.inbox_stored, I.inbox_inj,
          I.received_inbox, I.sender⟩
        have hg' : (ledger (s.setRow dev e)).waiting g dev = some m := hg
        have hledger := ledger_receive I' hg'
        rw [ledger_setRow] at hledger
        show (ledger { s.setRow dev e with received := _ }).Sound
        exact hledger ▸ D.deliver hj (hp dev) hg hfirst hk ho
  | @complete dev m hm =>
    refine ⟨D.nextId_pos, hmono, ?_⟩
    rw [ledger_complete hm]
    exact D.sound
  | skip => exact ⟨Nat.succ_pos _, hmono, D.sound⟩

omit [DecidableEq Dev] [Fintype Dev] [LinearOrder Checksum] in
/-- A step of another key. -/
theorem Discard.mono (D : Discard s removed) : Discard s fun d => removedBy (removed d) (s.row d) :=
  ⟨D.nextId_pos, fun d => (D.kept d).mono, D.sound⟩

omit [DecidableEq Dev] [Fintype Dev] [LinearOrder Checksum] in
/-- When nothing is left to be done, there are only objects. -/
theorem Discard.item_eq_objectOf (D : Discard s removed) (hq : Quiescent s) (d : Dev) :
    (s.row d).map Row.item = objectOf (s.row d) := by
  cases hr : s.row d with
  | none => rfl
  | some r =>
    have hc : r.content ≠ none := by
      intro hc
      have hch := ((D.kept d).deletion r hr hc).1
      rw [hq.unchanged d r hr] at hch
      cases hch
    rw [objectOf_some hc]
    rfl

omit [DecidableEq Dev] [Fintype Dev] [LinearOrder Checksum] in
/-- **Agreement on a lane**: when nothing is left to be done, all devices hold the same object, or none does. -/
theorem Discard.item_eq [Fintype Dev] (D : Discard s removed) (hq : Quiescent s) (d d' : Dev) :
    (s.row d).map Row.item = (s.row d').map Row.item := by
  rw [D.item_eq_objectOf hq, D.item_eq_objectOf hq]
  refine D.sound.object_eq (fun f e => ?_) (fun e => ?_) d d'
  · rw [Option.eq_none_iff_forall_ne_some]
    intro m hm
    obtain ⟨st, hst, hp, -⟩ := ledger_waiting.mp hm
    rw [hq.stored f st hst] at hp
    exact Finset.notMem_empty e hp
  · rw [Option.eq_none_iff_forall_ne_some]
    intro w hw
    obtain ⟨r, hr, hch, -⟩ := unsentOf_eq_some.mp hw
    rw [hq.unchanged e r hr] at hch
    cases hch

end Steps

end Lane

end QtDataSync
