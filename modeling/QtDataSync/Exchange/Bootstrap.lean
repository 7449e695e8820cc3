import QtDataSync.Exchange.Lane
import QtDataSync.Store.Client

/-!
# Exchange.Bootstrap — a new device gets the data of the partner that has accepted it

The partner with its stores, the changes that the server keeps of it, and the other devices of the account.  What
the partner holds when it accepts a device is sent to that device alone, key by key; the entry of a key is removed when
the upload is acknowledged, whatever the row holds by then.  `Supplied` says that nothing is lost by that: the row waits
to be uploaded, or what it holds has reached the device or will.  It holds in the runs that `Keeps` describes.
-/

namespace QtDataSync

variable {Dev Data Checksum : Type*} {jsonHash : Data → Checksum}

namespace Bootstrap

/-! ### The partner and the server -/

/-- The partner, with the active uploads that the server has stored and the rows of `datachanges` it keeps of them;
the other devices of the account, with the changes that were broadcast since they are in it and those that they have
completed. -/
structure State (Dev : Type*) {Data Checksum : Type*} (jsonHash : Data → Checksum) where
  client : Client Dev jsonHash
  stored : QByteArray × Option Dev → Bool
  datachanges : QByteArray → Option (StoredChange Dev (Change Data))
  nextId : ℕ
  devices : Finset Dev
  broadcast : Dev → List (Change Data)
  completed : Dev → List (Change Data)

/-- The steps: those of the partner, the transactions of the server on its changes, changes that are broadcast by other
devices, and devices that are added to the account. -/
inductive Action (Dev Data : Type*) where
  | client (a : Client.Action Dev Data)
  | addChange (key : QByteArray)
  | addDeviceChange (key : QByteArray) (deviceId : Dev)
  | completeChange (deviceId : Dev) (key : QByteArray)
  | broadcast (c : Change Data)
  | addDevice (deviceId : Dev)

section Steps

variable [DecidableEq Dev]

/-- The uploads that count as stored after a step of the partner: those that are acknowledged or given up do not. -/
def acknowledged (stored : QByteArray × Option Dev → Bool) : Client.Action Dev Data → QByteArray × Option Dev → Bool
  | .uploadDone key => Function.update stored (key, none) false
  | .deviceUploadDone key deviceId => Function.update stored (key, some deviceId) false
  | .clearUploads => fun _ => false
  | _ => stored

/-- The change goes to all devices of the account. -/
def State.announce (s : State Dev jsonHash) (c : Change Data) : State Dev jsonHash :=
  { s with broadcast := fun deviceId =>
      if deviceId ∈ s.devices then c :: s.broadcast deviceId else s.broadcast deviceId }

/-- `DatabaseController::addChange` of an active upload. -/
def State.addChange (s : State Dev jsonHash) (key : QByteArray) (c : Change Data) : State Dev jsonHash :=
  { s.announce c with
    stored := Function.update s.stored (key, none) true
    datachanges := Function.update s.datachanges key (StoredChange.add s.nextId c s.devices)
    nextId := s.nextId + 1 }

/-- `DatabaseController::addDeviceChange` of an active upload: on conflict the stored change is kept. -/
def State.addDeviceChange (s : State Dev jsonHash) (key : QByteArray) (deviceId : Dev) (c : Change Data) :
    State Dev jsonHash :=
  { s with
    stored := Function.update s.stored (key, some deviceId) true
    datachanges := Function.update s.datachanges key (some (match s.datachanges key with
      | none => ⟨s.nextId, c, {deviceId}⟩
      | some st => { st with pending := insert deviceId st.pending }))
    nextId := s.nextId + 1 }

/-- `DatabaseController::completeChange` by a device that has received the change. -/
def State.completeChange (s : State Dev jsonHash) (deviceId : Dev) (key : QByteArray)
    (st : StoredChange Dev (Change Data)) : State Dev jsonHash :=
  { s with
    datachanges := Function.update s.datachanges key (StoredChange.complete deviceId st.id (some st))
    completed := Function.update s.completed deviceId (st.payload :: s.completed deviceId) }

variable [LinearOrder Checksum] (d : Defaults Data) (hashed : ObjectKey → QByteArray)

/-- What can happen, and what it does.  Acknowledgements come after the transaction they are for; a device is accepted
once, and the server has added it to the account by then. -/
inductive Step : State Dev jsonHash → Action Dev Data → State Dev jsonHash → Prop
  | client {s a} : Client.Queried s.client a →
      (∀ key, a = .uploadDone key → s.stored (key, none) = true) →
      (∀ key deviceId, a = .deviceUploadDone key deviceId → s.stored (key, some deviceId) = true) →
      (∀ deviceId, a = .prepareAccountAdded deviceId → deviceId ∈ s.devices ∧
        ∀ key, s.client.changeController.activeUploads.lookup (key, some deviceId) = none) →
      Step s (.client a) { s with client := Client.next d hashed s.client a, stored := acknowledged s.stored a }
  | addChange {s key info} : s.client.changeController.activeUploads.lookup (key, none) = some info →
      s.stored (key, none) = false → Step s (.addChange key) (s.addChange key info.payload)
  | addDeviceChange {s key deviceId info} :
      s.client.changeController.activeUploads.lookup (key, some deviceId) = some info →
      s.stored (key, some deviceId) = false →
      Step s (.addDeviceChange key deviceId) (s.addDeviceChange key deviceId info.payload)
  | completeChange {s key deviceId st} : s.datachanges key = some st → deviceId ∈ st.pending →
      Step s (.completeChange deviceId key) (s.completeChange deviceId key st)
  | broadcast {s c} : Step s (.broadcast c) (s.announce c)
  | addDevice {s deviceId} : Step s (.addDevice deviceId) { s with devices := insert deviceId s.devices }

/-- The partner starts with an empty store. -/
def lts : LTS (State Dev jsonHash) (Action Dev Data) where
  init s := s.client.database = .empty ∧ s.client.changeController.activeUploads = ∅ ∧ s.stored = fun _ => false
  step := Step d hashed

end Steps

/-! ### What has reached a device -/

section Reach

variable (hashed : ObjectKey → QByteArray) (s : State Dev jsonHash) (deviceId : Dev)

/-- The device has completed the change, or the server holds it for the device. -/
def Delivered (c : Change Data) : Prop :=
  c ∈ s.completed deviceId ∨
    ∃ st, s.datachanges (hashed c.key) = some st ∧ deviceId ∈ st.pending ∧ st.payload = c

/-- A change of the key with at least this version was broadcast when the device was in the account. -/
def Announced (k : ObjectKey) (version : ℕ) : Prop :=
  ∃ c ∈ s.broadcast deviceId, c.key = k ∧ version ≤ c.version

/-- The device has got the change or a later one, or will get it. -/
def Reaches (c : Change Data) : Prop :=
  Delivered hashed s deviceId c ∨ Announced s deviceId c.key c.version

variable [DecidableEq Dev]

/-- The entry of the key for the device exists, and its upload is active. -/
def Outstanding (k : ObjectKey) (info : ChangeController.UploadInfo Data) : Prop :=
  s.client.database.deviceUploads k deviceId = true ∧
    s.client.changeController.activeUploads.lookup (hashed k, some deviceId) = some info

/-- The server has stored an active upload of this version to all devices. -/
def Sent (k : ObjectKey) (version : ℕ) : Prop :=
  s.stored (hashed k, none) = true ∧ ∃ info,
    s.client.changeController.activeUploads.lookup (hashed k, none) = some info ∧ info.version = version

/-- What the row holds reaches the device, if only by the upload to it that is about to be stored. -/
def Provided (k : ObjectKey) (info : ChangeController.UploadInfo Data) (r : Row jsonHash) : Prop :=
  Reaches hashed s deviceId (.ofItem k r.item) ∨
    s.stored (hashed k, some deviceId) = false ∧ info.payload = .ofItem k r.item

/-- The row still has to be uploaded, and will be marked unchanged only after that. -/
def Waits (k : ObjectKey) (info : ChangeController.UploadInfo Data) (r : Row jsonHash) : Prop :=
  r.changed = true ∧
    (s.stored (hashed k, some deviceId) = false ∨ info.version < r.version ∨ ¬ Sent hashed s k r.version)

end Reach

/-! ### What the steps must not do while an upload to a device is active -/

section Guard

variable [DecidableEq Dev] (d : Defaults Data) (hashed : ObjectKey → QByteArray) (K : Set ObjectKey)

/-- Only keys of `K` are used. -/
def Action.Uses : Action Dev Data → Prop
  | .client (.save key _) => key ∈ K
  | .client (.syncChange c) => c.key ∈ K
  | _ => True

/-- While the upload of a key to a device is active: the partner adopts only changes that reach the device; an
acknowledgement does not mark a version above that upload which the device was not sent; what the server stores for all
devices is not below an unchanged row; and the server keeps an older change only if the row is still to be uploaded. -/
def Keeps (s : State Dev jsonHash) : Action Dev Data → Prop
  | .client (.syncChange c) => ∀ deviceId info r r', Outstanding hashed s deviceId c.key info →
      s.client.database.dataIndex c.key = some r → Client.Adopts d r c r' →
      Provided hashed s deviceId c.key info r'
  | .client (.uploadDone key) => ∀ deviceId info info' r,
      s.client.changeController.activeUploads.lookup (key, none) = some info' →
      Outstanding hashed s deviceId info'.key info → s.client.database.dataIndex info'.key = some r →
      r.changed = true → r.version = info'.version → info.version < info'.version →
      Reaches hashed s deviceId (.ofItem info'.key r.item)
  | .addChange key => ∀ deviceId info info' r,
      s.client.changeController.activeUploads.lookup (key, none) = some info' →
      Outstanding hashed s deviceId info'.key info → s.client.database.dataIndex info'.key = some r →
      r.changed = false → info'.version < r.version →
      Change.ofItem info'.key r.item ∈ s.completed deviceId ∨ Announced s deviceId info'.key r.version ∨
        s.stored (key, some deviceId) = false ∧ info.payload = .ofItem info'.key r.item
  | .addDeviceChange key deviceId => ∀ info r st, s.datachanges key = some st →
      Outstanding hashed s deviceId info.key info → hashed info.key = key →
      s.client.database.dataIndex info.key = some r →
      st.payload = .ofItem info.key r.item ∨ Reaches hashed s deviceId (.ofItem info.key r.item) ∨
        r.changed = true ∧ (info.version < r.version ∨ ¬ Sent hashed s info.key r.version)
  | _ => True

end Guard

/-! ### The invariant -/

section Invariant

variable [DecidableEq Dev] [LinearOrder Checksum] {d : Defaults Data} {hashed : ObjectKey → QByteArray}
  {K : Set ObjectKey} {s t : State Dev jsonHash} {a : Action Dev Data}

variable (hashed K) in
/-- The invariant of the runs. -/
structure Inv (s : State Dev jsonHash) : Prop where
  row_key : ∀ k r, s.client.database.dataIndex k = some r → k ∈ K
  entry_row : ∀ k deviceId, s.client.database.deviceUploads k deviceId = true →
    deviceId ∈ s.devices ∧ ∃ r, s.client.database.dataIndex k = some r
  active : ∀ key info, s.client.changeController.activeUploads.lookup key = some info →
    info.key ∈ K ∧ hashed info.key = key.1 ∧ info.payload.key = info.key ∧ info.payload.version = info.version
  stored_active : ∀ key, s.stored key = true →
    (s.client.changeController.activeUploads.lookup key).isSome = true
  upload_le : ∀ deviceId k info r, Outstanding hashed s deviceId k info →
    s.client.database.dataIndex k = some r → info.version ≤ r.version ∧
      (info.version = r.version → info.payload = .ofItem k r.item)
  provided : ∀ deviceId k info r, Outstanding hashed s deviceId k info →
    s.client.database.dataIndex k = some r →
      Provided hashed s deviceId k info r ∨ Waits hashed s deviceId k info r

theorem acknowledged_le {stored : QByteArray × Option Dev → Bool} {a : Client.Action Dev Data}
    {key : QByteArray × Option Dev} (h : acknowledged stored a key = true) : stored key = true := by
  cases a with
  | uploadDone key' =>
    have h' : Function.update stored (key', none) false key = true := h
    rcases eq_or_ne key (key', none) with rfl | hne
    · rw [Function.update_self] at h'
      cases h'
    · rwa [Function.update_of_ne hne] at h'
  | deviceUploadDone key' deviceId =>
    have h' : Function.update stored (key', some deviceId) false key = true := h
    rcases eq_or_ne key (key', some deviceId) with rfl | hne
    · rw [Function.update_self] at h'
      cases h'
    · rwa [Function.update_of_ne hne] at h'
  | clearUploads => cases h
  | _ => exact h

theorem Inv.init (h : (lts d hashed).init s) : Inv hashed K s := by
  obtain ⟨hdb, hup, hst⟩ := h
  have hrow : ∀ k, s.client.database.dataIndex k = none := by
    intro k
    rw [hdb]
    rfl
  have hout : ∀ key, s.client.changeController.activeUploads.lookup key = none := by
    intro key
    rw [hup, AList.lookup_empty]
  refine ⟨fun k r hr => ?_, fun k dev he => ?_, fun key info hl => ?_, fun key hs => ?_, fun dev k info r _ hr => ?_,
    fun dev k info r _ hr => ?_⟩
  · rw [hrow] at hr
    cases hr
  · rw [hdb] at he
    cases he
  · rw [hout] at hl
    cases hl
  · rw [hst] at hs
    cases hs
  · rw [hrow] at hr
    cases hr
  · rw [hrow] at hr
    cases hr

omit [LinearOrder Checksum] in
/-- A key is found by its hash. -/
theorem Inv.key_eq (hh : Set.InjOn hashed K) (I : Inv hashed K s) {k : ObjectKey} {dev : Option Dev}
    {info : ChangeController.UploadInfo Data} (hk : k ∈ K)
    (h : s.client.changeController.activeUploads.lookup (hashed k, dev) = some info) : info.key = k := by
  obtain ⟨hK, hkey, -⟩ := I.active _ info h
  exact hh hK hk hkey

/-! ### A step of the partner -/

section Client

variable {b : Client.Action Dev Data}

/-- What can be said of an upload to a device after a step: it is new and carries the row, or it was there before. -/
theorem Inv.outstanding_client (hh : Set.InjOn hashed K) (I : Inv hashed K s) (hq : Client.Queried s.client b)
    (hprep : ∀ deviceId, b = .prepareAccountAdded deviceId → deviceId ∈ s.devices ∧
      ∀ key, s.client.changeController.activeUploads.lookup (key, some deviceId) = none)
    (ht : t = { s with client := Client.next d hashed s.client b, stored := acknowledged s.stored b })
    {dev : Dev} {k : ObjectKey} {info : ChangeController.UploadInfo Data} {r' : Row jsonHash}
    (ho : Outstanding hashed t dev k info) (hr' : t.client.database.dataIndex k = some r') :
    (t.stored (hashed k, some dev) = false ∧ info.version = r'.version ∧ info.payload = .ofItem k r'.item) ∨
      Outstanding hashed s dev k info ∧ ∃ r, s.client.database.dataIndex k = some r ∧
        Client.RowStep d s.client b k r r' := by
  subst ht
  obtain ⟨hentry, hl⟩ := ho
  rcases Client.lookup_next hq hl with hl' | ⟨hn, hdb, hkey, r, hr, hi, -⟩
  · rcases (Client.deviceUploads_next hentry).1 with he | he
    · obtain ⟨-, r, hr⟩ := I.entry_row k dev he
      exact Or.inr ⟨⟨he, hl'⟩, r, hr, Client.rowStep_next hr hr'⟩
    · rw [(hprep dev he).2] at hl'
      cases hl'
  · have hr₁ : s.client.database.dataIndex k = some r' := by
      rw [← hdb]
      exact hr'
    have hk : info.key = k := hh (I.row_key _ _ hr) (I.row_key k r' hr₁) hkey.symm
    rw [hk, hr₁, Option.some.injEq] at hr
    subst hr
    refine Or.inl ⟨?_, by rw [hi], by rw [hi, ← hk]; rfl⟩
    show acknowledged s.stored b (hashed k, some dev) = false
    rw [Bool.eq_false_iff]
    intro hst
    have := I.stored_active _ (acknowledged_le hst)
    rw [hn] at this
    cases this

theorem Inv.upload_le_client (hh : Set.InjOn hashed K) (I : Inv hashed K s) (hq : Client.Queried s.client b)
    (hprep : ∀ deviceId, b = .prepareAccountAdded deviceId → deviceId ∈ s.devices ∧
      ∀ key, s.client.changeController.activeUploads.lookup (key, some deviceId) = none)
    (ht : t = { s with client := Client.next d hashed s.client b, stored := acknowledged s.stored b })
    {dev : Dev} {k : ObjectKey} {info : ChangeController.UploadInfo Data} {r' : Row jsonHash}
    (ho : Outstanding hashed t dev k info) (hr' : t.client.database.dataIndex k = some r') :
    info.version ≤ r'.version ∧ (info.version = r'.version → info.payload = .ofItem k r'.item) := by
  rcases I.outstanding_client hh hq hprep ht ho hr' with ⟨-, hv, hpay⟩ | ⟨ho, r, hr, hstep⟩
  · exact ⟨hv.le, fun _ => hpay⟩
  · obtain ⟨hle, hpay⟩ := I.upload_le dev k info r ho hr
    cases hstep with
    | same => exact ⟨hle, hpay⟩
    | raise _ hlt => exact ⟨by omega, fun he => by omega⟩
    | adopt _ _ hadopt _ =>
      rcases hadopt.2 with ⟨hlt, hi⟩ | ⟨-, -, -, hi⟩
      · have hv : r'.version = _ := congrArg Versioned.version hi
        rw [Change.item_version] at hv
        exact ⟨by omega, fun he => by omega⟩
      · have hv : r'.version = r.version := congrArg Versioned.version hi
        rw [hv, hi]
        exact ⟨hle, hpay⟩
    | acknowledge _ _ _ _ _ hr =>
      subst hr
      exact ⟨hle, hpay⟩

/-- The upload of a version is not stored anew by a step of the partner. -/
theorem Inv.sent_client (I : Inv hashed K s) (hq : Client.Queried s.client b)
    (ht : t = { s with client := Client.next d hashed s.client b, stored := acknowledged s.stored b })
    {k : ObjectKey} {v : ℕ} (h : Sent hashed t k v) : Sent hashed s k v := by
  subst ht
  obtain ⟨hst, info, hl, hv⟩ := h
  have hst' := acknowledged_le hst
  rcases Client.lookup_next hq hl with hl | ⟨hn, -⟩
  · exact ⟨hst', info, hl, hv⟩
  · have := I.stored_active _ hst'
    rw [hn] at this
    cases this

theorem Inv.provided_client (hh : Set.InjOn hashed K) (I : Inv hashed K s) (hk : Keeps d hashed s (.client b))
    (hq : Client.Queried s.client b) (hdone : ∀ key, b = .uploadDone key → s.stored (key, none) = true)
    (hprep : ∀ deviceId, b = .prepareAccountAdded deviceId → deviceId ∈ s.devices ∧
      ∀ key, s.client.changeController.activeUploads.lookup (key, some deviceId) = none)
    (ht : t = { s with client := Client.next d hashed s.client b, stored := acknowledged s.stored b })
    {dev : Dev} {k : ObjectKey} {info : ChangeController.UploadInfo Data} {r' : Row jsonHash}
    (ho : Outstanding hashed t dev k info) (hr' : t.client.database.dataIndex k = some r') :
    Provided hashed t dev k info r' ∨ Waits hashed t dev k info r' := by
  rcases I.outstanding_client hh hq hprep ht ho hr' with ⟨hst, -, hpay⟩ | ⟨ho, r, hr, hstep⟩
  · exact Or.inl (Or.inr ⟨hst, hpay⟩)
  -- what the server and the devices hold stays, and no upload counts as stored anew
  have hreach : ∀ {c}, Reaches hashed s dev c → Reaches hashed t dev c := by
    subst ht
    exact id
  have hstored : s.stored (hashed k, some dev) = false → t.stored (hashed k, some dev) = false := by
    intro hst
    subst ht
    rw [Bool.eq_false_iff] at hst ⊢
    exact fun hst' => hst (acknowledged_le hst')
  have hprovided : ∀ {x}, Provided hashed s dev k info x → Provided hashed t dev k info x :=
    fun h => h.imp hreach (And.imp_left hstored)
  obtain ⟨hle, hpay⟩ := I.upload_le dev k info r ho hr
  cases hstep with
  | same =>
    refine (I.provided dev k info _ ho hr).imp hprovided (And.imp_right ?_)
    exact Or.imp hstored (Or.imp_right fun hn hs => hn (I.sent_client hq ht hs))
  | raise hch hlt => exact Or.inr ⟨hch, Or.inr (Or.inl (by omega))⟩
  | @adopt c r' ha hc hadopt _ =>
    subst ha hc
    exact Or.inl (hprovided (hk dev info r r' ho hr hadopt))
  | @acknowledge key info' _ ha hl hkey hv hch hr₁ =>
    subst ha hkey hr₁
    have hhash : hashed info'.key = key := (I.active _ info' hl).2.1
    refine Or.inl ?_
    rcases hle.lt_or_eq with hlt | heq
    · exact Or.inl (hreach (hk dev info info' r hl ho hr hch hv (hv ▸ hlt)))
    · rcases I.provided dev info'.key info r ho hr with hp | ⟨-, hst | hlt | hn⟩
      · exact hprovided hp
      · exact Or.inr ⟨hstored hst, hpay heq⟩
      · omega
      · refine absurd ⟨?_, info', ?_, hv.symm⟩ hn
        · rw [hhash]
          exact hdone key rfl
        · rw [hhash]
          exact hl

theorem Inv.row_key_client (I : Inv hashed K s) (ha : Action.Uses K (.client b : Action Dev Data)) {k : ObjectKey}
    {r : Row jsonHash} (hr : (Client.next d hashed s.client b).database.dataIndex k = some r) : k ∈ K := by
  cases hs : s.client.database.dataIndex k with
  | some r₀ => exact I.row_key k r₀ hs
  | none =>
    rcases Client.dataIndex_next d hashed s.client b with he | ⟨op, hop, he⟩
    · rw [he, hs] at hr
      cases hr
    · rw [he] at hr
      rcases DataIndex.run_of_none hs hr with ⟨data, rfl⟩ | ⟨c, rfl, hc, -⟩
      · cases hop
        exact ha
      · cases hop
        subst hc
        exact ha

theorem Inv.active_client (I : Inv hashed K s) (hq : Client.Queried s.client b) {key : QByteArray × Option Dev}
    {info : ChangeController.UploadInfo Data}
    (h : (Client.next d hashed s.client b).changeController.activeUploads.lookup key = some info) :
    info.key ∈ K ∧ hashed info.key = key.1 ∧ info.payload.key = info.key ∧ info.payload.version = info.version := by
  rcases Client.lookup_next hq h with hl | ⟨-, -, hkey, r, hr, hi, -⟩
  · exact I.active key info hl
  · refine ⟨I.row_key _ r hr, hkey.symm, ?_⟩
    rw [hi]
    exact ⟨rfl, rfl⟩

theorem Inv.stored_active_client (I : Inv hashed K s) (hq : Client.Queried s.client b)
    {key : QByteArray × Option Dev} (h : acknowledged s.stored b key = true) :
    ((Client.next d hashed s.client b).changeController.activeUploads.lookup key).isSome = true := by
  have hs := I.stored_active key (acknowledged_le h)
  cases b with
  | uploadNext changedRows deviceRows =>
    obtain ⟨hc, hd⟩ := hq
    rcases ChangeController.lookup_uploadNext hashed hc hd key with he | ⟨hn, -⟩
    · show ((s.client.changeController.uploadNext hashed _ _ _).activeUploads.lookup key).isSome = true
      rw [he]
      exact hs
    · rw [hn] at hs
      cases hs
  | uploadDone key' =>
    have hne : key ≠ (key', none) := by
      rintro rfl
      have h' : Function.update s.stored (key', none) false (key', none) = true := h
      rw [Function.update_self] at h'
      cases h'
    simp only [Client.next, ChangeController.uploadDone]
    cases hl : s.client.changeController.activeUploads.lookup (key', none) with
    | none => exact hs
    | some info =>
      show ((s.client.changeController.activeUploads.erase (key', none)).lookup key).isSome = true
      rw [AList.lookup_erase_ne hne]
      exact hs
  | deviceUploadDone key' deviceId =>
    have hne : key ≠ (key', some deviceId) := by
      rintro rfl
      have h' : Function.update s.stored (key', some deviceId) false (key', some deviceId) = true := h
      rw [Function.update_self] at h'
      cases h'
    simp only [Client.next, ChangeController.deviceUploadDone]
    cases hl : s.client.changeController.activeUploads.lookup (key', some deviceId) with
    | none => exact hs
    | some info =>
      show ((s.client.changeController.activeUploads.erase (key', some deviceId)).lookup key).isSome = true
      rw [AList.lookup_erase_ne hne]
      exact hs
  | clearUploads => cases h
  | _ => exact hs

/-- **A step of the partner keeps the invariant.** -/
theorem Inv.client (hh : Set.InjOn hashed K) (I : Inv hashed K s) (ha : Action.Uses K (.client b : Action Dev Data))
    (hk : Keeps d hashed s (.client b)) (hq : Client.Queried s.client b)
    (hdone : ∀ key, b = .uploadDone key → s.stored (key, none) = true)
    (hprep : ∀ deviceId, b = .prepareAccountAdded deviceId → deviceId ∈ s.devices ∧
      ∀ key, s.client.changeController.activeUploads.lookup (key, some deviceId) = none) :
    Inv hashed K { s with client := Client.next d hashed s.client b, stored := acknowledged s.stored b } := by
  refine ⟨fun k r hr => I.row_key_client ha hr, fun k dev he => ?_, fun key info hl => I.active_client hq hl,
    fun key hst => I.stored_active_client hq hst, fun dev k info r ho hr => I.upload_le_client hh hq hprep rfl ho hr,
    fun dev k info r ho hr => I.provided_client hh hk hq hdone hprep rfl ho hr⟩
  obtain ⟨hentry, hrow⟩ := Client.deviceUploads_next he
  refine ⟨?_, ?_⟩
  · rcases hentry with h | h
    · exact (I.entry_row k dev h).1
    · exact (hprep dev h).1
  · rcases hrow with h | ⟨h, heq⟩
    · exact h
    · obtain ⟨-, r, hr⟩ := I.entry_row k dev h
      exact ⟨r, heq.trans hr⟩

end Client

/-! ### The transactions of the server -/

omit [DecidableEq Dev] [LinearOrder Checksum] in
/-- A change that had reached the device has reached it after the step. -/
theorem Provided.mono {dev : Dev} {k : ObjectKey} {info : ChangeController.UploadInfo Data} {r : Row jsonHash}
    (h : Provided hashed s dev k info r)
    (hr : Reaches hashed s dev (.ofItem k r.item) → Reaches hashed t dev (.ofItem k r.item))
    (hs : s.stored (hashed k, some dev) = false → t.stored (hashed k, some dev) = false) :
    Provided hashed t dev k info r := h.imp hr (And.imp_left hs)

omit [LinearOrder Checksum] in
theorem announced_announce {dev : Dev} {c : Change Data} {k : ObjectKey} {v : ℕ} (h : Announced s dev k v) :
    Announced (s.announce c) dev k v := by
  obtain ⟨c', hc', hk⟩ := h
  refine ⟨c', ?_, hk⟩
  show c' ∈ if dev ∈ s.devices then c :: s.broadcast dev else s.broadcast dev
  split_ifs
  · exact List.mem_cons_of_mem c hc'
  · exact hc'

omit [LinearOrder Checksum] in
theorem announced_of_announce {dev : Dev} {c : Change Data} {v : ℕ} (hd : dev ∈ s.devices) (hv : v ≤ c.version) :
    Announced (s.announce c) dev c.key v := by
  refine ⟨c, ?_, rfl, hv⟩
  show c ∈ if dev ∈ s.devices then c :: s.broadcast dev else s.broadcast dev
  rw [if_pos hd]
  exact List.mem_cons_self

omit [LinearOrder Checksum] in
/-- The server stores an upload to all devices. -/
theorem Inv.provided_addChange (hh : Set.InjOn hashed K) (I : Inv hashed K s) {key : QByteArray}
    {info' : ChangeController.UploadInfo Data} (hk : Keeps d hashed s (.addChange key))
    (hl : s.client.changeController.activeUploads.lookup (key, none) = some info')
    {dev : Dev} {k : ObjectKey} {info : ChangeController.UploadInfo Data} {r : Row jsonHash}
    (ho : Outstanding hashed s dev k info) (hr : s.client.database.dataIndex k = some r) :
    Provided hashed (s.addChange key info'.payload) dev k info r ∨
      Waits hashed (s.addChange key info'.payload) dev k info r := by
  obtain ⟨hK, hkey, hpk, hpv⟩ := I.active _ info' hl
  have hmem := (I.entry_row k dev ho.1).1
  have hst : (s.addChange key info'.payload).stored (hashed k, some dev) = s.stored (hashed k, some dev) := by
    show Function.update s.stored (key, none) true (hashed k, some dev) = _
    exact Function.update_of_ne (by simp) ..
  by_cases hkk : hashed k = key
  · -- the row of this key
    have hik : info'.key = k := hh hK (I.row_key k r hr) (hkey.trans hkk.symm)
    subst hik
    rcases le_or_gt r.version info'.version with hle | hlt
    · refine Or.inl (Or.inl (Or.inr ?_))
      show Announced (s.announce info'.payload) dev info'.key r.version
      rw [← hpk]
      exact announced_of_announce hmem (by rw [hpv]; exact hle)
    · cases hch : r.changed with
      | true =>
        refine Or.inr ⟨hch, Or.inr (Or.inr ?_)⟩
        rintro ⟨-, info₁, hl₁, hv₁⟩
        rw [hkk] at hl₁
        have hl₂ : s.client.changeController.activeUploads.lookup (key, none) = some info₁ := hl₁
        rw [hl, Option.some.injEq] at hl₂
        subst hl₂
        omega
      | false =>
        rcases hk dev info info' r hl ho hr hch hlt with hc | ha | ⟨hs, hp⟩
        · exact Or.inl (Or.inl (Or.inl (Or.inl hc)))
        · exact Or.inl (Or.inl (Or.inr (announced_announce ha)))
        · refine Or.inl (Or.inr ⟨?_, hp⟩)
          rw [hst, hkk]
          exact hs
  · have hreach : Reaches hashed s dev (.ofItem k r.item) →
        Reaches hashed (s.addChange key info'.payload) dev (.ofItem k r.item) := by
      rintro ((hc | ⟨st, hst', hp⟩) | ha)
      · exact Or.inl (Or.inl hc)
      · refine Or.inl (Or.inr ⟨st, ?_, hp⟩)
        show Function.update s.datachanges key _ (hashed k) = some st
        rw [Function.update_of_ne hkk]
        exact hst'
      · exact Or.inr (announced_announce ha)
    refine (I.provided dev k info r ho hr).imp (·.mono hreach hst.trans) (And.imp_right ?_)
    refine Or.imp hst.trans (Or.imp_right fun hn hs => hn ?_)
    obtain ⟨hs, info₁, hl₁⟩ := hs
    refine ⟨?_, info₁, hl₁⟩
    have hs' : Function.update s.stored (key, none) true (hashed k, none) = true := hs
    rwa [Function.update_of_ne fun h => hkk (congrArg Prod.fst h)] at hs'

omit [LinearOrder Checksum] in
/-- The server stores an upload to one device, or keeps what it has stored before. -/
theorem Inv.provided_addDeviceChange (hh : Set.InjOn hashed K) (I : Inv hashed K s) {key : QByteArray} {dev' : Dev}
    {info' : ChangeController.UploadInfo Data} (hk : Keeps d hashed s (.addDeviceChange key dev'))
    (hl : s.client.changeController.activeUploads.lookup (key, some dev') = some info')
    {dev : Dev} {k : ObjectKey} {info : ChangeController.UploadInfo Data} {r : Row jsonHash}
    (ho : Outstanding hashed s dev k info) (hr : s.client.database.dataIndex k = some r) :
    Provided hashed (s.addDeviceChange key dev' info'.payload) dev k info r ∨
      Waits hashed (s.addDeviceChange key dev' info'.payload) dev k info r := by
  have hreach : Reaches hashed s dev (.ofItem k r.item) →
      Reaches hashed (s.addDeviceChange key dev' info'.payload) dev (.ofItem k r.item) := by
    rintro ((hc | ⟨st, hst, hp, hpay⟩) | ha)
    · exact Or.inl (Or.inl hc)
    · refine Or.inl (Or.inr ?_)
      show ∃ st', Function.update s.datachanges key _ (hashed k) = some st' ∧ _
      have hst' : s.datachanges (hashed k) = some st := hst
      by_cases hkk : hashed k = key
      · subst hkk
        rw [Function.update_self, hst']
        exact ⟨_, rfl, Finset.mem_insert_of_mem hp, hpay⟩
      · rw [Function.update_of_ne hkk]
        exact ⟨st, hst', hp, hpay⟩
    · exact Or.inr ha
  have hsent : ¬ Sent hashed s k r.version → ¬ Sent hashed (s.addDeviceChange key dev' info'.payload) k r.version := by
    rintro hn ⟨hs, hl'⟩
    refine hn ⟨?_, hl'⟩
    have hs' : Function.update s.stored (key, some dev') true (hashed k, none) = true := hs
    rwa [Function.update_of_ne (by simp)] at hs'
  by_cases hkd : hashed k = key ∧ dev = dev'
  · -- the upload of this key to the device
    obtain ⟨hkk, rfl⟩ := hkd
    have hl' := ho.2
    rw [hkk, hl, Option.some.injEq] at hl'
    subst hl'
    have hik : info'.key = k := I.key_eq hh (I.row_key k r hr) ho.2
    obtain ⟨hle, hpay⟩ := I.upload_le dev k info' r ho hr
    cases hslot : s.datachanges key with
    | none =>
      -- the upload itself is stored for the device
      have hnew : info'.payload = .ofItem k r.item →
          Reaches hashed (s.addDeviceChange key dev info'.payload) dev (.ofItem k r.item) := by
        intro hp
        refine Or.inl (Or.inr ?_)
        show ∃ st', Function.update s.datachanges key _ (hashed k) = some st' ∧ _
        rw [hkk, Function.update_self, hslot]
        exact ⟨_, rfl, Finset.mem_singleton_self dev, hp⟩
      rcases I.provided dev k info' r ho hr with (hre | ⟨-, hp⟩) | ⟨hch, -⟩
      · exact Or.inl (Or.inl (hreach hre))
      · exact Or.inl (Or.inl (hnew hp))
      · rcases hle.lt_or_eq with hlt | heq
        · exact Or.inr ⟨hch, Or.inr (Or.inl hlt)⟩
        · exact Or.inl (Or.inl (hnew (hpay heq)))
    | some st =>
      subst hik
      rcases hk info' r st hslot ho hkk hr with hp | hre | ⟨hch, hw⟩
      · refine Or.inl (Or.inl (Or.inl (Or.inr ?_)))
        show ∃ st', Function.update s.datachanges key _ (hashed info'.key) = some st' ∧ _
        rw [hkk, Function.update_self, hslot]
        exact ⟨_, rfl, Finset.mem_insert_self dev st.pending, hp⟩
      · exact Or.inl (Or.inl (hreach hre))
      · exact Or.inr ⟨hch, Or.inr (hw.imp_right hsent)⟩
  · have hst : (s.addDeviceChange key dev' info'.payload).stored (hashed k, some dev) =
        s.stored (hashed k, some dev) := by
      show Function.update s.stored (key, some dev') true (hashed k, some dev) = _
      refine Function.update_of_ne (fun h => hkd ?_) ..
      rw [Prod.mk.injEq, Option.some.injEq] at h
      exact h
    exact (I.provided dev k info r ho hr).imp (·.mono hreach hst.trans)
      (And.imp_right (Or.imp hst.trans (Or.imp_right hsent)))

omit [LinearOrder Checksum] in
theorem reaches_completeChange {dev dev' : Dev} {key : QByteArray} {st : StoredChange Dev (Change Data)}
    {c : Change Data} (hslot : s.datachanges key = some st) (h : Reaches hashed s dev c) :
    Reaches hashed (s.completeChange dev' key st) dev c := by
  rcases h with (hc | ⟨st', hst', hp, rfl⟩) | ha
  · refine Or.inl (Or.inl ?_)
    show c ∈ Function.update s.completed dev' _ dev
    rcases eq_or_ne dev dev' with rfl | hd
    · rw [Function.update_self]
      exact List.mem_cons_of_mem _ hc
    · rw [Function.update_of_ne hd]
      exact hc
  · by_cases hkk : hashed st'.payload.key = key
    · rw [hkk, hslot, Option.some.injEq] at hst'
      subst hst'
      rcases eq_or_ne dev dev' with rfl | hd
      · refine Or.inl (Or.inl ?_)
        show st.payload ∈ Function.update s.completed dev _ dev
        rw [Function.update_self]
        exact List.mem_cons_self
      · obtain ⟨st₁, hst₁, -, hpay, hp₁⟩ := StoredChange.mem_complete hp fun h => hd h.1
        refine Or.inl (Or.inr ⟨st₁, ?_, hp₁, hpay⟩)
        show Function.update s.datachanges key _ (hashed st.payload.key) = some st₁
        rw [hkk, Function.update_self]
        exact hst₁
    · refine Or.inl (Or.inr ⟨st', ?_, hp, rfl⟩)
      show Function.update s.datachanges key _ (hashed st'.payload.key) = some st'
      rw [Function.update_of_ne hkk]
      exact hst'
  · exact Or.inr ha

omit [LinearOrder Checksum] in
/-- A transaction that leaves the partner and its active uploads as they are keeps the invariant if it keeps what has
reached the devices. -/
theorem Inv.of_reaches (I : Inv hashed K s) (hc : t.client = s.client) (hs : t.stored = s.stored)
    (hd : s.devices ⊆ t.devices) (hr : ∀ dev c, Reaches hashed s dev c → Reaches hashed t dev c) : Inv hashed K t := by
  have ho : ∀ {dev k info}, Outstanding hashed t dev k info → Outstanding hashed s dev k info := by
    intro dev k info h
    rwa [Outstanding, hc] at h
  refine ⟨by rw [hc]; exact I.row_key, by rw [hc]; exact fun k dev h => ⟨hd (I.entry_row k dev h).1, (I.entry_row k dev h).2⟩,
    by rw [hc]; exact I.active, by rw [hc, hs]; exact I.stored_active, ?_, ?_⟩
  · intro dev k info r h hrow
    rw [hc] at hrow
    exact I.upload_le dev k info r (ho h) hrow
  · intro dev k info r h hrow
    rw [hc] at hrow
    refine (I.provided dev k info r (ho h) hrow).imp (·.mono (hr dev _) fun h => by rw [hs, h]) (And.imp_right ?_)
    rw [hs]
    refine Or.imp_right (Or.imp_right fun hn hsent => hn ?_)
    rwa [Sent, hc, hs] at hsent

/-- **Every step keeps the invariant**, if nothing goes wrong while an upload to a device is active. -/
theorem Inv.step (hh : Set.InjOn hashed K) (I : Inv hashed K s) (ha : a.Uses K) (hk : Keeps d hashed s a)
    (h : Step d hashed s a t) : Inv hashed K t := by
  cases h with
  | client hq hdone _ hprep => exact I.client hh ha hk hq hdone hprep
  | @addChange key info' hl hst =>
    refine ⟨I.row_key, I.entry_row, I.active, fun key' hs => ?_, I.upload_le, fun dev k info r ho hr =>
      I.provided_addChange hh hk hl ho hr⟩
    have hs' : Function.update s.stored (key, none) true key' = true := hs
    rcases eq_or_ne key' (key, none) with rfl | hne
    · exact Option.isSome_iff_exists.mpr ⟨info', hl⟩
    · rw [Function.update_of_ne hne] at hs'
      exact I.stored_active key' hs'
  | @addDeviceChange key dev' info' hl hst =>
    refine ⟨I.row_key, I.entry_row, I.active, fun key' hs => ?_, I.upload_le, fun dev k info r ho hr =>
      I.provided_addDeviceChange hh hk hl ho hr⟩
    have hs' : Function.update s.stored (key, some dev') true key' = true := hs
    rcases eq_or_ne key' (key, some dev') with rfl | hne
    · exact Option.isSome_iff_exists.mpr ⟨info', hl⟩
    · rw [Function.update_of_ne hne] at hs'
      exact I.stored_active key' hs'
  | completeChange hslot _ =>
    exact I.of_reaches rfl rfl subset_rfl fun dev c hre => reaches_completeChange hslot hre
  | broadcast => exact I.of_reaches rfl rfl subset_rfl fun dev c hre => hre.imp id announced_announce
  | addDevice => exact I.of_reaches rfl rfl (Finset.subset_insert _ _) fun dev c hre => hre

theorem inv_reachable (hh : Set.InjOn hashed K)
    (h : (lts d hashed).Reachable (fun s a => a.Uses K ∧ Keeps d hashed s a) s) : Inv hashed K s :=
  h.invariant (fun _ h0 => .init h0) fun _ _ _ _ I hg hst => I.step hh hg.1 hg.2 hst

end Invariant

/-! ### A change that is received under the upload -/

namespace Sample

def key : ObjectKey := ⟨[1], "a"⟩

def hashed (key : ObjectKey) : QByteArray := key.typeName

def defaults : Defaults ℕ := ⟨false, .PreferChanged, none⟩

abbrev State := Bootstrap.State (Fin 2) (fun n : ℕ => n)

def start : State := ⟨⟨.empty, ⟨∅, 2⟩⟩, fun _ => false, fun _ => none, 1, {0}, fun _ => [], fun _ => []⟩

/-- A step of the partner. -/
def partner (s : State) (a : Client.Action (Fin 2) ℕ) : State :=
  { s with client := Client.next defaults hashed s.client a, stored := acknowledged s.stored a }

/-- Device 0 changes an object that the partner has already.  Then device 1 is added to the account, and the partner
accepts it. -/
def accepted : State :=
  let s := (partner start (.syncChange ⟨key, 1, some 5⟩)).announce ⟨key, 2, some 6⟩
  partner { s with devices := insert 1 s.devices } (.prepareAccountAdded 1)

def uploading : State := partner accepted (.uploadNext [] [(key, 1)])

/-- The server has stored what the partner holds for device 1. -/
def sending : State := uploading.addDeviceChange (hashed key) 1 ⟨key, 1, some 5⟩

/-- Now the partner receives the changed object. -/
def received : State := partner sending (.syncChange ⟨key, 2, some 6⟩)

theorem queried : Client.Queried accepted.client (.uploadNext [] [(key, 1)]) := by
  have hrow : accepted.client.database.dataIndex key = some ⟨1, some (.write 5), false⟩ := rfl
  have hother : ∀ k, k ≠ key → accepted.client.database.dataIndex k = none :=
    fun k hk => Function.update_of_ne hk ..
  refine ⟨⟨List.nodup_nil, fun k hk => (nomatch hk), Nat.zero_le _, fun _ k r hr hch => ?_⟩,
    ⟨List.nodup_singleton _, fun x hx => ?_, Nat.le_succ 1, fun _ k dev r he hr _ => ?_⟩⟩
  · exfalso
    by_cases hk : k = key
    · rw [hk, hrow, Option.some.injEq] at hr
      subst hr
      cases hch
    · rw [hother k hk] at hr
      cases hr
  · rw [List.mem_singleton] at hx
    subst hx
    exact ⟨by decide, _, hrow, fun h => nomatch h.1⟩
  · have hk : k = key := by
      by_contra hk
      rw [hother k hk] at hr
      cases hr
    have hd : dev = 1 := by
      have he' : (false || (dev == 1 && (accepted.client.database.dataIndex k).isSome)) = true := he
      rw [Bool.false_or, Bool.and_eq_true, beq_iff_eq] at he'
      exact he'.1
    rw [hk, hd]
    exact List.mem_singleton_self _

end Sample

end Bootstrap

end QtDataSync
