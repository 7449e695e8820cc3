import QtDataSync.Engine.ExchangeEngine

/-!
# Engine.Uploads — every active upload is completed, and no change waits for ever

The answers of the server and the queued calls of `uploadDone` are the completions that are outstanding.  They are
those of the active uploads, each once, as long as no upload for a single device is unreadable: its completion is
queued as if it were for all devices.  While uploading is enabled, a pending change has woken the controller, or an
active upload will when it is completed.
-/

namespace QtDataSync

variable {Dev Data Checksum : Type*} {jsonHash : Data → Checksum}

/-- The upload that a queued call completes. -/
def Call.completes : Call → Option (QByteArray × Option Dev)
  | .uploadDone key => some (key, none)
  | _ => none

namespace ExchangeEngine

/-- The completions that are outstanding. -/
def completions (s : ExchangeEngine Dev jsonHash) : List (QByteArray × Option Dev) :=
  s.acks ++ s.queue.filterMap Call.completes

/-- A call that will start uploads is queued. -/
def Wakes (s : ExchangeEngine Dev jsonHash) : Prop := .uploadNext ∈ s.queue ∨ .changeTriggered ∈ s.queue

section

variable [DecidableEq Dev] (hashed : ObjectKey → QByteArray)

/-- An outstanding completion removes exactly the active upload, and no pending change waits for ever. -/
structure Progresses (persistDeleted : Bool) (s : ExchangeEngine Dev jsonHash) : Prop where
  completed : ∀ key, (s.controller.activeUploads.lookup key).isSome → key ∈ s.completions ∧
    (s.complete persistDeleted false key).controller.activeUploads = s.controller.activeUploads.erase key
  awake : s.uploadingEnabled = true → s.controller.size < s.controller.uploadLimit →
    (∃ x, s.database.Pending x ∧ s.controller.activeUploads.lookup (hashed x.1, x.2) = none) →
      s.Wakes ∨ ∃ key ∈ s.completions, (s.controller.activeUploads.lookup key).isSome ∧
        .uploadNext ∈ (s.complete persistDeleted false key).queue

/-- The step is a change of the store, a slot of the controller, or an answer, and only `readJson` fails. -/
def OnlyReadsFail : Step Dev Data → Prop
  | .store _ => True
  | .prepareAccountAdded _ _ => True
  | .setUploadingEnabled env _ => env.fault = none ∧ ∀ k d, env.emission k d ≠ .error
  | .deliver env => env.fault = none ∧ ∀ k d, env.emission k d ≠ .error
  | .ack _ fails => fails = false
  | _ => False

/-- The files of all changes can be read that are to be uploaded for one device. -/
def DeviceReadable (s : ExchangeEngine Dev jsonHash) : Step Dev Data → Prop
  | .setUploadingEnabled env _ => ∀ x ∈ env.deviceRows,
    s.controller.activeUploads.lookup (hashed x.1, some x.2) = none → env.emission x.1 (some x.2) ≠ .unreadable
  | .deliver env => ∀ x ∈ env.deviceRows,
    s.controller.activeUploads.lookup (hashed x.1, some x.2) = none → env.emission x.1 (some x.2) ≠ .unreadable
  | _ => True

/-- A pending change has woken the controller, or will. -/
def Awake (s : ExchangeEngine Dev jsonHash) : Prop :=
  s.uploadingEnabled = true → (∃ x, s.database.Pending x) →
    s.Wakes ∨ s.controller.size ≠ 0 ∨ s.controller.uploadLimit = 0

/-- The completions are those of the active uploads. -/
def Matched (s : ExchangeEngine Dev jsonHash) : Prop := s.completions.Perm s.controller.activeUploads.keys

section

variable {hashed} {s t : ExchangeEngine Dev jsonHash}

theorem size_eq_zero_iff : s.controller.size = 0 ↔ ∀ key, s.controller.activeUploads.lookup key = none := by
  unfold ChangeController.size
  rw [List.length_eq_zero_iff]
  constructor
  · intro h key
    rw [AList.lookup_eq_none, AList.mem_keys, AList.keys, h]
    exact List.not_mem_nil
  · intro h
    by_contra hne
    obtain ⟨x, hx⟩ := List.exists_mem_of_ne_nil _ hne
    have hmem : x.1 ∈ s.controller.activeUploads.keys := List.mem_map_of_mem hx
    exact AList.lookup_eq_none.mp (h x.1) (AList.mem_keys.mpr hmem)

/-- A new upload is one more key. -/
theorem activate_eq {row : LoadedChange Dev Data}
    (h : s.controller.activeUploads.lookup (hashed row.key, row.device) = none) :
    (s.activate hashed row).controller.activeUploads.keys =
        (hashed row.key, row.device) :: s.controller.activeUploads.keys ∧
      (s.activate hashed row).controller.uploadLimit = s.controller.uploadLimit := by
  have hnew : (hashed row.key, row.device) ∉ s.controller.activeUploads.keys := fun hmem =>
    AList.lookup_eq_none.mp h (AList.mem_keys.mpr hmem)
  have hupload : (ChangeController.upload hashed s.controller row).1 = { s.controller with
      activeUploads := s.controller.activeUploads.insert (hashed row.key, row.device)
        ⟨row.key, row.version, row.content.isNone, ⟨row.key, row.version, row.content⟩⟩ } := by
    simp only [ChangeController.upload, h, Option.isSome_none, Bool.false_eq_true, if_false]
  refine ⟨?_, ?_⟩
  · show (ChangeController.upload hashed s.controller row).1.activeUploads.keys = _
    rw [hupload, AList.keys, AList.entries_insert_of_notMem fun hmem => hnew (AList.mem_keys.mp hmem)]
    rfl
  · show (ChangeController.upload hashed s.controller row).1.uploadLimit = _
    rw [hupload]

/-- What the visits keep. -/
structure Visited (s u : ExchangeEngine Dev jsonHash) : Prop where
  matched : u.Matched
  enabled : u.uploadingEnabled = s.uploadingEnabled
  database : u.database = s.database
  limit : u.controller.uploadLimit = s.controller.uploadLimit

variable (hashed s) in
omit [DecidableEq Dev] in
/-- An upload that is started has its completion. -/
theorem matched_startUpload {env : UploadEnv Dev} {row : LoadedChange Dev Data}
    (herror : ∀ k d, env.emission k d ≠ .error)
    (hreadable : row.device ≠ none → env.emission row.key row.device ≠ .unreadable) :
    (s.startUpload hashed env row).completions.Perm ((hashed row.key, row.device) :: s.completions) ∧
      (s.startUpload hashed env row).controller = s.controller ∧
      (s.startUpload hashed env row).uploadingEnabled = s.uploadingEnabled ∧
      (s.startUpload hashed env row).database = s.database := by
  have hemit : ∃ l, s.emitUpload hashed row = { s with log := s.log ++ l } := by
    unfold emitUpload
    split
    · exact ⟨_, rfl⟩
    · exact ⟨_, rfl⟩
  obtain ⟨l, hl⟩ := hemit
  have hsent : ({ s.emitUpload hashed row with acks := s.acks ++ [(hashed row.key, row.device)] } :
      ExchangeEngine Dev jsonHash).completions.Perm ((hashed row.key, row.device) :: s.completions) := by
    rw [hl]
    show (s.acks ++ [_] ++ s.queue.filterMap Call.completes).Perm (_ :: (s.acks ++ s.queue.filterMap Call.completes))
    rw [List.append_assoc, List.singleton_append]
    exact List.perm_middle
  unfold startUpload
  split
  · rename_i hun
    have hdevice : row.device = none := by
      by_contra hd
      exact hreadable hd hun
    refine ⟨?_, rfl, rfl, rfl⟩
    show (s.acks ++ (s.queue ++ [Call.uploadDone (hashed row.key)]).filterMap Call.completes).Perm _
    rw [List.filterMap_append, ← List.append_assoc, hdevice]
    exact List.perm_append_singleton _ _
  · rename_i herr
    exact absurd herr (herror _ _)
  · exact ⟨hsent, by rw [hl], by rw [hl], by rw [hl]⟩

theorem Visited.step {u : ExchangeEngine Dev jsonHash} {env : UploadEnv Dev} {emitStarted emitProgress : Bool}
    {row : LoadedChange Dev Data} (h : Visited s u) (herror : ∀ k d, env.emission k d ≠ .error)
    (hreadable : u.controller.activeUploads.lookup (hashed row.key, row.device) = none → row.device ≠ none →
      env.emission row.key row.device ≠ .unreadable) :
    Visited s (visit hashed env emitProgress (u, emitStarted) row).1.1 ∧
      (visit hashed env emitProgress (u, emitStarted) row).1.1.controller.size ≠ 0 ∧
      ∀ key, (visit hashed env emitProgress (u, emitStarted) row).1.1.controller.activeUploads.lookup key = none →
        u.controller.activeUploads.lookup key = none := by
  unfold ExchangeEngine.visit
  by_cases hactive : (u.controller.activeUploads.lookup (hashed row.key, row.device)).isSome
  · rw [if_pos hactive]
    refine ⟨h, fun hzero => ?_, fun _ hn => hn⟩
    rw [size_eq_zero_iff.mp hzero] at hactive
    cases hactive
  · rw [if_neg hactive]
    simp only
    have hnone : u.controller.activeUploads.lookup (hashed row.key, row.device) = none := by simpa using hactive
    obtain ⟨state, l, hb⟩ := beginUploading_eq u emitStarted emitProgress
    have hb' : (u.beginUploading emitStarted emitProgress).controller = u.controller := by rw [hb]
    have hunknown : (u.beginUploading emitStarted emitProgress).controller.activeUploads.lookup
        (hashed row.key, row.device) = none := by
      rw [hb']
      exact hnone
    obtain ⟨hkeys, hlimit⟩ := activate_eq hunknown
    obtain ⟨hperm, hcontroller, henabled, hdatabase⟩ := matched_startUpload hashed
      ((u.beginUploading emitStarted emitProgress).activate hashed row) herror (hreadable hnone)
    have hcompletions : ((u.beginUploading emitStarted emitProgress).activate hashed row).completions =
        u.completions := by
      rw [hb]
      rfl
    rw [hb'] at hkeys hlimit
    refine ⟨⟨?_, ?_, ?_, ?_⟩, fun hzero => ?_, fun key hn => ?_⟩
    · unfold Matched
      rw [hcontroller, hkeys]
      rw [hcompletions] at hperm
      exact hperm.trans (h.matched.cons _)
    · rw [henabled, ← h.enabled, hb]
      rfl
    · rw [hdatabase, ← h.database, hb]
      rfl
    · rw [hcontroller, hlimit, h.limit]
    · have hnil := size_eq_zero_iff.mp hzero (hashed row.key, row.device)
      rw [hcontroller, AList.lookup_eq_none, AList.mem_keys, hkeys] at hnil
      exact hnil List.mem_cons_self
    · rw [hcontroller, AList.lookup_eq_none, AList.mem_keys, hkeys] at hn
      rw [AList.lookup_eq_none, AList.mem_keys]
      exact fun hm => hn (List.mem_cons_of_mem _ hm)

/-- All visits of a call; what was not active before is read. -/
theorem Visited.steps {u : ExchangeEngine Dev jsonHash} {env : UploadEnv Dev} {emitStarted emitProgress : Bool}
    {rows : List (LoadedChange Dev Data)} (h : Visited s u) (herror : ∀ k d, env.emission k d ≠ .error)
    (hreadable : ∀ row ∈ rows, u.controller.activeUploads.lookup (hashed row.key, row.device) = none →
      row.device ≠ none → env.emission row.key row.device ≠ .unreadable) :
    Visited s (visitAll (visit hashed env emitProgress) (u, emitStarted) rows).1.1 ∧
      (rows ≠ [] →
        (visitAll (visit hashed env emitProgress) (u, emitStarted) rows).1.1.controller.size ≠ 0) := by
  let P (x : ExchangeEngine Dev jsonHash × Bool) : Prop :=
    Visited s x.1 ∧ ∀ key, x.1.controller.activeUploads.lookup key = none → u.controller.activeUploads.lookup key = none
  have hvisit : ∀ x, ∀ row ∈ rows, P x → P (visit hashed env emitProgress x row).1 ∧
      (visit hashed env emitProgress x row).1.1.controller.size ≠ 0 := by
    rintro ⟨u', b⟩ row hrow ⟨hv, hgrows⟩
    obtain ⟨hv', hsize, hgrows'⟩ := hv.step herror fun hn => hreadable row hrow (hgrows _ hn)
    exact ⟨⟨hv', fun key hn => hgrows key (hgrows' key hn)⟩, hsize⟩
  have hstart : P (u, emitStarted) := ⟨h, fun _ hn => hn⟩
  refine ⟨(visitAll_invariant (P := P) hstart fun x row hrow hx => (hvisit x row hrow hx).1).1, fun hne => ?_⟩
  have hall := visitAll_of_ne_nil (P := fun x => P x ∧ x.1.controller.size ≠ 0) hne
    (fun row hrow => hvisit _ row hrow hstart) fun x row hrow hx => hvisit x row hrow hx.1
  exact hall.2

/-- **What `uploadNext` does** when only `readJson` fails: a pending change is active afterwards, or the call was for
nothing. -/
theorem visited_uploadNext {env : UploadEnv Dev} {emitStarted : Bool} (h : s.Matched) (hfinds : s.Finds env)
    (hfault : env.fault = none) (herror : ∀ k d, env.emission k d ≠ .error)
    (hreadable : ∀ x ∈ env.deviceRows, s.controller.activeUploads.lookup (hashed x.1, some x.2) = none →
      env.emission x.1 (some x.2) ≠ .unreadable) :
    Visited s (s.uploadNext hashed env emitStarted) ∧ (s.uploadNext hashed env emitStarted).Awake := by
  let A (u : ExchangeEngine Dev jsonHash) : Prop := Visited s u ∧ u.controller = s.controller
  have hfields : ∀ (u : ExchangeEngine Dev jsonHash) state estimate search l, A u →
      A { u with state := state, changeEstimate := estimate, search := search, log := l } :=
    fun u _ _ _ _ ⟨⟨hm, he, hd, hl⟩, hc⟩ => ⟨⟨hm, he, hd, hl⟩, hc⟩
  have hawake : ∀ u, Visited s u → u.controller.size ≠ 0 ∨ u.controller.uploadLimit = 0 → Visited s u ∧ u.Awake :=
    fun u hv hsize => ⟨hv, fun _ _ => Or.inr hsize⟩
  have hrows : ∀ row ∈ s.database.rows env.changedRows env.deviceRows,
      s.controller.activeUploads.lookup (hashed row.key, row.device) = none → row.device ≠ none →
        env.emission row.key row.device ≠ .unreadable := by
    intro row hrow hn hdevice
    rcases (LocalDatabase.mem_rows hrow).1 with ⟨-, hd⟩ | ⟨d, hx, hd⟩
    · exact absurd hd hdevice
    · rw [hd] at hn ⊢
      exact hreadable _ hx hn
  refine uploadNext_rule (A := A) (E := A) (B := fun t => Visited s t ∧ t.Awake) ⟨⟨h, rfl, rfl, rfl⟩, rfl⟩ ?_ ?_ ?_ ?_ ?_ ?_
  · intro _ _
    obtain ⟨state, l, hl, -⟩ := uploadingChanged_eq s true
    rw [hl]
    exact hfields s _ _ _ _ ⟨⟨h, rfl, rfl, rfl⟩, rfl⟩
  · exact fun u hu => hfields u _ _ _ _ hu
  · intro u hu hfull
    refine hawake u hu.1 ?_
    omega
  · exact fun _ _ hf => absurd hfault hf
  · intro u b hu
    obtain ⟨estimate, l, hl, -⟩ := updateEstimate_eq u env.count b
    rw [hl]
    exact hfields u _ _ _ _ hu
  · rintro u b b' ⟨hu, hc⟩ hlt - - -
    rw [hc] at hlt
    have hlimit : 0 < s.controller.uploadLimit := by omega
    have hsome := LocalDatabase.rows_ne_nil_iff hlimit hfinds.changed hfinds.device
    rw [← hu.database] at hsome hrows
    refine loadUploads_rule (B := fun t => Visited s t ∧ t.Awake) (V := fun u' => Visited s u' ∧
      (u.database.rows env.changedRows env.deviceRows ≠ [] → u'.controller.size ≠ 0)) ?_ ?_ ?_ ?_ ?_
    · have hu' : Visited s { u with
          search := ⟨u.uploadingEnabled, some !(env.changedRows.isEmpty && env.deviceRows.isEmpty)⟩ } :=
        ⟨hu.matched, hu.enabled, hu.database, hu.limit⟩
      refine hu'.steps herror fun row hrow hn => hrows row hrow ?_
      rw [← hc]
      exact hn
    · rw [hu.database, hc]
      exact hfinds.device
    · exact fun _ _ hf => absurd hfault hf
    · rintro u' ⟨hv, hne⟩ hzero
      obtain ⟨state, l, hl, -⟩ := uploadingChanged_eq u' false
      rw [hl]
      refine ⟨⟨hv.matched, hv.enabled, hv.database, hv.limit⟩, fun _ hpending => absurd hzero (hne (hsome.mpr ?_))⟩
      rw [hu.database, ← hv.database]
      exact hpending
    · exact fun u' ⟨hv, _⟩ hsize => hawake u' hv (Or.inl hsize)

/-! ### Completions -/

theorem keys_perm_erase {key : QByteArray × Option Dev} (h : (s.controller.activeUploads.lookup key).isSome) :
    s.controller.activeUploads.keys.Perm (key :: (s.controller.activeUploads.erase key).keys) := by
  have hmem := AList.lookup_isSome.mp h
  have hnew : key ∉ (s.controller.activeUploads.erase key).keys := fun hk =>
    (AList.mem_erase.mp (AList.mem_keys.mpr hk)).1 rfl
  refine (List.perm_ext_iff_of_nodup (AList.keys_nodup _) (List.nodup_cons.mpr ⟨hnew, AList.keys_nodup _⟩)).mpr ?_
  intro key'
  rw [List.mem_cons, ← AList.mem_keys, ← AList.mem_keys, AList.mem_erase]
  by_cases hk : key' = key
  · simp [hk, hmem]
  · simp [hk]

/-- The upload is no longer active, and the next uploads are queued if there is free space. -/
structure Completes (s : ExchangeEngine Dev jsonHash) (key : QByteArray × Option Dev)
    (t : ExchangeEngine Dev jsonHash) : Prop where
  active : t.controller.activeUploads = s.controller.activeUploads.erase key
  limit : t.controller.uploadLimit = s.controller.uploadLimit
  enabled : t.uploadingEnabled = s.uploadingEnabled
  acks : t.acks = s.acks
  queue : t.queue = s.queue ++
    if s.uploadingEnabled = true ∧ t.controller.size < t.controller.uploadLimit then [.uploadNext] else []
  linked : s.database.Linked → t.database.Linked

omit [DecidableEq Dev] in
theorem linked_write (db : LocalDatabase Dev jsonHash) (index : DataIndex jsonHash) : (db.write index).Linked := by
  intro k d h
  have h' : (db.deviceUploads k d && (index k).isSome) = true := h
  rw [Bool.and_eq_true] at h'
  exact h'.2

theorem linked_removeDeviceChange {db : LocalDatabase Dev jsonHash} (h : db.Linked) (key : ObjectKey) (deviceId : Dev) :
    (db.removeDeviceChange key deviceId).Linked := by
  intro k d hk
  have hk' : (db.deviceUploads k d && !(k == key && d == deviceId)) = true := hk
  rw [Bool.and_eq_true] at hk'
  exact h k d hk'.1

theorem completes_complete (persistDeleted : Bool) {key : QByteArray × Option Dev}
    (h : (s.controller.activeUploads.lookup key).isSome) : Completes s key (s.complete persistDeleted false key) := by
  have hcompleted : ∀ (cc : ChangeController Dev Data) (db : LocalDatabase Dev jsonHash),
      cc = { s.controller with activeUploads := s.controller.activeUploads.erase key } →
      (s.database.Linked → db.Linked) → Completes s key (s.completed cc db) := by
    rintro cc db rfl hl
    unfold completed
    simp only
    split_ifs with hfree
    · exact ⟨rfl, rfl, rfl, rfl, (congrArg (s.queue ++ ·) (if_pos hfree)).symm, hl⟩
    · exact ⟨rfl, rfl, rfl, rfl, ((congrArg (s.queue ++ ·) (if_neg hfree)).trans (List.append_nil _)).symm, hl⟩
  obtain ⟨info, hinfo⟩ := Option.isSome_iff_exists.mp h
  obtain ⟨key, - | d⟩ := key
  · show Completes s (key, none) (s.uploadDone persistDeleted false key)
    unfold uploadDone
    rw [if_pos h]
    simp only [Bool.false_eq_true, if_false, ChangeController.uploadDone, hinfo]
    exact hcompleted _ _ rfl fun _ => linked_write _ _
  · show Completes s (key, some d) (s.deviceUploadDone false key d)
    unfold deviceUploadDone
    rw [if_pos h]
    simp only [Bool.false_eq_true, if_false, ChangeController.deviceUploadDone, hinfo]
    exact hcompleted _ _ rfl fun hl => linked_removeDeviceChange hl _ _

/-! ### Steps -/

variable [LinearOrder Checksum] {d : Defaults Data}

omit [DecidableEq Dev] in
/-- What an operation writes as changed was changed before, unless it tells so. -/
theorem changed_of_run {index : DataIndex jsonHash} {op : StoreOp Data} (hneeded : op.uploadNeeded d index = false)
    (hop : ∀ key version isDelete, op ≠ .markUnchanged key version isDelete) {k : ObjectKey} {r' : Row jsonHash}
    (hr' : DataIndex.run d index op k = some r') (hch : r'.changed = true) :
    ∃ r, index k = some r ∧ r.changed = true := by
  rcases DataIndex.run_apply d index op k with ⟨ht, hrun⟩ | ⟨-, hrun⟩
  · rw [hrun] at hr'
    cases op with
    | save _ _ => exact absurd hneeded (by simp [StoreOp.uploadNeeded])
    | clear _ => exact absurd hneeded (by simp [StoreOp.uploadNeeded])
    | markUnchanged key version isDelete => exact absurd rfl (hop key version isDelete)
    | remove key =>
      have ht' : k = key := ht
      subst ht'
      have hsame : ∀ e : Entry jsonHash, (LocalStore.remove e).2 = false → (LocalStore.remove e).1 = e := by
        rintro (- | ⟨v, - | f, ch⟩) h
        · rfl
        · rfl
        · exact absurd h (by simp [LocalStore.remove])
      have hr : (LocalStore.remove (index k)).1 = some r' := hr'
      rw [hsame _ hneeded] at hr
      exact ⟨r', hr, hch⟩
    | syncChange c =>
      have ht' : k = c.key := ht
      subst ht'
      have happly : SyncController.applyChange d (index c.key) c = some r' := hr'
      have hversion : (index c.key).map (·.version) = some r'.version := by
        by_contra hne
        simp [StoreOp.uploadNeeded, happly, hch, hne] at hneeded
      obtain ⟨r, hr, hv⟩ := Option.map_eq_some_iff.mp hversion
      rw [hr] at happly
      have hstep : Client.RowStep d (⟨.empty, ⟨∅, 0⟩⟩ : Client Unit jsonHash) (.syncChange c) c.key r r' :=
        Client.rowStep_applyChange happly
      cases hstep with
      | same => exact ⟨_, hr, hch⟩
      | raise _ hlt => exact absurd hv hlt.ne
      | acknowledge ha _ _ _ _ _ => exact absurd ha (by simp)
      | adopt _ _ _ hun => exact absurd (hch.symm.trans hun) (by simp)
  · rw [hrun] at hr'
    exact ⟨r', hr', hch⟩

omit [DecidableEq Dev] in
/-- A change that is pending after an operation has woken the controller, or another one was pending before. -/
theorem pending_store {db : LocalDatabase Dev jsonHash} {op : StoreOp Data} (hl : db.Linked)
    (hneeded : op.uploadNeeded d db.dataIndex = false)
    (hop : ∀ key version isDelete, op ≠ .markUnchanged key version isDelete)
    (h : ∃ x, (db.write (DataIndex.run d db.dataIndex op)).Pending x) : ∃ x, db.Pending x := by
  obtain ⟨⟨k, - | deviceId⟩, hx⟩ := h
  · obtain ⟨r', hr', hch⟩ := hx
    exact ⟨(k, none), changed_of_run hneeded hop hr' hch⟩
  · obtain ⟨hup, -⟩ := Client.deviceUploads_write hx.1
    obtain ⟨r, hr⟩ := Option.isSome_iff_exists.mp (hl k deviceId hup)
    by_cases hblocked : r.changed = true ∧ r.file = none
    · exact ⟨(k, none), r, hr, hblocked.1⟩
    · exact ⟨(k, some deviceId), hup, r, hr, hblocked⟩

/-- The invariant of the runs. -/
structure Steady (s : ExchangeEngine Dev jsonHash) : Prop where
  linked : s.database.Linked
  matched : s.Matched
  awake : s.Awake

omit [LinearOrder Checksum] in
/-- A completion that was outstanding is delivered. -/
theorem Steady.complete {u : ExchangeEngine Dev jsonHash} {key : QByteArray × Option Dev} (hl : u.database.Linked)
    (hperm : (key :: u.completions).Perm u.controller.activeUploads.keys) (persistDeleted : Bool) :
    (u.complete persistDeleted false key).Steady := by
  have hmem : key ∈ u.controller.activeUploads.keys := hperm.mem_iff.mp List.mem_cons_self
  have hactive : (u.controller.activeUploads.lookup key).isSome := AList.lookup_isSome.mpr (AList.mem_keys.mpr hmem)
  have hc := completes_complete persistDeleted hactive
  refine ⟨hc.linked hl, ?_, fun henabled _ => ?_⟩
  · have hqueue : (u.complete persistDeleted false key).completions = u.completions := by
      rw [completions, completions, hc.acks, hc.queue, List.filterMap_append]
      split_ifs <;> simp [Call.completes]
    rw [Matched, hqueue, hc.active]
    exact (hperm.trans (keys_perm_erase hactive)).cons_inv
  · by_cases hfree : (u.complete persistDeleted false key).controller.size <
        (u.complete persistDeleted false key).controller.uploadLimit
    · refine Or.inl (Or.inl ?_)
      rw [hc.queue, if_pos ⟨hc.enabled.symm.trans henabled, hfree⟩]
      simp
    · refine Or.inr ?_
      omega

omit [LinearOrder Checksum] in
theorem Steady.uploadNext {env : UploadEnv Dev} {emitStarted : Bool} (hl : s.database.Linked) (h : s.Matched)
    (hfinds : s.Finds env) (hfault : env.fault = none) (herror : ∀ k d, env.emission k d ≠ .error)
    (hreadable : ∀ x ∈ env.deviceRows, s.controller.activeUploads.lookup (hashed x.1, some x.2) = none →
      env.emission x.1 (some x.2) ≠ .unreadable) : (s.uploadNext hashed env emitStarted).Steady := by
  have hvisited : Visited s (s.uploadNext hashed env emitStarted) ∧ (s.uploadNext hashed env emitStarted).Awake :=
    visited_uploadNext h hfinds hfault herror hreadable
  obtain ⟨hv, hawake⟩ := hvisited
  refine ⟨?_, hv.matched, hawake⟩
  rw [hv.database]
  exact hl

/-- **One step** of a run in which only `readJson` fails, and not for an upload to one device. -/
theorem Steady.next {t : ExchangeEngine Dev jsonHash} {a : Step Dev Data} (h : s.Steady) (hans : Answered s a)
    (honly : OnlyReadsFail a) (hreadable : DeviceReadable hashed s a) (ht : s.next hashed d a = some t) :
    t.Steady := by
  have hwoken : ∀ {db : LocalDatabase Dev jsonHash} {needed : Bool}, db.Linked →
      (needed = false → (∃ x, db.Pending x) → ∃ x, s.database.Pending x) →
      ({ s with database := db, queue := s.queue ++ if needed then [.changeTriggered] else [] } :
        ExchangeEngine Dev jsonHash).Steady := by
    intro db needed hl hpending
    refine ⟨hl, ?_, fun henabled hx => ?_⟩
    · have hsame : ({ s with database := db, queue := s.queue ++ if needed then [.changeTriggered] else [] } :
          ExchangeEngine Dev jsonHash).completions = s.completions := by
        simp only [completions, List.filterMap_append]
        split_ifs <;> simp [Call.completes]
      rw [Matched, hsame]
      exact h.matched
    · cases needed with
      | true => exact Or.inl (Or.inr (by simp))
      | false =>
        rcases h.awake henabled (hpending rfl hx) with hw | hsize
        · exact Or.inl (by simpa [Wakes] using hw)
        · exact Or.inr hsize
  cases a with
  | store op =>
    by_cases hop : ∃ key version isDelete, op = .markUnchanged key version isDelete
    · obtain ⟨key, version, isDelete, rfl⟩ := hop
      simp [ExchangeEngine.next] at ht
    · have hne : ∀ key version isDelete, op ≠ .markUnchanged key version isDelete := fun key version isDelete he =>
        hop ⟨key, version, isDelete, he⟩
      have hst : t = s.store d op := by
        cases op with
        | markUnchanged key version isDelete => exact absurd rfl (hne key version isDelete)
        | save _ _ => exact (Option.some.inj ht).symm
        | remove _ => exact (Option.some.inj ht).symm
        | clear _ => exact (Option.some.inj ht).symm
        | syncChange _ => exact (Option.some.inj ht).symm
      subst hst
      exact hwoken (linked_write _ _) fun hneeded hx => pending_store h.linked hneeded hne hx
  | prepareAccountAdded deviceId affected =>
    cases ht
    refine hwoken ?_ fun hnone hx => ?_
    · intro k dev hk
      have hk' : (s.database.deviceUploads k dev || (dev == deviceId && (s.database.dataIndex k).isSome)) = true := hk
      rw [Bool.or_eq_true, Bool.and_eq_true] at hk'
      rcases hk' with hk' | hk'
      · exact h.linked k dev hk'
      · exact hk'.2
    · have hempty : ∀ k, s.database.dataIndex k = none := hans hnone
      obtain ⟨⟨k, - | dev⟩, hx⟩ := hx
      · obtain ⟨r, hr, -⟩ := hx
        exact absurd ((hempty k).symm.trans hr) (by simp)
      · obtain ⟨-, r, hr, -⟩ := hx
        exact absurd ((hempty k).symm.trans hr) (by simp)
  | setUploadingEnabled env uploading =>
    cases ht
    unfold setUploadingEnabled
    split_ifs with hup
    · exact Steady.uploadNext h.linked h.matched ⟨hans.count, hans.changed, hans.device⟩ honly.1 honly.2 hreadable
    · unfold disableUploads
      obtain ⟨state, l, hl, -⟩ := uploadingChanged_eq ({ s with uploadingEnabled := false }) false
      rw [hl]
      exact ⟨h.linked, h.matched, fun henabled => absurd henabled Bool.false_ne_true⟩
  | deliver env =>
    rcases hq : s.queue with - | ⟨c, queue⟩
    · simp [ExchangeEngine.next, hq] at ht
    · simp only [ExchangeEngine.next, hq, Option.some.injEq] at ht
      subst ht
      have hfinds : ({ s with queue := queue } : ExchangeEngine Dev jsonHash).Finds env :=
        ⟨hans.count, hans.changed, hans.device⟩
      have hperm : s.completions.Perm s.controller.activeUploads.keys := h.matched
      rw [completions, hq] at hperm
      cases c with
      | changeTriggered =>
        show (changeTriggered hashed { s with queue := queue } env).Steady
        unfold changeTriggered
        split_ifs with henabled
        · exact Steady.uploadNext h.linked hperm hfinds honly.1 honly.2 hreadable
        · exact ⟨h.linked, hperm, fun he => absurd he henabled⟩
      | uploadNext => exact Steady.uploadNext h.linked hperm hfinds honly.1 honly.2 hreadable
      | uploadDone key =>
        have hfails : decide (env.fault = some .complete) = false := by rw [honly.1]; rfl
        show (uploadDone { s with queue := queue } d.persistDeleted (decide (env.fault = some .complete)) key).Steady
        rw [hfails]
        have hkey : ((key, none) :: ({ s with queue := queue } : ExchangeEngine Dev jsonHash).completions).Perm
            s.controller.activeUploads.keys := List.perm_middle.symm.trans hperm
        exact Steady.complete (u := { s with queue := queue }) h.linked hkey _
  | ack key fails =>
    have hfails : fails = false := honly
    subst hfails
    simp only [ExchangeEngine.next, Option.ite_none_right_eq_some, Option.some.injEq] at ht
    obtain ⟨hmem, rfl⟩ := ht
    refine Steady.complete (u := { s with acks := s.acks.erase key }) h.linked ?_ _
    exact ((List.perm_cons_erase hmem).symm.append_right _).trans h.matched
  | clearUploads => exact honly.elim
  | updateUploadLimit _ => exact honly.elim
  | remoteEvent _ _ => exact honly.elim
  | resetAccount _ => exact honly.elim
  | controllerError => exact honly.elim

omit [LinearOrder Checksum] in
theorem Steady.progresses (h : s.Steady) (persistDeleted : Bool) : Progresses hashed persistDeleted s := by
  have hcompletion : ∀ {key}, (s.controller.activeUploads.lookup key).isSome → key ∈ s.completions := fun hactive =>
    h.matched.mem_iff.mpr (AList.mem_keys.mp (AList.lookup_isSome.mp hactive))
  refine ⟨fun key hactive => ⟨hcompletion hactive, (completes_complete persistDeleted hactive).active⟩, ?_⟩
  rintro henabled hfree ⟨x, hx, -⟩
  rcases h.awake henabled ⟨x, hx⟩ with hw | hsize | hlimit
  · exact Or.inl hw
  · refine Or.inr ?_
    rw [Ne, size_eq_zero_iff, not_forall] at hsize
    obtain ⟨key, hkey⟩ := hsize
    have hactive : (s.controller.activeUploads.lookup key).isSome := by simpa [Option.isSome_iff_ne_none] using hkey
    have hc := completes_complete persistDeleted hactive
    have hle : (s.complete persistDeleted false key).controller.size ≤ s.controller.size := by
      have hlen := (keys_perm_erase hactive).length_eq
      simp only [AList.keys, List.keys, List.length_map, List.length_cons] at hlen
      unfold ChangeController.size
      rw [hc.active]
      omega
    refine ⟨key, hcompletion hactive, hactive, ?_⟩
    rw [hc.queue, if_pos ⟨henabled, by rw [hc.limit]; omega⟩]
    simp
  · omega

/-- **The upload queue progresses**: from any database, as long as the files of the uploads for one device can be
read, every active upload has an outstanding completion that will remove it, and no pending change waits for ever. -/
theorem uploads_progress {s : ExchangeEngine Dev jsonHash}
    (h : (lts hashed d).Reachable (fun s a => OnlyReadsFail a ∧ DeviceReadable hashed s a) s) :
    Progresses hashed d.persistDeleted s := by
  have hsteady : s.Steady := by
    refine LTS.Reachable.invariant (I := Steady) ?_ ?_ h
    · rintro s ⟨hl, -, hactive, henabled, -, hqueue, hacks, -, -, -⟩
      refine ⟨hl, ?_, fun he => absurd (henabled.symm.trans he) Bool.false_ne_true⟩
      rw [Matched, completions, hacks, hqueue, hactive]
      exact List.Perm.nil
    · exact fun s a t _ hs hg hst => hs.next hst.1 hg.1 hg.2 hst.2
  exact hsteady.progresses d.persistDeleted

end

end

/-! ### An upload for one device that cannot be read -/

namespace Sample

def key : ObjectKey := ⟨[1], "a"⟩

def defaults : Defaults ℕ := ⟨false, .PreferChanged, none⟩

def hashed (key : ObjectKey) : QByteArray := key.typeName

/-- The object is known to the server, and one new device waits for it. -/
def database : LocalDatabase Unit (fun n : ℕ => n) where
  dataIndex k := if k = key then some ⟨1, some (.write 5), false⟩ else none
  deviceUploads k _ := decide (k = key)

def start : ExchangeEngine Unit (fun n : ℕ => n) :=
  ⟨database, .Initializing, ⟨∅, 1⟩, false, 0, [], [], ⟨false, none⟩, true, []⟩

def env (emission : Emission) : UploadEnv Unit := ⟨1, [], [(key, ())], fun _ _ => emission, none⟩

def enabled (emission : Emission) : ExchangeEngine Unit (fun n : ℕ => n) :=
  start.setUploadingEnabled hashed (env emission) true

theorem pending_iff (x : ObjectKey × Option Unit) : database.Pending x ↔ x = (key, some ()) := by
  have hrow : ∀ {k r}, database.dataIndex k = some r → k = key ∧ r = ⟨1, some (.write 5), false⟩ := by
    intro k r h
    simp only [database, Option.ite_none_right_eq_some, Option.some.injEq] at h
    exact ⟨h.1, h.2.symm⟩
  constructor
  · rcases x with ⟨k, - | ⟨⟨⟩⟩⟩
    · rintro ⟨r, hr, hch⟩
      rw [(hrow hr).2] at hch
      cases hch
    · rintro ⟨-, r, hr, -⟩
      rw [(hrow hr).1]
  · rintro rfl
    exact ⟨by simp [database], _, rfl, by simp⟩

theorem finds (emission : Emission) : start.Finds (env emission) := by
  refine ⟨⟨[(key, some ())], List.nodup_singleton _, fun x => ?_, rfl⟩, ⟨List.nodup_nil, ?_, Nat.zero_le _, ?_⟩, ?_⟩
  · exact List.mem_singleton.trans (pending_iff x).symm
  · exact fun k hk => absurd hk List.not_mem_nil
  · intro _ k r hr hch
    exact absurd ((pending_iff (k, none)).mp ⟨r, hr, hch⟩) (by simp)
  · refine ⟨List.nodup_singleton _, fun x hx => ?_, le_rfl, fun hlt => absurd hlt (lt_irrefl _)⟩
    obtain rfl := List.mem_singleton.mp hx
    exact (pending_iff (key, some ())).mpr rfl

theorem init_start : Init start := by
  refine ⟨fun k d hk => ?_, rfl, rfl, rfl, rfl, rfl, rfl, rfl, rfl, rfl⟩
  have hk' : k = key := of_decide_eq_true hk
  subst hk'
  rfl

theorem enabled_reachable {G : ExchangeEngine Unit (fun n : ℕ => n) → Step Unit ℕ → Prop} {emission : Emission}
    (hG : G start (.setUploadingEnabled (env emission) true)) :
    (lts hashed defaults).Reachable G (enabled emission) :=
  (LTS.Reachable.init (L := lts hashed defaults) (G := G) init_start).step hG ⟨finds emission, rfl⟩

end Sample

/-- The change is uploaded to the device, and its answer will complete it. -/
theorem uploads_progress_sent : Progresses Sample.hashed Sample.defaults.persistDeleted (Sample.enabled .sent) ∧
    (Sample.enabled .sent).acks = [([1], some ())] := by
  refine ⟨uploads_progress (Sample.enabled_reachable ⟨⟨rfl, fun _ _ => nofun⟩, fun _ _ _ => nofun⟩), ?_⟩
  decide +kernel

/-- Of a change for one device that cannot be read, `uploadDone` is called as if it were for all: the upload stays
active for ever. -/
theorem unreadable_never_completed : ¬ ∀ s : ExchangeEngine Unit (fun n : ℕ => n),
    (lts Sample.hashed Sample.defaults).Reachable (fun _ a => OnlyReadsFail a) s →
      Progresses Sample.hashed Sample.defaults.persistDeleted s := by
  intro h
  have hall := h (Sample.enabled .unreadable) (Sample.enabled_reachable ⟨rfl, fun _ _ => nofun⟩)
  have hcompleted := (hall.completed ([1], some ()) (by decide +kernel)).1
  revert hcompleted
  decide +kernel

end ExchangeEngine

end QtDataSync
