import QtDataSync.Engine.Uploads

/-!
# Engine.Synchronized — the state `Synchronized` is truthful

The signal that uploading has stopped makes the engine `Synchronized` if it was `Uploading`.  Every handler of the
engine that disables or clears uploads changes the state first, except `resetAccount`.  So the engine is truthful in a
run if and only if no account is reset while the engine is `Uploading`: whenever it becomes `Synchronized`, the last
call of `uploadNext` has found no change while uploading was on, and no upload is active.
-/

namespace QtDataSync

variable {Dev Data Checksum : Type*} {jsonHash : Data → Checksum}

namespace ExchangeEngine

/-- The engine has become `Synchronized`. -/
def Synchronizes (s t : ExchangeEngine Dev jsonHash) : Prop :=
  ∃ l b, t.log = s.log ++ l ∧ (b, .stateChanged .Synchronized) ∈ l

/-- Uploading is on, the last call of `uploadNext` has found no change, there is none, and no upload is active. -/
structure Truthful (s : ExchangeEngine Dev jsonHash) : Prop where
  enabled : s.uploadingEnabled = true
  search : s.search = ⟨true, some false⟩
  store : ¬ ∃ x, s.database.Pending x
  active : s.controller.activeUploads = ∅

/-- The engine calls the slots of the controller itself. -/
def OfEngine : Step Dev Data → Prop
  | .setUploadingEnabled _ _ => False
  | .clearUploads => False
  | _ => True

/-- The account is reset while changes are uploaded. -/
def ResetsWhileUploading (s : ExchangeEngine Dev jsonHash) : Step Dev Data → Prop
  | .resetAccount _ => s.state = .Uploading
  | _ => False

/-- The engine has not become `Synchronized`. -/
def Unsynchronized (s t : ExchangeEngine Dev jsonHash) : Prop :=
  ∃ l, t.log = s.log ++ l ∧ ∀ b, (b, .stateChanged .Synchronized) ∉ l

/-- The engine is `Uploading` only while uploading is on. -/
def On (s : ExchangeEngine Dev jsonHash) : Prop := s.state = .Uploading → s.uploadingEnabled = true

/-- What a step has reported is true. -/
structure Reports (s t : ExchangeEngine Dev jsonHash) : Prop where
  on : t.On
  truthful : Unsynchronized s t ∨ t.Truthful

section

variable {hashed : ObjectKey → QByteArray} {s t u : ExchangeEngine Dev jsonHash}

theorem Unsynchronized.of_log_eq (h : t.log = s.log) : Unsynchronized s t :=
  ⟨[], by rw [h, List.append_nil], fun _ => List.not_mem_nil⟩

theorem Unsynchronized.trans (h : Unsynchronized s u) (h' : Unsynchronized u t) : Unsynchronized s t := by
  obtain ⟨l, hl, hnot⟩ := h
  obtain ⟨l', hl', hnot'⟩ := h'
  refine ⟨l ++ l', by rw [hl', hl, List.append_assoc], fun b hb => ?_⟩
  rcases List.mem_append.mp hb with hb | hb
  · exact hnot b hb
  · exact hnot' b hb

theorem Unsynchronized.not_synchronizes (h : Unsynchronized s t) : ¬ Synchronizes s t := by
  rintro ⟨l, b, hl, hb⟩
  obtain ⟨l', hl', hnot⟩ := h
  rw [hl] at hl'
  exact hnot b (List.append_cancel_left hl' ▸ hb)

theorem Reports.trans (h : Unsynchronized s u) (h' : Reports u t) : Reports s t := by
  refine ⟨h'.on, ?_⟩
  rcases h'.truthful with hu | ht
  · exact Or.inl (h.trans hu)
  · exact Or.inr ht

theorem Reports.of_log_eq (h : Reports u t) (hlog : u.log = s.log) : Reports s t :=
  Reports.trans (Unsynchronized.of_log_eq hlog) h

theorem Reports.synchronizes (h : Reports s t) (hs : Synchronizes s t) : t.Truthful := by
  rcases h.truthful with hu | ht
  · exact absurd hs hu.not_synchronizes
  · exact ht

/-! ### Signals -/

theorem unsynchronized_emit {signal : EngineSignal Dev Data} (h : signal ≠ .stateChanged .Synchronized) :
    Unsynchronized s (s.emit signal) := by
  refine ⟨[(s.uploadingEnabled, signal)], rfl, fun b hb => h ?_⟩
  exact (congrArg Prod.snd (List.mem_singleton.mp hb)).symm

theorem unsynchronized_upstate {state : SyncState} (h : state ≠ .Synchronized) :
    Unsynchronized s (s.upstate state) := by
  obtain ⟨l, hl, hall⟩ := upstate_eq s state
  rw [hl]
  refine ⟨l, rfl, fun b hb => h ?_⟩
  have he : (.stateChanged .Synchronized : EngineSignal Dev Data) = .stateChanged state := hall _ hb
  injection he with he
  exact he.symm

/-- The state after the signal: an error stays, and only a stop of `Uploading` is `Synchronized`. -/
theorem uploadingChanged_state (s : ExchangeEngine Dev jsonHash) (uploading : Bool) :
    (s.uploadingChanged uploading).state =
      if s.state = .Error then .Error else if uploading then .Uploading
      else if s.state = .Uploading then .Synchronized else s.state := by
  have hupstate : ∀ state, ((s.emit (.uploadingChanged uploading)).upstate state).state = state := by
    intro state
    obtain ⟨l, hl, -⟩ := upstate_eq (s.emit (.uploadingChanged uploading)) state
    rw [hl]
  have hemit : (s.emit (.uploadingChanged uploading)).state = s.state := rfl
  unfold uploadingChanged
  simp only [hemit]
  split_ifs with herror
  · exact herror
  · exact hupstate _
  · exact hupstate _
  · rfl

theorem unsynchronized_uploadingChanged {uploading : Bool} (h : uploading = true ∨ s.state ≠ .Uploading) :
    Unsynchronized s (s.uploadingChanged uploading) := by
  have hemit : Unsynchronized s (s.emit (.uploadingChanged uploading)) := unsynchronized_emit (by simp)
  have hstate : (s.emit (.uploadingChanged uploading)).state = s.state := rfl
  unfold uploadingChanged
  simp only [hstate]
  split_ifs with herror hup huploading
  · exact hemit
  · exact hemit.trans (unsynchronized_upstate (by simp))
  · exact absurd huploading (h.resolve_left hup)
  · exact hemit

/-- Nothing is reported, and the engine is not `Uploading`. -/
structure Stopped (s t : ExchangeEngine Dev jsonHash) : Prop where
  unsynchronized : Unsynchronized s t
  state : t.state ≠ .Uploading

theorem Stopped.reports (h : Stopped s t) : Reports s t :=
  ⟨fun hup => absurd hup h.state, Or.inl h.unsynchronized⟩

/-- Uploads are disabled or cleared after the engine has changed its state. -/
theorem stopped_clearUploads (h : s.state ≠ .Uploading) : Stopped s s.disableUploads ∧ Stopped s s.clearUploads := by
  have hlog : Unsynchronized s s.disableUploads :=
    unsynchronized_uploadingChanged (s := { s with uploadingEnabled := false }) (Or.inr h)
  have hstate : s.disableUploads.state ≠ .Uploading := by
    unfold disableUploads
    rw [uploadingChanged_state]
    simp only [Bool.false_eq_true, if_false, h]
    split_ifs
    · simp
    · exact h
  exact ⟨⟨hlog, hstate⟩, ⟨hlog, hstate⟩⟩

theorem controllerError_state (s : ExchangeEngine Dev jsonHash) : s.controllerError.state = .Error := by
  have hstate : ((s.emit .controllerError).upstate .Error).state = .Error := by
    obtain ⟨l, hl, -⟩ := upstate_eq (s.emit .controllerError) .Error
    rw [hl]
  unfold controllerError clearUploads disableUploads
  simp only
  rw [uploadingChanged_state]
  simp [hstate]

theorem stopped_controllerError (s : ExchangeEngine Dev jsonHash) : Stopped s s.controllerError := by
  have hlog : Unsynchronized s ((s.emit .controllerError).upstate .Error) :=
    (unsynchronized_emit (by simp)).trans (unsynchronized_upstate (by simp))
  have hstate : ((s.emit .controllerError).upstate .Error).state ≠ .Uploading := by
    obtain ⟨l, hl, -⟩ := upstate_eq (s.emit .controllerError) .Error
    rw [hl]
    simp
  exact ⟨hlog.trans (stopped_clearUploads hstate).2.unsynchronized, by simp [controllerError_state]⟩

/-! ### Visits -/

theorem On.uploadingChanged (h : s.On) {uploading : Bool} (hon : uploading = true → s.uploadingEnabled = true) :
    (s.uploadingChanged uploading).On := by
  intro hup
  rw [uploadingChanged_state] at hup
  obtain ⟨state, l, hl, -⟩ := uploadingChanged_eq s uploading
  rw [hl]
  split_ifs at hup with _ huploading
  · exact hon huploading
  · exact h hup

/-- What the visits keep; `start` tells whether the first upload is yet to be signalled. -/
structure Visiting (s u : ExchangeEngine Dev jsonHash) (start : Bool) : Prop where
  on : u.On
  unsynchronized : Unsynchronized s u
  started : start = true → u.uploadingEnabled = true

section

variable [DecidableEq Dev] {env : UploadEnv Dev}

omit [DecidableEq Dev] in
theorem Visiting.beginUploading {start : Bool} (h : Visiting s u start) (emitProgress : Bool) :
    Visiting s (u.beginUploading start emitProgress) false := by
  have hchanged : start = true → Visiting s (u.uploadingChanged true) false := fun hstart =>
    ⟨h.on.uploadingChanged fun _ => h.started hstart,
      h.unsynchronized.trans (unsynchronized_uploadingChanged (Or.inl rfl)), by simp⟩
  unfold ExchangeEngine.beginUploading
  split_ifs with hstart
  · have hc := hchanged hstart
    exact ⟨hc.on, hc.unsynchronized.trans (unsynchronized_emit (by simp)), by simp⟩
  · exact hchanged hstart
  · exact ⟨h.on, h.unsynchronized, by simp⟩

/-- An upload is started and stays active, or the connector fails. -/
theorem Visiting.activate {row : LoadedChange Dev Data} (h : Visiting s u false)
    (hnew : u.controller.activeUploads.lookup (hashed row.key, row.device) = none) :
    Visiting s ((u.activate hashed row).startUpload hashed env row) false ∧
      (((u.activate hashed row).startUpload hashed env row).controller.size ≠ 0 ∨
        ((u.activate hashed row).startUpload hashed env row).state = .Error) := by
  have hactive : Visiting s (u.activate hashed row) false :=
    ⟨h.on, h.unsynchronized.trans ⟨[(u.uploadingEnabled, .activated (hashed row.key, row.device))], rfl, by simp⟩, by simp⟩
  have hsize : (u.activate hashed row).controller.size ≠ 0 := by
    intro hzero
    have hnone := size_eq_zero_iff.mp hzero (hashed row.key, row.device)
    rw [AList.lookup_eq_none, AList.mem_keys, (activate_eq hnew).1] at hnone
    exact hnone List.mem_cons_self
  have hemit : ∃ l, (u.activate hashed row).emitUpload hashed row =
      { u.activate hashed row with log := (u.activate hashed row).log ++ l } ∧
        ∀ b, (b, .stateChanged .Synchronized) ∉ l := by
    unfold emitUpload
    split
    · exact ⟨_, rfl, by simp⟩
    · exact ⟨_, rfl, by simp⟩
  obtain ⟨l, hl, hnot⟩ := hemit
  have hsent := hactive.unsynchronized.trans ⟨l, (congrArg ExchangeEngine.log hl), hnot⟩
  unfold startUpload
  split
  · exact ⟨⟨hactive.on, hactive.unsynchronized, by simp⟩, Or.inl hsize⟩
  · have hstopped := stopped_controllerError ((u.activate hashed row).emitUpload hashed row)
    refine ⟨⟨fun hup => absurd hup hstopped.state, ?_, by simp⟩, Or.inr (controllerError_state _)⟩
    exact hsent.trans hstopped.unsynchronized
  · refine ⟨⟨?_, ?_, by simp⟩, Or.inl ?_⟩
    · rw [hl]
      exact hactive.on
    · exact hsent
    · rw [hl]
      exact hsize

variable (hashed env) in
/-- All visits of a call. -/
theorem Visiting.visits {start : Bool} (h : Visiting s u start) (emitProgress : Bool)
    (rows : List (LoadedChange Dev Data)) :
    Visiting s (visitAll (visit hashed env emitProgress) (u, start) rows).1.1 false ∧
      (rows ≠ [] → (visitAll (visit hashed env emitProgress) (u, start) rows).1.1.controller.size ≠ 0 ∨
        (visitAll (visit hashed env emitProgress) (u, start) rows).1.1.state = .Error) := by
  let P (x : ExchangeEngine Dev jsonHash × Bool) : Prop := Visiting s x.1 x.2
  have hvisit : ∀ x row, P x → P (visit hashed env emitProgress x row).1 ∧
      ((visit hashed env emitProgress x row).1.1.controller.size ≠ 0 ∨
        (visit hashed env emitProgress x row).1.1.state = .Error) := by
    rintro ⟨u, start⟩ row hu
    unfold visit
    split_ifs with hactive
    · refine ⟨hu, Or.inl fun hzero => ?_⟩
      rw [size_eq_zero_iff.mp hzero] at hactive
      cases hactive
    · obtain ⟨state, l, hl⟩ := beginUploading_eq u start emitProgress
      have hnew : (u.beginUploading start emitProgress).controller.activeUploads.lookup
          (hashed row.key, row.device) = none := by
        rw [hl]
        simpa using hactive
      exact Visiting.activate (Visiting.beginUploading hu emitProgress) hnew
  have hstart : P (u, start) := h
  have hall := visitAll_invariant (l := rows) hstart fun x row _ hx => (hvisit x row hx).1
  refine ⟨⟨hall.on, hall.unsynchronized, by simp⟩, fun hne => ?_⟩
  exact (visitAll_of_ne_nil (P := fun x => P x ∧ (x.1.controller.size ≠ 0 ∨ x.1.state = .Error)) hne
    (fun row _ => hvisit _ row hstart) fun x row _ hx => hvisit x row hx.1).2

omit [DecidableEq Dev] in
theorem Finds.changed_eq_nil (h : s.Finds env) (hnone : ¬ ∃ x, s.database.Pending x) : env.changedRows = [] :=
  List.eq_nil_iff_forall_not_mem.mpr fun k hk => hnone ⟨(k, none), h.changed.changed k hk⟩

omit [DecidableEq Dev] in
theorem Finds.device_eq_nil (h : s.Finds env) (hnone : ¬ ∃ x, s.database.Pending x) : env.deviceRows = [] :=
  List.eq_nil_iff_forall_not_mem.mpr fun x hx => hnone ⟨(x.1, some x.2), h.device.listed x hx⟩

/-- **What `uploadNext` reports**: a call that finds no change and no active upload may make the engine
`Synchronized`. -/
theorem reports_uploadNext {emitStarted : Bool} (h : s.On) (hfinds : s.Finds env)
    (hstarted : emitStarted = true → s.uploadingEnabled = true) :
    Reports s (s.uploadNext hashed env emitStarted) := by
  let A (u : ExchangeEngine Dev jsonHash) : Prop := Visiting s u emitStarted ∧ u.controller = s.controller ∧
    u.database = s.database
  have hstopped : ∀ {u}, Unsynchronized s u → Reports s u.controllerError := fun hu =>
    Reports.trans hu (stopped_controllerError _).reports
  have hsame : A s := ⟨⟨h, Unsynchronized.of_log_eq rfl, hstarted⟩, rfl, rfl⟩
  refine uploadNext_rule (A := A) (E := A) (B := Reports s) hsame ?_ ?_ ?_ ?_ ?_ ?_
  · intro he _
    have hon : (s.uploadingChanged true).On := h.uploadingChanged fun _ => hstarted he
    have hlog : Unsynchronized s (s.uploadingChanged true) := unsynchronized_uploadingChanged (Or.inl rfl)
    obtain ⟨state, l, hl, -⟩ := uploadingChanged_eq s true
    rw [hl] at hon hlog ⊢
    exact ⟨⟨hon, hlog, hstarted⟩, rfl, rfl⟩
  · exact fun u ⟨hu, hc, hd⟩ => ⟨⟨hu.on, hu.unsynchronized, hu.started⟩, hc, hd⟩
  · exact fun u hu _ => ⟨hu.1.on, Or.inl hu.1.unsynchronized⟩
  · rintro u (hu | hu) -
    · exact hstopped hu.1.unsynchronized
    · exact hstopped hu.1.unsynchronized
  · rintro u b ⟨hu, hc, hd⟩
    obtain ⟨estimate, l, hl, -, hall⟩ := updateEstimate_eq u env.count b
    rw [hl]
    refine ⟨⟨hu.on, hu.unsynchronized.trans ⟨l, rfl, fun b hb => ?_⟩, hu.started⟩, hc, hd⟩
    exact absurd (hall _ hb) (by simp)
  · rintro u b b' ⟨hu, hc, hd⟩ hlt hb - -
    have hlimit : 0 < s.controller.uploadLimit := by
      rw [hc] at hlt
      omega
    have hsome := LocalDatabase.rows_ne_nil_iff hlimit hfinds.changed hfinds.device
    rw [← hd] at hsome
    let found : ExchangeEngine Dev jsonHash :=
      { u with search := ⟨u.uploadingEnabled, some !(env.changedRows.isEmpty && env.deviceRows.isEmpty)⟩ }
    have hfound : Visiting s found b := ⟨hu.on, hu.unsynchronized, fun hstart => hu.started (hb hstart)⟩
    -- without rows nothing is visited; else something is active or the connector has failed
    let V (v : ExchangeEngine Dev jsonHash) : Prop := Visiting s v false ∧
      (u.database.rows env.changedRows env.deviceRows = [] ∧ v = found ∨ v.controller.size ≠ 0 ∨ v.state = .Error)
    refine loadUploads_rule (B := Reports s) (V := V) ?_ ?_ ?_ ?_ ?_
    · obtain ⟨hv, hne⟩ := hfound.visits hashed env b' (u.database.rows env.changedRows env.deviceRows)
      refine ⟨hv, ?_⟩
      by_cases hrows : u.database.rows env.changedRows env.deviceRows = []
      · exact Or.inl ⟨hrows, by rw [hrows]; rfl⟩
      · exact Or.inr (hne hrows)
    · rw [hc, hd]
      exact hfinds.device
    · exact fun v hv _ => hstopped hv.1.unsynchronized
    · rintro v ⟨hv, hor⟩ hzero
      have hlog : v.state ≠ .Uploading → Reports s (v.uploadingChanged false) := fun hstate =>
        ⟨hv.on.uploadingChanged (by simp), Or.inl (hv.unsynchronized.trans
          (unsynchronized_uploadingChanged (Or.inr hstate)))⟩
      by_cases hstate : v.state = .Uploading
      · rcases hor with ⟨hnil, rfl⟩ | hsize | herror
        · have hnone : ¬ ∃ x, s.database.Pending x := fun hx => hsome.mpr (by rw [hd]; exact hx) hnil
          refine ⟨hv.on.uploadingChanged (by simp), Or.inr ?_⟩
          obtain ⟨state, l, hl, -⟩ := uploadingChanged_eq found false
          rw [hl]
          have hon : u.uploadingEnabled = true := hv.on hstate
          refine ⟨hon, ?_, ?_, AList.ext (List.length_eq_zero_iff.mp hzero)⟩
          · show Search.mk u.uploadingEnabled _ = _
            rw [hon, hfinds.changed_eq_nil hnone, hfinds.device_eq_nil hnone]
            rfl
          · show ¬ ∃ x, u.database.Pending x
            rw [hd]
            exact hnone
        · exact absurd hzero hsize
        · rw [herror] at hstate
          cases hstate
      · exact hlog hstate
    · exact fun v hv _ => ⟨hv.1.on, Or.inl hv.1.unsynchronized⟩

/-! ### Steps -/

omit [DecidableEq Dev] in
theorem reports_of_log_eq (h : s.On) (hlog : t.log = s.log) (hstate : t.state = s.state)
    (henabled : t.uploadingEnabled = s.uploadingEnabled) : Reports s t := by
  refine ⟨fun hup => ?_, Or.inl (Unsynchronized.of_log_eq hlog)⟩
  rw [henabled]
  exact h (hstate.symm.trans hup)

omit [DecidableEq Dev] in
theorem reports_completed (h : s.On) (controller : ChangeController Dev Data) (database : LocalDatabase Dev jsonHash) :
    Reports s (s.completed controller database) := by
  have hlog : Unsynchronized s (s.emit .progressIncrement) := unsynchronized_emit (by simp)
  unfold completed
  simp only
  split_ifs
  · exact ⟨h, Or.inl hlog⟩
  · exact ⟨h, Or.inl hlog⟩

theorem reports_complete (h : s.On) (persistDeleted fails : Bool) (key : QByteArray × Option Dev) :
    Reports s (s.complete persistDeleted fails key) := by
  obtain ⟨key, - | deviceId⟩ := key
  · show Reports s (s.uploadDone persistDeleted fails key)
    unfold uploadDone
    split_ifs
    · exact (stopped_controllerError _).reports.of_log_eq rfl
    · exact reports_completed h _ _
    · exact reports_of_log_eq h rfl rfl rfl
  · show Reports s (s.deviceUploadDone fails key deviceId)
    unfold deviceUploadDone
    split_ifs
    · exact (stopped_controllerError _).reports.of_log_eq rfl
    · exact reports_completed h _ _
    · exact reports_of_log_eq h rfl rfl rfl

theorem reports_enableUploads (hfinds : s.Finds env) : Reports s (s.setUploadingEnabled hashed env true) := by
  have hon : ({ s with uploadingEnabled := true, cleared := false } : ExchangeEngine Dev jsonHash).Finds env :=
    ⟨hfinds.count, hfinds.changed, hfinds.device⟩
  exact (reports_uploadNext (fun _ => rfl) hon fun _ => rfl).of_log_eq rfl

/-- The engine changes its state before it disables, clears or enables uploads. -/
theorem reports_remoteEvent (h : s.On) (event : RemoteEvent) (hfinds : s.Finds env) :
    Reports s (s.remoteEvent hashed env event) := by
  have hupstate : ∀ state, (s.upstate state).state = state := by
    intro state
    obtain ⟨l, hl, -⟩ := upstate_eq s state
    rw [hl]
  have hcleared : ∀ state, state ≠ .Synchronized → state ≠ .Uploading → Reports s (s.upstate state).clearUploads := by
    intro state hs hu
    exact Reports.trans (unsynchronized_upstate hs) (stopped_clearUploads (by rw [hupstate]; exact hu)).2.reports
  unfold remoteEvent
  split_ifs
  · exact reports_of_log_eq h rfl rfl rfl
  · cases event with
    | RemoteDisconnected => exact hcleared _ (by simp) (by simp)
    | RemoteConnecting => exact hcleared _ (by simp) (by simp)
    | RemoteReady =>
      have hlog : Unsynchronized s (s.upstate .Uploading) := unsynchronized_upstate (by simp)
      have hready : (s.upstate .Uploading).Finds env := by
        obtain ⟨l, hl, -⟩ := upstate_eq s .Uploading
        rw [hl]
        exact ⟨hfinds.count, hfinds.changed, hfinds.device⟩
      exact Reports.trans hlog (reports_enableUploads hready)
    | RemoteReadyWithChanges =>
      have hstate : (s.upstate .Downloading).state ≠ .Uploading := by
        rw [hupstate]
        simp
      exact Reports.trans (unsynchronized_upstate (by simp)) (stopped_clearUploads hstate).1.reports

variable [LinearOrder Checksum] {d : Defaults Data}

/-- **One step** of the engine that is no reset while changes are uploaded. -/
theorem reports_next {a : Step Dev Data} (h : s.On) (hans : Answered s a) (hengine : OfEngine a)
    (hreset : ¬ ResetsWhileUploading s a) (ht : s.next hashed d a = some t) : Reports s t := by
  cases a with
  | store op =>
    have hstore : Reports s (s.store d op) := reports_of_log_eq h rfl rfl rfl
    cases op with
    | markUnchanged _ _ _ => exact absurd ht (by simp [ExchangeEngine.next])
    | save _ _ => exact Option.some.inj ht ▸ hstore
    | remove _ => exact Option.some.inj ht ▸ hstore
    | clear _ => exact Option.some.inj ht ▸ hstore
    | syncChange _ => exact Option.some.inj ht ▸ hstore
  | prepareAccountAdded _ _ =>
    cases ht
    exact reports_of_log_eq h rfl rfl rfl
  | setUploadingEnabled _ _ => exact hengine.elim
  | clearUploads => exact hengine.elim
  | updateUploadLimit _ =>
    cases ht
    exact reports_of_log_eq h rfl rfl rfl
  | deliver env =>
    rcases hq : s.queue with - | ⟨c, queue⟩
    · simp [ExchangeEngine.next, hq] at ht
    · simp only [ExchangeEngine.next, hq, Option.some.injEq] at ht
      subst ht
      have hs : ({ s with queue := queue } : ExchangeEngine Dev jsonHash).On := h
      have hfinds : ({ s with queue := queue } : ExchangeEngine Dev jsonHash).Finds env :=
        ⟨hans.count, hans.changed, hans.device⟩
      refine Reports.of_log_eq (u := { s with queue := queue }) ?_ rfl
      cases c with
      | changeTriggered =>
        show Reports _ (changeTriggered hashed { s with queue := queue } env)
        unfold changeTriggered
        split_ifs with henabled
        · exact reports_uploadNext hs hfinds fun _ => henabled
        · exact reports_of_log_eq hs rfl rfl rfl
      | uploadNext => exact reports_uploadNext hs hfinds (by simp)
      | uploadDone key => exact reports_complete hs _ _ (key, none)
  | ack key fails =>
    simp only [ExchangeEngine.next, Option.ite_none_right_eq_some, Option.some.injEq] at ht
    obtain ⟨-, rfl⟩ := ht
    have hs : ({ s with acks := s.acks.erase key } : ExchangeEngine Dev jsonHash).On := h
    exact (reports_complete hs _ _ _).of_log_eq rfl
  | remoteEvent env event =>
    cases ht
    exact reports_remoteEvent h event hans
  | resetAccount keepData =>
    cases ht
    have hstopped := (stopped_clearUploads (s := s) hreset).2
    exact ⟨fun hup => absurd hup hstopped.state, Or.inl hstopped.unsynchronized⟩
  | controllerError =>
    cases ht
    exact (stopped_controllerError s).reports

omit [DecidableEq Dev] [LinearOrder Checksum] in
/-- A reset clears the uploads of an engine that is still `Uploading`. -/
theorem synchronizes_resetAccount (h : s.state = .Uploading) (keepData : Bool) :
    Synchronizes s (s.resetAccount keepData) ∧ ¬ (s.resetAccount keepData).Truthful ∧ (s.resetAccount keepData).On := by
  have hstate : s.disableUploads.state = .Synchronized := by
    unfold disableUploads
    rw [uploadingChanged_state]
    simp [h]
  have henabled : s.disableUploads.uploadingEnabled = false := by
    unfold disableUploads
    obtain ⟨state, l, hl, -⟩ := uploadingChanged_eq { s with uploadingEnabled := false } false
    rw [hl]
  refine ⟨⟨[(false, .uploadingChanged false), (false, .stateChanged .Synchronized)], false, ?_, by simp⟩, ?_, ?_⟩
  · show s.disableUploads.log = _
    simp [disableUploads, uploadingChanged, upstate, emit, h]
  · exact fun ht => absurd (henabled.symm.trans ht.enabled) Bool.false_ne_true
  · intro hup
    exact absurd (hstate.symm.trans hup) (by simp)

theorem on_next {a : Step Dev Data} (h : s.On) (hans : Answered s a) (hengine : OfEngine a)
    (ht : s.next hashed d a = some t) : t.On := by
  by_cases hreset : ResetsWhileUploading s a
  · cases a with
    | resetAccount keepData =>
      cases ht
      exact (synchronizes_resetAccount hreset keepData).2.2
    | _ => exact hreset.elim
  · exact (reports_next h hans hengine hreset ht).on

/-- **`Synchronized` is truthful** in every step of a run if and only if no account is reset while changes are
uploaded. -/
theorem synchronized_iff {tr : List (ExchangeEngine Dev jsonHash × Step Dev Data × ExchangeEngine Dev jsonHash)}
    (h0 : Init s) (h : (lts hashed d).Run (fun _ a => OfEngine a) s tr t) :
    (∀ x ∈ tr, Synchronizes x.1 x.2.2 → x.2.2.Truthful) ↔ ∀ x ∈ tr, ¬ ResetsWhileUploading x.1 x.2.1 := by
  have hon : s.On := fun hup => absurd (h0.2.1.symm.trans hup) (by simp)
  have hstep : ∀ x ∈ tr, x.1.On ∧ Answered x.1 x.2.1 ∧ x.1.next hashed d x.2.1 = some x.2.2 := by
    intro x hx
    have hnext : ∀ (s : ExchangeEngine Dev jsonHash) (a : Step Dev Data) (t : ExchangeEngine Dev jsonHash),
        s.On → OfEngine a → (lts hashed d).step s a t → t.On := fun _ _ _ hs hg hst => on_next hs hst.1 hg hst.2
    have hinv := h.mem_invariant hnext hon hx
    exact ⟨hinv.1, hinv.2.2⟩
  refine forall₂_congr ?_
  rintro ⟨u, a, v⟩ hx
  obtain ⟨hu, hans, hnext⟩ := hstep _ hx
  have hengine := h.guard _ hx
  simp only at hu hans hnext hengine ⊢
  constructor
  · intro htruthful hreset
    cases a with
    | resetAccount keepData =>
      cases hnext
      obtain ⟨hsync, hnot, -⟩ := synchronizes_resetAccount hreset keepData
      exact hnot (htruthful hsync)
    | _ => exact hreset.elim
  · exact fun hreset => (reports_next hu hans hengine hreset hnext).synchronizes

end

end

/-! ### A reset while changes are uploaded -/

namespace Reset

open Sample

/-- The remote is ready, and the change is uploaded. -/
def uploading : ExchangeEngine Unit (fun n : ℕ => n) := start.remoteEvent hashed (env .sent) .RemoteReady

theorem uploading_run : (lts hashed defaults).Run (fun _ a => OfEngine a) start
    [(start, .remoteEvent (env .sent) .RemoteReady, uploading),
      (uploading, .resetAccount true, uploading.resetAccount true)] (uploading.resetAccount true) := by
  have hready : (lts hashed defaults).Run (fun _ a => OfEngine a) start
      [(start, .remoteEvent (env .sent) .RemoteReady, uploading)] uploading :=
    LTS.Run.snoc (.nil start) trivial ⟨finds .sent, rfl⟩
  exact hready.snoc trivial ⟨trivial, rfl⟩

/-- There is nothing to be uploaded. -/
def idle : ExchangeEngine Unit (fun n : ℕ => n) := { start with database := .empty }

def nothing : UploadEnv Unit := ⟨0, [], [], fun _ _ => .sent, none⟩

def ready : ExchangeEngine Unit (fun n : ℕ => n) := idle.remoteEvent hashed nothing .RemoteReady

theorem finds_idle : idle.Finds nothing := by
  have hnone : ∀ x, ¬ idle.database.Pending x := by
    rintro ⟨k, - | dev⟩ hx
    · obtain ⟨r, hr, -⟩ := hx
      cases hr
    · exact absurd hx.1 (by simp [idle, LocalDatabase.empty])
  refine ⟨⟨[], List.nodup_nil, fun x => by simp [hnone x], rfl⟩, ⟨List.nodup_nil, by simp [nothing], Nat.zero_le _, ?_⟩,
    ⟨List.nodup_nil, by simp [nothing], Nat.zero_le _, ?_⟩⟩
  · exact fun _ k r hr hch => absurd ⟨r, hr, hch⟩ (hnone (k, none))
  · exact fun _ k dev r hup hr hch => absurd ⟨hup, r, hr, hch⟩ (hnone (k, some dev))

theorem ready_run : (lts hashed defaults).Run (fun _ a => OfEngine a) idle
    [(idle, .remoteEvent nothing .RemoteReady, ready)] ready :=
  LTS.Run.snoc (.nil idle) trivial ⟨finds_idle, rfl⟩

end Reset

/-- Without changes the engine is `Synchronized` as soon as the remote is ready. -/
theorem synchronized_ready : Reset.ready.Truthful ∧ Reset.ready.state = .Synchronized := by
  have hinit : Init Reset.idle := ⟨fun _ _ hk => absurd hk (by simp [Reset.idle, LocalDatabase.empty]), rfl, rfl, rfl,
    rfl, rfl, rfl, rfl, rfl, rfl⟩
  have htruthful := (synchronized_iff hinit Reset.ready_run).mpr (by simp [ResetsWhileUploading])
  refine ⟨htruthful _ (List.mem_singleton.mpr rfl) ?_, by decide +kernel⟩
  have hlast : Reset.ready.log[2]? = some (true, .stateChanged .Synchronized) := rfl
  exact ⟨Reset.ready.log, true, rfl, List.mem_of_getElem? hlast⟩

/-- `resetAccount` clears the uploads of an engine that is `Uploading`, which becomes `Synchronized`. -/
theorem reset_synchronizes : ¬ ∀ (s t : ExchangeEngine Unit (fun n : ℕ => n))
    (tr : List (ExchangeEngine Unit (fun n : ℕ => n) × Step Unit ℕ × ExchangeEngine Unit (fun n : ℕ => n))), Init s →
      (lts Sample.hashed Sample.defaults).Run (fun _ a => OfEngine a) s tr t →
        ∀ x ∈ tr, Synchronizes x.1 x.2.2 → x.2.2.Truthful := by
  intro h
  have hstate : Reset.uploading.state = .Uploading := by decide +kernel
  obtain ⟨hsync, hnot, -⟩ := synchronizes_resetAccount hstate true
  exact hnot (h _ _ _ Sample.init_start Reset.uploading_run _ (List.mem_cons_of_mem _ List.mem_cons_self) hsync)

end ExchangeEngine

end QtDataSync
