import QtDataSync.Engine.ExchangeEngine

/-!
# Engine.UploadsOff — nothing is uploaded while uploading is off

An upload is started by a call of `uploadNext`.  `setUploadingEnabled` and `changeTriggered` call it only while
uploading is on; a call that was queued before uploading was disabled runs without a check, and so do the visits that
follow an error of the connector.  Without these two, whatever is uploaded is uploaded while uploading is on, and after
`clearUploads` nothing is active and nothing is estimated until uploading is on again.
-/

namespace QtDataSync

variable {Dev Data Checksum : Type*} {jsonHash : Data → Checksum}

/-- An upload becomes active or is handed to the connector. -/
def EngineSignal.IsUpload : EngineSignal Dev Data → Prop
  | .activated _ => True
  | .uploadChange _ _ => True
  | .uploadDeviceChange _ _ _ => True
  | _ => False

theorem visitAll_dropLast {σ α : Type*} {visitor : σ → α → σ × Bool} {P Q : σ → Prop} {l : List α} {s : σ} (hs : P s)
    (hv : ∀ s, ∀ x ∈ l.dropLast, P s → P (visitor s x).1) (hlast : ∀ s, ∀ x ∈ l, P s → Q (visitor s x).1)
    (hPQ : ∀ s, P s → Q s) : Q (visitAll visitor s l).1 := by
  induction l generalizing s with
  | nil => exact hPQ s hs
  | cons x l ih =>
    rw [visitAll]
    split
    · rcases l with - | ⟨y, l⟩
      · exact hlast s x List.mem_cons_self hs
      · refine ih (hv s x List.mem_cons_self hs) ?_ fun s z hz => hlast s z (List.mem_cons_of_mem _ hz)
        exact fun s z hz => hv s z (List.mem_cons_of_mem _ hz)
    · exact hlast s x List.mem_cons_self hs

namespace ExchangeEngine

/-- Uploads are signalled while uploading is on only, and what was cleared stays empty until then. -/
structure SilentWhileOff (s : ExchangeEngine Dev jsonHash) : Prop where
  log : ∀ x ∈ s.log, x.2.IsUpload → x.1 = true
  cleared : s.cleared = true → s.controller.activeUploads = ∅ ∧ s.changeEstimate = 0

section

variable [DecidableEq Dev] (hashed : ObjectKey → QByteArray)

/-- An error of the connector hits the last of the changes that are found. -/
def ErrorsLast (s : ExchangeEngine Dev jsonHash) (env : UploadEnv Dev) : Prop :=
  ∀ row ∈ (s.database.rows env.changedRows env.deviceRows).dropLast, env.emission row.key row.device ≠ .error

/-- A call of `uploadNext` that finds uploading off has no free place, fails before it looks for changes, or finds
active ones only. -/
def FindsNothing (s : ExchangeEngine Dev jsonHash) (env : UploadEnv Dev) : Prop :=
  s.controller.uploadLimit ≤ s.controller.size ∨ s.changeEstimate = 0 ∧ env.fault = some .count ∨
    env.fault = some .load ∨ ∀ row ∈ s.database.rows env.changedRows env.deviceRows,
      (s.controller.activeUploads.lookup (hashed row.key, row.device)).isSome

/-- What the step must not meet. -/
def StartsWhileOn (s : ExchangeEngine Dev jsonHash) : Step Dev Data → Prop
  | .setUploadingEnabled env _ => s.ErrorsLast env
  | .remoteEvent env _ => s.ErrorsLast env
  | .deliver env => s.ErrorsLast env ∧
    (s.uploadingEnabled = false → s.queue.head? = some .uploadNext → s.FindsNothing hashed env)
  | _ => True

/-- The invariant of the runs: what is cleared is off. -/
structure Silent (s : ExchangeEngine Dev jsonHash) : Prop extends SilentWhileOff s where
  off : s.cleared = true → s.uploadingEnabled = false

end

section

variable {hashed : ObjectKey → QByteArray} {s u : ExchangeEngine Dev jsonHash}

/-- The log has grown by signals that are no uploads. -/
def Quiet (s u : ExchangeEngine Dev jsonHash) : Prop := ∃ l, u.log = s.log ++ l ∧ ∀ x ∈ l, ¬ x.2.IsUpload

theorem Quiet.log (h : Quiet s u) (hs : ∀ x ∈ s.log, x.2.IsUpload → x.1 = true) :
    ∀ x ∈ u.log, x.2.IsUpload → x.1 = true := by
  obtain ⟨l, hl, hall⟩ := h
  rw [hl]
  intro x hx hup
  rcases List.mem_append.mp hx with hx | hx
  · exact hs x hx hup
  · exact absurd hup (hall x hx)

theorem Quiet.refl (s : ExchangeEngine Dev jsonHash) : Quiet s s := ⟨[], (List.append_nil _).symm, by simp⟩

theorem Quiet.trans {t : ExchangeEngine Dev jsonHash} (h : Quiet s u) (h' : Quiet u t) : Quiet s t := by
  obtain ⟨l, hl, hall⟩ := h
  obtain ⟨l', hl', hall'⟩ := h'
  refine ⟨l ++ l', by rw [hl', hl, List.append_assoc], fun x hx => ?_⟩
  rcases List.mem_append.mp hx with hx | hx
  · exact hall x hx
  · exact hall' x hx

theorem quiet_uploadingChanged (s : ExchangeEngine Dev jsonHash) (uploading : Bool) :
    Quiet s (s.uploadingChanged uploading) := by
  obtain ⟨state, l, hl, hall⟩ := uploadingChanged_eq s uploading
  rw [hl]
  refine ⟨l, rfl, fun x hx hup => ?_⟩
  rcases hall x hx with h | ⟨state, h⟩
  · rw [h] at hup
    exact hup
  · rw [h] at hup
    exact hup

/-- A signal of the controller about its uploads changes nothing else. -/
theorem Silent.uploadingChanged (h : s.Silent) (uploading : Bool) : (s.uploadingChanged uploading).Silent := by
  have hlog := (quiet_uploadingChanged s uploading).log h.log
  obtain ⟨state, l, hl, -⟩ := uploadingChanged_eq s uploading
  rw [hl] at hlog ⊢
  exact ⟨⟨hlog, h.cleared⟩, h.off⟩

theorem quiet_upstate (s : ExchangeEngine Dev jsonHash) (state : SyncState) : Quiet s (s.upstate state) := by
  obtain ⟨l, hl, hall⟩ := upstate_eq s state
  rw [hl]
  refine ⟨l, rfl, fun x hx hup => ?_⟩
  rw [hall x hx] at hup
  exact hup

theorem Silent.upstate (h : s.Silent) (state : SyncState) : (s.upstate state).Silent := by
  have hlog := (quiet_upstate s state).log h.log
  obtain ⟨l, hl, -⟩ := upstate_eq s state
  rw [hl] at hlog ⊢
  exact ⟨⟨hlog, h.cleared⟩, h.off⟩

theorem Silent.disableUploads (h : s.Silent) : s.disableUploads.Silent := by
  have hoff : ({ s with uploadingEnabled := false } : ExchangeEngine Dev jsonHash).Silent :=
    ⟨⟨h.log, h.cleared⟩, fun _ => rfl⟩
  exact hoff.uploadingChanged false

/-- Uploads are cleared: what was started before does not matter. -/
theorem silent_clearUploads (hlog : ∀ x ∈ s.log, x.2.IsUpload → x.1 = true) : s.clearUploads.Silent := by
  have hgrown := (quiet_uploadingChanged ({ s with uploadingEnabled := false }) false).log hlog
  obtain ⟨state, l, hl, -⟩ := uploadingChanged_eq ({ s with uploadingEnabled := false }) false
  unfold clearUploads disableUploads
  simp only
  rw [hl] at hgrown ⊢
  exact ⟨⟨hgrown, fun _ => ⟨rfl, rfl⟩⟩, fun _ => rfl⟩

theorem silent_controllerError (hlog : ∀ x ∈ s.log, x.2.IsUpload → x.1 = true) : s.controllerError.Silent := by
  have hemit : Quiet s (s.emit .controllerError) := ⟨[(s.uploadingEnabled, .controllerError)], rfl, by
    simp [EngineSignal.IsUpload]⟩
  exact silent_clearUploads ((hemit.trans (quiet_upstate _ _)).log hlog)

/-! ### While uploading is on -/

/-- Uploading is on. -/
structure Uploads (s : ExchangeEngine Dev jsonHash) : Prop where
  log : ∀ x ∈ s.log, x.2.IsUpload → x.1 = true
  on : s.uploadingEnabled = true
  cleared : s.cleared = false

theorem Uploads.silent (h : s.Uploads) : s.Silent :=
  ⟨⟨h.log, fun hc => absurd (hc.symm.trans h.cleared) (by simp)⟩, fun hc => absurd (hc.symm.trans h.cleared) (by simp)⟩

/-- Whatever is signalled while uploading is on. -/
theorem Uploads.emit (h : s.Uploads) (signal : EngineSignal Dev Data) : (s.emit signal).Uploads := by
  refine ⟨fun x hx hup => ?_, h.on, h.cleared⟩
  rcases List.mem_append.mp hx with hx | hx
  · exact h.log x hx hup
  · rw [List.mem_singleton.mp hx]
    exact h.on

theorem Uploads.upstate (h : s.Uploads) (state : SyncState) : (s.upstate state).Uploads := by
  unfold ExchangeEngine.upstate
  split_ifs
  · exact h
  · have hstate : ({ s with state := state } : ExchangeEngine Dev jsonHash).Uploads := ⟨h.log, h.on, h.cleared⟩
    exact hstate.emit _

theorem Uploads.uploadingChanged (h : s.Uploads) (uploading : Bool) : (s.uploadingChanged uploading).Uploads := by
  unfold ExchangeEngine.uploadingChanged
  simp only
  split_ifs
  · exact h.emit _
  · exact (h.emit _).upstate _
  · exact (h.emit _).upstate _
  · exact h.emit _

theorem Uploads.beginUploading (h : s.Uploads) (emitStarted emitProgress : Bool) :
    (s.beginUploading emitStarted emitProgress).Uploads := by
  unfold ExchangeEngine.beginUploading
  split_ifs
  · exact (h.uploadingChanged true).emit _
  · exact h.uploadingChanged true
  · exact h

theorem Uploads.updateEstimate (h : s.Uploads) (count : ℕ) (emitStarted : Bool) :
    (s.updateEstimate count emitStarted).Uploads := by
  have hcounted : ({ s with changeEstimate := count } : ExchangeEngine Dev jsonHash).Uploads := ⟨h.log, h.on, h.cleared⟩
  unfold ExchangeEngine.updateEstimate
  simp only
  split_ifs
  · exact hcounted.emit _
  · exact hcounted
  · exact h

theorem Uploads.emitUpload (h : s.Uploads) (row : LoadedChange Dev Data) : (s.emitUpload hashed row).Uploads := by
  unfold ExchangeEngine.emitUpload
  split
  · exact h.emit _
  · exact h.emit _

theorem Uploads.startUpload {env : UploadEnv Dev} {row : LoadedChange Dev Data} (h : s.Uploads)
    (herror : env.emission row.key row.device ≠ .error) : (s.startUpload hashed env row).Uploads := by
  unfold ExchangeEngine.startUpload
  split
  · exact ⟨h.log, h.on, h.cleared⟩
  · rename_i he
    exact absurd he herror
  · exact ⟨(h.emitUpload row).log, (h.emitUpload row).on, (h.emitUpload row).cleared⟩

theorem Uploads.startUpload_silent {env : UploadEnv Dev} {row : LoadedChange Dev Data} (h : s.Uploads) :
    (s.startUpload hashed env row).Silent := by
  by_cases herror : env.emission row.key row.device = .error
  · have hfails : s.startUpload hashed env row = (s.emitUpload hashed row).controllerError := by
      rcases hc : row.content with - | c <;> simp only [ExchangeEngine.startUpload, hc, herror]
    rw [hfails]
    exact silent_controllerError (h.emitUpload row).log
  · exact (h.startUpload herror).silent

section

variable [DecidableEq Dev] {env : UploadEnv Dev}

theorem Uploads.activate (h : s.Uploads) (row : LoadedChange Dev Data) : (s.activate hashed row).Uploads := by
  have hactive : ({ s with controller := (ChangeController.upload hashed s.controller row).1 } :
      ExchangeEngine Dev jsonHash).Uploads := ⟨h.log, h.on, h.cleared⟩
  exact hactive.emit _

/-- The visits while uploading is on; the last one may end in an error. -/
theorem Uploads.visits {emitStarted emitProgress : Bool} {rows : List (LoadedChange Dev Data)} (h : s.Uploads)
    (herrors : ∀ row ∈ rows.dropLast, env.emission row.key row.device ≠ .error) :
    (visitAll (visit hashed env emitProgress) (s, emitStarted) rows).1.1.Silent := by
  have hstarts : ∀ (x : ExchangeEngine Dev jsonHash × Bool) row, x.1.Uploads →
      ((x.1.beginUploading x.2 emitProgress).activate hashed row).Uploads :=
    fun x row hx => (hx.beginUploading _ _).activate row
  refine visitAll_dropLast (P := fun x : ExchangeEngine Dev jsonHash × Bool => x.1.Uploads)
    (Q := fun x => x.1.Silent) h ?_ ?_ fun _ hx => hx.silent
  · intro x row hrow hx
    unfold visit
    split_ifs
    · exact hx
    · exact (hstarts x row hx).startUpload (herrors row hrow)
  · intro x row _ hx
    unfold visit
    split_ifs
    · exact hx.silent
    · exact (hstarts x row hx).startUpload_silent

/-- `uploadNext` while uploading is on. -/
theorem Uploads.uploadNext {emitStarted : Bool} (h : s.Uploads) (hfinds : s.Finds env) (herrors : s.ErrorsLast env) :
    (s.uploadNext hashed env emitStarted).Silent := by
  let A (u : ExchangeEngine Dev jsonHash) : Prop := u.Uploads ∧ u.controller = s.controller ∧ u.database = s.database
  refine uploadNext_rule (A := A) (E := A) (B := Silent) ⟨h, rfl, rfl⟩ ?_ ?_ ?_ ?_ ?_ ?_
  · intro _ _
    obtain ⟨state, l, hl, -⟩ := uploadingChanged_eq s true
    exact ⟨h.uploadingChanged true, by rw [hl], by rw [hl]⟩
  · exact fun u ⟨hu, hc, hd⟩ => ⟨⟨hu.log, hu.on, hu.cleared⟩, hc, hd⟩
  · exact fun u hu _ => hu.1.silent
  · rintro u (hu | hu) -
    · exact silent_controllerError hu.1.log
    · exact silent_controllerError hu.1.log
  · rintro u b ⟨hu, hc, hd⟩
    obtain ⟨estimate, l, hl, -⟩ := updateEstimate_eq u env.count b
    exact ⟨hu.updateEstimate _ _, by rw [hl]; exact hc, by rw [hl]; exact hd⟩
  · rintro u b b' ⟨hu, hc, hd⟩ - - - -
    refine loadUploads_rule (B := Silent) (V := Silent) ?_ ?_ ?_ ?_ ?_
    · have hstart : ({ u with
          search := ⟨u.uploadingEnabled, some !(env.changedRows.isEmpty && env.deviceRows.isEmpty)⟩ } :
          ExchangeEngine Dev jsonHash).Uploads := ⟨hu.log, hu.on, hu.cleared⟩
      refine hstart.visits ?_
      rw [hd]
      exact herrors
    · rw [hc, hd]
      exact hfinds.device
    · exact fun u' hu' _ => silent_controllerError hu'.log
    · exact fun u' hu' _ => hu'.uploadingChanged false
    · exact fun u' hu' _ => hu'

/-! ### While uploading is off -/

/-- Active changes are passed over. -/
theorem visits_active {x : ExchangeEngine Dev jsonHash × Bool} {emitProgress : Bool}
    {rows : List (LoadedChange Dev Data)}
    (hactive : ∀ row ∈ rows, (x.1.controller.activeUploads.lookup (hashed row.key, row.device)).isSome) :
    (visitAll (visit hashed env emitProgress) x rows).1 = x := by
  induction rows with
  | nil => rfl
  | cons row rows ih =>
    have hvisit : visit hashed env emitProgress x row = (x, true) := if_pos (hactive row List.mem_cons_self)
    rw [visitAll, hvisit]
    exact ih fun row hrow => hactive row (List.mem_cons_of_mem _ hrow)

/-- A call of `uploadNext` that finds uploading off. -/
theorem Silent.uploadNext (h : s.Silent) (hoff : s.uploadingEnabled = false) (hfinds : s.Finds env)
    (hnothing : s.FindsNothing hashed env) : (s.uploadNext hashed env false).Silent := by
  let A (estimates : Set ℕ) (u : ExchangeEngine Dev jsonHash) : Prop := Quiet s u ∧ u.controller = s.controller ∧
    u.database = s.database ∧ u.uploadingEnabled = s.uploadingEnabled ∧ u.cleared = s.cleared ∧
      u.changeEstimate ∈ estimates
  have hsilent : ∀ {estimates u}, A estimates u → (s.cleared = true → estimates ⊆ {0}) → u.Silent := by
    rintro estimates u ⟨hq, hc, hd, he, hcl, hest⟩ hzero
    refine ⟨⟨hq.log h.log, fun hcleared => ?_⟩, fun _ => he.trans hoff⟩
    rw [hcl] at hcleared
    rw [hc]
    exact ⟨(h.cleared hcleared).1, hzero hcleared hest⟩
  refine uploadNext_rule (A := A {s.changeEstimate}) (E := A {s.changeEstimate, env.count}) (B := Silent)
    ⟨Quiet.refl s, rfl, rfl, rfl, rfl, rfl⟩ ?_ ?_ ?_ ?_ ?_ ?_
  · exact fun hf _ => absurd hf Bool.false_ne_true
  · exact fun u hu => hu
  · refine fun u hu _ => hsilent hu fun hcleared => ?_
    rw [(h.cleared hcleared).2]
  · rintro u (hu | hu) -
    · exact silent_controllerError (hu.1.log h.log)
    · exact silent_controllerError (hu.1.log h.log)
  · rintro u b ⟨hq, hc, hd, he, hcl, hest⟩
    obtain ⟨estimate, l, hl, hor, hall⟩ := updateEstimate_eq u env.count b
    rw [hl]
    refine ⟨hq.trans ⟨l, rfl, fun x hx hup => ?_⟩, hc, hd, he, hcl, ?_⟩
    · rw [hall x hx] at hup
      exact hup
    · rcases hor with rfl | rfl
      · exact Or.inl hest
      · exact Or.inr rfl
  · intro u b b' hu hlt _ hcount hload
    have hlimit : 0 < s.controller.uploadLimit := by
      rw [hu.2.1] at hlt
      omega
    have hactive : ∀ row ∈ s.database.rows env.changedRows env.deviceRows,
        (s.controller.activeUploads.lookup (hashed row.key, row.device)).isSome := by
      rcases hnothing with hfull | hc | hl | hactive
      · rw [hu.2.1] at hlt
        exact absurd hfull (not_le.mpr hlt)
      · exact absurd hc hcount
      · exact absurd hl hload
      · exact hactive
    have husilent : u.Silent := by
      refine hsilent hu fun hcleared => ?_
      have hnil : s.database.rows env.changedRows env.deviceRows = [] := by
        refine List.eq_nil_iff_forall_not_mem.mpr fun row hrow => ?_
        have hsome := hactive row hrow
        rw [(h.cleared hcleared).1, AList.lookup_empty] at hsome
        cases hsome
      have hnone : ¬ ∃ x, s.database.Pending x := fun hx =>
        (LocalDatabase.rows_ne_nil_iff hlimit hfinds.changed hfinds.device).mpr hx hnil
      rw [(h.cleared hcleared).2, LocalDatabase.count_eq_zero hfinds.count hnone]
      simp
    refine loadUploads_rule (B := Silent) (V := Silent) ?_ ?_ ?_ ?_ ?_
    · rw [visits_active]
      · exact ⟨⟨husilent.log, husilent.cleared⟩, husilent.off⟩
      · simp only
        rw [hu.2.1, hu.2.2.1]
        exact hactive
    · rw [hu.2.1, hu.2.2.1]
      exact hfinds.device
    · exact fun u' hu' _ => silent_controllerError hu'.log
    · exact fun u' hu' _ => hu'.uploadingChanged false
    · exact fun u' hu' _ => hu'

/-! ### Steps -/

omit [DecidableEq Dev] in
theorem Silent.uploads (h : s.Silent) (hon : s.uploadingEnabled = true) : s.Uploads := by
  refine ⟨h.log, hon, ?_⟩
  by_contra hne
  exact absurd (hon.symm.trans (h.off (by simpa using hne))) (by simp)

/-- While something is active, nothing is cleared. -/
theorem Silent.cleared_eq_false {key : QByteArray × Option Dev} (h : s.Silent)
    (hactive : (s.controller.activeUploads.lookup key).isSome) : s.cleared = false := by
  by_contra hne
  rw [(h.cleared (by simpa using hne)).1, AList.lookup_empty] at hactive
  cases hactive

omit [DecidableEq Dev] in
theorem Silent.completed (h : s.Silent) (hcleared : s.cleared = false) (controller : ChangeController Dev Data)
    (database : LocalDatabase Dev jsonHash) : (s.completed controller database).Silent := by
  have hlog : ∀ x ∈ s.log ++ [(s.uploadingEnabled, .progressIncrement)], x.2.IsUpload → x.1 = true :=
    Quiet.log (u := s.emit .progressIncrement) ⟨_, rfl, by simp [EngineSignal.IsUpload]⟩ h.log
  have hne : ¬ s.cleared = true := by simp [hcleared]
  unfold ExchangeEngine.completed
  simp only
  split_ifs
  · exact ⟨⟨hlog, fun hc => absurd hc hne⟩, fun hc => absurd hc hne⟩
  · exact ⟨⟨hlog, fun hc => absurd hc hne⟩, fun hc => absurd hc hne⟩

theorem Silent.complete (h : s.Silent) (persistDeleted fails : Bool) (key : QByteArray × Option Dev) :
    (s.complete persistDeleted fails key).Silent := by
  obtain ⟨key, - | deviceId⟩ := key
  · show (s.uploadDone persistDeleted fails key).Silent
    unfold uploadDone
    split_ifs with hactive hfails
    · exact silent_controllerError h.log
    · exact h.completed (h.cleared_eq_false hactive) _ _
    · exact h
  · show (s.deviceUploadDone fails key deviceId).Silent
    unfold deviceUploadDone
    split_ifs with hactive hfails
    · exact silent_controllerError h.log
    · exact h.completed (h.cleared_eq_false hactive) _ _
    · exact h

theorem Silent.setUploadingEnabled (h : s.Silent) (uploading : Bool) (hfinds : s.Finds env)
    (herrors : s.ErrorsLast env) : (s.setUploadingEnabled hashed env uploading).Silent := by
  unfold ExchangeEngine.setUploadingEnabled
  split_ifs
  · have hon : ({ s with uploadingEnabled := true, cleared := false } : ExchangeEngine Dev jsonHash).Uploads :=
      ⟨h.log, rfl, rfl⟩
    exact hon.uploadNext ⟨hfinds.count, hfinds.changed, hfinds.device⟩ herrors
  · exact h.disableUploads

theorem Silent.remoteEvent (h : s.Silent) (event : RemoteEvent) (hfinds : s.Finds env) (herrors : s.ErrorsLast env) :
    (s.remoteEvent hashed env event).Silent := by
  have hready : ∀ state uploading, ((s.upstate state).setUploadingEnabled hashed env uploading).Silent := by
    intro state uploading
    have hs := h.upstate state
    obtain ⟨l, hl, -⟩ := upstate_eq s state
    rw [hl] at hs ⊢
    exact hs.setUploadingEnabled uploading ⟨hfinds.count, hfinds.changed, hfinds.device⟩ herrors
  unfold ExchangeEngine.remoteEvent
  split_ifs
  · exact h
  · cases event with
    | RemoteDisconnected => exact silent_clearUploads (h.upstate _).log
    | RemoteConnecting => exact silent_clearUploads (h.upstate _).log
    | RemoteReady => exact hready _ _
    | RemoteReadyWithChanges => exact hready _ _

variable [LinearOrder Checksum] {d : Defaults Data}

/-- **One step** that starts no upload while uploading is off. -/
theorem Silent.next {t : ExchangeEngine Dev jsonHash} {a : Step Dev Data} (h : s.Silent) (hans : Answered s a)
    (hon : StartsWhileOn hashed s a) (ht : s.next hashed d a = some t) : t.Silent := by
  cases a with
  | store op =>
    have hstore : (s.store d op).Silent := ⟨⟨h.log, h.cleared⟩, h.off⟩
    cases op with
    | markUnchanged _ _ _ => exact absurd ht (by simp [ExchangeEngine.next])
    | save _ _ => exact Option.some.inj ht ▸ hstore
    | remove _ => exact Option.some.inj ht ▸ hstore
    | clear _ => exact Option.some.inj ht ▸ hstore
    | syncChange _ => exact Option.some.inj ht ▸ hstore
  | prepareAccountAdded _ _ =>
    cases ht
    exact ⟨⟨h.log, h.cleared⟩, h.off⟩
  | setUploadingEnabled env uploading =>
    cases ht
    exact h.setUploadingEnabled uploading hans hon
  | clearUploads =>
    cases ht
    exact silent_clearUploads h.log
  | updateUploadLimit _ =>
    cases ht
    exact ⟨⟨h.log, h.cleared⟩, h.off⟩
  | deliver env =>
    rcases hq : s.queue with - | ⟨c, queue⟩
    · simp [ExchangeEngine.next, hq] at ht
    · simp only [ExchangeEngine.next, hq, Option.some.injEq] at ht
      subst ht
      have hs : ({ s with queue := queue } : ExchangeEngine Dev jsonHash).Silent := ⟨⟨h.log, h.cleared⟩, h.off⟩
      have hfinds : ({ s with queue := queue } : ExchangeEngine Dev jsonHash).Finds env :=
        ⟨hans.count, hans.changed, hans.device⟩
      cases c with
      | changeTriggered =>
        show (changeTriggered hashed { s with queue := queue } env).Silent
        unfold changeTriggered
        split_ifs with henabled
        · exact (hs.uploads henabled).uploadNext hfinds hon.1
        · exact hs
      | uploadNext =>
        show (ExchangeEngine.uploadNext hashed { s with queue := queue } env false).Silent
        by_cases henabled : s.uploadingEnabled = true
        · exact (hs.uploads henabled).uploadNext hfinds hon.1
        · have hoff : s.uploadingEnabled = false := by simpa using henabled
          exact hs.uploadNext hoff hfinds (hon.2 hoff (by rw [hq]; rfl))
      | uploadDone key => exact hs.complete _ _ (key, none)
  | ack key fails =>
    simp only [ExchangeEngine.next, Option.ite_none_right_eq_some, Option.some.injEq] at ht
    obtain ⟨-, rfl⟩ := ht
    have hs : ({ s with acks := s.acks.erase key } : ExchangeEngine Dev jsonHash).Silent :=
      ⟨⟨h.log, h.cleared⟩, h.off⟩
    exact hs.complete _ _ _
  | remoteEvent env event =>
    cases ht
    exact h.remoteEvent event hans hon
  | resetAccount keepData =>
    cases ht
    have hc := silent_clearUploads h.log
    exact ⟨⟨hc.log, hc.cleared⟩, hc.off⟩
  | controllerError =>
    cases ht
    exact silent_controllerError h.log

/-- **Nothing is uploaded while uploading is off**, in every run whose calls of `uploadNext` start nothing while
uploading is off and whose errors of the connector end the visits. -/
theorem silent_while_off (h : (lts hashed d).Reachable (StartsWhileOn hashed) s) : SilentWhileOff s := by
  have hs : s.Silent := by
    refine LTS.Reachable.invariant (I := Silent) ?_ ?_ h
    rotate_left
    · exact fun s a t _ hs hg hst => hs.next hst.1 hg hst.2
    rintro s ⟨-, -, hactive, henabled, hestimate, -, -, -, -, hlog⟩
    refine ⟨⟨fun x hx => ?_, fun _ => ⟨hactive, hestimate⟩⟩, fun _ => henabled⟩
    rw [hlog] at hx
    cases hx
  exact hs.toSilentWhileOff

end

end

/-! ### A call that was queued while uploading was on -/

namespace Off

def first : ObjectKey := ⟨[1], "a"⟩

def second : ObjectKey := ⟨[2], "a"⟩

def defaults : Defaults ℕ := ⟨false, .PreferChanged, none⟩

def hashed (key : ObjectKey) : QByteArray := key.typeName

/-- Two new objects. -/
def database : LocalDatabase Unit (fun n : ℕ => n) where
  dataIndex k := if k = first ∨ k = second then some ⟨1, some (.write 5), true⟩ else none
  deviceUploads _ _ := false

def start : ExchangeEngine Unit (fun n : ℕ => n) :=
  ⟨database, .Initializing, ⟨∅, 1⟩, false, 0, [], [], ⟨false, none⟩, true, []⟩

def env (count : ℕ) (changedRows : List ObjectKey) : UploadEnv Unit := ⟨count, changedRows, [], fun _ _ => .sent, none⟩

/-- The first object is uploaded. -/
def uploading : ExchangeEngine Unit (fun n : ℕ => n) := start.setUploadingEnabled hashed (env 2 [first]) true

/-- The answer arrives, and uploads are cleared. -/
def cleared : ExchangeEngine Unit (fun n : ℕ => n) :=
  (complete { uploading with acks := [] } false false ([1], none)).clearUploads

def called : ExchangeEngine Unit (fun n : ℕ => n) := uploadNext hashed { cleared with queue := [] } (env 1 [second]) false

/-- What the queries return if no device waits for its own uploads. -/
theorem finds {s : ExchangeEngine Unit (fun n : ℕ => n)} (keys : List ObjectKey)
    (hdevice : ∀ k d, s.database.deviceUploads k d = false) (hnodup : keys.Nodup)
    (hkeys : ∀ k, k ∈ keys ↔ ∃ r, s.database.dataIndex k = some r ∧ r.changed = true) (hsmall : keys.length < 2 ^ 32) :
    s.Finds (env keys.length (keys.take s.controller.uploadLimit)) := by
  refine ⟨⟨keys.map fun k => (k, none), ?_, ?_, ?_⟩, ⟨hnodup.sublist (List.take_sublist _ _), ?_, ?_, ?_⟩,
    ⟨List.nodup_nil, ?_, Nat.zero_le _, ?_⟩⟩
  · exact hnodup.map fun k k' he => congrArg Prod.fst he
  · rintro ⟨k, - | d⟩
    · simpa [LocalDatabase.Pending] using hkeys k
    · simp [LocalDatabase.Pending, hdevice]
  · rw [List.length_map]
    exact (Nat.mod_eq_of_lt hsmall).symm
  · exact fun k hk => (hkeys k).mp (List.mem_of_mem_take hk)
  · exact List.length_take_le _ _
  · intro hlt k r hr hch
    rw [env, List.length_take] at hlt
    rw [env, List.take_of_length_le (by omega)]
    exact (hkeys k).mpr ⟨r, hr, hch⟩
  · exact fun x hx => absurd hx List.not_mem_nil
  · exact fun _ k d r hup => absurd hup (by simp [hdevice])

theorem finds_start : start.Finds (env 2 [first]) := by
  refine finds [first, second] (fun _ _ => rfl) (by decide) (fun k => ?_) (by decide)
  simp only [start, database, List.mem_cons, List.not_mem_nil, or_false]
  split_ifs with hk
  · simp [hk]
  · simp [hk]

theorem cleared_dataIndex (k : ObjectKey) : cleared.database.dataIndex k =
    if k = first then some ⟨1, some (.write 5), false⟩ else if k = second then some ⟨1, some (.write 5), true⟩
    else none := by
  show DataIndex.markUnchanged false database.dataIndex first 1 false k = _
  unfold DataIndex.markUnchanged
  by_cases hk : k = first
  · rw [hk, Function.update_self]
    rfl
  · rw [Function.update_of_ne hk]
    simp [database, hk]

theorem finds_cleared : cleared.Finds (env 1 [second]) := by
  refine finds [second] (fun k d => ?_) (by decide) (fun k => ?_) (by decide)
  · show (false && (cleared.database.dataIndex k).isSome) = false
    exact Bool.false_and _
  · rw [cleared_dataIndex]
    split_ifs with hk hk'
    · simp [hk, first, second]
    · simp [hk']
    · simp [hk']

variable {G : ExchangeEngine Unit (fun n : ℕ => n) → Step Unit ℕ → Prop}

theorem uploading_reachable (hG : G start (.setUploadingEnabled (env 2 [first]) true)) :
    (lts hashed defaults).Reachable G uploading := by
  have hinit : (lts hashed defaults).init start :=
    ⟨fun _ _ hk => absurd hk (by simp [start, database]), rfl, rfl, rfl, rfl, rfl, rfl, rfl, rfl, rfl⟩
  exact (LTS.Reachable.init (G := G) hinit).step hG ⟨finds_start, rfl⟩

theorem called_reachable : (lts hashed defaults).Reachable LTS.free called := by
  have hanswered : (lts hashed defaults).Reachable LTS.free
      (complete { uploading with acks := [] } false false ([1], none)) :=
    (uploading_reachable trivial).step (a := .ack ([1], none) false) trivial ⟨trivial, rfl⟩
  have hcleared : (lts hashed defaults).Reachable LTS.free cleared :=
    hanswered.step (a := .clearUploads) trivial ⟨trivial, rfl⟩
  exact hcleared.step (a := .deliver (env 1 [second])) trivial ⟨finds_cleared, rfl⟩

end Off

/-- An object is uploaded while uploading is on. -/
theorem silent_uploading : SilentWhileOff Off.uploading ∧ Off.uploading.acks = [([1], none)] := by
  refine ⟨silent_while_off (Off.uploading_reachable ?_), by decide +kernel⟩
  exact fun row _ => nofun

/-- `uploadDone` queues a call of `uploadNext`, uploads are cleared before it runs, and it starts an upload. -/
theorem queued_call_uploads : ¬ ∀ s : ExchangeEngine Unit (fun n : ℕ => n),
    (lts Off.hashed Off.defaults).Reachable LTS.free s → SilentWhileOff s := by
  intro h
  have hcleared := ((h Off.called Off.called_reachable).cleared (by decide +kernel)).1
  have hactive : (Off.called.controller.activeUploads.lookup ([2], none)).isSome = true := by decide +kernel
  rw [hcleared] at hactive
  cases hactive

end ExchangeEngine

end QtDataSync
