import Mathlib.Algebra.Order.Field.Basic
import Mathlib.Algebra.Order.Field.Rat
import Mathlib.Tactic.NormNum
import Mathlib.Tactic.Positivity
import QtDataSync.Engine.Uploads
import QtDataSync.Engine.UploadsOff

/-!
# Engine.Progress — the estimate of the changes and the progress of uploading

`_changeEstimate` is counted when it is 0 and decremented with every completion, and the engine adds up what the
controller announces and completes, from its last change of state on.  An upload that is started without being counted,
or a new start of the progress while some of the estimate is left, makes completions outrun announcements; a completion
with an estimate of 0 makes it 2^32 - 1.  `Counted` says when a call of `uploadNext` does neither.
-/

namespace QtDataSync

variable {Dev Data Checksum : Type*} {jsonHash : Data → Checksum}

namespace ExchangeEngine

/-! ### The progress of the engine -/

/-- Whether the change controller is `_progressAllowed`, with `_progressMax` and `_progressCurrent` while it is; and what
was announced and completed since the last `clearUploads`. -/
structure Tally where
  allowed : Bool
  max : ℕ
  current : ℕ
  added : ℕ
  incremented : ℕ
deriving DecidableEq, Repr

namespace Tally

def zero : Tally := ⟨false, 0, 0, 0, 0⟩

/-- `ExchangeEngine::resetProgress`. -/
def reset (p : Tally) (allowed : Bool) : Tally := { p with allowed := allowed, max := 0, current := 0 }

def clear (p : Tally) : Tally := { p with added := 0, incremented := 0 }

/-- What a signal does: the engine starts its progress anew when it changes the state, except to `Error`, and an error of
the controller clears the uploads. -/
def signal (p : Tally) : EngineSignal Dev Data → Tally
  | .stateChanged .Error => p
  | .stateChanged state => p.reset (decide (state = .Uploading))
  | .progressAdded estimate => { p with
      max := if p.allowed then (p.max + estimate) % 2 ^ 32 else p.max
      added := p.added + estimate }
  | .progressIncrement => { p with
      current := if p.allowed then (p.current + 1) % 2 ^ 32 else p.current
      incremented := p.incremented + 1 }
  | .controllerError => p.clear
  | _ => p

/-- The signals of a part of the log. -/
def follow (p : Tally) (l : List (Bool × EngineSignal Dev Data)) : Tally := l.foldl (fun p x => p.signal x.2) p

/-- `ExchangeEngine::progress`. -/
def progress (p : Tally) : ℚ := if p.max = 0 then -1 else (p.current : ℚ) / p.max

/-- What is announced and not yet completed is at least `k`. -/
structure Announces (p : Tally) (k : ℕ) : Prop where
  added : k + p.incremented ≤ p.added
  shown : p.allowed = true → k + p.current ≤ p.max
  max : p.max < 2 ^ 32

end Tally

/-- The step clears the uploads in the end. -/
def Clears (s : ExchangeEngine Dev jsonHash) : Step Dev Data → Bool
  | .clearUploads | .resetAccount _ | .controllerError => true
  | .remoteEvent _ .RemoteDisconnected => decide (s.state ≠ .Error)
  | .remoteEvent _ .RemoteConnecting => true
  | _ => false

/-- The progress that the step starts anew whether the state changes or not, which is that of the controller or not. -/
def restarts (s : ExchangeEngine Dev jsonHash) : Step Dev Data → Option Bool
  | .remoteEvent _ .RemoteDisconnected => if s.state = .Error then none else some false
  | .remoteEvent _ .RemoteConnecting => some false
  | .remoteEvent _ .RemoteReady => if s.state = .Error then none else some true
  | _ => none

def Tally.restart (p : Tally) (s : ExchangeEngine Dev jsonHash) (a : Step Dev Data) : Tally :=
  match s.restarts a with
  | some allowed => p.reset allowed
  | none => p

/-- What a step does to the progress. -/
def Tally.update (p : Tally) (s : ExchangeEngine Dev jsonHash) (a : Step Dev Data) (t : ExchangeEngine Dev jsonHash) :
    Tally :=
  let p := (p.restart s a).follow (t.log.drop s.log.length)
  if s.Clears a then p.clear else p

/-- A completion never decrements an estimate of 0, it is announced before, and the progress is a fraction. -/
structure ProgressBounded [DecidableEq Dev] (s : ExchangeEngine Dev jsonHash) (p : Tally) : Prop where
  decrements : ∀ key, (s.controller.activeUploads.lookup key).isSome → s.changeEstimate ≠ 0
  emitted : p.incremented ≤ p.added
  progress : p.allowed = true → p.max ≠ 0 → 0 ≤ p.progress ∧ p.progress ≤ 1

/-! ### Calls that count their uploads -/

section

variable [DecidableEq Dev] (hashed : ObjectKey → QByteArray) (s : ExchangeEngine Dev jsonHash) (env : UploadEnv Dev)

omit [DecidableEq Dev] in
/-- A call of `uploadNext` comes to its visits. -/
def Visits : Prop := s.controller.size < s.controller.uploadLimit ∧
  ¬ (s.changeEstimate = 0 ∧ env.fault = some .count) ∧ env.fault ≠ some .load

/-- The change is not being uploaded. -/
def Fresh (row : LoadedChange Dev Data) : Bool :=
  (s.controller.activeUploads.lookup (hashed row.key, row.device)).isNone

/-- A call of `uploadNext` only starts uploads that the estimate covers, and the engine starts its progress anew only
when the call counts the changes.  After a failure to encrypt an upload, which clears the estimate, none is started. -/
structure Counted (p : Tally) (emitStarted : Bool) : Prop where
  started : emitStarted = true → s.state ≠ .Uploading → s.state ≠ .Error →
    s.controller.size ≠ 0 ∨ s.Visits env ∧ s.database.rows env.changedRows env.deviceRows ≠ [] → s.changeEstimate = 0
  fits : s.Visits env → min s.controller.uploadLimit
      (s.controller.size + (s.database.rows env.changedRows env.deviceRows).countP (s.Fresh hashed)) ≤
    if s.changeEstimate = 0 then env.count else s.changeEstimate
  errors : s.Visits env → ∀ row ∈ (s.database.rows env.changedRows env.deviceRows).dropLast,
    s.Fresh hashed row = true → env.emission row.key row.device ≠ .error
  max : s.changeEstimate = 0 → p.max + env.count < 2 ^ 32

/-- The calls of `uploadNext` in a step are counted; when the server is ready, none of the estimate is left. -/
def Counts (p : Tally) : Step Dev Data → Prop
  | .setUploadingEnabled env true => s.Counted hashed env p true
  | .deliver env =>
    match s.queue with
    | .changeTriggered :: _ => s.uploadingEnabled = true → s.Counted hashed env p (decide (s.controller.size = 0))
    | .uploadNext :: _ => s.Counted hashed env p false
    | _ => True
  | .remoteEvent env .RemoteReady => s.state ≠ .Error →
    s.changeEstimate = 0 ∧ (s.upstate .Uploading).Counted hashed env (p.reset true) true
  | _ => True

end

/-! ### What is announced -/

namespace Tally

variable {p : Tally} {k : ℕ}

theorem follow_append (p : Tally) (l l' : List (Bool × EngineSignal Dev Data)) :
    p.follow (l ++ l') = (p.follow l).follow l' := List.foldl_append

theorem Announces.mono (h : p.Announces k) {k' : ℕ} (hk : k' ≤ k) : p.Announces k' := by
  have hadded := h.added
  refine ⟨by omega, fun ha => ?_, h.max⟩
  have hshown := h.shown ha
  omega

theorem Announces.reset (h : p.Announces 0) (allowed : Bool) : (p.reset allowed).Announces 0 :=
  ⟨h.added, fun _ => le_rfl, by simp [Tally.reset]⟩

theorem Announces.stop (h : p.Announces k) : (p.reset false).Announces k :=
  ⟨h.added, nofun, by simp [Tally.reset]⟩

theorem Announces.clear (h : p.Announces 0) : p.clear.Announces 0 := ⟨le_rfl, h.shown, h.max⟩

theorem Announces.progressAdded (h : p.Announces 0) (hmax : p.max + k < 2 ^ 32) :
    (p.signal (.progressAdded k : EngineSignal Dev Data)).Announces k := by
  have hadded := h.added
  refine ⟨by simp only [signal]; omega, fun ha => ?_, ?_⟩
  · have ha' : p.allowed = true := ha
    have hshown := h.shown ha'
    simp only [signal, ha', if_true, Nat.mod_eq_of_lt hmax]
    omega
  · simp only [signal]
    split_ifs
    · exact Nat.mod_lt _ (by decide)
    · exact h.max

theorem Announces.progressIncrement (h : p.Announces (k + 1)) :
    (p.signal (.progressIncrement : EngineSignal Dev Data)).Announces k := by
  have hadded := h.added
  refine ⟨by simp only [signal]; omega, fun ha => ?_, h.max⟩
  have ha' : p.allowed = true := ha
  have hshown := h.shown ha'
  have hmax := h.max
  have hlt : p.current + 1 < 2 ^ 32 := by omega
  simp only [signal, ha', if_true, Nat.mod_eq_of_lt hlt]
  omega

/-- A new state, which starts the progress of the controller only if nothing is left to be completed. -/
theorem Announces.stateChanged (h : p.Announces k) {state : SyncState} (hk : state = .Uploading → k = 0) :
    (p.signal (.stateChanged state : EngineSignal Dev Data)).Announces k := by
  cases state with
  | Error => exact h
  | Uploading =>
    obtain rfl := hk rfl
    exact h.reset true
  | _ => exact h.stop

theorem max_stateChanged (p : Tally) (state : SyncState) :
    (p.signal (.stateChanged state : EngineSignal Dev Data)).max ≤ p.max := by
  cases state with
  | Error => exact le_rfl
  | _ => exact Nat.zero_le _

theorem Announces.progress_le_one (h : p.Announces k) (ha : p.allowed = true) : p.progress ≤ 1 := by
  have hshown := h.shown ha
  unfold progress
  split_ifs with hmax
  · norm_num
  · have hpos : (0 : ℚ) < p.max := by exact_mod_cast Nat.pos_of_ne_zero hmax
    rw [div_le_one hpos]
    exact_mod_cast (Nat.le_add_left _ _).trans hshown

end Tally

/-! ### What the operations announce -/

/-- The estimate covers the active uploads, and it is announced. -/
structure Good (p : Tally) (s : ExchangeEngine Dev jsonHash) : Prop where
  covered : s.controller.size ≤ s.changeEstimate
  bounded : s.changeEstimate < 2 ^ 32
  announced : p.Announces s.changeEstimate

/-- The log has grown, and `P` holds of the progress and the state that follow. -/
def Reaches (p : Tally) (s u : ExchangeEngine Dev jsonHash) (P : Tally → ExchangeEngine Dev jsonHash → Prop) : Prop :=
  ∃ l, u.log = s.log ++ l ∧ P (p.follow l) u

section

variable {p : Tally} {s t u : ExchangeEngine Dev jsonHash} {P Q : Tally → ExchangeEngine Dev jsonHash → Prop} {k : ℕ}

theorem Reaches.of_log_eq (hlog : u.log = s.log) (h : P p u) : Reaches p s u P := ⟨[], by rw [hlog, List.append_nil], h⟩

theorem Reaches.trans (h : Reaches p s u Q) (h' : ∀ q, Q q u → Reaches q u t P) : Reaches p s t P := by
  obtain ⟨l, hl, hq⟩ := h
  obtain ⟨l', hl', hp⟩ := h' _ hq
  refine ⟨l ++ l', by rw [hl', hl, List.append_assoc], ?_⟩
  rw [Tally.follow_append]
  exact hp

theorem Reaches.mono (h : Reaches p s u P) (hPQ : ∀ q, P q u → Q q u) : Reaches p s u Q := by
  obtain ⟨l, hl, hp⟩ := h
  exact ⟨l, hl, hPQ _ hp⟩

theorem reaches_emit {signal : EngineSignal Dev Data} (h : P (p.signal signal) (s.emit signal)) :
    Reaches p s (s.emit signal) P := ⟨[(s.uploadingEnabled, signal)], rfl, h⟩

/-- A change of the state of the engine. -/
theorem reaches_upstate (h : p.Announces k) {state : SyncState}
    (hk : s.state ≠ state → state = .Uploading → k = 0) :
    Reaches p s (s.upstate state) fun q u =>
      q.Announces k ∧ q.max ≤ p.max ∧ ∃ l, u = { s with state := state, log := l } := by
  unfold upstate
  split_ifs with hstate
  · exact .of_log_eq rfl ⟨h, le_rfl, s.log, by rw [← hstate]⟩
  · exact ⟨[(s.uploadingEnabled, .stateChanged state)], rfl, h.stateChanged (hk hstate), p.max_stateChanged state, _,
      rfl⟩

theorem reaches_uploadingChanged (h : p.Announces k) {uploading : Bool}
    (hk : uploading = true → s.state ≠ .Uploading → s.state ≠ .Error → k = 0) :
    Reaches p s (s.uploadingChanged uploading) fun q u =>
      q.Announces k ∧ q.max ≤ p.max ∧ ∃ state l, u = { s with state := state, log := l } := by
  have hemit : Reaches p s (s.emit (.uploadingChanged uploading)) fun q _ => q = p := reaches_emit rfl
  unfold uploadingChanged
  simp only
  split_ifs with herror hup huploading
  · exact hemit.mono fun q hq => ⟨by rw [hq]; exact h, hq ▸ le_rfl, _, _, rfl⟩
  · refine hemit.trans fun q hq => ?_
    subst hq
    refine (reaches_upstate (s := s.emit (.uploadingChanged uploading)) h fun hne _ => hk hup hne herror).mono ?_
    rintro _ ⟨ha, hmax, l, hl⟩
    exact ⟨ha, hmax, _, l, by rw [hl]; rfl⟩
  · refine hemit.trans fun q hq => ?_
    subst hq
    refine (reaches_upstate h fun _ he => absurd he (by decide)).mono ?_
    rintro _ ⟨ha, hmax, l, hl⟩
    exact ⟨ha, hmax, _, l, by rw [hl]; rfl⟩
  · exact hemit.mono fun q hq => ⟨by rw [hq]; exact h, hq ▸ le_rfl, _, _, rfl⟩

theorem good_uploadingChanged (h : Good p s) : Reaches p s (s.uploadingChanged false) Good := by
  have hchanged : Reaches p s (s.uploadingChanged false) _ :=
    reaches_uploadingChanged h.announced fun he => absurd he Bool.false_ne_true
  refine hchanged.mono ?_
  rintro q ⟨ha, -, state, l, hl⟩
  rw [hl]
  exact ⟨h.covered, h.bounded, ha⟩

/-- Nothing is left to be completed when the uploads are cleared. -/
theorem good_clearUploads (h : p.Announces 0) : Reaches p s s.clearUploads Good := by
  have hdisable : Reaches p s s.disableUploads fun q _ => q.Announces 0 := by
    have hchanged : Reaches p { s with uploadingEnabled := false }
        (uploadingChanged { s with uploadingEnabled := false } false) _ := reaches_uploadingChanged h nofun
    obtain ⟨l, hl, ha, -⟩ := hchanged
    exact ⟨l, hl, ha⟩
  obtain ⟨l, hl, ha⟩ := hdisable
  exact ⟨l, hl, le_rfl, Nat.two_pow_pos 32, ha⟩

theorem good_controllerError (h : p.Announces 0) : Reaches p s s.controllerError Good := by
  have herror : Reaches p s (s.emit .controllerError) fun q _ => q.Announces 0 := reaches_emit h.clear
  refine herror.trans fun q hq => ?_
  have hup : Reaches q (s.emit .controllerError) ((s.emit .controllerError).upstate .Error) fun q _ => q.Announces 0 :=
    (reaches_upstate hq fun _ he => absurd he (by decide)).mono fun _ h => h.1
  exact hup.trans fun q hq => good_clearUploads hq

/-! ### Visits -/

theorem reaches_beginUploading {start emitProgress : Bool}
    (hp : p.Announces (if start && emitProgress then 0 else u.changeEstimate))
    (hmax : start = true → emitProgress = true → p.max + u.changeEstimate < 2 ^ 32)
    (hk : start = true → u.state ≠ .Uploading → u.state ≠ .Error → emitProgress = true ∨ u.changeEstimate = 0) :
    Reaches p u (u.beginUploading start emitProgress) fun q v =>
      q.Announces u.changeEstimate ∧ ∃ state l, v = { u with state := state, log := l } := by
  unfold beginUploading
  split_ifs with hstart hprogress
  · rw [hstart, hprogress] at hp
    have hchanged : Reaches p u (u.uploadingChanged true) _ := reaches_uploadingChanged hp fun _ _ _ => rfl
    refine hchanged.trans ?_
    rintro q ⟨ha, hle, state, l, hl⟩
    rw [hl]
    refine reaches_emit ⟨ha.progressAdded ?_, _, _, rfl⟩
    have hlt := hmax hstart hprogress
    show q.max + u.changeEstimate < 2 ^ 32
    omega
  · rw [hstart, Bool.eq_false_iff.mpr hprogress] at hp
    refine (reaches_uploadingChanged hp fun _ hup herror => ?_).mono fun q hq => ⟨hq.1, hq.2.2⟩
    exact (hk hstart hup herror).resolve_left hprogress
  · rw [Bool.eq_false_iff.mpr hstart] at hp
    exact .of_log_eq rfl ⟨hp, _, _, rfl⟩

/-- An upload is started, or the connector fails, which clears the uploads. -/
theorem reaches_startUpload (h : Good p u) (env : UploadEnv Dev) (row : LoadedChange Dev Data)
    (hashed : ObjectKey → QByteArray) : Reaches p u (u.startUpload hashed env row) fun q v => Good q v ∧
      (env.emission row.key row.device = .error ∨ v.controller = u.controller ∧ v.changeEstimate = u.changeEstimate) := by
  have hemit : Reaches p u (u.emitUpload hashed row) fun q v => q = p ∧ ∃ l, v = { u with log := l } := by
    unfold emitUpload
    split
    · exact reaches_emit ⟨rfl, _, rfl⟩
    · exact reaches_emit ⟨rfl, _, rfl⟩
  unfold startUpload
  split
  · exact .of_log_eq rfl ⟨⟨h.covered, h.bounded, h.announced⟩, Or.inr ⟨rfl, rfl⟩⟩
  · rename_i herror
    refine hemit.trans fun q hq => (good_controllerError ?_).mono fun q hq => ⟨hq, Or.inl herror⟩
    rw [hq.1]
    exact h.announced.mono (Nat.zero_le _)
  · refine hemit.trans ?_
    rintro q ⟨rfl, l, hl⟩
    rw [hl]
    exact .of_log_eq rfl ⟨⟨h.covered, h.bounded, h.announced⟩, Or.inr ⟨rfl, rfl⟩⟩

section

variable [DecidableEq Dev] {hashed : ObjectKey → QByteArray} {env : UploadEnv Dev}

theorem size_activate {row : LoadedChange Dev Data} (h : u.Fresh hashed row = true) :
    (u.activate hashed row).controller.size = u.controller.size + 1 := by
  have hkeys := (activate_eq (Option.isNone_iff_eq_none.mp h)).1
  have hlength := congrArg List.length hkeys
  simp only [AList.keys, List.keys, List.length_map, List.length_cons] at hlength
  exact hlength

theorem fresh_of_fresh_activate {row row' : LoadedChange Dev Data} (h : u.Fresh hashed row = true)
    (h' : (u.activate hashed row).Fresh hashed row' = true) : u.Fresh hashed row' = true := by
  have hkeys := (activate_eq (Option.isNone_iff_eq_none.mp h)).1
  rw [Fresh, Option.isNone_iff_eq_none, AList.lookup_eq_none, AList.mem_keys] at h' ⊢
  rw [hkeys] at h'
  exact fun hmem => h' (List.mem_cons_of_mem _ hmem)

/-- **The visits**: as long as the estimate covers what they can start, it stays announced. -/
theorem good_visits {rows : List (LoadedChange Dev Data)} {start emitProgress : Bool}
    (hsize : u.controller.size < u.controller.uploadLimit)
    (hfits : min u.controller.uploadLimit (u.controller.size + rows.countP (u.Fresh hashed)) ≤ u.changeEstimate)
    (hbounded : u.changeEstimate < 2 ^ 32)
    (herrors : ∀ row ∈ rows.dropLast, u.Fresh hashed row = true → env.emission row.key row.device ≠ .error)
    (hp : p.Announces (if start && emitProgress then 0 else u.changeEstimate))
    (hempty : start = true → u.controller.size = 0)
    (hmax : start = true → emitProgress = true → rows ≠ [] ∧ p.max + u.changeEstimate < 2 ^ 32)
    (hk : start = true → rows ≠ [] → u.state ≠ .Uploading → u.state ≠ .Error →
      emitProgress = true ∨ u.changeEstimate = 0) :
    Reaches p u (visitAll (visit hashed env emitProgress) (u, start) rows).1.1 Good := by
  induction rows generalizing p u start with
  | nil =>
    have hno : (start && emitProgress) = false := by
      rw [Bool.eq_false_iff, Ne, Bool.and_eq_true]
      exact fun h => (hmax h.1 h.2).1 rfl
    rw [hno] at hp
    rw [List.countP_nil] at hfits
    have hcovered : u.controller.size ≤ u.changeEstimate := by omega
    exact .of_log_eq rfl ⟨hcovered, hbounded, hp⟩
  | cons row rows ih =>
    rw [visitAll]
    by_cases hfresh : u.Fresh hashed row = true
    · have hactive : ¬ (u.controller.activeUploads.lookup (hashed row.key, row.device)).isSome = true := by
        rw [Option.not_isSome_iff_eq_none]
        exact Option.isNone_iff_eq_none.mp hfresh
      rw [List.countP_cons_of_pos hfresh] at hfits
      unfold visit
      rw [if_neg hactive]
      simp only
      have hbegin := reaches_beginUploading hp (fun h h' => (hmax h h').2) fun h => hk h (List.cons_ne_nil _ _)
      have hstarted : Reaches p u (((u.beginUploading start emitProgress).activate hashed row).startUpload hashed env row)
          fun q v => Good q v ∧ (env.emission row.key row.device = .error ∨
            v.controller = (u.activate hashed row).controller ∧ v.changeEstimate = u.changeEstimate) := by
        refine hbegin.trans ?_
        rintro q ⟨ha, state, l, hl⟩
        have hone : (u.activate hashed row).controller.size ≤ u.changeEstimate := by
          rw [size_activate hfresh]
          omega
        have hactivate : Reaches q (u.beginUploading start emitProgress)
            ((u.beginUploading start emitProgress).activate hashed row) Good := by
          refine reaches_emit ?_
          rw [hl]
          exact ⟨hone, hbounded, ha⟩
        refine hactivate.trans fun q hq => (reaches_startUpload hq env row hashed).mono ?_
        rintro q ⟨hg, herror | ⟨hc, he⟩⟩
        · exact ⟨hg, Or.inl herror⟩
        · rw [hl] at hc he
          exact ⟨hg, Or.inr ⟨by rw [hl]; exact hc, by rw [hl]; exact he⟩⟩
      generalize ((u.beginUploading start emitProgress).activate hashed row).startUpload hashed env row = v at hstarted ⊢
      split_ifs with hmore
      · refine hstarted.trans ?_
        rintro q ⟨hg, herror | ⟨hc, he⟩⟩
        · rcases rows with _ | ⟨row', rows⟩
          · exact .of_log_eq rfl hg
          · exact absurd herror (herrors row (by simp) hfresh)
        · have hsame : ∀ row', v.Fresh hashed row' = (u.activate hashed row).Fresh hashed row' := fun row' => by
            rw [Fresh, Fresh, hc]
          have hcount : rows.countP (v.Fresh hashed) ≤ rows.countP (u.Fresh hashed) :=
            List.countP_mono_left fun row' _ h' => fresh_of_fresh_activate hfresh (hsame row' ▸ h')
          have hlimit : v.controller.uploadLimit = u.controller.uploadLimit := by
            rw [hc]
            exact (activate_eq (Option.isNone_iff_eq_none.mp hfresh)).2
          refine ih (of_decide_eq_true hmore) ?_ hg.bounded (fun row' hrow' h' => ?_) hg.announced
            (fun h => absurd h Bool.false_ne_true) (fun h => absurd h Bool.false_ne_true)
            fun h => absurd h Bool.false_ne_true
          · rw [hlimit, he, hc, size_activate hfresh]
            omega
          · refine herrors row' ?_ (fresh_of_fresh_activate hfresh (hsame row' ▸ h'))
            rw [List.dropLast_cons_of_ne_nil (by rintro rfl; cases hrow')]
            exact List.mem_cons_of_mem _ hrow'
      · exact hstarted.mono fun q hq => hq.1
    · have hactive : (u.controller.activeUploads.lookup (hashed row.key, row.device)).isSome = true := by
        rw [Option.isSome_iff_ne_none]
        exact fun hnone => hfresh (Option.isNone_iff_eq_none.mpr hnone)
      have hstart : start = false := by
        refine Bool.eq_false_iff.mpr fun hstart => ?_
        rw [size_eq_zero_iff.mp (hempty hstart)] at hactive
        cases hactive
      subst hstart
      rw [List.countP_cons_of_neg hfresh] at hfits
      unfold visit
      rw [if_pos hactive]
      refine ih hsize hfits hbounded (fun row' hrow' => herrors row' ?_) hp (fun h => absurd h Bool.false_ne_true)
        (fun h => absurd h Bool.false_ne_true) fun h => absurd h Bool.false_ne_true
      rw [List.dropLast_cons_of_ne_nil (by rintro rfl; cases hrow')]
      exact List.mem_cons_of_mem _ hrow'

/-! ### Calls of `uploadNext` -/

omit [DecidableEq Dev] in
/-- The count is announced, or the first visit will announce it. -/
theorem reaches_updateEstimate {count : ℕ} {start : Bool} (h : p.Announces u.changeEstimate)
    (hmax : u.changeEstimate = 0 → p.max + count < 2 ^ 32) :
    Reaches p u (u.updateEstimate count start) fun q v =>
      (∃ l, v = { u with changeEstimate := if u.changeEstimate = 0 then count else u.changeEstimate, log := l }) ∧
        q.Announces (if start && (decide (u.changeEstimate = 0 ∧ 0 < count) && start) then 0 else v.changeEstimate) ∧
        (start = true → q = p) := by
  unfold updateEstimate
  by_cases hzero : u.changeEstimate = 0
  · rw [hzero] at h
    simp only [hzero, if_true, true_and]
    by_cases hadded : 0 < count ∧ start = false
    · obtain ⟨hpos, rfl⟩ := hadded
      rw [if_pos ⟨hpos, rfl⟩]
      have hadd : (p.signal (.progressAdded count : EngineSignal Dev Data)).Announces count :=
        h.progressAdded (hmax hzero)
      exact ⟨[(u.uploadingEnabled, .progressAdded count)], rfl, ⟨_, rfl⟩, hadd, nofun⟩
    · rw [if_neg hadded]
      refine .of_log_eq rfl ⟨⟨_, rfl⟩, ?_, fun _ => rfl⟩
      by_cases hpos : 0 < count
      · have hstart : start = true := by simpa [hpos] using hadded
        simpa [hstart, hpos] using h
      · obtain rfl : count = 0 := by omega
        simpa using h
  · simp only [hzero, if_false, false_and]
    exact .of_log_eq rfl ⟨⟨_, rfl⟩, by simpa using h, fun _ => rfl⟩

/-- The visits of a call, and what comes after them. -/
theorem good_loadUploads {start : Bool} (h : Good p u) (hfinds : u.Finds env) (hc : u.Counted hashed env p start)
    (hvisits : u.Visits env) (hempty : start = true → u.controller.size = 0) :
    Reaches p u ((u.updateEstimate env.count start).loadUploads hashed env start
      (decide (u.changeEstimate = 0 ∧ 0 < env.count) && start)) Good := by
  have hupdate : Reaches p u (u.updateEstimate env.count start) _ := reaches_updateEstimate h.announced hc.max
  refine hupdate.trans ?_
  rintro q ⟨⟨l, hl⟩, ha, hsame⟩
  rw [hl] at ha ⊢
  have hlimit : 0 < u.controller.uploadLimit := Nat.zero_lt_of_lt hvisits.1
  have hsmall : env.count < 2 ^ 32 := by
    obtain ⟨_, -, -, hcount⟩ := hfinds.count
    rw [hcount]
    exact Nat.mod_lt _ (by decide)
  have hsome : 0 < env.count → u.database.rows env.changedRows env.deviceRows ≠ [] := by
    intro hpos
    rw [LocalDatabase.rows_ne_nil_iff hlimit hfinds.changed hfinds.device]
    by_contra hnone
    rw [LocalDatabase.count_eq_zero hfinds.count hnone] at hpos
    exact absurd hpos (lt_irrefl 0)
  unfold loadUploads
  simp only
  rw [LocalDatabase.loadChanges_eq hfinds.device]
  obtain ⟨v, hv⟩ : ∃ v : ExchangeEngine Dev jsonHash, v = { u with
      changeEstimate := if u.changeEstimate = 0 then env.count else u.changeEstimate
      search := ⟨u.uploadingEnabled, some !(env.changedRows.isEmpty && env.deviceRows.isEmpty)⟩
      log := l } := ⟨_, rfl⟩
  have hvisited : Reaches q v (visitAll (visit hashed env (decide (u.changeEstimate = 0 ∧ 0 < env.count) && start))
      (v, start) (u.database.rows env.changedRows env.deviceRows)).1.1 Good := by
    subst hv
    refine good_visits hvisits.1 (hc.fits hvisits) ?_ (hc.errors hvisits) ha hempty (fun hstart hemit => ?_) ?_
    · simp only
      split_ifs
      exacts [hsmall, h.bounded]
    · rw [Bool.and_eq_true, decide_eq_true_eq] at hemit
      refine ⟨hsome hemit.1.2, ?_⟩
      rw [hsame hstart]
      simp only [hemit.1.1, if_true]
      exact hc.max hemit.1.1
    · intro hstart hne hup herror
      have hzero := hc.started hstart hup herror (Or.inr ⟨hvisits, hne⟩)
      by_cases hpos : 0 < env.count
      · exact Or.inl (by simp [hzero, hpos, hstart])
      · have hcount : env.count = 0 := by omega
        exact Or.inr (by simp [hzero, hcount])
  have hlog : Reaches q { u with
      changeEstimate := if u.changeEstimate = 0 then env.count else u.changeEstimate, log := l } v fun q' _ => q' = q :=
    .of_log_eq (by rw [hv]) rfl
  refine hlog.trans ?_
  rintro _ rfl
  rw [← hv]
  refine hvisited.trans fun q hq => ?_
  split_ifs with hcommit hnone
  · exact good_controllerError (hq.announced.mono (Nat.zero_le _))
  · exact good_uploadingChanged hq
  · exact .of_log_eq rfl hq

/-- **A call of `uploadNext`** that is counted. -/
theorem good_uploadNext {emitStarted : Bool} (h : Good p s) (hfinds : s.Finds env)
    (hc : s.Counted hashed env p emitStarted) : Reaches p s (s.uploadNext hashed env emitStarted) Good := by
  have hfirst : Reaches p s (if (emitStarted && decide (s.controller.size ≠ 0)) then s.uploadingChanged true else s)
      fun q u => q.Announces s.changeEstimate ∧ q.max ≤ p.max ∧ ∃ state l,
        u = { s with state := state, log := l } ∧
          ((emitStarted && !(emitStarted && decide (s.controller.size ≠ 0))) = true → state = s.state) := by
    split_ifs with hactive
    · rw [Bool.and_eq_true, decide_eq_true_eq] at hactive
      refine (reaches_uploadingChanged h.announced fun _ hup herror => ?_).mono ?_
      · exact hc.started hactive.1 hup herror (Or.inl hactive.2)
      · rintro q ⟨ha, hle, state, l, hl⟩
        exact ⟨ha, hle, state, l, hl, fun hstart => by simp [hactive] at hstart⟩
    · exact .of_log_eq rfl ⟨h.announced, le_rfl, s.state, s.log, rfl, fun _ => rfl⟩
  have hstart : (emitStarted && !(emitStarted && decide (s.controller.size ≠ 0))) = true →
      emitStarted = true ∧ s.controller.size = 0 := by
    cases emitStarted <;> simp
  unfold uploadNext
  simp only
  generalize (emitStarted && !(emitStarted && decide (s.controller.size ≠ 0))) = start at hfirst hstart ⊢
  refine hfirst.trans ?_
  rintro q ⟨ha, hle, state, l, hl, hstate⟩
  rw [hl]
  obtain ⟨u, hu⟩ : ∃ u : ExchangeEngine Dev jsonHash,
      u = { s with state := state, search := ⟨s.uploadingEnabled, none⟩, log := l } := ⟨_, rfl⟩
  have hgood : Good q u := by
    rw [hu]
    exact ⟨h.covered, h.bounded, ha⟩
  have hcounted : u.Counted hashed env q start := by
    rw [hu]
    refine ⟨fun h hup herror hor => ?_, hc.fits, hc.errors, fun hzero => ?_⟩
    · obtain ⟨hemit, -⟩ := hstart h
      rw [hstate h] at hup herror
      exact hc.started hemit hup herror hor
    · have hlt := hc.max hzero
      show q.max + env.count < 2 ^ 32
      omega
  have hu' : Reaches q { s with state := state, log := l } u fun q' _ => q' = q := .of_log_eq (by rw [hu]) rfl
  have hfound : u.Finds env := by
    rw [hu]
    exact ⟨hfinds.count, hfinds.changed, hfinds.device⟩
  have hempty : start = true → u.controller.size = 0 := by
    rw [hu]
    exact fun h => (hstart h).2
  have hfailed : Reaches q u (u.updateEstimate env.count start).controllerError Good := by
    have hupdate : Reaches q u (u.updateEstimate env.count start) _ :=
      reaches_updateEstimate hgood.announced hcounted.max
    exact hupdate.trans fun q hq => good_controllerError (hq.2.1.mono (Nat.zero_le _))
  subst hu
  refine hu'.trans ?_
  rintro _ rfl
  simp only
  split_ifs with hlimit hcount hload
  · exact .of_log_eq rfl hgood
  · exact good_controllerError (hgood.announced.mono (Nat.zero_le _))
  · exact hfailed
  · exact good_loadUploads hgood hfound hcounted ⟨not_le.mp hlimit, hcount, hload⟩ hempty

theorem Counted.mono {emitStarted : Bool} {q : Tally} (h : s.Counted hashed env p emitStarted) (hle : q.max ≤ p.max) :
    s.Counted hashed env q emitStarted := by
  refine ⟨h.started, h.fits, h.errors, fun hzero => ?_⟩
  have hlt := h.max hzero
  omega

/-! ### Completions -/

omit [DecidableEq Dev] in
/-- The estimate is not 0 when an active upload is completed. -/
theorem good_completed (h : Good p s) {controller : ChangeController Dev Data}
    (hsize : controller.size + 1 = s.controller.size) (database : LocalDatabase Dev jsonHash) :
    Reaches p s (s.completed controller database) Good := by
  have hcovered := h.covered
  have hbounded := h.bounded
  obtain ⟨k, hk⟩ : ∃ k, s.changeEstimate = k + 1 := Nat.exists_eq_add_one.mpr (by omega)
  have hestimate : (s.changeEstimate + 2 ^ 32 - 1) % 2 ^ 32 = k := by omega
  have hannounced := h.announced
  rw [hk] at hannounced
  have hdone : (p.signal (.progressIncrement : EngineSignal Dev Data)).Announces k := hannounced.progressIncrement
  have hgood : ∀ queue l, Good (p.signal (.progressIncrement : EngineSignal Dev Data)) { s with
      controller := controller, database := database, changeEstimate := (s.changeEstimate + 2 ^ 32 - 1) % 2 ^ 32
      queue := queue, log := l } := fun queue l => by
    rw [hestimate]
    refine ⟨?_, ?_, hdone⟩
    · show controller.size ≤ k
      omega
    · show k < 2 ^ 32
      omega
  unfold completed
  simp only
  split_ifs
  · exact ⟨[(s.uploadingEnabled, .progressIncrement)], rfl, hgood _ _⟩
  · exact ⟨[(s.uploadingEnabled, .progressIncrement)], rfl, hgood _ _⟩

theorem size_erase {key : QByteArray × Option Dev} (h : (s.controller.activeUploads.lookup key).isSome) :
    (s.controller.activeUploads.erase key).entries.length + 1 = s.controller.size := by
  have hlength := (keys_perm_erase h).length_eq
  simp only [AList.keys, List.keys, List.length_map, List.length_cons] at hlength
  exact hlength.symm

theorem good_complete (h : Good p s) (persistDeleted fails : Bool) (key : QByteArray × Option Dev) :
    Reaches p s (s.complete persistDeleted fails key) Good := by
  have herror : ∀ controller, Reaches p s ({ s with controller := controller } : ExchangeEngine Dev jsonHash).controllerError
      Good := fun controller => good_controllerError (s := { s with controller := controller })
    (h.announced.mono (Nat.zero_le _))
  obtain ⟨key, - | deviceId⟩ := key
  · show Reaches p s (s.uploadDone persistDeleted fails key) Good
    unfold uploadDone
    simp only
    split_ifs with hactive hfails
    · exact herror _
    · refine good_completed h ?_ _
      obtain ⟨info, hinfo⟩ := Option.isSome_iff_exists.mp hactive
      simp only [ChangeController.uploadDone, hinfo]
      exact size_erase hactive
    · exact .of_log_eq rfl h
  · show Reaches p s (s.deviceUploadDone fails key deviceId) Good
    unfold deviceUploadDone
    simp only
    split_ifs with hactive hfails
    · exact herror _
    · refine good_completed h ?_ _
      obtain ⟨info, hinfo⟩ := Option.isSome_iff_exists.mp hactive
      simp only [ChangeController.deviceUploadDone, hinfo]
      exact size_erase hactive
    · exact .of_log_eq rfl h

/-! ### Steps -/

omit [DecidableEq Dev] in
theorem Good.clear (h : Good p s) (hzero : s.changeEstimate = 0) : Good p.clear s := by
  refine ⟨h.covered, h.bounded, ?_⟩
  have hannounced := h.announced
  rw [hzero] at hannounced ⊢
  exact hannounced.clear

theorem good_setUploadingEnabled {uploading : Bool} (h : Good p s) (hfinds : s.Finds env)
    (hc : uploading = true → s.Counted hashed env p true) :
    Reaches p s (s.setUploadingEnabled hashed env uploading) Good := by
  unfold setUploadingEnabled
  split_ifs with huploading
  · have hc' := hc huploading
    exact good_uploadNext (s := { s with uploadingEnabled := true, cleared := false })
      ⟨h.covered, h.bounded, h.announced⟩ ⟨hfinds.count, hfinds.changed, hfinds.device⟩
      ⟨hc'.started, hc'.fits, hc'.errors, hc'.max⟩
  · exact good_uploadingChanged (s := { s with uploadingEnabled := false }) ⟨h.covered, h.bounded, h.announced⟩

omit [DecidableEq Dev] in
/-- The state changes, and the uploads are cleared. -/
theorem good_upstate_clearUploads (h : p.Announces 0) {state : SyncState} :
    Reaches p s (s.upstate state).clearUploads fun q u => Good q.clear u := by
  have hup : Reaches p s (s.upstate state) _ := reaches_upstate h fun _ _ => rfl
  refine hup.trans fun q hq => (good_clearUploads hq.1).mono fun q hq => hq.clear rfl

theorem good_remoteEvent {event : RemoteEvent} (h : Good p s) (hfinds : s.Finds env)
    (hc : s.Counts hashed p (.remoteEvent env event)) :
    Reaches (p.restart s (.remoteEvent env event)) s (s.remoteEvent hashed env event)
      fun q u => Good (if s.Clears (.remoteEvent env event) then q.clear else q) u := by
  have hzero : p.Announces 0 := h.announced.mono (Nat.zero_le _)
  have hignored : s.state = .Error → event ≠ .RemoteConnecting →
      p.restart s (.remoteEvent env event) = p ∧ s.Clears (.remoteEvent env event) = false := by
    intro herror hne
    cases event with
    | RemoteConnecting => exact absurd rfl hne
    | _ => simp [Tally.restart, restarts, Clears, herror]
  unfold remoteEvent
  by_cases herror : s.state = .Error ∧ event ≠ .RemoteConnecting
  · obtain ⟨hp, hclears⟩ := hignored herror.1 herror.2
    rw [if_pos herror, hp, hclears]
    exact .of_log_eq rfl h
  · rw [if_neg herror]
    cases event with
    | RemoteConnecting => exact good_upstate_clearUploads (hzero.reset false)
    | RemoteDisconnected =>
      have hne : s.state ≠ .Error := fun he => herror ⟨he, by decide⟩
      have hp : p.restart s (.remoteEvent env .RemoteDisconnected) = p.reset false := by
        simp [Tally.restart, restarts, hne]
      have hclears : s.Clears (.remoteEvent env .RemoteDisconnected) = true := decide_eq_true hne
      simp only [hp, hclears, if_true]
      exact good_upstate_clearUploads (hzero.reset false)
    | RemoteReady =>
      have hne : s.state ≠ .Error := fun he => herror ⟨he, by decide⟩
      have hp : p.restart s (.remoteEvent env .RemoteReady) = p.reset true := by
        simp [Tally.restart, restarts, hne]
      rw [hp]
      obtain ⟨hestimate, hcounted⟩ := hc hne
      have hup : Reaches (p.reset true) s (s.upstate .Uploading) _ :=
        reaches_upstate (hzero.reset true) fun _ _ => rfl
      refine hup.trans ?_
      rintro q ⟨ha, hle, l, hl⟩
      have hgood : Good q (s.upstate .Uploading) := by
        rw [hl]
        refine ⟨h.covered, h.bounded, ?_⟩
        show q.Announces s.changeEstimate
        rw [hestimate]
        exact ha
      have hfound : (s.upstate .Uploading).Finds env := by
        rw [hl]
        exact ⟨hfinds.count, hfinds.changed, hfinds.device⟩
      exact good_setUploadingEnabled hgood hfound fun _ => hcounted.mono hle
    | RemoteReadyWithChanges =>
      have hup : Reaches p s (s.upstate .Downloading) _ :=
        reaches_upstate h.announced fun _ he => absurd he (by decide)
      refine hup.trans ?_
      rintro q ⟨ha, -, l, hl⟩
      rw [hl]
      exact good_uploadingChanged (s := { s with state := .Downloading, uploadingEnabled := false, log := l })
        ⟨h.covered, h.bounded, ha⟩

variable [LinearOrder Checksum] {d : Defaults Data}

/-- **One step** whose calls of `uploadNext` are counted. -/
theorem good_next {a : Step Dev Data} (h : Good p s) (hans : Answered s a) (hc : s.Counts hashed p a)
    (ht : s.next hashed d a = some t) :
    Reaches (p.restart s a) s t fun q u => Good (if s.Clears a then q.clear else q) u := by
  cases a with
  | store op =>
    have hstore : Reaches p s (s.store d op) Good := .of_log_eq rfl ⟨h.covered, h.bounded, h.announced⟩
    cases op with
    | markUnchanged _ _ _ => exact absurd ht (by simp [ExchangeEngine.next])
    | save _ _ => exact Option.some.inj ht ▸ hstore
    | remove _ => exact Option.some.inj ht ▸ hstore
    | clear _ => exact Option.some.inj ht ▸ hstore
    | syncChange _ => exact Option.some.inj ht ▸ hstore
  | prepareAccountAdded _ _ =>
    cases ht
    exact .of_log_eq rfl ⟨h.covered, h.bounded, h.announced⟩
  | setUploadingEnabled env uploading =>
    cases ht
    refine good_setUploadingEnabled h hans fun huploading => ?_
    subst huploading
    exact hc
  | clearUploads =>
    cases ht
    exact (good_clearUploads (h.announced.mono (Nat.zero_le _))).mono fun q hq => hq.clear rfl
  | updateUploadLimit _ =>
    cases ht
    exact .of_log_eq rfl ⟨h.covered, h.bounded, h.announced⟩
  | deliver env =>
    rcases hq : s.queue with - | ⟨c, queue⟩
    · simp [ExchangeEngine.next, hq] at ht
    · simp only [ExchangeEngine.next, hq, Option.some.injEq] at ht
      subst ht
      simp only [Counts, hq] at hc
      have hs : Good p { s with queue := queue } := ⟨h.covered, h.bounded, h.announced⟩
      have hfinds : ({ s with queue := queue } : ExchangeEngine Dev jsonHash).Finds env :=
        ⟨hans.count, hans.changed, hans.device⟩
      have hcounted : ∀ {emitStarted}, s.Counted hashed env p emitStarted →
          ({ s with queue := queue } : ExchangeEngine Dev jsonHash).Counted hashed env p emitStarted :=
        fun hc => ⟨hc.started, hc.fits, hc.errors, hc.max⟩
      cases c with
      | changeTriggered =>
        show Reaches p s (changeTriggered hashed { s with queue := queue } env) Good
        unfold changeTriggered
        split_ifs with henabled
        · exact good_uploadNext hs hfinds (hcounted (hc henabled))
        · exact .of_log_eq rfl hs
      | uploadNext => exact good_uploadNext hs hfinds (hcounted hc)
      | uploadDone key => exact good_complete hs _ _ (key, none)
  | ack key fails =>
    simp only [ExchangeEngine.next, Option.ite_none_right_eq_some, Option.some.injEq] at ht
    obtain ⟨-, rfl⟩ := ht
    exact good_complete (s := { s with acks := s.acks.erase key }) ⟨h.covered, h.bounded, h.announced⟩ _ _ _
  | remoteEvent env event =>
    cases ht
    exact good_remoteEvent h hans hc
  | resetAccount keepData =>
    cases ht
    obtain ⟨l, hl, hgood⟩ := good_clearUploads (s := s) (h.announced.mono (Nat.zero_le _))
    have hclear := hgood.clear rfl
    exact ⟨l, hl, hclear.covered, hclear.bounded, hclear.announced⟩
  | controllerError =>
    cases ht
    exact (good_controllerError (h.announced.mono (Nat.zero_le _))).mono fun q hq => hq.clear rfl

/-- **Progress counters neither wrap nor overshoot** in every run whose calls of `uploadNext` are counted. -/
theorem progress_bounded {x : ExchangeEngine Dev jsonHash × Tally}
    (h : ((lts hashed d).withHistory Tally.zero Tally.update).Reachable (fun x a => x.1.Counts hashed x.2 a) x) :
    ProgressBounded x.1 x.2 := by
  have hgood : Good x.2 x.1 := by
    refine LTS.Reachable.invariant (I := fun x => Good x.2 x.1) ?_ ?_ h
    rotate_left
    · rintro ⟨s, p⟩ a ⟨t, q⟩ - hs hg ⟨hst, hq⟩
      obtain ⟨l, hl, ht⟩ := good_next hs hst.1 hg hst.2
      have hq' : q = p.update s a t := hq
      rw [hq', Tally.update, hl, List.drop_left]
      exact ht
    · rintro ⟨s, p⟩ ⟨⟨-, -, hactive, -, hestimate, -⟩, hp⟩
      have hp' : p = Tally.zero := hp
      have hestimate' : s.changeEstimate = 0 := hestimate
      have hactive' : s.controller.activeUploads = ∅ := hactive
      refine ⟨?_, ?_, ?_⟩
      · rw [ChangeController.size, hactive']
        exact Nat.zero_le _
      · simp [hestimate']
      · simp only [hestimate', hp']
        exact ⟨le_rfl, nofun, by decide⟩
  refine ⟨fun key hactive hzero => ?_, ?_, fun ha hmax => ⟨?_, hgood.announced.progress_le_one ha⟩⟩
  · have hcovered := hgood.covered
    have hsize : x.1.controller.size = 0 := by omega
    rw [size_eq_zero_iff.mp hsize] at hactive
    cases hactive
  · have hadded := hgood.announced.added
    omega
  · rw [Tally.progress, if_neg hmax]
    positivity

end

end

/-! ### An upload that was not counted -/

/-- One step of a run that is followed. -/
theorem advance {hashed : ObjectKey → QByteArray} {d : Defaults ℕ}
    {G : ExchangeEngine Unit (fun n : ℕ => n) × Tally → Step Unit ℕ → Prop}
    {s t : ExchangeEngine Unit (fun n : ℕ => n)} {p : Tally} {a : Step Unit ℕ}
    (h : ((lts hashed d).withHistory Tally.zero Tally.update).Reachable G (s, p)) (hG : G (s, p) a) (hans : Answered s a)
    (hnext : s.next hashed d a = some t) :
    ((lts hashed d).withHistory Tally.zero Tally.update).Reachable G (t, p.update s a t) :=
  h.step hG ⟨⟨hans, hnext⟩, rfl⟩

/-- One change is counted, started and completed. -/
theorem progress_bounded_completed : ∃ x : ExchangeEngine Unit (fun n : ℕ => n) × Tally,
    ProgressBounded x.1 x.2 ∧ x.2 = ⟨true, 1, 1, 1, 1⟩ := by
  have hstart : ((lts Sample.hashed Sample.defaults).withHistory Tally.zero Tally.update).Reachable
      (fun x a => x.1.Counts Sample.hashed x.2 a) (Sample.start, Tally.zero) := .init ⟨Sample.init_start, rfl⟩
  have hcounts : Sample.start.Counts Sample.hashed Tally.zero (.setUploadingEnabled (Sample.env .sent) true) :=
    ⟨fun _ _ _ _ => rfl, fun _ => min_le_left _ _, fun _ _ hrow => absurd hrow List.not_mem_nil, fun _ => by decide⟩
  have henabled := advance hstart hcounts (Sample.finds .sent) rfl
  have hacked := advance (a := .ack ([1], some ()) false) henabled trivial trivial rfl
  exact ⟨_, progress_bounded hacked, by decide +kernel⟩

namespace Wrap

/-- One new object. -/
def start : ExchangeEngine Unit (fun n : ℕ => n) :=
  ⟨⟨fun k => if k = Off.first then some ⟨1, some (.write 5), true⟩ else none, fun _ _ => false⟩, .Initializing, ⟨∅, 2⟩,
    false, 0, [], [], ⟨false, none⟩, true, []⟩

/-- It is counted and uploaded, and another object is saved. -/
def saved : ExchangeEngine Unit (fun n : ℕ => n) :=
  (start.setUploadingEnabled Off.hashed (Off.env 1 [Off.first]) true).store Off.defaults (.save Off.second 6)

theorem finds_start : start.Finds (Off.env 1 [Off.first]) := by
  refine Off.finds [Off.first] (fun _ _ => rfl) (by decide) (fun k => ?_) (by decide)
  simp [start]

theorem saved_dataIndex (k : ObjectKey) : saved.database.dataIndex k =
    if k = Off.second then some ⟨1, some (.write 6), true⟩ else start.database.dataIndex k := by
  show Function.update start.database.dataIndex Off.second _ k = _
  by_cases hk : k = Off.second
  · rw [hk, Function.update_self, if_pos rfl]
  · rw [Function.update_of_ne hk, if_neg hk]

theorem finds_saved : saved.Finds (Off.env 2 [Off.first, Off.second]) := by
  refine Off.finds [Off.first, Off.second] (fun k d => ?_) (by decide) (fun k => ?_) (by decide)
  · show (false && (saved.database.dataIndex k).isSome) = false
    exact Bool.false_and _
  · rw [saved_dataIndex]
    split_ifs with hk
    · simp [hk]
    · simp [hk, start]

theorem overtaken_reachable : ∃ x : ExchangeEngine Unit (fun n : ℕ => n) × Tally,
    ((lts Off.hashed Off.defaults).withHistory Tally.zero Tally.update).Reachable LTS.free x ∧
      x.1.changeEstimate = 2 ^ 32 - 1 ∧ x.2 = ⟨true, 1, 2, 1, 2⟩ := by
  have hstart : ((lts Off.hashed Off.defaults).withHistory Tally.zero Tally.update).Reachable LTS.free
      (start, Tally.zero) :=
    .init ⟨⟨fun _ _ hk => absurd hk (by simp [start]), rfl, rfl, rfl, rfl, rfl, rfl, rfl, rfl, rfl⟩, rfl⟩
  have henabled := advance (a := .setUploadingEnabled (Off.env 1 [Off.first]) true) hstart trivial finds_start rfl
  have hsaved := advance (a := .store (.save Off.second 6)) (t := saved) henabled trivial trivial rfl
  have hstarted := advance (a := .deliver (Off.env 2 [Off.first, Off.second])) hsaved trivial finds_saved rfl
  have hfirst := advance (a := .ack ([1], none) false) hstarted trivial trivial rfl
  have hsecond := advance (a := .ack ([2], none) false) hfirst trivial trivial rfl
  exact ⟨_, hsecond, by decide +kernel, by decide +kernel⟩

end Wrap

/-- Two uploads are completed of which only one was counted: the estimate becomes 2^32 - 1, and the progress 2. -/
theorem not_progress_bounded : ¬ ∀ x : ExchangeEngine Unit (fun n : ℕ => n) × Tally,
    ((lts Off.hashed Off.defaults).withHistory Tally.zero Tally.update).Reachable LTS.free x →
      ProgressBounded x.1 x.2 := by
  intro h
  obtain ⟨x, hx, -, htally⟩ := Wrap.overtaken_reachable
  have hemitted := (h x hx).emitted
  rw [htally] at hemitted
  exact absurd hemitted (by decide)

end ExchangeEngine

end QtDataSync
