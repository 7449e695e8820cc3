import QtDataSync.Server.Download

/-!
# Server.DownloadWindow — what is outstanding is the lowest pending ids

`Window` is kept by every step of the connection, and by the transactions of other connections that do not disturb it.
Nothing is then handed out twice, no count wraps, and a pending change is handed out after as many acknowledgements as
there are older ones.
-/

namespace QtDataSync.Server.Download

open DatabaseController

variable {Dev : Type*} [DecidableEq Dev]

/-- The outstanding changes are the pending ones with the lowest ids, and at most `downLimit`. -/
structure Window (downLimit downThreshold : ℕ) (s : State Dev) : Prop where
  downLimit_eq : s.client.downLimit = downLimit
  downThreshold_eq : s.client.downThreshold = downThreshold
  lowest : s.outstanding <+: s.pending
  length_le : s.outstanding.length ≤ downLimit

namespace Window

variable {downLimit downThreshold : ℕ} {s s' : State Dev}

omit [DecidableEq Dev] in
theorem active_length_le (s : State Dev) : s.client.activeDownloads.length ≤ s.outstanding.length := by
  unfold State.outstanding
  rw [List.length_append]
  omega

theorem nodup (h : Window downLimit downThreshold s) : s.outstanding.Nodup :=
  (pending_nodup s).sublist h.lowest.sublist

/-- The own steps keep the limits; those that keep what is outstanding keep the window. -/
theorem of_outstanding (h : Window downLimit downThreshold s) (idle : Bool) (cachedChanges : ℕ)
    (activeDownloads : List ℕ) (task : Option Task) (sent : List Message)
    (hout : State.outstanding ⟨s.db, { s.client with idle, cachedChanges, activeDownloads, task, sent }⟩ =
      s.outstanding) :
    Window downLimit downThreshold
      ⟨s.db, { s.client with idle, cachedChanges, activeDownloads, task, sent }⟩ where
  downLimit_eq := h.downLimit_eq
  downThreshold_eq := h.downThreshold_eq
  lowest := by
    rw [hout]
    exact h.lowest
  length_le := by
    rw [hout]
    exact h.length_le

/-- The end of `triggerDownload` changes nothing. -/
theorem finish (h : Window downLimit downThreshold s) (hsending : s.sending = []) (skipNoChanges : Bool) :
    Window downLimit downThreshold ⟨s.db, s.client.finish skipNoChanges⟩ := by
  have hout : s.outstanding = s.client.activeDownloads := by
    unfold State.outstanding
    rw [hsending, List.map_nil, List.append_nil]
  unfold Client.finish
  split
  · refine h.of_outstanding _ 0 _ none _ ?_
    rw [hout]
    exact List.append_nil _
  · refine h.of_outstanding _ _ _ none _ ?_
    rw [hout]
    exact List.append_nil _

omit [DecidableEq Dev] in
theorem outstanding_of_load {forceUpdate skipNoChanges : Bool}
    (ht : s.client.task = some (.load forceUpdate skipNoChanges)) :
    s.sending = [] ∧ s.outstanding = s.client.activeDownloads := by
  have hsending : s.sending = [] := by
    unfold State.sending
    rw [ht]
  refine ⟨hsending, ?_⟩
  unfold State.outstanding
  rw [hsending, List.map_nil, List.append_nil]

/-- The free places of the window. -/
theorem sub32_length (h : Window downLimit downThreshold s) (hlimit : downLimit < 2 ^ 32) :
    sub32 s.client.downLimit s.client.activeDownloads.length = downLimit - s.client.activeDownloads.length := by
  have hle := (active_length_le s).trans h.length_le
  rw [h.downLimit_eq]
  exact sub32_eq hle hlimit

/-- A page is appended to the window, if there are enough free places. -/
theorem outstanding_load (h : Window downLimit downThreshold s) (hlimit : downLimit < 2 ^ 32)
    (forceUpdate skipNoChanges : Bool) :
    State.outstanding ⟨s.db, s.client.load s.db forceUpdate skipNoChanges⟩ =
      if downThreshold ≤ downLimit - s.client.activeDownloads.length then
        s.client.activeDownloads ++ (s.pending.drop s.client.activeDownloads.length).take
          (downLimit - s.client.activeDownloads.length)
      else s.client.activeDownloads := by
  unfold Client.load
  simp only [h.sub32_length hlimit, h.downThreshold_eq]
  split
  · rw [← map_loadNextChanges]
    rfl
  · unfold Client.finish
    split
    · exact List.append_nil _
    · exact List.append_nil _

/-- **A load.** -/
theorem load (h : Window downLimit downThreshold s) (hlimit : downLimit < 2 ^ 32) {forceUpdate skipNoChanges : Bool}
    (ht : s.client.task = some (.load forceUpdate skipNoChanges)) :
    Window downLimit downThreshold ⟨s.db, s.client.load s.db forceUpdate skipNoChanges⟩ := by
  have hactive := (outstanding_of_load ht).2
  have hle := (active_length_le s).trans h.length_le
  have hlow := h.lowest
  rw [hactive] at hlow
  have hout := h.outstanding_load hlimit forceUpdate skipNoChanges
  obtain ⟨hdev, hlim, hthr⟩ := s.client.load_constant s.db forceUpdate skipNoChanges
  have hpending : State.pending ⟨s.db, s.client.load s.db forceUpdate skipNoChanges⟩ = s.pending := by
    unfold State.pending
    rw [hdev]
  have hpage := Window.length_page_le s.client.activeDownloads s.pending
    (downLimit - s.client.activeDownloads.length)
  refine ⟨hlim.trans h.downLimit_eq, hthr.trans h.downThreshold_eq, ?_, ?_⟩
  · rw [hout, hpending]
    split
    · exact Window.append_page hlow _
    · exact hlow
  · rw [hout]
    split
    · rw [List.length_append]
      omega
    · exact hle

/-- **One change** is sent: it moves from the loop to the active downloads. -/
theorem send (h : Window downLimit downThreshold s) {change : Change} {changes : List Change}
    {updateChange skipNoChanges : Bool}
    (ht : s.client.task = some (.send (change :: changes) updateChange skipNoChanges)) :
    Window downLimit downThreshold ⟨s.db, s.client.send s.db change changes updateChange skipNoChanges⟩ := by
  unfold Client.send
  refine h.of_outstanding _ _ _ _ _ ?_
  have hsending : s.sending = change :: changes := by
    unfold State.sending
    rw [ht]
  show (s.client.activeDownloads ++ [change.1]) ++ changes.map (·.1) = _
  unfold State.outstanding
  rw [hsending, List.map_cons, List.append_assoc, List.singleton_append]

/-- **An acknowledgement** takes one index out on both sides, whatever it names. -/
theorem onChangedAck (h : Window downLimit downThreshold s) (ht : s.client.task = none) (dataIndex : ℕ) :
    Window downLimit downThreshold ⟨(Transaction.completeChange s.client.deviceId dataIndex).next s.db,
      Client.triggerDownload { s.client with activeDownloads := s.client.activeDownloads.erase dataIndex }⟩ := by
  have hout : s.outstanding = s.client.activeDownloads := by
    unfold State.outstanding State.sending
    rw [ht]
    simp
  have hout' : State.outstanding ⟨(Transaction.completeChange s.client.deviceId dataIndex).next s.db,
      Client.triggerDownload { s.client with activeDownloads := s.client.activeDownloads.erase dataIndex }⟩ =
      s.client.activeDownloads.erase dataIndex := List.append_nil _
  refine ⟨h.downLimit_eq, h.downThreshold_eq, ?_, ?_⟩
  · rw [hout', pending_completeChange s _ (by rfl), ← hout]
    exact h.lowest.erase dataIndex
  · rw [hout', ← hout]
    exact (List.length_erase_le).trans h.length_le

/-- **A transaction** of another connection that does not disturb the window. -/
theorem transaction (h : Window downLimit downThreshold s) {tx : Transaction Dev}
    (hg : Undisturbed s (.transaction tx)) : Window downLimit downThreshold ⟨tx.next s.db, s.client⟩ := by
  obtain ⟨hkeep, hnew⟩ := hg
  refine ⟨h.downLimit_eq, h.downThreshold_eq, ?_, h.length_le⟩
  refine Window.prefix_of_sorted ((pending_sorted s).sublist h.lowest.sublist) (pending_sorted _) hkeep ?_
  intro i hi hout j hj
  by_cases hold : i ∈ s.pending
  · exact Window.lt_of_not_mem (pending_sorted s) h.lowest hold hout hj
  · exact hnew i hi hold j hj

/-- **One step.** -/
theorem step (h : Window downLimit downThreshold s) (hlimit : downLimit < 2 ^ 32) {a : Step Dev}
    (hg : Undisturbed s a) (hst : next s a = some s') : Window downLimit downThreshold s' := by
  -- a new task has loaded nothing yet
  have hidle (ht : s.client.task = none) : s.outstanding = s.client.activeDownloads := by
    unfold State.outstanding State.sending
    rw [ht]
    simp
  cases a with
  | onLogin =>
    simp only [next, Option.ite_none_right_eq_some] at hst
    obtain ⟨⟨-, ht⟩, he⟩ := hst
    cases he
    refine h.of_outstanding true _ _ (some (.load true _)) _ ?_
    rw [hidle ht]
    exact List.append_nil _
  | onSync | notifyChanged =>
    simp only [next, Option.ite_none_right_eq_some] at hst
    obtain ⟨⟨-, ht⟩, he⟩ := hst
    cases he
    refine h.of_outstanding _ _ _ (some (.load false false)) _ ?_
    rw [hidle ht]
    exact List.append_nil _
  | onChangedAck dataIndex =>
    simp only [next, Option.ite_none_right_eq_some] at hst
    obtain ⟨⟨-, ht⟩, he⟩ := hst
    cases he
    exact h.onChangedAck ht dataIndex
  | proceed =>
    simp only [next] at hst
    split at hst
    · cases hst
    · rename_i ht
      cases hst
      exact h.load hlimit ht
    · rename_i ht
      cases hst
      refine h.finish ?_ _
      unfold State.sending
      rw [ht]
    · rename_i ht
      cases hst
      exact h.send ht
  | transaction tx =>
    cases hst
    exact h.transaction hg

/-- **Every run.** -/
theorem reachable {deviceId : Dev} (hlimit : downLimit < 2 ^ 32)
    (h : (lts deviceId downLimit downThreshold).Reachable Undisturbed s) : Window downLimit downThreshold s := by
  refine h.invariant (I := Window downLimit downThreshold) (fun s hs => ?_) fun s a t _ hw hg hst => ?_
  · have hs' : s.client = connection deviceId downLimit downThreshold := hs
    have hout : s.outstanding = [] := by
      unfold State.outstanding State.sending
      rw [hs']
      rfl
    refine ⟨by rw [hs']; rfl, by rw [hs']; rfl, ?_, ?_⟩
    · rw [hout]
      exact List.nil_prefix
    · rw [hout]
      exact Nat.zero_le _
  · exact hw.step hlimit hg hst

/-! ### The counts -/

/-- A change that is about to be sent is counted, and is not among the active ones. -/
theorem sending_cons (h : Window downLimit downThreshold s) {change : Change} {changes : List Change}
    (hs : s.sending = change :: changes) :
    change.1 ∉ s.client.activeDownloads ∧ s.client.activeDownloads.length < s.pending.length := by
  have hout : s.outstanding = s.client.activeDownloads ++ change.1 :: changes.map (·.1) := by
    unfold State.outstanding
    rw [hs, List.map_cons]
  have hnodup := h.nodup
  have hlen := h.lowest.length_le
  rw [hout] at hnodup hlen
  refine ⟨fun hmem => ?_, ?_⟩
  · exact (List.nodup_append.mp hnodup).2.2 _ hmem _ List.mem_cons_self rfl
  · rw [List.length_append, List.length_cons] at hlen
    omega

theorem subtractions_le (h : Window downLimit downThreshold s) (hcount : s.pending.length < 2 ^ 32) :
    ∀ x ∈ s.subtractions, x.2 ≤ x.1 := by
  unfold State.subtractions
  split
  · intro x hx
    rw [List.mem_singleton] at hx
    subst hx
    rw [h.downLimit_eq]
    exact (active_length_le s).trans h.length_le
  · rename_i change changes updateChange skipNoChanges ht
    have hsending : s.sending = change :: changes := by
      unfold State.sending
      rw [ht]
    have hlt := (h.sending_cons hsending).2
    have hmod : changeCount s.db s.client.deviceId % 2 ^ 32 = s.pending.length := by
      rw [changeCount_eq, Nat.mod_eq_of_lt hcount]
    intro x hx
    unfold Client.estimate at hx
    by_cases hz : s.client.cachedChanges = 0
    · simp only [if_pos hz, hmod, List.mem_append, List.mem_singleton] at hx
      rcases hx with rfl | rfl
      · exact Nat.le_of_lt hlt
      · show 1 ≤ sub32 _ _
        rw [sub32_eq (Nat.le_of_lt hlt) hcount]
        omega
    · simp only [if_neg hz, List.nil_append, List.mem_singleton] at hx
      subst hx
      exact Nat.pos_of_ne_zero hz
  · intro x hx
    cases hx

/-! ### No change is skipped for good -/

/-- A load hands something out, as long as there is something to hand out and nothing outstanding. -/
theorem load_ne_nil (h : Window downLimit downThreshold s) (hlimit : downLimit < 2 ^ 32) (hpos : 0 < downLimit)
    (hthreshold : downThreshold ≤ downLimit) (forceUpdate skipNoChanges : Bool) (hpending : s.pending ≠ []) :
    State.outstanding ⟨s.db, s.client.load s.db forceUpdate skipNoChanges⟩ ≠ [] := by
  intro hnil
  rw [h.outstanding_load hlimit forceUpdate skipNoChanges] at hnil
  split at hnil
  · obtain ⟨hactive, hpage⟩ := List.append_eq_nil_iff.mp hnil
    rw [hactive, List.length_nil, Nat.sub_zero] at hpage
    exact Window.page_ne_nil List.nil_prefix hpos hpending hpage
  · -- an empty window has room for a page
    rename_i hfull
    rw [hnil, List.length_nil, Nat.sub_zero] at hfull
    exact hfull hthreshold

end Window

/-- The acknowledgement of an outstanding download. -/
def acknowledges (x : State Dev × Step Dev × State Dev) : Bool :=
  match x.2.1 with
  | .onChangedAck dataIndex => dataIndex ∈ x.1.client.activeDownloads
  | _ => false

/-- The number of older changes that a step makes pending. -/
def added (i : ℕ) (x : State Dev × Step Dev × State Dev) : ℕ :=
  (x.2.2.pending.filter fun j => j < i ∧ j ∉ x.1.pending).length

namespace Window

variable {downLimit downThreshold : ℕ} {s s' : State Dev}

/-- **One step** and the older changes of a change that is not outstanding: an acknowledgement takes one away. -/
theorem rank_step (h : Window downLimit downThreshold s) {a : Step Dev} (hst : next s a = some s') {i : ℕ}
    (hi : i ∈ s.pending) (hout : i ∉ s.outstanding) :
    Window.rank s'.pending i + (if acknowledges (s, a, s') then 1 else 0) ≤
      Window.rank s.pending i + added i (s, a, s') := by
  by_cases hack : acknowledges (s, a, s') = true
  · cases a with
    | onChangedAck dataIndex =>
      have hj : dataIndex ∈ s.client.activeDownloads := of_decide_eq_true hack
      have hj' : dataIndex ∈ s.outstanding := List.mem_append_left _ hj
      simp only [next, Option.ite_none_right_eq_some] at hst
      obtain ⟨-, he⟩ := hst
      have hpending : s'.pending = s.pending.erase dataIndex := by
        cases he
        exact pending_completeChange s _ (by rfl) dataIndex
      have hlt := Window.lt_of_not_mem (pending_sorted s) h.lowest hi hout hj'
      have hrank := Window.rank_erase (pending_nodup s) (h.lowest.subset hj') hlt
      rw [if_pos hack, hpending]
      omega
    | _ => cases hack
  · rw [if_neg hack]
    exact Window.rank_le_add (pending_nodup s') i

/-- **Every run** in which a pending change is not handed out: the acknowledgements of outstanding downloads are at most
as many as there are older changes, at the start or made pending since. -/
theorem acknowledgements_le (h : Window downLimit downThreshold s) (hlimit : downLimit < 2 ^ 32) {deviceId : Dev}
    {tr : List (State Dev × Step Dev × State Dev)} {t : State Dev}
    (hr : LTS.Run (lts deviceId downLimit downThreshold) Undisturbed s tr t) {i : ℕ}
    (hi : ∀ x ∈ tr, i ∈ x.1.pending ∧ i ∉ x.1.outstanding) :
    tr.countP acknowledges ≤ Window.rank s.pending i + (tr.map (added i)).sum := by
  have hrank : tr.countP acknowledges + Window.rank t.pending i ≤
      Window.rank s.pending i + (tr.map (added i)).sum ∧ Window downLimit downThreshold t := by
    induction hr with
    | nil => exact ⟨by simp, h⟩
    | @snoc t t' tr a hr hg hst ih =>
      rw [List.forall_mem_append, List.forall_mem_singleton] at hi
      obtain ⟨ih, hw⟩ := ih hi.1
      have hstep := hw.rank_step hst hi.2.1 hi.2.2
      refine ⟨?_, hw.step hlimit hg hst⟩
      simp only [List.countP_append, List.countP_cons, List.countP_nil, List.map_append, List.map_singleton,
        List.sum_append, List.sum_singleton]
      omega
  omega

end Window

/-- **The download window** in every run in which no transaction of another connection disturbs it.  No index is
active twice, there are at most `downLimit`, a change is sent only if it is pending and not active, and no subtraction
wraps.  A load leaves something to acknowledge as long as changes are pending, and a pending change is handed out
before the outstanding downloads are acknowledged more often than there are older changes. -/
theorem download_window {deviceId : Dev} {downLimit downThreshold : ℕ} (hlimit : downLimit < 2 ^ 32)
    (hpos : 0 < downLimit) (hthreshold : downThreshold ≤ downLimit) {s : State Dev}
    (hs : (lts deviceId downLimit downThreshold).Reachable Undisturbed s) :
    s.client.activeDownloads.Nodup ∧ s.client.activeDownloads.length ≤ downLimit ∧
      (∀ change ∈ s.sending.head?, change.1 ∈ s.pending ∧ change.1 ∉ s.client.activeDownloads) ∧
      (s.pending.length < 2 ^ 32 → ∀ x ∈ s.subtractions, x.2 ≤ x.1) ∧
      (∀ forceUpdate skipNoChanges, s.client.task = some (.load forceUpdate skipNoChanges) → s.pending ≠ [] →
        State.outstanding ⟨s.db, s.client.load s.db forceUpdate skipNoChanges⟩ ≠ []) ∧
      ∀ i tr t, LTS.Run (lts deviceId downLimit downThreshold) Undisturbed s tr t →
        (∀ x ∈ tr, i ∈ x.1.pending ∧ i ∉ x.1.outstanding) →
        tr.countP acknowledges ≤ Window.rank s.pending i + (tr.map (added i)).sum := by
  have hw := Window.reachable hlimit hs
  refine ⟨?_, (Window.active_length_le s).trans hw.length_le, ?_, hw.subtractions_le, ?_, ?_⟩
  · exact hw.nodup.sublist (List.sublist_append_left _ _)
  · intro change hchange
    obtain ⟨changes, hsending⟩ := List.head?_eq_some_iff.mp hchange
    refine ⟨hw.lowest.subset (List.mem_append_right _ ?_), (hw.sending_cons hsending).1⟩
    rw [hsending, List.map_cons]
    exact List.mem_cons_self
  · exact fun forceUpdate skipNoChanges _ => hw.load_ne_nil hlimit hpos hthreshold forceUpdate skipNoChanges
  · exact fun i tr t hr hi => hw.acknowledgements_le hlimit hr hi

/-! ### A device that is added to an account -/

namespace Sample

instance (s : State ℕ) (a : Step ℕ) : Decidable (Undisturbed s a) :=
  match a with
  | .transaction _ => inferInstanceAs (Decidable (_ ∧ _))
  | .proceed => inferInstanceAs (Decidable (_ < _))
  | .onLogin | .onSync | .notifyChanged | .onChangedAck _ => isTrue trivial

/-- Device 3 is added after the first upload of device 1, logs in and downloads the second. -/
def login : List (Step ℕ) :=
  [.transaction (.addNewDevice 100 1 0), .transaction (.addNewDeviceToUser 2 1 0),
    .transaction (.addChange 1 [10] 0 [0] [7]), .transaction (.addNewDeviceToUser 3 1 0),
    .transaction (.addChange 1 [11] 0 [0] [8]), .onLogin, .proceed, .proceed, .proceed]

def loggedIn : State ℕ :=
  (LTS.exec next (fun s a => decide (Undisturbed s a)) ⟨.empty, connection 3 20 10⟩ login).get (by decide)

/-- Then device 1 uploads its first change for it. -/
def deviceUpload : List (Step ℕ) :=
  [.transaction (.addDeviceChange 1 3 [10] 0 [0] [7]), .notifyChanged, .proceed, .proceed]

end Sample

/-- Device 3 has the second change outstanding. -/
theorem download_window_login : Sample.loggedIn.client.activeDownloads = [2] ∧
    Sample.loggedIn.client.activeDownloads.Nodup := by
  refine ⟨by decide, ?_⟩
  have hr : (lts 3 20 10).Reachable Undisturbed Sample.loggedIn :=
    LTS.exec_reachable (fun _ _ => of_decide_eq_true) rfl (Option.some_get _).symm
  exact (download_window (by omega) (by omega) (by omega) hr).1

/-- The device upload makes an older change pending, and the second one is handed out again. -/
theorem addDeviceChange_repeats : ¬ ∀ s : State ℕ, (lts 3 20 10).Reachable LTS.free s →
    s.client.activeDownloads.Nodup := by
  intro h
  have hrun : ((LTS.exec next (fun _ _ => true) ⟨.empty, connection 3 20 10⟩
      (Sample.login ++ Sample.deviceUpload)).map (·.client.activeDownloads)) = some [2, 2] := by decide
  obtain ⟨s, hs, he⟩ := Option.map_eq_some_iff.mp hrun
  have hnodup := h s (LTS.exec_reachable (fun _ _ _ => trivial) rfl hs)
  rw [he] at hnodup
  exact absurd hnodup (by decide)

end QtDataSync.Server.Download
