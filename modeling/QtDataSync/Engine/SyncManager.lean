import QtDataSync.Engine.ExchangeEngine
import QtDataSync.Lib.Transition

/-!
# Engine.SyncManager — callbacks that wait for a state of the synchronisation

`syncmanager.cpp` and `syncmanager_p.cpp`.  Any number of managers, in any processes, share the source in the engine.  A
callback gets an id; the request with it goes to the source, at the earliest when the replica is initialised, and the
answer comes back to all managers.  Requests and answers of a manager keep their order.  A connection whose object was
deleted with `deleteLater` lives on until the event loop deletes it, so an answer can come more than once.
`QUuid::createUuid` gives every callback an id of its own.
-/

namespace QtDataSync.RunOnState

variable {Client Id : Type} [DecidableEq Client] [DecidableEq Id]

/-- The arguments of `runOnState`. -/
structure Request (Id : Type) where
  id : Id
  downloadOnly : Bool
  triggerSync : Bool
deriving DecidableEq

/-! ### The source -/

/-- The state is an answer to a request. -/
def reached (downloadOnly : Bool) : SyncState → Bool
  | .Initializing | .Downloading => false
  | .Uploading => downloadOnly
  | .Synchronized | .Error | .Disconnected => true

/-- The connection to `syncStateChanged` of a `resObj`, and whether that is to be deleted. -/
structure Watcher (Id : Type) where
  id : Id
  downloadOnly : Bool
  deleted : Bool
deriving DecidableEq

/-- The state of the engine, and the connections to it. -/
structure SyncManagerPrivate (Id : Type) where
  state : SyncState
  watchers : List (Watcher Id)

namespace SyncManagerPrivate

variable (s : SyncManagerPrivate Id)

/-- `syncStateChanged`, with what is emitted by `stateReached`. -/
def stateChanged (state : SyncState) : SyncManagerPrivate Id × List (Id × SyncState) :=
  (⟨state, s.watchers.map fun w => { w with deleted := w.deleted || reached w.downloadOnly state }⟩,
    (s.watchers.filter fun w => reached w.downloadOnly state).map fun w => (w.id, state))

/-- The engine goes through some states. -/
def changes (s : SyncManagerPrivate Id) : List SyncState → SyncManagerPrivate Id × List (Id × SyncState)
  | [] => (s, [])
  | state :: states =>
    let (t, answers) := s.stateChanged state
    let (u, more) := t.changes states
    (u, answers ++ more)

def watch (r : Request Id) : SyncManagerPrivate Id :=
  { s with watchers := s.watchers ++ [⟨r.id, r.downloadOnly, false⟩] }

/-- `synchronize` takes the engine through `states` before the new connection is made. -/
def runOnState (r : Request Id) (states : List SyncState) : SyncManagerPrivate Id × List (Id × SyncState) :=
  match s.state with
  | .Error | .Disconnected => (s, [(r.id, s.state)])
  | .Synchronized =>
    if r.triggerSync then
      let (t, answers) := s.changes states
      (t.watch r, answers)
    else (s, [(r.id, s.state)])
  | .Uploading => if r.downloadOnly then (s, [(r.id, s.state)]) else (s.watch r, [])
  | .Initializing | .Downloading => (s.watch r, [])

def deleteLater : SyncManagerPrivate Id := { s with watchers := s.watchers.filter fun w => !w.deleted }

end SyncManagerPrivate

/-! ### The managers -/

/-- A manager: the callbacks that were not called, and the requests that wait for the replica. -/
structure SyncManager (Id : Type) where
  initialized : Bool
  syncActions : List Id
  initActions : List (Request Id)

/-- The source, and the managers with the requests and the answers on their way. -/
structure Network (Client Id : Type) where
  source : SyncManagerPrivate Id
  managers : Client → SyncManager Id
  requests : Client → List (Request Id)
  answers : Client → List (Id × SyncState)

inductive Event (Client Id : Type) where
  | runImp (client : Client) (r : Request Id)
  | onInit (client : Client) (order : List (Request Id))
  | runOnState (client : Client) (states : List SyncState)
  | stateChanged (state : SyncState)
  | deleteLater
  | onStateReached (client : Client)

namespace Network

variable (s : Network Client Id)

/-- The source after something, whose answers go to all managers. -/
def emit (x : SyncManagerPrivate Id × List (Id × SyncState)) : Network Client Id :=
  { s with source := x.1, answers := fun c => s.answers c ++ x.2 }

def setManager (client : Client) (m : SyncManager Id) : Network Client Id :=
  { s with managers := Function.update s.managers client m }

def setRequests (client : Client) (requests : List (Request Id)) : Network Client Id :=
  { s with requests := Function.update s.requests client requests }

def runImp (client : Client) (r : Request Id) : Network Client Id :=
  let m := s.managers client
  if m.initialized then
    (s.setManager client { m with syncActions := m.syncActions ++ [r.id] }).setRequests client
      (s.requests client ++ [r])
  else s.setManager client { m with syncActions := m.syncActions ++ [r.id], initActions := m.initActions ++ [r] }

/-- The requests that have waited are sent, in the order of the hash. -/
def onInit (client : Client) (order : List (Request Id)) : Network Client Id :=
  (s.setManager client { s.managers client with initialized := true, initActions := [] }).setRequests client
    (s.requests client ++ order)

/-- The callback of an answer, if there still is one, is taken out and called. -/
def onStateReached (client : Client) (id : Id) (rest : List (Id × SyncState)) : Network Client Id :=
  { s.setManager client { s.managers client with
      syncActions := (s.managers client).syncActions.filter fun other => other ≠ id } with
    answers := Function.update s.answers client rest }

def step : Event Client Id → Option (Network Client Id)
  | .runImp client r => some (s.runImp client r)
  | .onInit client order => if order.isPerm (s.managers client).initActions then some (s.onInit client order) else none
  | .runOnState client states =>
    match s.requests client with
    | [] => none
    | r :: rest => some ((s.setRequests client rest).emit (s.source.runOnState r states))
  | .stateChanged state => some (s.emit (s.source.stateChanged state))
  | .deleteLater => some { s with source := s.source.deleteLater }
  | .onStateReached client =>
    match s.answers client with
    | [] => none
    | (id, _) :: rest => some (s.onStateReached client id rest)

/-- No manager has a callback. -/
def Init (s : Network Client Id) : Prop :=
  s.source.watchers = [] ∧ (∀ c, s.managers c = ⟨false, [], []⟩) ∧ (∀ c, s.requests c = []) ∧ ∀ c, s.answers c = []

def lts : LTS (Network Client Id) (Event Client Id) := LTS.ofStep Init step

end Network

/-! ### What has happened -/

/-- A history of the network. -/
abbrev History (Client Id : Type) : Type := List (Network Client Id × Event Client Id × Network Client Id)

/-- The request that is made in a step. -/
def requested (x : Network Client Id × Event Client Id × Network Client Id) : Option (Client × Request Id) :=
  match x.2.1 with
  | .runImp client r => some (client, r)
  | _ => none

/-- The callback that is called in a step. -/
def called (x : Network Client Id × Event Client Id × Network Client Id) : Option (Client × Id × SyncState) :=
  match x.2.1 with
  | .onStateReached client =>
    match x.1.answers client with
    | [] => none
    | (id, state) :: _ => if id ∈ (x.1.managers client).syncActions then some (client, id, state) else none
  | _ => none

/-- The calls of a callback. -/
def calls (id : Id) (tr : History Client Id) : List (Client × SyncState) :=
  tr.filterMap fun x => (called x).bind fun y => if y.2.1 = id then some (y.1, y.2.2) else none

/-- The states that the engine goes through in a step. -/
def passed (x : Network Client Id × Event Client Id × Network Client Id) : List SyncState :=
  match x.2.1 with
  | .stateChanged state => [state]
  | .runOnState client states =>
    match x.1.requests client with
    | [] => []
    | r :: _ => if x.1.source.state = .Synchronized ∧ r.triggerSync = true then states else []
  | _ => []

/-- The request that the source handles in a step. -/
def handled (x : Network Client Id × Event Client Id × Network Client Id) : Option (Request Id) :=
  match x.2.1 with
  | .runOnState client _ => (x.1.requests client).head?
  | _ => none

/-- The request is answered at once. -/
def atOnce (r : Request Id) (state : SyncState) : Bool :=
  reached r.downloadOnly state && !(state = .Synchronized && r.triggerSync)

/-- The states that count for a request, since it was handled: the one at that moment, unless it is to be synchronised
again, and all later ones. -/
def seen (id : Id) (tr : History Client Id) : Option (List SyncState) :=
  tr.foldl (fun states x => match states with
    | some states => some (states ++ passed x)
    | none => (handled x).bind fun r => if r.id = id then
        some (if atOnce r x.1.source.state then [x.1.source.state] else []) else none) none

/-! ### What there is of one id -/

section Own

variable (id : Id)

/-- The requests with the id that the source has not handled. -/
def mine (s : Network Client Id) (c : Client) : List (Request Id) :=
  ((s.managers c).initActions ++ s.requests c).filter fun r => r.id = id

def watchersOf (s : SyncManagerPrivate Id) : List (Watcher Id) := s.watchers.filter fun w => w.id = id

def answersOf (answers : List (Id × SyncState)) : List (Id × SyncState) := answers.filter fun x => x.1 = id

variable {id} {s t : SyncManagerPrivate Id} {state : SyncState} {states : List SyncState}

omit [DecidableEq Client]

omit [DecidableEq Id] in
theorem changes_cons (s : SyncManagerPrivate Id) (state : SyncState) (states : List SyncState) :
    s.changes (state :: states) = (((s.stateChanged state).1.changes states).1,
      (s.stateChanged state).2 ++ ((s.stateChanged state).1.changes states).2) := rfl

omit [DecidableEq Id] in
theorem changes_singleton (s : SyncManagerPrivate Id) (state : SyncState) :
    s.changes [state] = s.stateChanged state := by
  rw [changes_cons]
  exact Prod.ext rfl (List.append_nil _)

theorem watchersOf_stateChanged (id : Id) (s : SyncManagerPrivate Id) (state : SyncState) :
    watchersOf id (s.stateChanged state).1 =
      (watchersOf id s).map fun w => { w with deleted := w.deleted || reached w.downloadOnly state } := by
  unfold watchersOf SyncManagerPrivate.stateChanged
  rw [List.filter_map]
  rfl

theorem answersOf_stateChanged (id : Id) (s : SyncManagerPrivate Id) (state : SyncState) :
    answersOf id (s.stateChanged state).2 =
      ((watchersOf id s).filter fun w => reached w.downloadOnly state).map fun w => (w.id, state) := by
  unfold answersOf watchersOf SyncManagerPrivate.stateChanged
  rw [List.filter_map, List.filter_filter, List.filter_filter]
  exact congrArg _ (List.filter_congr fun w _ => Bool.and_comm _ _)

/-- Nobody waits for the id. -/
theorem changes_of_nil (states : List SyncState) (h : watchersOf id s = []) :
    watchersOf id (s.changes states).1 = [] ∧ answersOf id (s.changes states).2 = [] := by
  induction states generalizing s with
  | nil => exact ⟨h, rfl⟩
  | cons state states ih =>
    have hnext : watchersOf id (s.stateChanged state).1 = [] := by
      rw [watchersOf_stateChanged, h]
      rfl
    have hanswers : answersOf id (s.stateChanged state).2 = [] := by
      rw [answersOf_stateChanged, h]
      rfl
    obtain ⟨hw, ha⟩ := ih hnext
    rw [changes_cons]
    refine ⟨hw, ?_⟩
    unfold answersOf at ha hanswers ⊢
    rw [List.filter_append, hanswers, ha]
    rfl

/-- One connection waits for the id: the first state that is an answer is the first that is sent. -/
theorem changes_of_watcher (states : List SyncState) {downloadOnly : Bool}
    (h : watchersOf id s = [⟨id, downloadOnly, false⟩]) :
    (states.find? (reached downloadOnly) = none ∧ watchersOf id (s.changes states).1 = [⟨id, downloadOnly, false⟩] ∧
      answersOf id (s.changes states).2 = []) ∨
    ∃ state more, states.find? (reached downloadOnly) = some state ∧
      answersOf id (s.changes states).2 = (id, state) :: more := by
  induction states generalizing s with
  | nil => exact Or.inl ⟨rfl, h, rfl⟩
  | cons state states ih =>
    have hw := watchersOf_stateChanged id s state
    have ha := answersOf_stateChanged id s state
    rw [h] at hw ha
    have happend : answersOf id (s.changes (state :: states)).2 =
        answersOf id (s.stateChanged state).2 ++ answersOf id ((s.stateChanged state).1.changes states).2 := by
      rw [changes_cons]
      exact List.filter_append ..
    rcases hreached : reached downloadOnly state with - | -
    · have hnext : watchersOf id (s.stateChanged state).1 = [⟨id, downloadOnly, false⟩] := by
        rw [hw]
        simp [hreached]
      have hnone : answersOf id (s.stateChanged state).2 = [] := by
        rw [ha]
        simp [hreached]
      rw [happend, hnone, List.nil_append, List.find?_cons_of_neg (by simp [hreached])]
      exact ih hnext
    · refine Or.inr ⟨state, answersOf id ((s.stateChanged state).1.changes states).2, ?_, ?_⟩
      · exact List.find?_cons_of_pos hreached
      · rw [happend, ha]
        simp [hreached]

omit [DecidableEq Id] in
/-- **What the source does with a request.** -/
theorem runOnState_eq (s : SyncManagerPrivate Id) (r : Request Id) (states : List SyncState) :
    s.runOnState r states = if atOnce r s.state then (s, [(r.id, s.state)]) else
      ((s.changes (if s.state = .Synchronized ∧ r.triggerSync = true then states else [])).1.watch r,
        (s.changes (if s.state = .Synchronized ∧ r.triggerSync = true then states else [])).2) := by
  unfold SyncManagerPrivate.runOnState atOnce
  rcases s.state with - | - | - | - | - | -
  · rfl
  · rfl
  · rcases r.downloadOnly with - | -
    · rfl
    · rfl
  · rcases r.triggerSync with - | -
    · rfl
    · rfl
  · rfl
  · rfl

end Own

section Steps

variable {id : Id} {s s' : Network Client Id} {a : Event Client Id} {tr : History Client Id} {c : Client}
  {r : Request Id}

/-- A step that neither makes, handles nor answers the request with the id: the engine goes through some states. -/
structure Background (id : Id) (s s' : Network Client Id) (states : List SyncState) : Prop where
  mine : ∀ c, (mine id s' c).Perm (mine id s c)
  syncActions : ∀ c, id ∈ (s'.managers c).syncActions ↔ id ∈ (s.managers c).syncActions
  source : ∃ more, (∀ c, answersOf id (s'.answers c) = answersOf id (s.answers c) ++ more) ∧
    (watchersOf id s.source = [] → watchersOf id s'.source = [] ∧ more = []) ∧
    ∀ downloadOnly, watchersOf id s.source = [⟨id, downloadOnly, false⟩] →
      (states.find? (reached downloadOnly) = none ∧ watchersOf id s'.source = [⟨id, downloadOnly, false⟩] ∧ more = []) ∨
        ∃ state rest, states.find? (reached downloadOnly) = some state ∧ more = (id, state) :: rest

omit [DecidableEq Client] in
/-- The managers change, and the source does not. -/
theorem Background.of_managers (hmine : ∀ c, (RunOnState.mine id s' c).Perm (RunOnState.mine id s c))
    (hopen : ∀ c, id ∈ (s'.managers c).syncActions ↔ id ∈ (s.managers c).syncActions)
    (hanswers : ∀ c, answersOf id (s'.answers c) = answersOf id (s.answers c)) (hsource : s'.source = s.source) :
    Background id s s' [] where
  mine := hmine
  syncActions := hopen
  source := by
    refine ⟨[], fun c => ?_, fun h => ?_, fun downloadOnly h => ?_⟩
    · rw [hanswers, List.append_nil]
    · rw [hsource]
      exact ⟨h, rfl⟩
    · rw [hsource]
      exact Or.inl ⟨rfl, h, rfl⟩

/-- A request with another id. -/
theorem background_runImp (hne : r.id ≠ id) : Background id s (s.runImp c r) [] := by
  have hne' : id ≠ r.id := hne.symm
  rcases hinit : (s.managers c).initialized with - | -
  · simp only [Network.runImp, hinit, Bool.false_eq_true, if_false]
    refine .of_managers (fun c' => ?_) (fun c' => ?_) (fun c' => rfl) rfl
    · rcases eq_or_ne c' c with rfl | hc
      · simp [mine, Network.setManager, hne]
      · simp [mine, Network.setManager, hc]
    · rcases eq_or_ne c' c with rfl | hc
      · simp [Network.setManager, hne']
      · simp [Network.setManager, hc]
  · simp only [Network.runImp, hinit, if_true]
    refine .of_managers (fun c' => ?_) (fun c' => ?_) (fun c' => rfl) rfl
    · rcases eq_or_ne c' c with rfl | hc
      · simp [mine, Network.setManager, Network.setRequests, hne]
      · simp [mine, Network.setManager, Network.setRequests, hc]
    · rcases eq_or_ne c' c with rfl | hc
      · simp [Network.setManager, Network.setRequests, hne']
      · simp [Network.setManager, Network.setRequests, hc]

theorem background_onInit {order : List (Request Id)} (h : order.Perm (s.managers c).initActions) :
    Background id s (s.onInit c order) [] := by
  refine .of_managers (fun c' => ?_) (fun c' => ?_) (fun c' => rfl) rfl
  · rcases eq_or_ne c' c with rfl | hc
    · have hperm : (s.requests c' ++ order).Perm ((s.managers c').initActions ++ s.requests c') :=
        List.perm_append_comm.trans (h.append_right _)
      have hmine : mine id (s.onInit c' order) c' = (s.requests c' ++ order).filter fun r => r.id = id := by
        simp [mine, Network.onInit, Network.setManager, Network.setRequests]
      rw [hmine]
      exact hperm.filter _
    · simp [mine, Network.onInit, Network.setManager, Network.setRequests, hc]
  · rcases eq_or_ne c' c with rfl | hc
    · simp [Network.onInit, Network.setManager, Network.setRequests]
    · simp [Network.onInit, Network.setManager, Network.setRequests, hc]

omit [DecidableEq Client] in
/-- The source goes through some states, and then perhaps makes a connection for another id. -/
theorem background_changes {x : SyncManagerPrivate Id} {states : List SyncState}
    (hwatchers : watchersOf id x = watchersOf id (s.source.changes states).1)
    (hmine : ∀ c, mine id s' c = mine id s c) (hmanagers : s'.managers = s.managers) (hsource : s'.source = x)
    (hanswers : ∀ c, s'.answers c = s.answers c ++ (s.source.changes states).2) : Background id s s' states where
  mine c := hmine c ▸ List.Perm.refl _
  syncActions c := by rw [hmanagers]
  source := by
    rw [hsource, hwatchers]
    refine ⟨answersOf id (s.source.changes states).2, fun c => ?_, fun h => changes_of_nil states h,
      fun downloadOnly h => ?_⟩
    · rw [hanswers]
      exact List.filter_append ..
    · rcases changes_of_watcher states h with ⟨hnone, hw, ha⟩ | ⟨state, more, hsome, ha⟩
      · exact Or.inl ⟨hnone, hw, ha⟩
      · exact Or.inr ⟨state, more, hsome, ha⟩

omit [DecidableEq Client] in
theorem background_deleteLater : Background id s { s with source := s.source.deleteLater } [] where
  mine c := List.Perm.refl _
  syncActions c := Iff.rfl
  source := by
    have hfilter : watchersOf id s.source.deleteLater = (watchersOf id s.source).filter fun w => !w.deleted := by
      unfold watchersOf SyncManagerPrivate.deleteLater
      rw [List.filter_filter, List.filter_filter]
      exact List.filter_congr fun w _ => Bool.and_comm _ _
    refine ⟨[], fun c => (List.append_nil _).symm, fun h => ?_, fun downloadOnly h => Or.inl ⟨rfl, ?_, rfl⟩⟩
    · refine ⟨?_, rfl⟩
      show watchersOf id s.source.deleteLater = []
      rw [hfilter, h]
      rfl
    · show watchersOf id s.source.deleteLater = _
      rw [hfilter, h]
      rfl

/-- An answer with another id. -/
theorem background_onStateReached {other : Id} {state : SyncState} {rest : List (Id × SyncState)}
    (hanswers : s.answers c = (other, state) :: rest) (hne : other ≠ id) :
    Background id s (s.onStateReached c other rest) [] := by
  refine .of_managers (fun c' => ?_) (fun c' => ?_) (fun c' => ?_) rfl
  · rcases eq_or_ne c' c with rfl | hc
    · simp [mine, Network.onStateReached, Network.setManager]
    · simp [mine, Network.onStateReached, Network.setManager, hc]
  · rcases eq_or_ne c' c with rfl | hc
    · simp [Network.onStateReached, Network.setManager, hne.symm]
    · simp [Network.onStateReached, Network.setManager, hc]
  · rcases eq_or_ne c' c with rfl | hc
    · simp [answersOf, Network.onStateReached, hanswers, hne]
    · simp [answersOf, Network.onStateReached, hc]

/-- The request of another id is handled. -/
theorem background_runOnState {rest : List (Request Id)} (hrequests : s.requests c = r :: rest) (hne : r.id ≠ id)
    (states : List SyncState) :
    Background id s ((s.setRequests c rest).emit (s.source.runOnState r states))
      (passed (s, .runOnState c states, (s.setRequests c rest).emit (s.source.runOnState r states))) := by
  have hmine : ∀ x c', mine id ((s.setRequests c rest).emit x) c' = mine id s c' := by
    intro x c'
    rcases eq_or_ne c' c with rfl | hc
    · simp [mine, Network.emit, Network.setRequests, hrequests, hne]
    · simp [mine, Network.emit, Network.setRequests, hc]
  have hpassed : passed (s, .runOnState c states, (s.setRequests c rest).emit (s.source.runOnState r states)) =
      if s.source.state = .Synchronized ∧ r.triggerSync = true then states else [] := by
    simp only [passed, hrequests]
  rw [hpassed, runOnState_eq]
  rcases honce : atOnce r s.source.state with - | -
  · rw [if_neg Bool.false_ne_true]
    refine background_changes ?_ (fun c' => hmine _ c') rfl rfl (fun c' => rfl)
    simp [watchersOf, Network.emit, SyncManagerPrivate.watch, hne]
  · have hstay : ¬ (s.source.state = .Synchronized ∧ r.triggerSync = true) := by
      rintro ⟨hstate, htrigger⟩
      simp [atOnce, hstate, htrigger] at honce
    rw [if_pos rfl, if_neg hstay]
    refine .of_managers (fun c' => (hmine _ c').symm ▸ List.Perm.refl _) (fun c' => Iff.rfl) (fun c' => ?_) rfl
    simp [answersOf, Network.emit, Network.setRequests, hne]

/-- **The steps as one request sees them.** -/
theorem step_cases (id : Id) (hst : s.step a = some s') (hnew : ∀ c r, a = .runImp c r → r.id ≠ id) :
    (Background id s s' (passed (s, a, s')) ∧ (∀ r, handled (s, a, s') = some r → r.id ≠ id) ∧
      ∀ y, called (s, a, s') = some y → y.2.1 ≠ id) ∨
    (∃ c r rest states, a = .runOnState c states ∧ s.requests c = r :: rest ∧ r.id = id ∧
      s' = (s.setRequests c rest).emit (s.source.runOnState r states)) ∨
    ∃ c state rest, a = .onStateReached c ∧ s.answers c = (id, state) :: rest ∧ s' = s.onStateReached c id rest := by
  have hnone : ∀ {β : Type} {x : β} {P : Prop}, (none : Option β) = some x → P := fun h => by cases h
  cases a with
  | runImp c r =>
    obtain rfl := Option.some.inj hst
    exact Or.inl ⟨background_runImp (hnew c r rfl), fun _ => hnone, fun _ => hnone⟩
  | onInit c order =>
    obtain ⟨hperm, hst⟩ := Option.ite_none_right_eq_some.mp hst
    obtain rfl := Option.some.inj hst
    exact Or.inl ⟨background_onInit (List.isPerm_iff.mp hperm), fun _ => hnone, fun _ => hnone⟩
  | runOnState c states =>
    rcases hrequests : s.requests c with - | ⟨r, rest⟩
    · simp only [Network.step, hrequests] at hst
      cases hst
    simp only [Network.step, hrequests] at hst
    obtain rfl := Option.some.inj hst
    by_cases hid : r.id = id
    · exact Or.inr (Or.inl ⟨c, r, rest, states, rfl, hrequests, hid, rfl⟩)
    · refine Or.inl ⟨background_runOnState hrequests hid states, fun q hq => ?_, fun _ => hnone⟩
      simp only [handled, hrequests, List.head?_cons] at hq
      exact Option.some.inj hq ▸ hid
  | stateChanged state =>
    obtain rfl := Option.some.inj hst
    refine Or.inl ⟨?_, fun _ => hnone, fun _ => hnone⟩
    rw [← changes_singleton]
    exact background_changes rfl (fun c' => rfl) rfl rfl (fun c' => rfl)
  | deleteLater =>
    obtain rfl := Option.some.inj hst
    exact Or.inl ⟨background_deleteLater, fun _ => hnone, fun _ => hnone⟩
  | onStateReached c =>
    rcases hanswers : s.answers c with - | ⟨⟨other, state⟩, rest⟩
    · simp only [Network.step, hanswers] at hst
      cases hst
    simp only [Network.step, hanswers] at hst
    obtain rfl := Option.some.inj hst
    by_cases hid : other = id
    · obtain rfl := hid
      exact Or.inr (Or.inr ⟨c, state, rest, rfl, hanswers, rfl⟩)
    · refine Or.inl ⟨background_onStateReached hanswers hid, fun _ => hnone, fun y hy => ?_⟩
      simp only [called, hanswers, Option.ite_none_right_eq_some, Option.some.injEq] at hy
      rw [← hy.2]
      exact hid

end Steps

/-! ### One request -/

section Request

variable {s s' : Network Client Id} {a : Event Client Id} {tr : History Client Id} {c : Client} {r : Request Id}
  {x : Network Client Id × Event Client Id × Network Client Id}

omit [DecidableEq Client] in
theorem seen_snoc (id : Id) : seen id (tr ++ [x]) = match seen id tr with
    | some states => some (states ++ passed x)
    | none => (handled x).bind fun r => if r.id = id then
        some (if atOnce r x.1.source.state then [x.1.source.state] else []) else none := by
  rw [seen, List.foldl_append]
  rfl

omit [DecidableEq Client] in
theorem calls_snoc (id : Id) : calls id (tr ++ [x]) =
    calls id tr ++ ((called x).bind fun y => if y.2.1 = id then some (y.1, y.2.2) else none).toList := by
  rw [calls, List.filterMap_append, List.filterMap_cons, List.filterMap_nil]
  rcases (called x).bind fun y => if y.2.1 = id then some (y.1, y.2.2) else none with - | y
  · rfl
  · rfl

omit [DecidableEq Client] in
theorem calls_snoc_of_ne (tr : History Client Id) (id : Id) (h : ∀ y, called x = some y → y.2.1 ≠ id) :
    calls id (tr ++ [x]) = calls id tr := by
  rw [calls_snoc]
  rcases hy : called x with - | y
  · exact List.append_nil _
  · rw [Option.bind_some, if_neg (h y hy)]
    exact List.append_nil _

omit [DecidableEq Client] in
theorem seen_snoc_of_ne (id : Id) (h : ∀ q, handled x = some q → q.id ≠ id) (hnone : seen id tr = none) :
    seen id (tr ++ [x]) = none := by
  rw [seen_snoc, hnone]
  rcases hq : handled x with - | q
  · rfl
  · exact if_neg (h q hq)

/-- A request that was made and not handled, that waits for a state, that is answered, or whose callback was called. -/
inductive Phase (tr : History Client Id) (s : Network Client Id) (c : Client) (r : Request Id) : Prop
  | pending (hopen : r.id ∈ (s.managers c).syncActions) (hmine : mine r.id s c = [r])
      (hothers : ∀ c', c' ≠ c → mine r.id s c' = []) (hwatchers : watchersOf r.id s.source = [])
      (hanswers : ∀ c', answersOf r.id (s.answers c') = []) (hseen : seen r.id tr = none) (hcalls : calls r.id tr = [])
  | watching (states : List SyncState) (hopen : r.id ∈ (s.managers c).syncActions) (hmine : ∀ c', mine r.id s c' = [])
      (hwatchers : watchersOf r.id s.source = [⟨r.id, r.downloadOnly, false⟩])
      (hanswers : ∀ c', answersOf r.id (s.answers c') = []) (hseen : seen r.id tr = some states)
      (hfind : states.find? (reached r.downloadOnly) = none) (hcalls : calls r.id tr = [])
  | answered (states : List SyncState) (state : SyncState) (more : List (Id × SyncState))
      (hopen : r.id ∈ (s.managers c).syncActions) (hmine : ∀ c', mine r.id s c' = [])
      (hanswers : answersOf r.id (s.answers c) = (r.id, state) :: more) (hseen : seen r.id tr = some states)
      (hfind : states.find? (reached r.downloadOnly) = some state) (hcalls : calls r.id tr = [])
  | done (states : List SyncState) (state : SyncState) (hclosed : r.id ∉ (s.managers c).syncActions)
      (hmine : ∀ c', mine r.id s c' = []) (hseen : seen r.id tr = some states)
      (hfind : states.find? (reached r.downloadOnly) = some state) (hcalls : calls r.id tr = [(c, state)])

omit [DecidableEq Client] in
/-- A step in the background: what waits may be answered. -/
theorem Phase.background (h : Phase tr s c r) (hb : Background r.id s s' (passed x))
    (hhandled : ∀ q, handled x = some q → q.id ≠ r.id) (hcalled : ∀ y, called x = some y → y.2.1 ≠ r.id) :
    Phase (tr ++ [x]) s' c r := by
  have hcalls := calls_snoc_of_ne tr r.id hcalled
  have hmine : ∀ c', mine r.id s c' = [] → mine r.id s' c' = [] := by
    intro c' hnil
    have hperm := hb.mine c'
    rw [hnil] at hperm
    exact hperm.eq_nil
  obtain ⟨more, hanswers, hnil, hwatching⟩ := hb.source
  have hseen : ∀ states, seen r.id tr = some states → seen r.id (tr ++ [x]) = some (states ++ passed x) := by
    intro states hsome
    rw [seen_snoc, hsome]
  cases h with
  | pending hopen hm hothers hwatchers hans hs hc =>
    obtain ⟨hw, rfl⟩ := hnil hwatchers
    refine .pending ((hb.syncActions c).mpr hopen) ?_ (fun c' hne => hmine c' (hothers c' hne)) hw (fun c' => ?_) ?_
      (hcalls.trans hc)
    · have hperm := hb.mine c
      rw [hm] at hperm
      exact List.perm_singleton.mp hperm
    · rw [hanswers, hans, List.append_nil]
    · exact seen_snoc_of_ne r.id hhandled hs
  | watching states hopen hm hwatchers hans hs hfind hc =>
    rcases hwatching _ hwatchers with ⟨hnone, hw, rfl⟩ | ⟨state, rest, hsome, rfl⟩
    · refine .watching (states ++ passed x) ((hb.syncActions c).mpr hopen) (fun c' => hmine c' (hm c')) hw
        (fun c' => ?_) (hseen states hs) ?_ (hcalls.trans hc)
      · rw [hanswers, hans, List.append_nil]
      · rw [List.find?_append, hfind, hnone]
        rfl
    · refine .answered (states ++ passed x) state rest ((hb.syncActions c).mpr hopen) (fun c' => hmine c' (hm c')) ?_
        (hseen states hs) ?_ (hcalls.trans hc)
      · rw [hanswers, hans, List.nil_append]
      · rw [List.find?_append, hfind, hsome]
        rfl
  | answered states state rest hopen hm hans hs hfind hc =>
    refine .answered (states ++ passed x) state (rest ++ more) ((hb.syncActions c).mpr hopen)
      (fun c' => hmine c' (hm c')) ?_ (hseen states hs) ?_ (hcalls.trans hc)
    · rw [hanswers, hans]
      rfl
    · rw [List.find?_append, hfind]
      rfl
  | done states state hclosed hm hs hfind hc =>
    refine .done (states ++ passed x) state (fun h => hclosed ((hb.syncActions c).mp h)) (fun c' => hmine c' (hm c'))
      (hseen states hs) ?_ (hcalls.trans hc)
    rw [List.find?_append, hfind]
    rfl

/-- The request is handled. -/
theorem Phase.runOnState (h : Phase tr s c r) {client : Client} {q : Request Id} {rest : List (Request Id)}
    {states : List SyncState} (hrequests : s.requests client = q :: rest) (hid : q.id = r.id)
    (hs' : s' = (s.setRequests client rest).emit (s.source.runOnState q states)) :
    Phase (tr ++ [(s, .runOnState client states, s')]) s' c r := by
  have hmem : q ∈ mine r.id s client := by
    simp [mine, hrequests, hid]
  have hunhandled : ∀ {P : Prop}, (∀ c', mine r.id s c' = []) → P := by
    intro P hm
    rw [hm client] at hmem
    cases hmem
  cases h with
  | pending hopen hm hothers hwatchers hans hs hc =>
    obtain rfl : client = c := by
      by_contra hne
      rw [hothers client hne] at hmem
      cases hmem
    obtain rfl : q = r := by
      rw [hm] at hmem
      exact List.mem_singleton.mp hmem
    -- the request is gone
    have hgone : ∀ y c', mine q.id ((s.setRequests client rest).emit y) c' = [] := by
      intro y c'
      rcases eq_or_ne c' client with rfl | hne
      · have hsplit : mine q.id s c' = ((s.managers c').initActions.filter fun r => r.id = q.id) ++
            q :: rest.filter fun r => r.id = q.id := by
          simp [mine, hrequests]
        have hlength := congrArg List.length (hsplit.symm.trans hm)
        rw [List.length_append, List.length_cons, List.length_singleton] at hlength
        have hmine : mine q.id ((s.setRequests c' rest).emit y) c' =
            ((s.managers c').initActions.filter fun r => r.id = q.id) ++ rest.filter fun r => r.id = q.id := by
          simp [mine, Network.emit, Network.setRequests]
        rw [hmine, List.append_eq_nil_iff, ← List.length_eq_zero_iff, ← List.length_eq_zero_iff]
        omega
      · have hsame : mine q.id ((s.setRequests client rest).emit y) c' = mine q.id s c' := by
          simp [mine, Network.emit, Network.setRequests, hne]
        rw [hsame, hothers c' hne]
    have hseen : seen q.id (tr ++ [(s, .runOnState client states, s')]) =
        some (if atOnce q s.source.state then [s.source.state] else []) := by
      rw [seen_snoc, hs]
      simp [handled, hrequests]
    have hcalls : calls q.id (tr ++ [(s, .runOnState client states, s')]) = [] := by
      rw [calls_snoc_of_ne tr q.id (fun y hy => by cases hy), hc]
    rw [runOnState_eq] at hs'
    rcases honce : atOnce q s.source.state with - | -
    · rw [honce, if_neg Bool.false_ne_true] at hs' hseen
      obtain ⟨hw, ha⟩ := changes_of_nil
        (if s.source.state = .Synchronized ∧ q.triggerSync = true then states else []) hwatchers
      rw [hs'] at hseen hcalls ⊢
      refine .watching [] hopen (hgone _) ?_ (fun c' => ?_) hseen rfl hcalls
      · show watchersOf q.id ((s.source.changes _).1.watch q) = _
        unfold watchersOf at hw ⊢
        simp [SyncManagerPrivate.watch, hw]
      · show answersOf q.id (s.answers c' ++ (s.source.changes _).2) = []
        have hans' := hans c'
        unfold answersOf at ha hans' ⊢
        rw [List.filter_append, hans', ha]
        rfl
    · rw [honce, if_pos rfl] at hs' hseen
      have hreached : reached q.downloadOnly s.source.state = true := (Bool.and_eq_true_iff.mp honce).1
      rw [hs'] at hseen hcalls ⊢
      refine .answered _ s.source.state [] hopen (hgone _) ?_ hseen (List.find?_cons_of_pos hreached) hcalls
      show answersOf q.id (s.answers client ++ [(q.id, s.source.state)]) = _
      have hans' := hans client
      unfold answersOf at hans' ⊢
      rw [List.filter_append, hans']
      simp
  | watching _ _ hm => exact hunhandled hm
  | answered _ _ _ _ hm => exact hunhandled hm
  | done _ _ _ hm => exact hunhandled hm

/-- The callback is gone. -/
theorem open_onStateReached {id : Id} {client c' : Client} {rest : List (Id × SyncState)} :
    id ∈ ((s.onStateReached client id rest).managers c').syncActions ↔
      c' ≠ client ∧ id ∈ (s.managers c').syncActions := by
  rcases eq_or_ne c' client with rfl | hne
  · simp [Network.onStateReached, Network.setManager]
  · simp [Network.onStateReached, Network.setManager, hne]

/-- The request is answered. -/
theorem Phase.onStateReached (h : Phase tr s c r) (hforeign : ∀ c', c' ≠ c → r.id ∉ (s.managers c').syncActions)
    {client : Client} {state : SyncState} {rest : List (Id × SyncState)}
    (hanswers : s.answers client = (r.id, state) :: rest) :
    Phase (tr ++ [(s, .onStateReached client, s.onStateReached client r.id rest)])
      (s.onStateReached client r.id rest) c r := by
  have hunanswered : ∀ {P : Prop}, (∀ c', answersOf r.id (s.answers c') = []) → P := by
    intro P hans
    have hnil := hans client
    rw [hanswers] at hnil
    simp [answersOf] at hnil
  have hmine : ∀ c', mine r.id s c' = [] → mine r.id (s.onStateReached client r.id rest) c' = [] := by
    intro c' hnil
    rcases eq_or_ne c' client with rfl | hne
    · rw [← hnil]
      simp [mine, Network.onStateReached, Network.setManager]
    · rw [← hnil]
      simp [mine, Network.onStateReached, Network.setManager, hne]
  have hans : ∀ c', c' ≠ client → answersOf r.id ((s.onStateReached client r.id rest).answers c') =
      answersOf r.id (s.answers c') := by
    intro c' hne
    simp [Network.onStateReached, hne]
  have hseen : ∀ states, seen r.id tr = some states →
      seen r.id (tr ++ [(s, .onStateReached client, s.onStateReached client r.id rest)]) = some states := by
    intro states hsome
    rw [seen_snoc, hsome]
    exact congrArg some (List.append_nil states)
  -- nothing is called where the callback is not
  have hquiet : r.id ∉ (s.managers client).syncActions →
      calls r.id (tr ++ [(s, .onStateReached client, s.onStateReached client r.id rest)]) = calls r.id tr := by
    intro hclosed
    refine calls_snoc_of_ne tr r.id fun y hy => ?_
    simp only [called, hanswers, if_neg hclosed] at hy
    cases hy
  cases h with
  | pending _ _ _ _ hnil => exact hunanswered hnil
  | watching _ _ _ _ hnil => exact hunanswered hnil
  | answered states first more hopened hm hfirst hs hfind hc =>
    rcases eq_or_ne client c with rfl | hne
    · obtain rfl : state = first := by
        rw [hanswers] at hfirst
        simp [answersOf] at hfirst
        exact hfirst.1
      refine .done states state (fun h => (open_onStateReached.mp h).1 rfl) (fun c' => hmine c' (hm c'))
        (hseen states hs) hfind ?_
      rw [calls_snoc, hc]
      simp [called, hanswers, hopened]
    · refine .answered states first more (open_onStateReached.mpr ⟨hne.symm, hopened⟩) (fun c' => hmine c' (hm c'))
        ((hans c hne.symm).trans hfirst) (hseen states hs) hfind ?_
      rw [hquiet (hforeign client hne), hc]
  | done states first hclosed hm hs hfind hc =>
    refine .done states first (fun h => hclosed (open_onStateReached.mp h).2) (fun c' => hmine c' (hm c'))
      (hseen states hs) hfind ?_
    rcases eq_or_ne client c with rfl | hne
    · rw [hquiet hclosed, hc]
    · rw [hquiet (hforeign client hne), hc]

/-- A step that does not make the request. -/
theorem Phase.step (h : Phase tr s c r) (hforeign : ∀ c', c' ≠ c → r.id ∉ (s.managers c').syncActions)
    (hst : s.step a = some s') (hnew : ∀ client q, a = .runImp client q → q.id ≠ r.id) :
    Phase (tr ++ [(s, a, s')]) s' c r ∧ ∀ c', c' ≠ c → r.id ∉ (s'.managers c').syncActions := by
  rcases step_cases r.id hst hnew with ⟨hb, hhandled, hcalled⟩ | ⟨client, q, rest, states, rfl, hrequests, hid, rfl⟩ |
    ⟨client, state, rest, rfl, hanswers, rfl⟩
  · exact ⟨h.background hb hhandled hcalled, fun c' hne hmem => hforeign c' hne ((hb.syncActions c').mp hmem)⟩
  · exact ⟨h.runOnState hrequests hid rfl, hforeign⟩
  · exact ⟨h.onStateReached hforeign hanswers, fun c' hne hmem => hforeign c' hne (open_onStateReached.mp hmem).2⟩

/-- Nothing has an id that no request has. -/
structure Absent (id : Id) (tr : History Client Id) (s : Network Client Id) : Prop where
  closed : ∀ c, id ∉ (s.managers c).syncActions
  unasked : ∀ c, mine id s c = []
  unwatched : watchersOf id s.source = []
  unanswered : ∀ c, answersOf id (s.answers c) = []
  unseen : seen id tr = none
  uncalled : calls id tr = []

theorem Absent.step {id : Id} (h : Absent id tr s) (hst : s.step a = some s')
    (hnew : ∀ client q, a = .runImp client q → q.id ≠ id) : Absent id (tr ++ [(s, a, s')]) s' := by
  rcases step_cases id hst hnew with ⟨hb, hhandled, hcalled⟩ | ⟨client, q, rest, states, rfl, hrequests, hid, rfl⟩ |
    ⟨client, state, rest, rfl, hanswers, rfl⟩
  · obtain ⟨more, hanswers, hnil, -⟩ := hb.source
    obtain ⟨hw, rfl⟩ := hnil h.unwatched
    refine ⟨fun c' hmem => h.closed c' ((hb.syncActions c').mp hmem), fun c' => ?_, hw, fun c' => ?_,
      seen_snoc_of_ne id hhandled h.unseen, (calls_snoc_of_ne tr id hcalled).trans h.uncalled⟩
    · have hperm := hb.mine c'
      rw [h.unasked] at hperm
      exact hperm.eq_nil
    · rw [hanswers, h.unanswered, List.append_nil]
  · have hmem : q ∈ mine id s client := by
      simp [mine, hrequests, hid]
    rw [h.unasked] at hmem
    cases hmem
  · have hnil := h.unanswered client
    rw [hanswers] at hnil
    simp [answersOf] at hnil

/-- A request is made with an id of its own. -/
theorem Absent.runImp (h : Absent r.id tr s) :
    Phase (tr ++ [(s, .runImp c r, s.runImp c r)]) (s.runImp c r) c r ∧
      ∀ c', c' ≠ c → r.id ∉ ((s.runImp c r).managers c').syncActions := by
  have hseen : seen r.id (tr ++ [(s, .runImp c r, s.runImp c r)]) = none :=
    seen_snoc_of_ne r.id (fun q hq => by cases hq) h.unseen
  have hcalls : calls r.id (tr ++ [(s, .runImp c r, s.runImp c r)]) = [] :=
    (calls_snoc_of_ne tr r.id fun y hy => by cases hy).trans h.uncalled
  have hmine := h.unasked c
  unfold mine at hmine
  rcases hinit : (s.managers c).initialized with - | -
  · have hs' : s.runImp c r =
        s.setManager c ⟨false, (s.managers c).syncActions ++ [r.id], (s.managers c).initActions ++ [r]⟩ := by
      simp [Network.runImp, hinit]
    rw [hs'] at hseen hcalls ⊢
    refine ⟨.pending ?_ ?_ (fun c' hne => ?_) h.unwatched h.unanswered hseen hcalls, fun c' hne => ?_⟩
    · simp [Network.setManager]
    · rw [List.filter_append, List.append_eq_nil_iff] at hmine
      simp [mine, Network.setManager, hmine]
    · rw [← h.unasked c']
      simp [mine, Network.setManager, hne]
    · simp [Network.setManager, hne, h.closed c']
  · have hs' : s.runImp c r = (s.setManager c { s.managers c with
        syncActions := (s.managers c).syncActions ++ [r.id] }).setRequests c (s.requests c ++ [r]) := by
      simp [Network.runImp, hinit]
    rw [hs'] at hseen hcalls ⊢
    refine ⟨.pending ?_ ?_ (fun c' hne => ?_) h.unwatched h.unanswered hseen hcalls, fun c' hne => ?_⟩
    · simp [Network.setManager, Network.setRequests]
    · rw [List.filter_append, List.append_eq_nil_iff] at hmine
      simp [mine, Network.setManager, Network.setRequests, hmine]
    · rw [← h.unasked c']
      simp [mine, Network.setManager, Network.setRequests, hne]
    · simp [Network.setManager, Network.setRequests, hne, h.closed c']

end Request

/-! ### All requests -/

section Run

variable {s s₀ : Network Client Id} {tr : History Client Id}

/-- The requests that were made. -/
def made (tr : History Client Id) : List (Client × Request Id) := tr.filterMap requested

omit [DecidableEq Client] in
theorem absent_init {s : Network Client Id} (h : s.Init) (id : Id) : Absent id [] s where
  closed c := by simp [h.2.1 c]
  unasked c := by simp [mine, h.2.1 c, h.2.2.1 c]
  unwatched := by simp [watchersOf, h.1]
  unanswered c := by simp [answersOf, h.2.2.2 c]
  unseen := rfl
  uncalled := rfl

/-- Every request is in one of its phases, and only its own manager has the callback. -/
theorem run_phase (hinit : s₀.Init) (hr : Network.lts.Run LTS.free s₀ tr s)
    (hfresh : ((made tr).map fun x => x.2.id).Nodup) :
    (∀ c r, (c, r) ∈ made tr → Phase tr s c r ∧ ∀ c', c' ≠ c → r.id ∉ (s.managers c').syncActions) ∧
      ∀ id, id ∉ (made tr).map (fun x => x.2.id) → Absent id tr s := by
  induction hr with
  | nil =>
    refine ⟨fun c r hmem => ?_, fun id _ => absent_init hinit id⟩
    cases hmem
  | @snoc t t' tr a hr _ hst ih =>
    have hst : t.step a = some t' := hst
    have hmade : made (tr ++ [(t, a, t')]) = made tr ++ (requested (t, a, t')).toList := by
      rw [made, List.filterMap_append, List.filterMap_cons, List.filterMap_nil]
      rcases requested (t, a, t') with - | y
      · rfl
      · rfl
    rw [hmade, List.map_append, List.nodup_append] at hfresh
    obtain ⟨hphase, habsent⟩ := ih hfresh.1
    rw [hmade]
    -- an id of an earlier request is not the id of a new one
    have hold : ∀ id, id ∈ (made tr).map (fun x => x.2.id) → ∀ client q, a = .runImp client q → q.id ≠ id := by
      rintro id hid client q rfl heq
      exact hfresh.2.2 id hid q.id (List.mem_singleton_self _) heq.symm
    refine ⟨fun c r hmem => ?_, fun id hid => ?_⟩
    · rcases List.mem_append.mp hmem with hmem | hmem
      · obtain ⟨hp, hforeign⟩ := hphase c r hmem
        exact hp.step hforeign hst (hold r.id (List.mem_map_of_mem hmem))
      · obtain ⟨rfl, rfl⟩ : a = .runImp c r ∧ t' = t.runImp c r := by
          cases a with
          | runImp client q =>
            obtain rfl := Option.some.inj hst
            obtain ⟨rfl, rfl⟩ := Prod.mk.inj (List.mem_singleton.mp hmem)
            exact ⟨rfl, rfl⟩
          | _ => cases hmem
        refine (habsent r.id fun hmem => ?_).runImp
        exact hold r.id hmem c r rfl rfl
    · rw [List.map_append, List.mem_append, not_or] at hid
      refine (habsent id hid.1).step hst ?_
      rintro client q rfl heq
      exact hid.2 (heq ▸ List.mem_singleton_self _)

/-- **A callback is called once and never lost**: it is called by its own manager, with the first state that is an answer
since the request was handled; or it has not been called, and the request waits to be handled, waits for a state, or
its answer is on the way. -/
theorem answered_once (hinit : s₀.Init) (hr : Network.lts.Run LTS.free s₀ tr s)
    (hfresh : ((made tr).map fun x => x.2.id).Nodup) (c : Client) (r : Request Id) (hmem : (c, r) ∈ made tr) :
    (∃ states state, calls r.id tr = [(c, state)] ∧ seen r.id tr = some states ∧
      states.find? (reached r.downloadOnly) = some state ∧ ∀ c', r.id ∉ (s.managers c').syncActions) ∨
    calls r.id tr = [] ∧ r.id ∈ (s.managers c).syncActions ∧
      (seen r.id tr = none ∧ (r ∈ (s.managers c).initActions ∨ r ∈ s.requests c) ∨
      ∃ states, seen r.id tr = some states ∧
        (states.find? (reached r.downloadOnly) = none ∧ ⟨r.id, r.downloadOnly, false⟩ ∈ s.source.watchers ∨
        ∃ state, states.find? (reached r.downloadOnly) = some state ∧ (r.id, state) ∈ s.answers c)) := by
  obtain ⟨hphase, hforeign⟩ := (run_phase hinit hr hfresh).1 c r hmem
  cases hphase with
  | pending hopen hmine _ _ _ hs hc =>
    refine Or.inr ⟨hc, hopen, Or.inl ⟨hs, ?_⟩⟩
    have hr : r ∈ mine r.id s c := hmine ▸ List.mem_singleton_self r
    exact List.mem_append.mp (List.mem_filter.mp hr).1
  | watching states hopen _ hwatchers _ hs hfind hc =>
    refine Or.inr ⟨hc, hopen, Or.inr ⟨states, hs, Or.inl ⟨hfind, ?_⟩⟩⟩
    have hw : (⟨r.id, r.downloadOnly, false⟩ : Watcher Id) ∈ watchersOf r.id s.source :=
      hwatchers ▸ List.mem_singleton_self _
    exact (List.mem_filter.mp hw).1
  | answered states state more hopen _ hanswers hs hfind hc =>
    refine Or.inr ⟨hc, hopen, Or.inr ⟨states, hs, Or.inr ⟨state, hfind, ?_⟩⟩⟩
    have ha : (r.id, state) ∈ answersOf r.id (s.answers c) := hanswers ▸ List.mem_cons_self
    exact (List.mem_filter.mp ha).1
  | done states state hclosed _ hs hfind hc =>
    refine Or.inl ⟨states, state, hc, hs, hfind, fun c' => ?_⟩
    rcases eq_or_ne c' c with rfl | hne
    · exact hclosed
    · exact hforeign c' hne

end Run

/-! ### A connection that is deleted too late -/

namespace Sample

def start : Network Bool ℕ := ⟨⟨.Synchronized, []⟩, fun _ => ⟨false, [], []⟩, fun _ => [], fun _ => []⟩

def request : Request ℕ := ⟨7, true, true⟩

theorem run_step {tr : History Bool ℕ} {s s' : Network Bool ℕ} (hr : Network.lts.Run LTS.free start tr s)
    (a : Event Bool ℕ) (hst : s.step a = some s') : Network.lts.Run LTS.free start (tr ++ [(s, a, s')]) s' :=
  hr.snoc trivial hst

end Sample

/-- The upload is over before the connection is deleted: there are two answers, for both managers. -/
theorem answered_once_late : ∃ tr s, Network.lts.Run LTS.free Sample.start tr s ∧ s.answers true = [] ∧
    ∃ states state, calls 7 tr = [(true, state)] ∧ seen 7 tr = some states ∧
      states.find? (reached true) = some state := by
  have hasked := Sample.run_step (.nil Sample.start) (.runImp true Sample.request) rfl
  have hinit := Sample.run_step hasked (.onInit true [Sample.request]) rfl
  have hwatching := Sample.run_step hinit (.runOnState true [.Downloading]) rfl
  have hfirst := Sample.run_step hwatching (.stateChanged .Uploading) rfl
  have hsecond := Sample.run_step hfirst (.stateChanged .Synchronized) rfl
  have hdeleted := Sample.run_step hsecond .deleteLater rfl
  have hother := Sample.run_step hdeleted (.onStateReached false) rfl
  have hcalled := Sample.run_step hother (.onStateReached true) rfl
  have hlate := Sample.run_step hcalled (.onStateReached true) rfl
  refine ⟨_, _, hlate, rfl, ?_⟩
  rcases answered_once ⟨rfl, fun _ => rfl, fun _ => rfl, fun _ => rfl⟩ hlate (List.nodup_singleton _) true
    Sample.request (List.mem_singleton_self _) with ⟨states, state, hcalls, hseen, hfind, -⟩ | ⟨-, hopen, -⟩
  · exact ⟨states, state, hcalls, hseen, hfind⟩
  · cases hopen

end QtDataSync.RunOnState
