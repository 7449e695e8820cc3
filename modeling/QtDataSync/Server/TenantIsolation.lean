import QtDataSync.Server.Effect

/-!
# Server.TenantIsolation — what the messages of one account do to others

`handled` is what happens when a client handles a message, with the signals of the task delivered.  `forceDisconnect`
reaches the device that is named in the message.  The exact condition `Safe` under which the rows and the connections
of other accounts stay as they are, for one message and for every sequence of messages.
-/

namespace QtDataSync.Server

variable {Dev B : Type} [DecidableEq Dev]

/-! ### Signals that are delivered -/

namespace ClientConnector

section

variable {s t u : ClientConnector Dev B} {evs evs' : List (Event Dev B)}

/-- The device is connected to client `p`, and one of the signals disconnects it. -/
def Drops (s : ClientConnector Dev B) (evs : List (Event Dev B)) (p : ℕ) : Prop :=
  ∃ d, .forceDisconnect d ∈ evs ∧ s.clients d = some p

/-- From `s` to `t` the signals have been delivered: tasks may be queued, and connections are closed. -/
structure Delivers (evs : List (Event Dev B)) (s t : ClientConnector Dev B) : Prop where
  accounts : t.accounts = s.accounts
  clients : t.clients = s.clients
  connections : ∀ p x', t.connections p = some x' → ∃ x, s.connections p = some x ∧ x'.client = x.client ∧
    (x'.isOpen = true ↔ x.isOpen = true ∧ ¬ s.Drops evs p)
  stays : ∀ p x, s.connections p = some x → ∃ x', t.connections p = some x'

omit [DecidableEq Dev] in
theorem Delivers.refl (s : ClientConnector Dev B) : Delivers [] s s where
  accounts := rfl
  clients := rfl
  connections _ x hx := ⟨x, hx, rfl, by simp [Drops]⟩
  stays _ x hx := ⟨x, hx⟩

omit [DecidableEq Dev] in
theorem Delivers.trans (h : Delivers evs s t) (h' : Delivers evs' t u) : Delivers (evs ++ evs') s u where
  accounts := h'.accounts.trans h.accounts
  clients := h'.clients.trans h.clients
  connections p x'' hx'' := by
    obtain ⟨x', hx', hc', ho'⟩ := h'.connections p x'' hx''
    obtain ⟨x, hx, hc, ho⟩ := h.connections p x' hx'
    refine ⟨x, hx, hc'.trans hc, ?_⟩
    rw [ho', ho, and_assoc]
    refine and_congr_right fun _ => ?_
    simp only [Drops, h.clients, List.mem_append, or_and_right, exists_or, not_or]
  stays p x hx := by
    obtain ⟨x', hx'⟩ := h.stays p x hx
    exact h'.stays p x' hx'

omit [DecidableEq Dev] in
theorem connections_modify_apply (s : ClientConnector Dev B) (c p : ℕ) (f : Connection Dev B → Connection Dev B) :
    (s.modify c f).connections p = (s.connections p).map fun x => if p = c then f x else x := by
  show Function.update s.connections c ((s.connections c).map f) p = _
  by_cases h : p = c
  · subst h
    simp
  · simp [h]

omit [DecidableEq Dev] in
/-- Client `c` is changed, or nothing. -/
theorem Delivers.modify {c : ℕ} {f : Connection Dev B → Connection Dev B} (hclient : ∀ x, (f x).client = x.client)
    (hopen : ∀ p x, (if p = c then f x else x).isOpen = true ↔ x.isOpen = true ∧ ¬ s.Drops evs p) :
    Delivers evs s (s.modify c f) where
  accounts := rfl
  clients := rfl
  connections p x' hx' := by
    rw [connections_modify_apply, Option.map_eq_some_iff] at hx'
    obtain ⟨x, hx, rfl⟩ := hx'
    refine ⟨x, hx, ?_, hopen p x⟩
    split_ifs
    · exact hclient x
    · rfl
  stays p x hx := by
    rw [connections_modify_apply, hx]
    exact ⟨_, rfl⟩

end

end ClientConnector

/-- A signal of an idle client. -/
def Signal.IsDelivery : Signal Dev B → Prop
  | .proofDone _ _ => True
  | .forceDisconnect _ => True
  | _ => False

/-- The same for what is queued for it. -/
def Event.IsDelivery : Event Dev B → Prop
  | .proofDone _ _ _ => True
  | .forceDisconnect _ => True
  | _ => False

namespace ClientConnector

variable {s : ClientConnector Dev B} {evs : List (Event Dev B)}

/-- One signal. -/
theorem delivers_handle {e : Event Dev B} (he : e.IsDelivery) : Delivers [e] s (s.handle e) := by
  cases e with
  | proofDone l partner message =>
    have hnone : ∀ p, ¬ s.Drops [.proofDone l partner message] p := by simp [Drops]
    have hmodify : Delivers [.proofDone l partner message] s (s.modify l.client (·.enqueue (.proofResult message))) := by
      refine .modify (fun _ => rfl) fun p x => ?_
      rw [and_iff_left (hnone p)]
      split_ifs <;> rfl
    show Delivers _ _ (s.proofDone l partner message)
    unfold proofDone
    split_ifs
    · exact ⟨rfl, rfl, hmodify.connections, hmodify.stays⟩
    · exact hmodify
    · exact ⟨rfl, rfl, fun p x hx => ⟨x, hx, rfl, (and_iff_left (hnone p)).symm⟩, fun p x hx => ⟨x, hx⟩⟩
  | forceDisconnect partner =>
    have hdrops : ∀ p, s.Drops [.forceDisconnect partner] p ↔ s.clients partner = some p := by simp [Drops]
    show Delivers _ _ (s.dropConnection partner)
    unfold dropConnection
    split
    · rename_i hnone
      refine ⟨rfl, rfl, fun p x hx => ⟨x, hx, rfl, ?_⟩, fun p x hx => ⟨x, hx⟩⟩
      rw [hdrops, hnone]
      simp
    · rename_i c hc
      refine .modify (fun _ => rfl) fun p x => ?_
      rw [hdrops, hc]
      by_cases hp : p = c
      · simp [hp, Connection.close]
      · simp [hp, Ne.symm hp]
  | _ => exact he.elim

theorem delivers_foldl (hevs : ∀ e ∈ evs, e.IsDelivery) : Delivers evs s (evs.foldl handle s) := by
  induction evs generalizing s with
  | nil => exact .refl s
  | cons e evs ih =>
    obtain ⟨he, hevs⟩ := List.forall_mem_cons.mp hevs
    exact (delivers_handle he).trans (ih hevs)

end ClientConnector

section

variable [DecidableEq B] [Inhabited Dev] [Inhabited B] (ownFingerprint : B → B → B → B → Option B)

namespace ClientConnector

/-! ### A message that is handled -/

/-- The task has run on client `c` with the connection `x`, and its signals have been delivered. -/
def delivered (s : ClientConnector Dev B) (c : ℕ) (x : Connection Dev B) (t : TaskState Dev B) : ClientConnector Dev B :=
  (t.signals.flatMap (s.queued c x)).foldl handle { s with
    accounts := t.accounts
    connections := Function.update s.connections c (some { x with client := t.client }) }

/-- Client `c` handles a message. -/
def handled (s : ClientConnector Dev B) (c : ℕ) (env : Env Dev) (message : Message Dev B) (signature : Signature B) :
    ClientConnector Dev B :=
  match s.connections c with
  | none => s
  | some x => s.delivered c x (x.client.run ownFingerprint env (.binaryMessageReceived (.message message signature)) s.accounts)

variable {ownFingerprint}

omit [DecidableEq B] [Inhabited Dev] [Inhabited B] in
/-- What is queued does not matter for the delivery of a signal. -/
theorem handle_events (s : ClientConnector Dev B) (events : List (Event Dev B)) (e : Event Dev B) :
    handle { s with events := events } e = { s.handle e with events := events } := by
  cases e with
  | clientConnected sender deviceId =>
    simp only [handle, clientConnected]
    split_ifs <;> rfl
  | proofRequested sender partner message =>
    simp only [handle, proofRequested]
    split_ifs
    · rfl
    · split <;> rfl
  | proofDone l partner message =>
    simp only [handle, proofDone]
    split_ifs <;> rfl
  | acceptDone pClient partner => rfl
  | forceDisconnect partner =>
    simp only [handle, dropConnection]
    split <;> rfl

omit [DecidableEq B] [Inhabited Dev] [Inhabited B] in
theorem events_handle {s : ClientConnector Dev B} (hs : s.events = []) (e : Event Dev B) : (s.handle e).events = [] := by
  have hsame : { s with events := [] } = s := by rw [← hs]
  have he := congrArg events (handle_events s [] e)
  rwa [hsame] at he

/-- The main thread delivers all that is queued. -/
theorem run_events {s : ClientConnector Dev B} (hs : s.events = []) (evs : List (Event Dev B)) :
    ∃ tr, LTS.Run (lts ownFingerprint) LTS.free { s with events := evs } tr (evs.foldl handle s) := by
  induction evs generalizing s with
  | nil =>
    have hsame : { s with events := [] } = s := by rw [← hs]
    rw [hsame]
    exact ⟨[], .nil s⟩
  | cons e evs ih =>
    have hstep : (lts ownFingerprint).step { s with events := e :: evs } .event { s.handle e with events := evs } :=
      congrArg some (handle_events s evs e)
    obtain ⟨tr, hr⟩ := ih (events_handle hs e)
    exact ⟨_, LTS.Run.trans (.snoc (.nil _) trivial hstep) hr⟩

theorem step_task {s : ClientConnector Dev B} {c : ℕ} {x : Connection Dev B} {task : Task Dev B} {q : List (Task Dev B)}
    (hx : s.connections c = some x) (hq : x.queue = task :: q) (env : Env Dev) :
    (lts ownFingerprint).step s (.task c env) (s.ran c x (x.client.run ownFingerprint env task s.accounts)) := by
  show next ownFingerprint s (.task c env) = _
  simp only [next, hx, hq]

omit [DecidableEq Dev] [DecidableEq B] [Inhabited Dev] [Inhabited B] in
/-- A client with an empty queue has run a task it has received. -/
theorem ran_enqueue {s : ClientConnector Dev B} {c : ℕ} {x : Connection Dev B} (hqueue : x.queue = [])
    (hevents : s.events = []) (task : Task Dev B) (t : TaskState Dev B) :
    (s.modify c (·.enqueue task)).ran c (x.enqueue task) t = { s with
      accounts := t.accounts
      connections := Function.update s.connections c (some { x with client := t.client })
      events := t.signals.flatMap (s.queued c x) } := by
  have hconn : Function.update (Function.update s.connections c ((s.connections c).map (·.enqueue task))) c
      (some { x.enqueue task with client := t.client, queue := (x.enqueue task).queue.tail }) =
      Function.update s.connections c (some { x with client := t.client }) := by
    rw [Function.update_idem, Connection.enqueue, hqueue]
    rfl
  have hqueued : (s.modify c (·.enqueue task)).queued c (x.enqueue task) = s.queued c x := by
    funext signal
    cases signal <;> rfl
  unfold ran
  rw [hqueued]
  refine congrArg₂ (fun connections events => { s with
    accounts := t.accounts
    connections := connections
    events := events }) hconn ?_
  show s.events ++ _ = _
  rw [hevents, List.nil_append]

/-- **Handling a message** is a run of the server: the message is received, its task runs, and the signals are
delivered, when nothing else is queued. -/
theorem handled_run {s : ClientConnector Dev B} {c : ℕ} {x : Connection Dev B} (hx : s.connections c = some x)
    (hqueue : x.queue = []) (hevents : s.events = []) (env : Env Dev) (message : Message Dev B)
    (signature : Signature B) :
    ∃ tr, LTS.Run (lts ownFingerprint) LTS.free s tr (s.handled ownFingerprint c env message signature) := by
  have hreceived : (lts ownFingerprint).step s (.binaryMessageReceived c (.message message signature))
      (s.modify c (·.enqueue (.binaryMessageReceived (.message message signature)))) := rfl
  have hconn : (s.modify c (·.enqueue (.binaryMessageReceived (.message message signature)))).connections c =
      some (x.enqueue (.binaryMessageReceived (.message message signature))) := by
    rw [connections_modify_apply, hx, Option.map_some, if_pos rfl]
  have hq : (x.enqueue (.binaryMessageReceived (.message message signature))).queue =
      [.binaryMessageReceived (.message message signature)] := by
    rw [Connection.enqueue, hqueue, List.nil_append]
  have hran : (lts ownFingerprint).step _ (.task c env) _ := step_task hconn hq env
  have hhandled : s.handled ownFingerprint c env message signature = s.delivered c x
      (x.client.run ownFingerprint env (.binaryMessageReceived (.message message signature)) s.accounts) := by
    rw [handled, hx]
  rw [hhandled]
  generalize hu : x.client.run ownFingerprint env (.binaryMessageReceived (.message message signature)) s.accounts = u
  have hran' : (lts ownFingerprint).step (s.modify c (·.enqueue (.binaryMessageReceived (.message message signature))))
      (.task c env) { s with
        accounts := u.accounts
        connections := Function.update s.connections c (some { x with client := u.client })
        events := u.signals.flatMap (s.queued c x) } := by
    rw [← ran_enqueue hqueue hevents, ← hu]
    exact hran
  have hempty : { s with
      accounts := u.accounts
      connections := Function.update s.connections c (some { x with client := u.client }) }.events = [] := hevents
  obtain ⟨tr, hr⟩ : ∃ tr, LTS.Run (lts ownFingerprint) LTS.free _ tr _ :=
    run_events hempty (u.signals.flatMap (s.queued c x))
  exact ⟨_, LTS.Run.trans (.snoc (.snoc (.nil s) trivial hreceived) trivial hran') hr⟩

end ClientConnector

/-! ### Isolation -/

/-- The rows of the devices of other accounts, and the connections of these devices, are the same. -/
structure Isolated (userId : ℕ) (s t : ClientConnector Dev B) : Prop where
  rows : s.accounts.RowsKept userId t.accounts
  clients : ∀ d, s.accounts.db.IsForeign userId d → t.clients d = s.clients d
  connections : ∀ p x, s.connections p = some x → x.client.state = .idle →
    s.accounts.db.IsForeign userId x.client.deviceId →
    ∃ x', t.connections p = some x' ∧ x'.client = x.client ∧ x'.isOpen = x.isOpen

/-- No connection of a device of another account is open under the id. -/
def SparesConnection (s : ClientConnector Dev B) (userId : ℕ) (target : Dev) : Prop :=
  s.accounts.db.IsForeign userId target → ∀ p x, s.clients target = some p → s.connections p = some x →
    x.client.state = .idle → x.isOpen = false

/-- The message of the connection `x`, of a device of the account, leaves other accounts alone. -/
def Message.IsSafe (s : ClientConnector Dev B) (x : Connection Dev B) (userId : ℕ) : Message Dev B → Prop
  | .change dataId _ _ data =>
    (s.accounts.db.toTables.deleteDataChanges fun c => c.deviceid = x.client.deviceId ∧ c.dataid = dataId).HitsQuota
      x.client.deviceId data.length ∨
    ∀ c ∈ s.accounts.db.datachanges, c.deviceid = x.client.deviceId → c.dataid = dataId →
      ∀ y ∈ s.accounts.db.devicechanges, y.dataid = c.id → ¬ s.accounts.db.IsForeign userId y.deviceid
  | .deviceChange target dataId _ _ data =>
    ¬ s.accounts.db.IsForeign userId target ∨
    (∃ c ∈ s.accounts.db.datachanges, c.deviceid = x.client.deviceId ∧ c.dataid = dataId ∧
      ⟨target, c.id⟩ ∈ s.accounts.db.devicechanges) ∨
    (∀ c ∈ s.accounts.db.datachanges, ¬ (c.deviceid = x.client.deviceId ∧ c.dataid = dataId)) ∧
      s.accounts.db.HitsQuota x.client.deviceId data.length
  | .changedAck dataIndex =>
    ∀ c ∈ s.accounts.db.datachanges, c.id = dataIndex → s.accounts.db.IsForeign userId c.deviceid →
      ∃ y ∈ s.accounts.db.devicechanges, y.dataid = dataIndex ∧ y.deviceid ≠ x.client.deviceId
  | .remove target =>
    (s.accounts.db.deviceUserId target = some userId → ∀ y ∈ s.accounts.db.devicechanges,
      s.accounts.db.IsForeign userId y.deviceid →
      ∀ c ∈ s.accounts.db.datachanges, c.id = y.dataid → c.deviceid ≠ target) ∧
    (x.registered ≠ none → SparesConnection s userId target)
  | _ => True

/-- Handling the message on connection `c` leaves other accounts alone: the first query fails, or the message is safe. -/
def Safe (userId c : ℕ) (s : ClientConnector Dev B) (env : Env Dev) (message : Message Dev B) : Prop :=
  ∀ x, s.connections c = some x → x.client.state = .idle → env.faults.head? = some true ∨ message.IsSafe s x userId

/-- The clients in the map are those of the devices. -/
def Known (s : ClientConnector Dev B) : Prop :=
  ∀ d p x, s.clients d = some p → s.connections p = some x → x.client.state = .idle → x.client.deviceId = d

/-- The connection is authenticated as a device of the account, or has failed since. -/
structure Admitted (userId c : ℕ) (s : ClientConnector Dev B) : Prop where
  known : Known s
  client : ∃ x, s.connections c = some x ∧ (x.client.state = .error ∨
    x.client.state = .idle ∧ s.accounts.db.deviceUserId x.client.deviceId = some userId)

omit [DecidableEq B] [Inhabited Dev] [Inhabited B] in
theorem Sound.known {tr : List (Transition Dev B)} {s : ClientConnector Dev B} (h : Sound tr s) : Known s :=
  fun d p x hd hx _ => ((h.clients d p hd).2 x hx).1

namespace ClientConnector

variable {ownFingerprint} {s : ClientConnector Dev B} {c userId : ℕ} {x : Connection Dev B} {u : TaskState Dev B}

omit [DecidableEq Dev] [DecidableEq B] [Inhabited Dev] [Inhabited B] in
theorem isDelivery_queued {signal : Signal Dev B} (h : signal.IsDelivery) {e : Event Dev B}
    (he : e ∈ s.queued c x signal) : e.IsDelivery := by
  cases signal with
  | proofDone partner message =>
    obtain ⟨l, -, rfl⟩ := List.mem_map.mp he
    exact trivial
  | forceDisconnect partner =>
    simp only [queued] at he
    split_ifs at he
    · rw [List.mem_singleton] at he
      subst he
      exact trivial
    · cases he
  | _ => exact h.elim

omit [DecidableEq Dev] [DecidableEq B] [Inhabited Dev] [Inhabited B] in
theorem forceDisconnect_mem_queued {signal : Signal Dev B} {d : Dev} :
    .forceDisconnect d ∈ s.queued c x signal ↔ x.registered ≠ none ∧ signal = .forceDisconnect d := by
  cases signal with
  | connected deviceId => simp [queued]
  | proofRequested partner message => simp [queued]
  | proofDone partner message => simp [queued]
  | forceDisconnect partner =>
    simp only [queued, Option.isSome_iff_ne_none]
    split_ifs with hreg
    · simp [hreg, eq_comm]
    · simp [hreg]

omit [DecidableEq B] [Inhabited Dev] [Inhabited B] in
/-- The signals of an idle client are delivered. -/
theorem delivers_delivered (hsignals : ∀ signal ∈ u.signals, signal.IsDelivery) :
    Delivers (u.signals.flatMap (s.queued c x)) { s with
      accounts := u.accounts
      connections := Function.update s.connections c (some { x with client := u.client }) } (s.delivered c x u) := by
  refine delivers_foldl fun e he => ?_
  obtain ⟨signal, hsignal, he⟩ := List.mem_flatMap.mp he
  exact isDelivery_queued (hsignals signal hsignal) he

omit [DecidableEq B] [Inhabited Dev] [Inhabited B] in
/-- A connection after a task of client `c`. -/
theorem connections_delivered (hx : s.connections c = some x) (hsignals : ∀ signal ∈ u.signals, signal.IsDelivery)
    {p : ℕ} {y : Connection Dev B} (hy : s.connections p = some y) :
    ∃ y', (s.delivered c x u).connections p = some y' ∧ y'.client = (if p = c then u.client else y.client) ∧
      (y'.isOpen = true ↔ y.isOpen = true ∧ ∀ d, x.registered ≠ none → .forceDisconnect d ∈ u.signals →
        s.clients d ≠ some p) := by
  have hd := delivers_delivered (s := s) (c := c) (x := x) hsignals
  have hbefore : Function.update s.connections c (some { x with client := u.client }) p =
      some { y with client := if p = c then u.client else y.client } := by
    by_cases hp : p = c
    · subst hp
      obtain rfl := Option.some.inj (hx.symm.trans hy)
      rw [Function.update_self, if_pos rfl]
    · rw [Function.update_of_ne hp, hy, if_neg hp]
  obtain ⟨y', hy'⟩ := hd.stays p _ hbefore
  obtain ⟨y₀, hy₀, hclient, hopen⟩ := hd.connections p y' hy'
  obtain rfl := Option.some.inj (hbefore.symm.trans hy₀)
  refine ⟨y', hy', hclient, hopen.trans (and_congr_right fun _ => ?_)⟩
  simp only [Drops, List.mem_flatMap, forceDisconnect_mem_queued]
  constructor
  · intro h d hreg hm hcl
    exact h ⟨d, ⟨_, hm, hreg, rfl⟩, hcl⟩
  · rintro h ⟨d, ⟨_, hm, hreg, rfl⟩, hcl⟩
    exact h d hreg hm hcl

omit [DecidableEq B] [Inhabited Dev] [Inhabited B] in
/-- **What a task leaves alone**: the rows as far as the accounts do, the connections as far as the signals do. -/
theorem isolated_delivered (hknown : Known s) (hx : s.connections c = some x)
    (hown : ¬ s.accounts.db.IsForeign userId x.client.deviceId)
    (hsignals : ∀ signal ∈ u.signals, signal.IsDelivery) :
    Isolated userId s (s.delivered c x u) ↔ s.accounts.RowsKept userId u.accounts ∧
      (x.registered ≠ none → ∀ d, .forceDisconnect d ∈ u.signals → SparesConnection s userId d) := by
  have hd := delivers_delivered (s := s) (c := c) (x := x) hsignals
  have hacc : (s.delivered c x u).accounts = u.accounts := hd.accounts
  have hne : ∀ {p y}, s.connections p = some y → s.accounts.db.IsForeign userId y.client.deviceId → p ≠ c := by
    rintro p y hy hf rfl
    obtain rfl := Option.some.inj (hx.symm.trans hy)
    exact hown hf
  constructor
  · refine fun h => ⟨hacc ▸ h.rows, fun hreg d hm hf p y hp hy hidle => ?_⟩
    have hdev := hknown d p y hp hy hidle
    rw [← hdev] at hf
    obtain ⟨y₁, hy₁, -, hopen₁⟩ := h.connections p y hy hidle hf
    obtain ⟨y₂, hy₂, -, hopen₂⟩ := connections_delivered hx hsignals hy
    obtain rfl := Option.some.inj (hy₁.symm.trans hy₂)
    by_contra hopen
    rw [Bool.not_eq_false] at hopen
    exact (hopen₂.mp (hopen₁.trans hopen)).2 d hreg hm hp
  · rintro ⟨hrows, hspares⟩
    refine ⟨hacc.symm ▸ hrows, fun d _ => congrFun hd.clients d, fun p y hy hidle hf => ?_⟩
    obtain ⟨y', hy', hclient, hopen⟩ := connections_delivered hx hsignals hy
    rw [if_neg (hne hy hf)] at hclient
    refine ⟨y', hy', hclient, Bool.eq_iff_iff.mpr (hopen.trans (and_iff_left_of_imp fun ho d hreg hm hp => ?_))⟩
    have hdev := hknown d p y hp hy hidle
    rw [hdev] at hf
    have hclosed := hspares hreg d hm hf p y hp hy hidle
    rw [ho] at hclosed
    cases hclosed

end ClientConnector

section

variable {ownFingerprint} {s t : ClientConnector Dev B} {c userId : ℕ} {x : Connection Dev B} {env : Env Dev}
  {message : Message Dev B} {signature : Signature B}

omit [DecidableEq B] [Inhabited Dev] [Inhabited B] in
theorem Effect.isDelivery {own : Dev} {a : Accounts Dev B} {fault : Prop} {u : TaskState Dev B}
    (h : Effect own userId a fault message u) : ∀ signal ∈ u.signals, signal.IsDelivery := by
  intro signal hm
  rcases htx : message.transaction own with _ | tx
  · have hsig := (h.other htx).2.2 signal hm
    cases signal with
    | proofDone _ _ => exact trivial
    | forceDisconnect _ => exact trivial
    | _ => exact hsig.elim
  · by_cases hf : fault
    · rw [(h.aborts hf tx htx).2] at hm
      cases hm
    · rw [(h.commits hf tx htx).2] at hm
      unfold Message.signals at hm
      split at hm
      · split_ifs at hm
        · cases hm
        · rw [List.mem_singleton] at hm
          rw [hm]
          exact trivial
      · cases hm

omit [DecidableEq B] [Inhabited Dev] [Inhabited B] in
/-- A message without signals leaves others alone as far as its transaction does. -/
theorem rows_iff_of_signals {tx : Transaction Dev} {u : TaskState Dev B} {P Q : Prop}
    (hacc : u.accounts = s.accounts.next tx) (hsig : u.signals = [])
    (hrows : Tables.RowsKept userId s.accounts.db.toTables (tx.next s.accounts.db).toTables ↔ P) :
    (s.accounts.RowsKept userId u.accounts ∧
      (Q → ∀ d, .forceDisconnect d ∈ u.signals → SparesConnection s userId d)) ↔ P := by
  rw [hacc, hsig, Accounts.rowsKept_next, hrows]
  exact and_iff_left fun _ _ hm => (nomatch hm)

omit [DecidableEq B] [Inhabited Dev] [Inhabited B] in
/-- **One message** of a device of the account, by what it has done. -/
theorem isSafe_iff {u : TaskState Dev B} (huser : s.accounts.db.deviceUserId x.client.deviceId = some userId)
    (h : Effect x.client.deviceId userId s.accounts (env.faults.head? = some true) message u) :
    (s.accounts.RowsKept userId u.accounts ∧
      (x.registered ≠ none → ∀ d, .forceDisconnect d ∈ u.signals → SparesConnection s userId d)) ↔
      (env.faults.head? = some true ∨ message.IsSafe s x userId) := by
  have hother : message.transaction x.client.deviceId = none → (s.accounts.RowsKept userId u.accounts ∧
      (x.registered ≠ none → ∀ d, .forceDisconnect d ∈ u.signals → SparesConnection s userId d)) := by
    intro hnone
    obtain ⟨-, hrows, hsig⟩ := h.other hnone
    exact ⟨hrows, fun _ d hm hf => absurd hf (hsig _ hm)⟩
  by_cases hf : env.faults.head? = some true
  · refine iff_of_true ?_ (Or.inl hf)
    rcases htx : message.transaction x.client.deviceId with _ | tx
    · exact hother htx
    · obtain ⟨hacc, hsig⟩ := h.aborts hf tx htx
      rw [hacc, hsig]
      exact ⟨.refl userId _, fun _ _ hm => (nomatch hm)⟩
  · rw [or_iff_right hf]
    cases message with
    | change dataId keyIndex salt data =>
      obtain ⟨hacc, hsig⟩ := h.commits hf _ rfl
      exact rows_iff_of_signals hacc hsig (Tables.RowsKept.addChange_iff huser dataId keyIndex salt data)
    | deviceChange target dataId keyIndex salt data =>
      obtain ⟨hacc, hsig⟩ := h.commits hf _ rfl
      exact rows_iff_of_signals hacc hsig (Tables.RowsKept.addDeviceChange_iff huser dataId keyIndex salt data)
    | changedAck dataIndex =>
      obtain ⟨hacc, hsig⟩ := h.commits hf _ rfl
      exact rows_iff_of_signals hacc hsig (Tables.RowsKept.completeChange_iff huser dataIndex)
    | remove target =>
      obtain ⟨hacc, hsig⟩ := h.commits hf _ rfl
      rw [hacc, hsig, Accounts.rowsKept_next, Tables.RowsKept.removeDevice_iff huser]
      refine and_congr_right fun _ => imp_congr_right fun _ => ?_
      simp only [Message.signals]
      split_ifs with hown
      · -- the own device is not foreign
        refine iff_of_true (fun _ hm => (nomatch hm)) fun hforeign => absurd hown.symm (hforeign.ne huser)
      · simp
    | _ => exact iff_of_true (hother rfl) trivial

omit [DecidableEq B] [Inhabited Dev] [Inhabited B] in
/-- The own device stays, unless it removes itself. -/
theorem Message.deviceUserId_next {db : Database Dev} {own : Dev} (huser : db.deviceUserId own = some userId)
    {tx : Transaction Dev} (htx : message.transaction own = some tx) (hself : message ≠ .remove own) :
    (tx.next db).deviceUserId own = some userId := by
  have hsame : ∀ {db' : Database Dev}, db'.devices = db.devices → db'.deviceUserId own = some userId := by
    intro db' hdev
    rw [← huser]
    unfold Tables.deviceUserId
    rw [hdev]
  rcases tx.next_cases db with hrun | hrun
  · cases message with
    | change dataId keyIndex salt data =>
      cases htx
      exact hsame (Tables.RowsKept.foreign_addChange huser hrun).1
    | deviceChange target dataId keyIndex salt data =>
      cases htx
      exact hsame (Tables.RowsKept.foreign_addDeviceChange huser hrun).1
    | changedAck dataIndex =>
      cases htx
      exact hsame rfl
    | remove target =>
      cases htx
      have hremoval : (Transaction.removeDevice own target).isRemoval = true := rfl
      obtain ⟨q, -, ht⟩ := Transaction.removal_ok db hremoval
      obtain ⟨row, hrow, rfl⟩ := Option.map_eq_some_iff.mp huser
      have hid := List.find?_some hrow
      rw [decide_eq_true_eq] at hid
      have hstays : row ∈ (Transaction.next db (.removeDevice own target)).devices := by
        rw [ht]
        refine Tables.mem_deleteDevices.mpr ⟨List.mem_of_find?_eq_some hrow, decide_eq_false fun hgone => hself ?_⟩
        rw [← hid, hgone.1]
      have hkept := deviceUserId_of_mem (Transaction.next db (.removeDevice own target)).constraints.devices_pkey hstays
      rwa [hid] at hkept
    | _ => cases htx
  · rw [hrun]
    exact huser

/-- In the state `error` nothing changes. -/
theorem ClientConnector.handled_of_error (hx : s.connections c = some x) (herr : x.client.state = .error) :
    s.handled ownFingerprint c env message signature = s := by
  rw [handled, hx]
  simp only [Client.run_of_error ownFingerprint env herr, delivered, List.flatMap_nil, List.foldl_nil]
  rw [← hx, Function.update_eq_self]

/-- **A message** keeps the connection authenticated, or it fails. -/
theorem Admitted.handled (h : Admitted userId c s) : Admitted userId c (s.handled ownFingerprint c env message signature) := by
  obtain ⟨hknown, x, hx, herr | ⟨hidle, huser⟩⟩ := h
  · rw [ClientConnector.handled_of_error hx herr]
    exact ⟨hknown, x, hx, Or.inl herr⟩
  · have heffect := Client.run_effect ownFingerprint env hidle huser message signature
    obtain ⟨hstate, hdev⟩ := Client.run_idle ownFingerprint env (a := s.accounts) hidle message signature
    have hself : message = .remove x.client.deviceId → (x.client.run ownFingerprint env
        (.binaryMessageReceived (.message message signature)) s.accounts).client.state = .error := by
      rintro rfl
      exact Client.run_remove_self ownFingerprint env signature
    have hhandled : s.handled ownFingerprint c env message signature = s.delivered c x
        (x.client.run ownFingerprint env (.binaryMessageReceived (.message message signature)) s.accounts) := by
      rw [ClientConnector.handled, hx]
    rw [hhandled]
    generalize x.client.run ownFingerprint env (.binaryMessageReceived (.message message signature)) s.accounts = u at *
    have hd := ClientConnector.delivers_delivered (s := s) (c := c) (x := x) heffect.isDelivery
    refine ⟨fun d p y' hp hy' hidle' => ?_, ?_⟩
    · obtain ⟨y, hy, hclient, -⟩ := hd.connections p y' hy'
      rw [hclient] at hidle' ⊢
      rw [hd.clients] at hp
      have hy₀ : Function.update s.connections c (some { x with client := u.client }) p = some y := hy
      by_cases hpc : p = c
      · subst hpc
        rw [Function.update_self, Option.some.injEq] at hy₀
        subst hy₀
        exact hdev.trans (hknown d p x hp hx hidle)
      · rw [Function.update_of_ne hpc] at hy₀
        exact hknown d p y hp hy₀ hidle'
    · obtain ⟨x', hx', hclient, -⟩ := ClientConnector.connections_delivered hx heffect.isDelivery hx
      rw [if_pos rfl] at hclient
      refine ⟨x', hx', ?_⟩
      rw [hclient]
      rcases hstate with hs | hs
      · refine Or.inr ⟨hs, ?_⟩
        have hacc : (s.delivered c x u).accounts = u.accounts := hd.accounts
        rw [hacc, hdev]
        rcases htx : message.transaction x.client.deviceId with _ | tx
        · rw [(heffect.other htx).1]
          exact huser
        · by_cases hf : env.faults.head? = some true
          · rw [(heffect.aborts hf tx htx).1]
            exact huser
          · rw [(heffect.commits hf tx htx).1, Accounts.next_db]
            refine Message.deviceUserId_next huser htx fun he => ?_
            rw [hself he] at hs
            cases hs
      · exact Or.inl hs

/-- **One message** leaves the other accounts alone exactly if it is safe. -/
theorem Admitted.isolated_iff (h : Admitted userId c s) :
    Isolated userId s (s.handled ownFingerprint c env message signature) ↔ Safe userId c s env message := by
  obtain ⟨hknown, x, hx, hstate⟩ := h
  have hsafe : Safe userId c s env message ↔
      (x.client.state = .idle → env.faults.head? = some true ∨ message.IsSafe s x userId) :=
    ⟨fun h => h x hx, fun h y hy => Option.some.inj (hx.symm.trans hy) ▸ h⟩
  rw [hsafe]
  rcases hstate with herr | ⟨hidle, huser⟩
  · rw [ClientConnector.handled_of_error hx herr]
    refine iff_of_true ⟨.refl userId _, fun _ _ => rfl, fun p y hy _ _ => ⟨y, hy, rfl, rfl⟩⟩ fun hidle => ?_
    rw [herr] at hidle
    cases hidle
  · have heffect := Client.run_effect ownFingerprint env hidle huser message signature
    rw [ClientConnector.handled, hx, forall_prop_of_true hidle]
    refine Iff.trans (ClientConnector.isolated_delivered hknown hx (fun hf => hf.ne huser rfl) heffect.isDelivery) ?_
    exact isSafe_iff huser heffect

variable (ownFingerprint) in
/-- The connection `c` handles one message after another. -/
def handling (c : ℕ) : LTS (ClientConnector Dev B) (Env Dev × Message Dev B × Signature B) where
  init _ := True
  step s a t := t = s.handled ownFingerprint c a.1 a.2.1 a.2.2

end

/-- **Isolation of the accounts**: from every state of the server, the messages of a connection that is authenticated as
a device of an account leave the rows and connections of other accounts alone exactly if each of them is safe. -/
theorem tenant_isolation {ownFingerprint : B → B → B → B → Option B} {s : ClientConnector Dev B}
    (hs : LTS.Reachable (ClientConnector.lts ownFingerprint) LTS.free s) {c userId : ℕ} {x : Connection Dev B}
    (hx : s.connections c = some x) (hidle : x.client.state = .idle)
    (huser : s.accounts.db.deviceUserId x.client.deviceId = some userId) {t : ClientConnector Dev B}
    {tr : List (ClientConnector Dev B × (Env Dev × Message Dev B × Signature B) × ClientConnector Dev B)}
    (hr : LTS.Run (handling ownFingerprint c) LTS.free s tr t) :
    (∀ y ∈ tr, Isolated userId y.1 y.2.2) ↔ ∀ y ∈ tr, Safe userId c y.1 y.2.1.1 y.2.1.2.1 := by
  obtain ⟨s₀, tr₀, h0, hr₀⟩ := hs
  have hadmitted : Admitted userId c s := ⟨(Sound.run h0 hr₀).known, x, hx, Or.inr ⟨hidle, huser⟩⟩
  have hkeeps : ∀ (s : ClientConnector Dev B) a t, Admitted userId c s → LTS.free s a →
      (handling ownFingerprint c).step s a t → Admitted userId c t := by
    intro s a t h _ hst
    have ht : t = s.handled ownFingerprint c a.1 a.2.1 a.2.2 := hst
    rw [ht]
    exact h.handled
  refine forall₂_congr fun y hy => ?_
  obtain ⟨hstart, -, hstep⟩ := hr.mem_invariant hkeeps hadmitted hy
  have ht : y.2.2 = y.1.handled ownFingerprint c y.2.1.1 y.2.1.2.1 y.2.1.2.2 := hstep
  rw [ht]
  exact hstart.isolated_iff

end

namespace Sample

/-- Device 2 registers, so it has an account of its own. -/
def stranger : List (ClientConnector.Step ℕ ℕ) :=
  [.newConnection ⟨10, 20, 10⟩, .task 1 (env [2] 0),
    .binaryMessageReceived 1 (.message (.register ⟨[2], 0, 7, 0, 8, "stranger", 0⟩) (.genuine ⟨0, 7⟩)),
    .task 1 (env [] 2), .event]

/-- Client 0 is idle as device 1, device 2 is of another account, and no data is stored. -/
theorem two_accounts : ∃ s x, LTS.Reachable (ClientConnector.lts fingerprint) LTS.free s ∧ s.connections 0 = some x ∧
    x.client.state = .idle ∧ s.accounts.db.deviceUserId x.client.deviceId = some 1 ∧ s.accounts.db.IsForeign 1 2 ∧
    s.accounts.db.datachanges = [] ∧ ⟨2, 1⟩ ∉ s.accounts.db.devicechanges ∧
    ⟨2, 1⟩ ∈ (s.handled fingerprint 0 (env [] 0) (.deviceChange 2 [7] 0 [] []) .missing).accounts.db.devicechanges := by
  have hrun : ((LTS.exec (ClientConnector.next fingerprint) (fun _ _ => true) start (registration ++ stranger)).bind
      fun s => (s.connections 0).map fun x =>
        decide (x.client.state = .idle ∧ s.accounts.db.deviceUserId x.client.deviceId = some 1 ∧
          s.accounts.db.IsForeign 1 2 ∧ s.accounts.db.datachanges = [] ∧ ⟨2, 1⟩ ∉ s.accounts.db.devicechanges ∧
          ⟨2, 1⟩ ∈ (s.handled fingerprint 0 (env [] 0) (.deviceChange 2 [7] 0 [] []) .missing).accounts.db.devicechanges)) =
      some true := by decide
  obtain ⟨s, hs, hx⟩ := Option.bind_eq_some_iff.mp hrun
  obtain ⟨x, hx, he⟩ := Option.map_eq_some_iff.mp hx
  obtain ⟨tr, hr⟩ := LTS.exec_run ClientConnector.Init (G := LTS.free) (fun _ _ _ => trivial) hs
  exact ⟨s, x, ⟨start, tr, ⟨fun _ => rfl, fun _ => rfl, rfl, rfl, rfl⟩, hr⟩, hx, of_decide_eq_true he⟩

end Sample

/-- A change for device 2 is stored, though device 2 is of another account. -/
theorem deviceChange_not_isolated : ∃ (s : ClientConnector ℕ ℕ) (c userId : ℕ) (x : Connection ℕ ℕ) (env : Env ℕ)
    (message : Message ℕ ℕ) (signature : Signature ℕ),
    LTS.Reachable (ClientConnector.lts Sample.fingerprint) LTS.free s ∧ s.connections c = some x ∧
      x.client.state = .idle ∧ s.accounts.db.deviceUserId x.client.deviceId = some userId ∧
      ¬ Isolated userId s (s.handled Sample.fingerprint c env message signature) := by
  obtain ⟨s, x, hs, hx, hidle, huser, hforeign, -, hold, hnew⟩ := Sample.two_accounts
  refine ⟨s, 0, 1, x, Sample.env [] 0, .deviceChange 2 [7] 0 [] [], .missing, hs, hx, hidle, huser, fun h => ?_⟩
  exact hold ((h.rows.tables.devicechanges ⟨2, 1⟩ hforeign).mp hnew)

/-- A change that device 1 uploads is safe, so it leaves device 2 alone. -/
theorem tenant_isolation_upload : ∃ (s : ClientConnector ℕ ℕ),
    Isolated 1 s (s.handled Sample.fingerprint 0 (Sample.env [] 0) (.change [7] 0 [] [1]) .missing) := by
  obtain ⟨s, x, hs, hx, hidle, huser, -, hempty, -⟩ := Sample.two_accounts
  have hr : LTS.Run (handling Sample.fingerprint 0) LTS.free s _ _ :=
    .snoc (a := (Sample.env [] 0, .change [7] 0 [] [1], .missing)) (.nil s) trivial rfl
  refine ⟨s, (tenant_isolation hs hx hidle huser hr).mpr (fun y hy => ?_) _ (List.mem_singleton.mpr rfl)⟩
  rw [List.nil_append, List.mem_singleton] at hy
  subst hy
  refine fun y _ _ => Or.inr (Or.inr fun d hd => ?_)
  rw [hempty] at hd
  cases hd

end QtDataSync.Server
