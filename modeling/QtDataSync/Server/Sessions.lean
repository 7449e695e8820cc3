import QtDataSync.Server.Authentication

/-!
# Server.Sessions — authentication across the connections of the server

What has happened before a client is `idle`, over every run of the server.  A client evolves by `Advance`, so a fact
about a client that waits for its grant (`Waits`) and the device of a client that is known (`KnownAs`) survive every
step.  With them the signal connections, the queued signals and the queued results of proofs carry what the partner
has signed from its connection to the one that waits.
-/

namespace QtDataSync.Server

open LTS (Since)

variable {Dev B : Type}

/-- A step with the states before and after it. -/
abbrev Transition (Dev B : Type) := ClientConnector Dev B × ClientConnector.Step Dev B × ClientConnector Dev B

/-! ### What has happened -/

/-- The step runs `task`, the first in the queue of the connection `x` of client `c`. -/
def Executes (y : Transition Dev B) (c : ℕ) (env : Env Dev) (x : Connection Dev B) (task : Task Dev B) : Prop :=
  y.2.1 = .task c env ∧ y.1.connections c = some x ∧ x.queue.head? = some task

/-- Client `c` handles a message that is signed by the key. -/
def Handles (y : Transition Dev B) (c : ℕ) (env : Env Dev) (x : Connection Dev B) (message : Message Dev B)
    (key : PublicKey B) : Prop :=
  Executes y c env x (.binaryMessageReceived (.message message (.genuine key)))

/-- The nonce of a message that authenticates. -/
def Message.nonce : Message Dev B → Option QByteArray
  | .register message => some message.nonce
  | .login message => some message.nonce
  | .access message => some message.nonce
  | _ => none

/-- An attempt to authenticate with the nonce of the connection. -/
def Attempts (c : ℕ) (y : Transition Dev B) : Prop :=
  ∃ env x message signature, Executes y c env x (.binaryMessageReceived (.message message signature)) ∧
    x.client.state = .authenticating ∧ message.nonce = some x.client.loginNonce

/-- The nonce that the connection has sent to identify itself. -/
def Issued (tr : List (Transition Dev B)) (c : ℕ) (nonce : QByteArray) : Prop :=
  ∃ y ∈ tr, ∃ env x, Executes y c env x .identify ∧ env.nonce = nonce

/-- The nonce of the connection, and no attempt has used it. -/
def Unused (tr : List (Transition Dev B)) (c : ℕ) (nonce : QByteArray) : Prop :=
  Issued tr c nonce ∧ ∀ w ∈ tr, ¬ Attempts c w

variable [DecidableEq Dev]

/-- The client has registered the device, signed by the key that is stored for it. -/
def Registered (tr : List (Transition Dev B)) (c : ℕ) (d : Dev) : Prop :=
  Since (fun b y => ∃ env x message info, Handles y c env x (.register message) ⟨info.signscheme, info.signkey⟩ ∧
    x.client.state = .authenticating ∧ Unused b c message.nonce ∧ ¬ y.1.accounts.IsDevice d ∧
    y.2.2.accounts.loadCrypto d = some info) (fun _ => True) tr

/-- The client has logged in as the device, signed by the key that is stored for it. -/
def LoggedIn (tr : List (Transition Dev B)) (c : ℕ) (d : Dev) : Prop :=
  Since (fun b y => ∃ env x message info, Handles y c env x (.login message) ⟨info.signscheme, info.signkey⟩ ∧
    x.client.state = .authenticating ∧ Unused b c message.nonce ∧ message.deviceId = d ∧
    y.1.accounts.loadCrypto d = some info) (fun _ => True) tr

omit [DecidableEq Dev] in
/-- The client has asked the partner for access, signed by the key of the message, and got the id. -/
def Accessed (tr : List (Transition Dev B)) (c : ℕ) (d partner : Dev) : Prop :=
  Since (fun b y => ∃ env x message,
    Handles y c env x (.access message) ⟨message.signAlgorithm, message.signKey⟩ ∧
    x.client.state = .authenticating ∧ Unused b c message.nonce ∧ env.deviceId = d ∧ message.partnerId = partner)
    (fun _ => True) tr

/-- The client has asked for access, and then a client that was idle as the partner has handled an acceptance of the
id that the partner has signed. -/
def Granted (tr : List (Transition Dev B)) (c : ℕ) (d : Dev) : Prop :=
  Since (fun b y => ∃ p env x message info,
    Handles y p env x (.accept message) ⟨info.signscheme, info.signkey⟩ ∧ message.deviceId = d ∧
    x.client.state = .idle ∧ y.1.accounts.loadCrypto x.client.deviceId = some info ∧
    Accessed b c d x.client.deviceId) (fun _ => True) tr

def Authenticated (tr : List (Transition Dev B)) (c : ℕ) (d : Dev) : Prop :=
  Registered tr c d ∨ LoggedIn tr c d ∨ Granted tr c d

section

variable {tr : List (Transition Dev B)} {c : ℕ} {d partner : Dev} (y : Transition Dev B)

omit [DecidableEq Dev] in
theorem Issued.snoc {nonce : QByteArray} (h : Issued tr c nonce) : Issued (tr ++ [y]) c nonce := by
  obtain ⟨w, hw, hrest⟩ := h
  exact ⟨w, List.mem_append_left _ hw, hrest⟩

omit [DecidableEq Dev] in
theorem Accessed.snoc (h : Accessed tr c d partner) : Accessed (tr ++ [y]) c d partner := Since.snoc h trivial

theorem Granted.snoc (h : Granted tr c d) : Granted (tr ++ [y]) c d := Since.snoc h trivial

theorem Authenticated.snoc (h : Authenticated tr c d) : Authenticated (tr ++ [y]) c d := by
  rcases h with h | h | h
  · exact Or.inl (Since.snoc h trivial)
  · exact Or.inr (Or.inl (Since.snoc h trivial))
  · exact Or.inr (Or.inr (Since.snoc h trivial))

end

/-! ### How clients evolve -/

/-- What no step takes back. -/
structure Advance (c c' : Client Dev B) : Prop where
  authenticating : c'.state = .authenticating → c.state = .authenticating
  error : c.state = .error → c'.state = .error
  deviceId : c.state ≠ .authenticating → c'.deviceId = c.deviceId
  idle : c.state = .idle → c'.state = .idle ∨ c'.state = .error
  awaits : c'.state = .awatingGrant →
    c.state = .authenticating ∨ c.state = .awatingGrant ∧ c'.cachedAccessRequest = c.cachedAccessRequest

section

omit [DecidableEq Dev]

variable {c c' : Client Dev B}

theorem Advance.refl (c : Client Dev B) : Advance c c where
  authenticating := id
  error := id
  deviceId _ := rfl
  idle := Or.inl
  awaits h := Or.inr ⟨h, rfl⟩

theorem Advance.of_error (hdev : c.state ≠ .authenticating → c'.deviceId = c.deviceId) (h : c'.state = .error) :
    Advance c c' where
  authenticating h' := by
    rw [h] at h'
    cases h'
  error _ := h
  deviceId := hdev
  idle _ := Or.inr h
  awaits h' := by
    rw [h] at h'
    cases h'

theorem Advance.of_state (hstate : c'.state = c.state) (hdev : c.state ≠ .authenticating → c'.deviceId = c.deviceId)
    (hcached : c'.cachedAccessRequest = c.cachedAccessRequest) : Advance c c' where
  authenticating h := hstate ▸ h
  error h := hstate.trans h
  deviceId := hdev
  idle h := Or.inl (hstate.trans h)
  awaits h := Or.inr ⟨hstate ▸ h, hcached⟩

/-- A client that was not known yet. -/
theorem Advance.of_authenticating (h : c.state = .authenticating) : Advance c c' where
  authenticating _ := h
  error he := by
    rw [h] at he
    cases he
  deviceId hne := absurd h hne
  idle he := by
    rw [h] at he
    cases he
  awaits _ := Or.inl h

theorem Outcome.advance {env : Env Dev} {task : Task Dev B} {a : Accounts Dev B} {t : TaskState Dev B}
    [DecidableEq Dev] (h : Outcome env task c a t) : Advance c t.client := by
  cases h with
  | quiet hquiet herror htask =>
    rcases hquiet.state with hs | hs
    · exact .of_state hs hquiet.deviceId hquiet.cached
    · exact .of_error hquiet.deviceId hs
  | identified htask hstate hdev hcached hnonce hacc hsignals => exact .of_state hstate (fun _ => hdev) hcached
  | registered message info htask hstate hnonce hnew hinfo hidle hdev hdevices hsignals =>
    exact .of_authenticating hstate
  | loggedIn message info htask hstate hnonce hinfo hidle hdev hdevices hsignals => exact .of_authenticating hstate
  | accessed message proof htask hstate hnonce hawaits hdev hcached hacc hproof hsignals =>
    exact .of_authenticating hstate
  | granted message htask hstate hmessage hidle hdev hdevices hsignals =>
    refine ⟨fun h => ?_, fun h => ?_, fun _ => hdev, fun _ => Or.inl hidle, fun h => ?_⟩
    · rw [hidle] at h
      cases h
    · rw [hstate] at h
      cases h
    · rw [hidle] at h
      cases h
  | accepted message info htask hstate hinfo hclient hacc hsignals =>
    rw [hclient]
    exact .refl c

/-- The client is not new, and if it waits for its grant, `P` holds for its id and its request. -/
def Waits (P : Dev → AccessMessage Dev B → Prop) (c : Client Dev B) : Prop :=
  c.state ≠ .authenticating ∧ (c.state = .awatingGrant → P c.deviceId c.cachedAccessRequest)

theorem Waits.advance {P : Dev → AccessMessage Dev B → Prop} (h : Waits P c) (ha : Advance c c') : Waits P c' := by
  refine ⟨fun he => h.1 (ha.authenticating he), fun he => ?_⟩
  rcases ha.awaits he with hs | ⟨hs, hcached⟩
  · exact absurd hs h.1
  · rw [ha.deviceId h.1, hcached]
    exact h.2 hs

theorem Waits.mono {P Q : Dev → AccessMessage Dev B → Prop} (h : Waits P c) (hPQ : ∀ d m, P d m → Q d m) : Waits Q c :=
  ⟨h.1, fun hs => hPQ _ _ (h.2 hs)⟩

end

/-! ### What the server keeps -/

section

omit [DecidableEq Dev]

/-- The step from `s` to `t` advances the clients of `s`. -/
structure Evolves (s t : ClientConnector Dev B) : Prop where
  next : s.nextConnection ≤ t.nextConnection
  client : ∀ c x', c < s.nextConnection → t.connections c = some x' →
    ∃ x, s.connections c = some x ∧ Advance x.client x'.client

/-- A fact about client `c` as long as it waits for its grant. -/
def Settled (s : ClientConnector Dev B) (c : ℕ) (P : Dev → AccessMessage Dev B → Prop) : Prop :=
  c < s.nextConnection ∧ ∀ x, s.connections c = some x → Waits P x.client

/-- The device of client `c`, which has been idle. -/
def KnownAs (s : ClientConnector Dev B) (c : ℕ) (d : Dev) : Prop :=
  c < s.nextConnection ∧ ∀ x, s.connections c = some x →
    x.client.deviceId = d ∧ (x.client.state = .idle ∨ x.client.state = .error)

variable {s t : ClientConnector Dev B} {c : ℕ}

theorem Settled.evolves {P Q : Dev → AccessMessage Dev B → Prop} (h : Settled s c P) (he : Evolves s t)
    (hPQ : ∀ d m, P d m → Q d m) : Settled t c Q := by
  refine ⟨lt_of_lt_of_le h.1 he.next, fun x' hx' => ?_⟩
  obtain ⟨x, hx, ha⟩ := he.client c x' h.1 hx'
  exact ((h.2 x hx).advance ha).mono hPQ

theorem KnownAs.evolves {d : Dev} (h : KnownAs s c d) (he : Evolves s t) : KnownAs t c d := by
  refine ⟨lt_of_lt_of_le h.1 he.next, fun x' hx' => ?_⟩
  obtain ⟨x, hx, ha⟩ := he.client c x' h.1 hx'
  obtain ⟨hdev, hs⟩ := h.2 x hx
  have hne : x.client.state ≠ .authenticating := by
    rcases hs with hs | hs
    · rw [hs]
      exact fun h => (nomatch h)
    · rw [hs]
      exact fun h => (nomatch h)
  refine ⟨(ha.deviceId hne).trans hdev, ?_⟩
  rcases hs with hs | hs
  · exact ha.idle hs
  · exact Or.inr (ha.error hs)

end

/-- A queued signal is about clients that have sent it for a reason. -/
def EventSound (tr : List (Transition Dev B)) (s : ClientConnector Dev B) : Event Dev B → Prop
  | .clientConnected c d => KnownAs s c d
  | .proofRequested c partner message =>
    Settled s c fun d request => d = message.deviceId ∧ request.partnerId = partner
  | .proofDone l partner (some message) => partner = message.deviceId ∧
    Settled s l.client fun d _ => d = l.devId ∧ (l.devId = partner → Granted tr l.client d)
  | _ => True

omit [DecidableEq Dev] in
/-- The partner of the connection is the one that the waiting client has named. -/
def LinkSound (s : ClientConnector Dev B) (l : ProofLink Dev) : Prop :=
  ∃ partner, KnownAs s l.pClient partner ∧
    Settled s l.client fun d request => d = l.devId ∧ request.partnerId = partner

/-- What holds for the client `c` and its queue. -/
structure ConnectionSound (tr : List (Transition Dev B)) (c : ℕ) (x : Connection Dev B) : Prop where
  nonce : (∃ q, x.queue = .identify :: q ∧ .identify ∉ q) ∨
    .identify ∉ x.queue ∧ (x.client.state = .authenticating → Issued tr c x.client.loginNonce)
  idle : x.client.state = .idle → Authenticated tr c x.client.deviceId
  awaits : x.client.state = .awatingGrant →
    Accessed tr c x.client.deviceId x.client.cachedAccessRequest.partnerId
  results : ∀ message, .proofResult (some message) ∈ x.queue →
    Waits (fun d _ => d = message.deviceId ∧ Granted tr c d) x.client

/-- From `x` to `x'` no task is run: tasks are queued, or all but the first are dropped, and the client may fail. -/
structure Requeues (tr : List (Transition Dev B)) (c : ℕ) (x x' : Connection Dev B) : Prop where
  client : x'.client = x.client ∨ x'.client = { x.client with state := .error }
  queue : (∃ l, x'.queue = x.queue ++ l ∧ .identify ∉ l ∧ ∀ message, .proofResult (some message) ∈ l →
    Waits (fun d _ => d = message.deviceId ∧ Granted tr c d) x.client) ∨ x'.queue = x.queue.take 1

/-- From `s` to `t` tasks are queued or dropped, and clients fail or go. -/
structure Queues (tr : List (Transition Dev B)) (s t : ClientConnector Dev B) : Prop where
  next : t.nextConnection = s.nextConnection
  connections : ∀ c x', t.connections c = some x' → ∃ x, s.connections c = some x ∧ Requeues tr c x x'
  clients : ∀ d c, t.clients d = some c → s.clients d = some c ∨ KnownAs s c d
  links : ∀ l ∈ t.links, l ∈ s.links ∨ LinkSound s l
  events : ∀ e ∈ t.events, e ∈ s.events

structure Sound (tr : List (Transition Dev B)) (s : ClientConnector Dev B) : Prop where
  fresh : ∀ c x, s.connections c = some x → c < s.nextConnection
  clients : ∀ d c, s.clients d = some c → KnownAs s c d
  links : ∀ l ∈ s.links, LinkSound s l
  events : ∀ e ∈ s.events, EventSound tr s e
  connections : ∀ c x, s.connections c = some x → ConnectionSound tr c x
  used : ∀ c, (∃ w ∈ tr, Attempts c w) → Settled s c fun _ _ => True

section

variable {tr : List (Transition Dev B)} {s t : ClientConnector Dev B} {y : Transition Dev B}

theorem EventSound.evolves {e : Event Dev B} (h : EventSound tr s e) (he : Evolves s t) :
    EventSound (tr ++ [y]) t e := by
  match e, h with
  | .clientConnected c d, h => exact KnownAs.evolves h he
  | .proofRequested c partner message, h => exact Settled.evolves h he fun _ _ h => h
  | .proofDone l partner (some message), h =>
    exact ⟨h.1, h.2.evolves he fun d _ hd => ⟨hd.1, fun hl => (hd.2 hl).snoc y⟩⟩
  | .proofDone l partner none, _ => trivial
  | .acceptDone pClient partner, _ => trivial
  | .forceDisconnect partner, _ => trivial

omit [DecidableEq Dev] in
theorem LinkSound.evolves {l : ProofLink Dev} (h : LinkSound s l) (he : Evolves s t) : LinkSound t l := by
  obtain ⟨partner, hp, hc⟩ := h
  exact ⟨partner, hp.evolves he, hc.evolves he fun _ _ h => h⟩

theorem Requeues.advance {c : ℕ} {x x' : Connection Dev B} (h : Requeues tr c x x') : Advance x.client x'.client := by
  rcases h.client with hc | hc
  · rw [hc]
    exact .refl _
  · rw [hc]
    exact .of_error (fun _ => rfl) rfl

theorem ConnectionSound.requeues {c : ℕ} {x x' : Connection Dev B} (h : ConnectionSound tr c x)
    (hr : Requeues tr c x x') : ConnectionSound (tr ++ [y]) c x' := by
  have hadvance := hr.advance
  obtain ⟨hclient, hqueue⟩ := hr
  have hstate : x'.client.state = .error ∨ x'.client = x.client := by
    rcases hclient with hc | hc
    · exact Or.inr hc
    · exact Or.inl (by rw [hc])
  refine ⟨?_, fun hs => ?_, fun hs => ?_, fun message hm => ?_⟩
  · have hissued : (x.client.state = .authenticating → Issued tr c x.client.loginNonce) →
        x'.client.state = .authenticating → Issued (tr ++ [y]) c x'.client.loginNonce := by
      intro hi hs
      rcases hstate with he | he
      · rw [he] at hs
        cases hs
      · rw [he] at hs ⊢
        exact (hi hs).snoc y
    rcases h.nonce with ⟨q, hq, hnot⟩ | ⟨hnot, hi⟩
    · refine Or.inl ?_
      rcases hqueue with ⟨l, hl, hid, -⟩ | hl
      · exact ⟨q ++ l, by rw [hl, hq]; rfl, fun hm => (List.mem_append.mp hm).elim hnot hid⟩
      · exact ⟨[], by rw [hl, hq]; rfl, List.not_mem_nil⟩
    · refine Or.inr ⟨fun hm => ?_, hissued hi⟩
      rcases hqueue with ⟨l, hl, hid, -⟩ | hl
      · rw [hl] at hm
        exact (List.mem_append.mp hm).elim hnot hid
      · rw [hl] at hm
        exact hnot (List.mem_of_mem_take hm)
  · rcases hstate with he | he
    · rw [he] at hs
      cases hs
    · rw [he] at hs ⊢
      exact (h.idle hs).snoc y
  · rcases hstate with he | he
    · rw [he] at hs
      cases hs
    · rw [he] at hs ⊢
      exact (h.awaits hs).snoc y
  · have hold : Waits (fun d _ => d = message.deviceId ∧ Granted tr c d) x.client := by
      rcases hqueue with ⟨l, hl, -, hres⟩ | hl
      · rw [hl] at hm
        exact (List.mem_append.mp hm).elim (h.results message) (hres message)
      · rw [hl] at hm
        exact h.results message (List.mem_of_mem_take hm)
    exact (hold.advance hadvance).mono fun d _ hd => ⟨hd.1, hd.2.snoc y⟩

end

/-! ### The steps -/

section

variable {tr : List (Transition Dev B)} {s t : ClientConnector Dev B} {y : Transition Dev B}

theorem Sound.of_evolves (h : Sound tr s) (he : Evolves s t)
    (hfresh : ∀ c x, t.connections c = some x → c < t.nextConnection)
    (hclients : ∀ d c, t.clients d = some c → s.clients d = some c ∨ KnownAs t c d)
    (hlinks : ∀ l ∈ t.links, l ∈ s.links ∨ LinkSound t l)
    (hevents : ∀ e ∈ t.events, e ∈ s.events ∨ EventSound (tr ++ [y]) t e)
    (hconnections : ∀ c x, t.connections c = some x → ConnectionSound (tr ++ [y]) c x)
    (hattempts : ∀ c, Attempts c y → Settled t c fun _ _ => True) : Sound (tr ++ [y]) t where
  fresh := hfresh
  clients d c hc := by
    rcases hclients d c hc with hold | hnew
    · exact (h.clients d c hold).evolves he
    · exact hnew
  links l hl := by
    rcases hlinks l hl with hold | hnew
    · exact (h.links l hold).evolves he
    · exact hnew
  events e hm := by
    rcases hevents e hm with hold | hnew
    · exact (h.events e hold).evolves he
    · exact hnew
  connections := hconnections
  used c := by
    rintro ⟨w, hw, ha⟩
    rcases List.mem_append.mp hw with hw | hw
    · exact (h.used c ⟨w, hw, ha⟩).evolves he fun _ _ h => h
    · rw [List.mem_singleton] at hw
      subst hw
      exact hattempts c ha

theorem Queues.evolves (h : Queues tr s t) : Evolves s t := by
  refine ⟨le_of_eq h.next.symm, fun c x' _ hx' => ?_⟩
  obtain ⟨x, hx, hr⟩ := h.connections c x' hx'
  exact ⟨x, hx, hr.advance⟩

/-- A step that runs no task. -/
theorem Sound.queues (h : Sound tr s) (hq : Queues tr s t) (hy : ∀ c env, y.2.1 ≠ .task c env) :
    Sound (tr ++ [y]) t := by
  refine h.of_evolves hq.evolves (fun c x' hx' => ?_) (fun d c hc => ?_) (fun l hl => ?_)
    (fun e hm => Or.inl (hq.events e hm)) (fun c x' hx' => ?_) ?_
  · obtain ⟨x, hx, -⟩ := hq.connections c x' hx'
    rw [hq.next]
    exact h.fresh c x hx
  · exact (hq.clients d c hc).imp_right fun hk => hk.evolves hq.evolves
  · exact (hq.links l hl).imp_right fun hk => hk.evolves hq.evolves
  · obtain ⟨x, hx, hr⟩ := hq.connections c x' hx'
    exact (h.connections c x hx).requeues hr
  · rintro c ⟨env, x, message, signature, hex, -⟩
    exact absurd hex.1 (hy c env)

namespace Requeues

variable {c : ℕ} {x : Connection Dev B}

theorem refl (x : Connection Dev B) : Requeues tr c x x := ⟨Or.inl rfl, Or.inl ⟨[], by simp, by simp, by simp⟩⟩

theorem enqueue {task : Task Dev B} (hid : task ≠ .identify) (hres : ∀ message, task = .proofResult (some message) →
    Waits (fun d _ => d = message.deviceId ∧ Granted tr c d) x.client) : Requeues tr c x (x.enqueue task) := by
  refine ⟨Or.inl rfl, Or.inl ⟨[task], rfl, ?_, fun message hm => ?_⟩⟩
  · rw [List.mem_singleton]
    exact hid.symm
  · rw [List.mem_singleton] at hm
    exact hres message hm.symm

end Requeues

omit [DecidableEq Dev] in
theorem connections_modify {c c' : ℕ} {f : Connection Dev B → Connection Dev B} {x' : Connection Dev B}
    (h : (s.modify c f).connections c' = some x') :
    ∃ x, s.connections c' = some x ∧ (x' = x ∨ c' = c ∧ x' = f x) := by
  have hx' : Function.update s.connections c ((s.connections c).map f) c' = some x' := h
  rcases eq_or_ne c' c with rfl | hne
  · rw [Function.update_self, Option.map_eq_some_iff] at hx'
    obtain ⟨x, hx, rfl⟩ := hx'
    exact ⟨x, hx, Or.inr ⟨rfl, rfl⟩⟩
  · rw [Function.update_of_ne hne] at hx'
    exact ⟨x', hx', Or.inl rfl⟩

theorem requeues_modify {c : ℕ} {f : Connection Dev B → Connection Dev B}
    (hf : ∀ x, s.connections c = some x → Requeues tr c x (f x)) (c' : ℕ) (x' : Connection Dev B)
    (h : (s.modify c f).connections c' = some x') : ∃ x, s.connections c' = some x ∧ Requeues tr c' x x' := by
  obtain ⟨x, hx, rfl | ⟨rfl, rfl⟩⟩ := connections_modify h
  · exact ⟨x', hx, .refl x'⟩
  · exact ⟨x, hx, hf x hx⟩

namespace Queues

/-- Only the events have changed, or nothing. -/
theorem of_events {events : List (Event Dev B)} (hev : ∀ e ∈ events, e ∈ s.events) :
    Queues tr s { s with events := events } :=
  ⟨rfl, fun _ x hx => ⟨x, hx, .refl x⟩, fun _ _ => Or.inl, fun _ => Or.inl, hev⟩

theorem modify {events : List (Event Dev B)} (hev : ∀ e ∈ events, e ∈ s.events) {c : ℕ}
    {f : Connection Dev B → Connection Dev B} (hf : ∀ x, s.connections c = some x → Requeues tr c x (f x)) :
    Queues tr s (ClientConnector.modify { s with events := events } c f) :=
  ⟨rfl, requeues_modify hf, fun _ _ => Or.inl, fun _ => Or.inl, hev⟩

/-- A queued signal is delivered. -/
theorem handle {e : Event Dev B} {events : List (Event Dev B)} (h : Sound tr s) (hev : s.events = e :: events) :
    Queues tr s (ClientConnector.handle { s with events := events } e) := by
  have hsub : ∀ e' ∈ events, e' ∈ s.events := fun e' he' => by
    rw [hev]
    exact List.mem_cons_of_mem _ he'
  have he : EventSound tr s e := h.events e (by rw [hev]; exact List.mem_cons_self)
  cases e with
  | clientConnected sender deviceId =>
    show Queues _ _ (ClientConnector.clientConnected _ _ _)
    unfold ClientConnector.clientConnected
    split_ifs
    · exact .of_events hsub
    · refine ⟨rfl, requeues_modify fun x _ => ⟨Or.inl rfl, Or.inl ⟨[], by simp, by simp, by simp⟩⟩, fun d c hc => ?_,
        fun _ => Or.inl, hsub⟩
      have hc' : Function.update s.clients deviceId (some sender) d = some c := hc
      rcases eq_or_ne d deviceId with rfl | hne
      · rw [Function.update_self] at hc'
        rw [← Option.some.inj hc']
        exact Or.inr he
      · rw [Function.update_of_ne hne] at hc'
        exact Or.inl hc'
  | proofRequested sender partner message =>
    show Queues _ _ (ClientConnector.proofRequested _ _ _ _)
    unfold ClientConnector.proofRequested
    split_ifs
    · exact .of_events hsub
    · split
      · exact .modify hsub fun x _ => .enqueue (fun h => nomatch h) fun _ h => nomatch h
      · rename_i pClient hp
        refine ⟨rfl, requeues_modify fun x _ => .enqueue (fun h => (nomatch h)) fun _ h => (nomatch h),
          fun _ _ => Or.inl, fun l hl => ?_, hsub⟩
        rcases List.mem_append.mp hl with hl | hl
        · exact Or.inl hl
        · rw [List.mem_singleton] at hl
          subst hl
          exact Or.inr ⟨partner, h.clients partner pClient hp, he⟩
  | proofDone l partner message =>
    show Queues _ _ (ClientConnector.proofDone _ _ _ _)
    unfold ClientConnector.proofDone
    have hres : l.devId = partner → ∀ x, s.connections l.client = some x →
        Requeues tr l.client x (x.enqueue (.proofResult message)) := by
      intro hpartner x hx
      refine .enqueue (fun h => nomatch h) fun m hm => ?_
      cases hm
      obtain ⟨hdev, hsettled⟩ := he
      refine (hsettled.2 x hx).mono fun d _ hd => ⟨?_, hd.2 hpartner⟩
      rw [hd.1, hpartner, hdev]
    split_ifs with hpartner hp
    · exact ⟨rfl, requeues_modify (hres hpartner), fun _ _ => Or.inl,
        fun l' hl' => Or.inl (List.mem_of_mem_filter hl'), hsub⟩
    · exact .modify hsub (hres hpartner)
    · exact .of_events hsub
  | acceptDone pClient partner =>
    exact .modify hsub fun x _ => .enqueue (fun h => nomatch h) fun _ h => nomatch h
  | forceDisconnect partner =>
    show Queues _ _ (ClientConnector.dropConnection _ _)
    unfold ClientConnector.dropConnection
    split
    · exact .of_events hsub
    · exact .modify hsub fun x _ => ⟨Or.inl rfl, Or.inl ⟨[], by simp [Connection.close], by simp, by simp⟩⟩

/-- A deleted client takes its signal connections and events with it. -/
theorem destroy (c : ℕ) (x : Connection Dev B) : Queues tr s (s.destroy c x) := by
  refine ⟨rfl, fun c' x' hx' => ?_, fun d c' hc => Or.inl ?_, fun l hl => Or.inl (List.mem_of_mem_filter hl),
    fun e he => List.mem_of_mem_filter he⟩
  · have hx'' : Function.update s.connections c none c' = some x' := hx'
    rcases eq_or_ne c' c with rfl | hne
    · rw [Function.update_self] at hx''
      cases hx''
    · rw [Function.update_of_ne hne] at hx''
      exact ⟨x', hx'', .refl x'⟩
  · rcases hr : x.registered with _ | deviceId
    · simp only [ClientConnector.destroy, hr] at hc
      exact hc
    · simp only [ClientConnector.destroy, hr] at hc
      rcases eq_or_ne d deviceId with rfl | hne
      · rw [Function.update_self] at hc
        cases hc
      · rwa [Function.update_of_ne hne] at hc

end Queues

omit [DecidableEq Dev] in
theorem connections_newConnection [DecidableEq B] [Inhabited Dev] [Inhabited B] {limits : Limits} {c : ℕ}
    {x' : Connection Dev B} (h : (s.newConnection limits).connections c = some x') :
    c = s.nextConnection ∧ x' = .create limits ∨ s.connections c = some x' := by
  have hx : Function.update s.connections s.nextConnection (some (.create limits)) c = some x' := h
  rcases eq_or_ne c s.nextConnection with rfl | hne
  · rw [Function.update_self] at hx
    exact Or.inl ⟨rfl, (Option.some.inj hx).symm⟩
  · rw [Function.update_of_ne hne] at hx
    exact Or.inr hx

omit [DecidableEq Dev] in
theorem evolves_newConnection [DecidableEq B] [Inhabited Dev] [Inhabited B] (limits : Limits) :
    Evolves s (s.newConnection limits) := by
  refine ⟨Nat.le_succ _, fun c x' hc hx' => ?_⟩
  rcases connections_newConnection hx' with ⟨rfl, -⟩ | hx
  · exact absurd hc (lt_irrefl _)
  · exact ⟨x', hx, .refl _⟩

theorem Sound.newConnection [DecidableEq B] [Inhabited Dev] [Inhabited B] (h : Sound tr s) (limits : Limits)
    (hy : ∀ c env, y.2.1 ≠ .task c env) : Sound (tr ++ [y]) (s.newConnection limits) := by
  refine h.of_evolves (evolves_newConnection limits) (fun c x' hx' => ?_) (fun _ _ => Or.inl) (fun _ => Or.inl)
    (fun _ => Or.inl) (fun c x' hx' => ?_) ?_
  · rcases connections_newConnection hx' with ⟨rfl, -⟩ | hx
    · exact Nat.lt_succ_self _
    · exact Nat.lt_succ_of_lt (h.fresh c x' hx)
  · rcases connections_newConnection hx' with ⟨rfl, rfl⟩ | hx
    · refine ⟨Or.inl ⟨[], rfl, List.not_mem_nil⟩, fun h => (nomatch h), fun h => (nomatch h), fun m hm => ?_⟩
      cases List.mem_singleton.mp hm
    · exact (h.connections c x' hx).requeues (.refl x')
  · rintro c ⟨env, x, message, signature, hex, -⟩
    exact absurd hex.1 (hy c env)

end

/-! ### Tasks -/

section

variable {tr : List (Transition Dev B)} {s : ClientConnector Dev B} {env : Env Dev} {c : ℕ} {x : Connection Dev B}
  {task : Task Dev B} {q : List (Task Dev B)} {u : TaskState Dev B}

omit [DecidableEq Dev] in
theorem executes_ran (hx : s.connections c = some x) (hq : x.queue = task :: q) (t : ClientConnector Dev B) :
    Executes (s, .task c env, t) c env x task := ⟨rfl, hx, by rw [hq]; rfl⟩

omit [DecidableEq Dev] in
theorem connections_ran (hq : x.queue = task :: q) {c' : ℕ} {x' : Connection Dev B}
    (h : (s.ran c x u).connections c' = some x') :
    c' = c ∧ x' = { x with client := u.client, queue := q } ∨ c' ≠ c ∧ s.connections c' = some x' := by
  have h' : Function.update s.connections c (some { x with client := u.client, queue := x.queue.tail }) c' = some x' := h
  rw [hq] at h'
  rcases eq_or_ne c' c with rfl | hne
  · rw [Function.update_self] at h'
    exact Or.inl ⟨rfl, (Option.some.inj h').symm⟩
  · rw [Function.update_of_ne hne] at h'
    exact Or.inr ⟨hne, h'⟩

theorem evolves_ran (hx : s.connections c = some x) (hq : x.queue = task :: q)
    (ho : Outcome env task x.client s.accounts u) : Evolves s (s.ran c x u) := by
  refine ⟨le_refl _, fun c' x' _ hx' => ?_⟩
  rcases connections_ran hq hx' with ⟨rfl, rfl⟩ | ⟨-, hx'⟩
  · exact ⟨x, hx, ho.advance⟩
  · exact ⟨x', hx', .refl _⟩

/-- A client that is authenticating has not used the nonce of its connection. -/
theorem Sound.unused (h : Sound tr s) (hx : s.connections c = some x)
    (hq : x.queue = task :: q) (htask : task ≠ .identify) (hstate : x.client.state = .authenticating) :
    Unused tr c x.client.loginNonce := by
  have hissued : Issued tr c x.client.loginNonce := by
    rcases (h.connections c x hx).nonce with ⟨q', hq', -⟩ | ⟨-, hi⟩
    · rw [hq'] at hq
      exact absurd (List.cons.inj hq).1.symm htask
    · exact hi hstate
  exact ⟨hissued, fun w hw ha => ((h.used c ⟨w, hw, ha⟩).2 x hx).1 hstate⟩

theorem connectionSound_ran (h : Sound tr s) (hx : s.connections c = some x) (hq : x.queue = task :: q)
    (ho : Outcome env task x.client s.accounts u) :
    ConnectionSound (tr ++ [(s, .task c env, s.ran c x u)]) c { x with client := u.client, queue := q } := by
  have hc := h.connections c x hx
  have hex : Executes (s, .task c env, s.ran c x u) c env x task := executes_ran hx hq _
  have hresults : ∀ message, .proofResult (some message) ∈ q → Waits
      (fun d _ => d = message.deviceId ∧ Granted (tr ++ [(s, .task c env, s.ran c x u)]) c d) u.client := by
    intro message hm
    have hold := hc.results message (by rw [hq]; exact List.mem_cons_of_mem _ hm)
    exact (hold.advance ho.advance).mono fun d _ hd => ⟨hd.1, hd.2.snoc _⟩
  have hnot : .identify ∉ q := by
    rcases hc.nonce with ⟨q', hq', hnot⟩ | ⟨hnot, -⟩
    · rw [hq'] at hq
      rw [← (List.cons.inj hq).2]
      exact hnot
    · rw [hq] at hnot
      exact fun hm => hnot (List.mem_cons_of_mem _ hm)
  -- what the outcome has to supply
  have hmk : (u.client.state = .authenticating →
        Issued (tr ++ [(s, .task c env, s.ran c x u)]) c u.client.loginNonce) →
      (u.client.state = .idle → Authenticated (tr ++ [(s, .task c env, s.ran c x u)]) c u.client.deviceId) →
      (u.client.state = .awatingGrant → Accessed (tr ++ [(s, .task c env, s.ran c x u)]) c u.client.deviceId
        u.client.cachedAccessRequest.partnerId) →
      ConnectionSound (tr ++ [(s, .task c env, s.ran c x u)]) c { x with client := u.client, queue := q } :=
    fun h1 h2 h3 => ⟨Or.inr ⟨hnot, h1⟩, h2, h3, hresults⟩
  cases ho with
  | quiet hquiet herror htask =>
    have hback : ∀ st, u.client.state = st → st ≠ .error → x.client.state = st := by
      rintro st rfl hne
      rcases hquiet.state with he | he
      · exact he.symm
      · exact absurd he hne
    refine hmk (fun hs => ?_) (fun hs => ?_) fun hs => ?_
    · have hst := hback _ hs fun h => nomatch h
      rw [hquiet.nonce hs]
      exact (h.unused hx hq htask hst).1.snoc _
    · have hst := hback _ hs fun h => nomatch h
      have hdev : u.client.deviceId = x.client.deviceId := hquiet.deviceId (by
        show x.client.state ≠ _
        rw [hst]
        exact fun h => nomatch h)
      rw [hdev]
      exact (hc.idle hst).snoc _
    · have hst := hback _ hs fun h => nomatch h
      have hdev : u.client.deviceId = x.client.deviceId := hquiet.deviceId (by
        show x.client.state ≠ _
        rw [hst]
        exact fun h => nomatch h)
      rw [hdev, hquiet.cached]
      exact (hc.awaits hst).snoc _
  | identified htask hstate hdev hcached hnonce hacc hsignals =>
    subst htask
    refine hmk (fun _ => ?_) (fun hs => ?_) fun hs => ?_
    · exact ⟨_, List.mem_append_right _ List.mem_cons_self, env, x, hex, hnonce.symm⟩
    · rw [hdev]
      exact (hc.idle (hstate ▸ hs)).snoc _
    · rw [hdev, hcached]
      exact (hc.awaits (hstate ▸ hs)).snoc _
  | registered message info htask hstate hnonce hnew hinfo hidle hdev hdevices hsignals =>
    subst htask
    have hunused := h.unused hx hq (Handler.binary_ne_identify _) hstate
    rw [hnonce] at hunused
    refine hmk (fun hs => absurd (hidle.symm.trans hs) fun h => nomatch h) (fun _ => ?_) fun hs =>
      absurd (hidle.symm.trans hs) fun h => nomatch h
    rw [hdev]
    exact Or.inl (Since.now ⟨env, x, message, info, hex, hstate, hunused, hnew, hinfo⟩)
  | loggedIn message info htask hstate hnonce hinfo hidle hdev hdevices hsignals =>
    subst htask
    have hunused := h.unused hx hq (Handler.binary_ne_identify _) hstate
    rw [hnonce] at hunused
    have hne : ∀ st, u.client.state = st → st = .idle ∨ st = .error := fun st hs => hs ▸ hidle
    refine hmk (fun hs => (hne _ hs).elim (fun h => nomatch h) fun h => nomatch h) (fun _ => ?_) fun hs =>
      (hne _ hs).elim (fun h => nomatch h) fun h => nomatch h
    rw [hdev]
    exact Or.inr (Or.inl (Since.now ⟨env, x, message, info, hex, hstate, hunused, rfl, hinfo⟩))
  | accessed message proof htask hstate hnonce hawaits hdev hcached hacc hproof hsignals =>
    subst htask
    have hunused := h.unused hx hq (Handler.binary_ne_identify _) hstate
    rw [hnonce] at hunused
    refine hmk (fun hs => absurd (hawaits.symm.trans hs) fun h => nomatch h)
      (fun hs => absurd (hawaits.symm.trans hs) fun h => nomatch h) fun _ => ?_
    rw [hdev, hcached]
    exact Since.now ⟨env, x, message, hex, hstate, hunused, rfl, rfl⟩
  | granted message htask hstate hmessage hidle hdev hdevices hsignals =>
    subst htask
    refine hmk (fun hs => absurd (hidle.symm.trans hs) fun h => nomatch h) (fun _ => ?_) fun hs =>
      absurd (hidle.symm.trans hs) fun h => nomatch h
    have hgranted := (hc.results message (by rw [hq]; exact List.mem_cons_self)).2 hstate
    rw [hdev]
    exact Or.inr (Or.inr (hgranted.2.snoc _))
  | accepted message info htask hstate hinfo hclient hacc hsignals =>
    refine hmk (fun hs => ?_) (fun hs => ?_) fun hs => ?_
    · rw [hclient, hstate] at hs
      cases hs
    · rw [hclient]
      exact (hc.idle hstate).snoc _
    · rw [hclient, hstate] at hs
      cases hs

theorem eventSound_of_harmless {t : ClientConnector Dev B} {signal : Signal Dev B} (h : signal.IsHarmless)
    {e : Event Dev B} (he : e ∈ s.queued c x signal) : EventSound tr t e := by
  match signal, h with
  | .proofDone partner none, _ =>
    obtain ⟨l, -, rfl⟩ := List.mem_map.mp he
    trivial
  | .forceDisconnect partner, _ =>
    unfold ClientConnector.queued at he
    split_ifs at he
    · rw [List.mem_singleton] at he
      subst he
      trivial
    · cases he

theorem eventSound_of_connected {t : ClientConnector Dev B} {d : Dev} (hk : KnownAs t c d) {e : Event Dev B}
    (he : e ∈ s.queued c x (.connected d)) : EventSound tr t e := by
  rcases List.mem_cons.mp he with rfl | he
  · exact hk
  · obtain ⟨l, -, rfl⟩ := List.mem_map.mp he
    trivial

/-- The partner of a link has accepted. -/
theorem eventSound_of_accepted (h : Sound tr s) (hx : s.connections c = some x) (hq : x.queue = task :: q)
    {message : AcceptMessage Dev B} {info : DeviceInfo B}
    (htask : task = .binaryMessageReceived (.message (.accept message) (.genuine ⟨info.signscheme, info.signkey⟩)))
    (hstate : x.client.state = .idle) (hinfo : s.accounts.loadCrypto x.client.deviceId = some info)
    (hev : Evolves s (s.ran c x u)) {e : Event Dev B}
    (he : e ∈ s.queued c x (.proofDone message.deviceId (some message))) :
    EventSound (tr ++ [(s, .task c env, s.ran c x u)]) (s.ran c x u) e := by
  obtain ⟨l, hl, rfl⟩ := List.mem_map.mp he
  obtain ⟨hl, hpc⟩ := List.mem_filter.mp hl
  have hp : l.pClient = c := of_decide_eq_true hpc
  obtain ⟨partner, hknown, hlt, hsettled⟩ := h.links l hl
  rw [hp] at hknown
  have hpartner : x.client.deviceId = partner := (hknown.2 x hx).1
  -- the client that waits has asked this partner
  have hasked : Settled s l.client fun d _ => d = l.devId ∧ Accessed tr l.client d partner := by
    refine ⟨hlt, fun x' hx' => ⟨(hsettled x' hx').1, fun hs => ?_⟩⟩
    obtain ⟨hdev, hreq⟩ := (hsettled x' hx').2 hs
    rw [← hreq]
    exact ⟨hdev, (h.connections l.client x' hx').awaits hs⟩
  refine ⟨rfl, hasked.evolves hev fun d _ hd => ⟨hd.1, fun hdev => ?_⟩⟩
  subst htask
  refine Since.now ⟨c, env, x, message, info, executes_ran hx hq _, ?_, hstate, hinfo, ?_⟩
  · rw [hd.1, hdev]
  · rw [hpartner]
    exact hd.2

theorem eventSound_ran (h : Sound tr s) (hx : s.connections c = some x) (hq : x.queue = task :: q)
    (ho : Outcome env task x.client s.accounts u) :
    ∀ e ∈ u.signals.flatMap (s.queued c x),
      EventSound (tr ++ [(s, .task c env, s.ran c x u)]) (s.ran c x u) e := by
  intro e hm
  obtain ⟨signal, hsignal, he⟩ := List.mem_flatMap.mp hm
  have hlt := h.fresh c x hx
  have hclient : ∀ x', (s.ran c x u).connections c = some x' → x'.client = u.client := by
    intro x' hx'
    rcases connections_ran hq hx' with ⟨-, rfl⟩ | ⟨hne, -⟩
    · rfl
    · exact absurd rfl hne
  have hknown : ∀ d, u.client.deviceId = d → u.client.state = .idle ∨ u.client.state = .error →
      KnownAs (s.ran c x u) c d := by
    refine fun d hdev hs => ⟨hlt, fun x' hx' => ?_⟩
    rw [hclient x' hx']
    exact ⟨hdev, hs⟩
  have hev := evolves_ran hx hq ho
  cases ho with
  | quiet hquiet herror htask =>
    obtain ⟨l, hl, hall⟩ := hquiet.signals
    rw [hl] at hsignal
    exact eventSound_of_harmless (hall signal hsignal) he
  | identified htask hstate hdev hcached hnonce hacc hsignals =>
    rw [hsignals] at hsignal
    cases hsignal
  | registered message info htask hstate hnonce hnew hinfo hidle hdev hdevices hsignals =>
    rw [hsignals, List.mem_singleton] at hsignal
    subst hsignal
    exact eventSound_of_connected (hknown _ hdev (Or.inl hidle)) he
  | loggedIn message info htask hstate hnonce hinfo hidle hdev hdevices hsignals =>
    obtain ⟨l, hl, hall⟩ := hsignals
    rw [hl] at hsignal
    rcases List.mem_cons.mp hsignal with rfl | hsignal
    · exact eventSound_of_connected (hknown _ hdev hidle) he
    · exact eventSound_of_harmless (hall signal hsignal) he
  | accessed message proof htask hstate hnonce hawaits hdev hcached hacc hproof hsignals =>
    rw [hsignals, List.mem_singleton] at hsignal
    subst hsignal
    rw [ClientConnector.queued, List.mem_singleton] at he
    subst he
    refine ⟨hlt, fun x' hx' => ?_⟩
    rw [hclient x' hx']
    refine ⟨fun hs => (nomatch hawaits.symm.trans hs), fun _ => ⟨hdev.trans hproof.symm, ?_⟩⟩
    rw [hcached]
  | granted message htask hstate hmessage hidle hdev hdevices hsignals =>
    rw [hsignals, List.mem_singleton] at hsignal
    subst hsignal
    exact eventSound_of_connected (hknown _ hdev (Or.inl hidle)) he
  | accepted message info htask hstate hinfo hclient' hacc hsignals =>
    rw [hsignals, List.mem_singleton] at hsignal
    subst hsignal
    exact eventSound_of_accepted h hx hq htask hstate hinfo hev he

/-- An attempt uses the nonce up, whatever becomes of it. -/
theorem state_of_attempts (hq : x.queue = task :: q) (hx : s.connections c = some x)
    (ho : Outcome env task x.client s.accounts u) {c' : ℕ} {t : ClientConnector Dev B}
    (ha : Attempts c' (s, .task c env, t)) : c' = c ∧ u.client.state ≠ .authenticating := by
  obtain ⟨env', x', message, signature, ⟨hstep, hx', hhead⟩, hstate, hnonce⟩ := ha
  obtain ⟨rfl, rfl⟩ := ClientConnector.Step.task.inj hstep
  obtain rfl := Option.some.inj (hx.symm.trans hx')
  rw [hq] at hhead
  obtain rfl := Option.some.inj hhead
  refine ⟨rfl, fun hs => ?_⟩
  cases ho with
  | quiet hquiet herror htask =>
    have hdecides : Task.Decides x.client (.binaryMessageReceived (.message message signature)) := by
      cases message <;> first | exact trivial | cases hnonce
    exact nomatch (herror hdecides).symm.trans hs
  | identified htask => cases htask
  | registered _ _ _ _ _ _ _ hidle => exact nomatch hidle.symm.trans hs
  | loggedIn _ _ _ _ _ _ hidle =>
    rcases hidle with hi | hi
    · exact nomatch hi.symm.trans hs
    · exact nomatch hi.symm.trans hs
  | accessed _ _ _ _ _ hawaits => exact nomatch hawaits.symm.trans hs
  | granted _ htask => cases htask
  | accepted _ _ _ hidle => exact nomatch hidle.symm.trans hstate

theorem Sound.ran (h : Sound tr s) (hx : s.connections c = some x) (hq : x.queue = task :: q)
    (ho : Outcome env task x.client s.accounts u) :
    Sound (tr ++ [(s, .task c env, s.ran c x u)]) (s.ran c x u) := by
  refine h.of_evolves (evolves_ran hx hq ho) (fun c' x' hx' => ?_) (fun _ _ => Or.inl) (fun _ => Or.inl)
    (fun e hm => ?_) (fun c' x' hx' => ?_) fun c' ha => ?_
  · rcases connections_ran hq hx' with ⟨rfl, -⟩ | ⟨-, hx'⟩
    · exact h.fresh c' x hx
    · exact h.fresh c' x' hx'
  · rcases List.mem_append.mp hm with hm | hm
    · exact Or.inl hm
    · exact Or.inr (eventSound_ran h hx hq ho e hm)
  · rcases connections_ran hq hx' with ⟨rfl, rfl⟩ | ⟨-, hx'⟩
    · exact connectionSound_ran h hx hq ho
    · exact (h.connections c' x' hx').requeues (.refl x')
  · obtain ⟨rfl, hne⟩ := state_of_attempts hq hx ho ha
    refine ⟨h.fresh c' x hx, fun x' hx' => ⟨?_, fun _ => trivial⟩⟩
    rcases connections_ran hq hx' with ⟨-, rfl⟩ | ⟨hn, -⟩
    · exact hne
    · exact absurd rfl hn

end

/-! ### Every run -/

section

variable [DecidableEq B] [Inhabited Dev] [Inhabited B] {ownFingerprint : B → B → B → B → Option B}
  {tr : List (Transition Dev B)} {s t : ClientConnector Dev B}

omit [DecidableEq B] [Inhabited Dev] [Inhabited B] in
theorem Sound.init (h : ClientConnector.Init s) : Sound [] s := by
  obtain ⟨hconn, hclients, hlinks, -, hevents⟩ := h
  refine ⟨fun c x hx => ?_, fun d c hc => ?_, by simp [hlinks], by simp [hevents], fun c x hx => ?_, by simp⟩
  · rw [hconn c] at hx
    cases hx
  · rw [hclients d] at hc
    cases hc
  · rw [hconn c] at hx
    cases hx

/-- A step opens a connection, runs a task, or only queues tasks. -/
theorem step_cases (h : Sound tr s) {a : ClientConnector.Step Dev B}
    (hst : (ClientConnector.lts ownFingerprint).step s a t) :
    (∃ limits, a = .newConnection limits ∧ t = s.newConnection limits) ∨
    (∃ c env x task q u, a = .task c env ∧ s.connections c = some x ∧ x.queue = task :: q ∧
      t = s.ran c x u ∧ Outcome env task x.client s.accounts u) ∨
    (∀ c env, a ≠ .task c env) ∧ Queues tr s t := by
  have hnext : ClientConnector.next ownFingerprint s a = some t := hst
  have hsame : ∀ e ∈ s.events, e ∈ s.events := fun _ => id
  cases a with
  | newConnection limits =>
    cases hnext
    exact Or.inl ⟨limits, rfl, rfl⟩
  | binaryMessageReceived c message =>
    cases hnext
    exact Or.inr (Or.inr ⟨fun _ _ h => (nomatch h),
      .modify hsame fun x _ => .enqueue (fun h => nomatch h) fun _ h => nomatch h⟩)
  | task c env =>
    simp only [ClientConnector.next] at hnext
    split at hnext
    · cases hnext
    · rename_i x hx
      split at hnext
      · cases hnext
      · rename_i task q hq
        cases hnext
        exact Or.inr (Or.inl ⟨c, env, x, task, q, _, rfl, hx, hq, rfl,
          Client.run_outcome ownFingerprint env task x.client s.accounts⟩)
  | event =>
    simp only [ClientConnector.next] at hnext
    split at hnext
    · cases hnext
    · rename_i e events hev
      cases hnext
      exact Or.inr (Or.inr ⟨fun _ _ h => (nomatch h), .handle h hev⟩)
  | notifyChanged deviceId =>
    refine Or.inr (Or.inr ⟨fun _ _ h => (nomatch h), ?_⟩)
    simp only [ClientConnector.next] at hnext
    split at hnext
    · cases hnext
      exact .of_events hsame
    · cases hnext
      exact .modify hsame fun x _ => .enqueue (fun h => nomatch h) fun _ h => nomatch h
  | fail c =>
    cases hnext
    exact Or.inr (Or.inr ⟨fun _ _ h => (nomatch h), .modify hsame fun x _ =>
      ⟨Or.inr rfl, Or.inl ⟨[], by simp [Connection.fail], by simp, by simp⟩⟩⟩)
  | disconnected c =>
    cases hnext
    exact Or.inr (Or.inr ⟨fun _ _ h => (nomatch h), .modify hsame fun x _ => ⟨Or.inl rfl, Or.inr rfl⟩⟩)
  | destroyed c =>
    simp only [ClientConnector.next] at hnext
    split at hnext
    · cases hnext
    · rename_i x hx
      split_ifs at hnext
      cases hnext
      exact Or.inr (Or.inr ⟨fun _ _ h => (nomatch h), .destroy c x⟩)
  | cleanupDevices today days =>
    refine Or.inr (Or.inr ⟨fun _ _ h => (nomatch h), ?_⟩)
    simp only [ClientConnector.next] at hnext
    split at hnext
    · cases hnext
      exact ⟨rfl, fun _ x hx => ⟨x, hx, .refl x⟩, fun _ _ => Or.inl, fun _ => Or.inl, fun _ => id⟩
    · cases hnext
      exact .of_events hsame

theorem Sound.evolves (h : Sound tr s) {a : ClientConnector.Step Dev B}
    (hst : (ClientConnector.lts ownFingerprint).step s a t) : Evolves s t := by
  rcases step_cases h hst with ⟨limits, rfl, rfl⟩ | ⟨c, env, x, task, q, u, rfl, hx, hq, rfl, ho⟩ | ⟨-, hqueues⟩
  · exact evolves_newConnection limits
  · exact evolves_ran hx hq ho
  · exact hqueues.evolves

theorem Sound.step (h : Sound tr s) {a : ClientConnector.Step Dev B}
    (hst : (ClientConnector.lts ownFingerprint).step s a t) : Sound (tr ++ [(s, a, t)]) t := by
  rcases step_cases h hst with ⟨limits, rfl, rfl⟩ | ⟨c, env, x, task, q, u, rfl, hx, hq, rfl, ho⟩ | ⟨hy, hqueues⟩
  · exact h.newConnection limits fun _ _ h => nomatch h
  · exact h.ran hx hq ho
  · exact h.queues hqueues hy

theorem Sound.run {s₀ : ClientConnector Dev B} (h0 : ClientConnector.Init s₀)
    (hr : LTS.Run (ClientConnector.lts ownFingerprint) LTS.free s₀ tr s) : Sound tr s := by
  induction hr with
  | nil => exact .init h0
  | snoc _ _ hst ih => exact ih.step hst

/-- A task that an attempt to authenticate depends on. -/
def Task.IsAttempt (c : Client Dev B) : Task Dev B → Prop
  | .binaryMessageReceived (.message message _) => message.nonce ≠ none
  | .proofResult _ => c.state = .awatingGrant
  | _ => False

/-- An attempt that does not succeed leaves the client in `error`, and no device. -/
def FailsInError (y : Transition Dev B) : Prop :=
  ∀ c env x task, Executes y c env x task → task.IsAttempt x.client →
    ∃ x', y.2.2.connections c = some x' ∧
      (x.client.state = .authenticating ∧ (x'.client.state = .idle ∨ x'.client.state = .awatingGrant) ∨
        x.client.state = .awatingGrant ∧ x'.client.state = .idle ∨
        x'.client.state = .error ∧ ∀ d, y.2.2.accounts.IsDevice d → y.1.accounts.IsDevice d)

/-- No step brings a connection out of `error`. -/
def ErrorIsFinal (y : Transition Dev B) : Prop :=
  ∀ c x x', y.1.connections c = some x → x.client.state = .error → y.2.2.connections c = some x' →
    x'.client.state = .error

omit [DecidableEq B] [Inhabited Dev] [Inhabited B] in
/-- In a reachable state every attempt is decided. -/
theorem Sound.decides (h : Sound tr s) {c : ℕ} {x : Connection Dev B} {task : Task Dev B} {q : List (Task Dev B)}
    (hx : s.connections c = some x) (hq : x.queue = task :: q) (ha : task.IsAttempt x.client) :
    task.Decides x.client := by
  match task, ha with
  | .binaryMessageReceived (.message (.register _) _), _ => trivial
  | .binaryMessageReceived (.message (.login _) _), _ => trivial
  | .binaryMessageReceived (.message (.access _) _), _ => trivial
  | .proofResult message, hs =>
    refine ⟨hs, fun m hm => ?_⟩
    have hqueued : .proofResult (some m) ∈ x.queue := by
      rw [hq, Option.mem_def.mp hm]
      exact List.mem_cons_self
    exact (((h.connections c x hx).results m hqueued).2 hs).1.symm

omit [DecidableEq B] [Inhabited Dev] [Inhabited B] in
theorem Sound.fails_ran (h : Sound tr s) {env : Env Dev} {c : ℕ} {x : Connection Dev B} {task : Task Dev B}
    {q : List (Task Dev B)} {u : TaskState Dev B} (hx : s.connections c = some x) (hq : x.queue = task :: q)
    (ho : Outcome env task x.client s.accounts u) : FailsInError (s, .task c env, s.ran c x u) := by
  rintro c' env' x₀ task' ⟨hstep, hx', hhead⟩ ha
  obtain ⟨rfl, rfl⟩ := ClientConnector.Step.task.inj hstep
  obtain rfl := Option.some.inj (hx.symm.trans hx')
  rw [hq] at hhead
  obtain rfl := Option.some.inj hhead
  refine ⟨_, Function.update_self .., ?_⟩
  cases ho with
  | quiet hquiet herror htask => exact Or.inr (Or.inr ⟨herror (h.decides hx hq ha), hquiet.devices⟩)
  | identified htask =>
    subst htask
    cases ha
  | registered _ _ _ hstate _ _ _ hidle => exact Or.inl ⟨hstate, Or.inl hidle⟩
  | loggedIn _ _ _ hstate _ _ hidle _ hdevices =>
    rcases hidle with hi | hi
    · exact Or.inl ⟨hstate, Or.inl hi⟩
    · exact Or.inr (Or.inr ⟨hi, hdevices⟩)
  | accessed _ _ _ hstate _ hawaits => exact Or.inl ⟨hstate, Or.inr hawaits⟩
  | granted _ _ hstate _ hidle => exact Or.inr (Or.inl ⟨hstate, hidle⟩)
  | accepted _ _ htask =>
    subst htask
    exact absurd rfl ha

theorem Sound.fails (h : Sound tr s) {a : ClientConnector.Step Dev B}
    (hst : (ClientConnector.lts ownFingerprint).step s a t) : FailsInError (s, a, t) := by
  rcases step_cases h hst with ⟨limits, rfl, rfl⟩ | ⟨c, env, x, task, q, u, rfl, hx, hq, rfl, ho⟩ | ⟨hy, -⟩
  · exact fun c env x task hex => (nomatch hex.1)
  · exact h.fails_ran hx hq ho
  · exact fun c env x task hex => absurd hex.1 (hy c env)

/-- **Authentication**, over every run of the server: a client is idle as a device only if it has authenticated as it;
the nonce of a connection is used by one attempt; failed attempts end in `error` and create no device; and `error` is
final. -/
theorem authentication {s₀ : ClientConnector Dev B} (h0 : ClientConnector.Init s₀)
    (hr : LTS.Run (ClientConnector.lts ownFingerprint) LTS.free s₀ tr s) :
    (∀ c x, s.connections c = some x → x.client.state = .idle → Authenticated tr c x.client.deviceId) ∧
      (∀ c, tr.Pairwise fun w y => Attempts c w → ¬ Attempts c y) ∧
      (∀ y ∈ tr, FailsInError y) ∧ ∀ y ∈ tr, ErrorIsFinal y := by
  refine ⟨fun c x hx => ((Sound.run h0 hr).connections c x hx).idle, ?_⟩
  induction hr with
  | nil => simp
  | @snoc s t tr a hr _ hst ih =>
    have h := Sound.run h0 hr
    obtain ⟨hattempts, hfails, herror⟩ := ih
    refine ⟨fun c => ?_, ?_, ?_⟩
    · refine List.pairwise_append.mpr ⟨hattempts c, List.pairwise_singleton _ _, fun w hw y hy hwa hya => ?_⟩
      rw [List.mem_singleton] at hy
      subst hy
      obtain ⟨env, x, message, signature, hex, hstate, -⟩ := hya
      exact ((h.used c ⟨w, hw, hwa⟩).2 x hex.2.1).1 hstate
    · exact List.forall_mem_append.mpr ⟨hfails, List.forall_mem_singleton.mpr (h.fails hst)⟩
    · refine List.forall_mem_append.mpr ⟨herror, List.forall_mem_singleton.mpr fun c x x' hx hs hx' => ?_⟩
      obtain ⟨x₁, hx₁, ha⟩ := (h.evolves hst).client c x' (h.fresh c x hx) hx'
      obtain rfl := Option.some.inj (hx.symm.trans hx₁)
      exact ha.error hs

end

namespace Sample

/-- A server with an empty database, for devices with numbers as keys. -/
def start : ClientConnector ℕ ℕ where
  accounts := ⟨.empty, fun _ => ⟨"", 0, 0, 0, 0, 0, none⟩, fun _ => 0, [], List.nodup_nil, by simp⟩
  nextConnection := 0
  connections := fun _ => none
  clients := fun _ => none
  links := []
  acceptLinks := []
  events := []

def fingerprint (_ signKey _ cryptKey : ℕ) : Option ℕ := some (signKey + cryptKey)

def env (nonce : QByteArray) (deviceId : ℕ) : Env ℕ := ⟨nonce, deviceId, 0, 100, []⟩

/-- Device 1 registers with key 5, on the nonce `[1]`. -/
def registration : List (ClientConnector.Step ℕ ℕ) :=
  [.newConnection ⟨10, 20, 10⟩, .task 0 (env [1] 0),
    .binaryMessageReceived 0 (.message (.register ⟨[1], 0, 5, 0, 6, "first", 0⟩) (.genuine ⟨0, 5⟩)),
    .task 0 (env [] 1), .event]

/-- A second client asks device 1 for access, gets the id 2, and device 1 accepts. -/
def access : List (ClientConnector.Step ℕ ℕ) :=
  [.newConnection ⟨10, 20, 10⟩, .task 1 (env [2] 0),
    .binaryMessageReceived 1 (.message (.access ⟨[2], 0, 7, 0, 8, "second", [], 1, 0, 0, 0⟩) (.genuine ⟨0, 7⟩)),
    .task 1 (env [] 2), .event, .task 0 (env [] 0),
    .binaryMessageReceived 0 (.message (.accept ⟨2, 0, 0, 0⟩) (.genuine ⟨0, 5⟩)), .task 0 (env [] 0), .event,
    .task 1 (env [] 0)]

end Sample

/-- The second client is idle as device 2, which it has been granted. -/
theorem authentication_access : ∃ s tr x, LTS.Run (ClientConnector.lts Sample.fingerprint) LTS.free Sample.start tr s ∧
    s.connections 1 = some x ∧ x.client.state = .idle ∧ x.client.deviceId = 2 ∧ Authenticated tr 1 2 := by
  have hrun : ((LTS.exec (ClientConnector.next Sample.fingerprint) (fun _ _ => true) Sample.start
      (Sample.registration ++ Sample.access)).bind fun s =>
        (s.connections 1).map fun x => (x.client.state, x.client.deviceId)) = some (.idle, 2) := by decide
  obtain ⟨s, hs, hx⟩ := Option.bind_eq_some_iff.mp hrun
  obtain ⟨x, hx, he⟩ := Option.map_eq_some_iff.mp hx
  obtain ⟨hstate, hdev⟩ := Prod.mk.inj he
  obtain ⟨tr, hr⟩ := LTS.exec_run ClientConnector.Init (G := LTS.free) (fun _ _ _ => trivial) hs
  have hauth := (authentication ⟨fun _ => rfl, fun _ => rfl, rfl, rfl, rfl⟩ hr).1 1 x hx hstate
  rw [hdev] at hauth
  exact ⟨s, tr, x, hr, hx, hstate, hdev, hauth⟩

end QtDataSync.Server
