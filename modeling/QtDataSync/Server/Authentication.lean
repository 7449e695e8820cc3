import QtDataSync.Server.ClientConnector

/-!
# Server.Authentication — who a connection may be

A client becomes `idle` by a registration, a login or a granted access, each on the nonce of its connection.  Every
task does one of these steps or is `Quiet` (`Client.run_outcome`): it authenticates nobody, creates no device, and
leaves the state or ends in `error`.  What links a client that waits for its grant to the partner is an invariant of
the signal connections and of the queues.
-/

namespace QtDataSync.Server

variable {Dev B : Type} [DecidableEq Dev] [DecidableEq B] [Inhabited Dev] [Inhabited B]

/-! ### Quiet steps -/

/-- The signals that grant nothing. -/
def Signal.IsHarmless : Signal Dev B → Prop
  | .proofDone _ none => True
  | .forceDisconnect _ => True
  | _ => False

/-- What a task does that authenticates nobody. -/
structure Quiet (s t : TaskState Dev B) : Prop where
  state : t.client.state = s.client.state ∨ t.client.state = .error
  deviceId : s.client.state ≠ .authenticating → t.client.deviceId = s.client.deviceId
  cached : t.client.cachedAccessRequest = s.client.cachedAccessRequest
  nonce : t.client.state = .authenticating → t.client.loginNonce = s.client.loginNonce
  devices : ∀ d, t.accounts.IsDevice d → s.accounts.IsDevice d
  signals : ∃ l, t.signals = s.signals ++ l ∧ ∀ x ∈ l, x.IsHarmless

namespace Quiet

omit [DecidableEq Dev] [DecidableEq B] [Inhabited Dev] [Inhabited B]

theorem refl (s : TaskState Dev B) : Quiet s s where
  state := Or.inl rfl
  deviceId _ := rfl
  cached := rfl
  nonce _ := rfl
  devices _ := id
  signals := ⟨[], by simp, by simp⟩

theorem trans {s t u : TaskState Dev B} (h : Quiet s t) (h' : Quiet t u) : Quiet s u where
  state := by
    rcases h'.state with he | he
    · rw [he]
      exact h.state
    · exact Or.inr he
  deviceId hs := by
    refine (h'.deviceId fun ht => ?_).trans (h.deviceId hs)
    rcases h.state with he | he
    · exact hs (he.symm.trans ht)
    · rw [he] at ht
      cases ht
  cached := h'.cached.trans h.cached
  nonce hu := by
    refine (h'.nonce hu).trans (h.nonce ?_)
    rcases h'.state with he | he
    · exact he.symm.trans hu
    · rw [he] at hu
      cases hu
  devices d hd := h.devices d (h'.devices d hd)
  signals := by
    obtain ⟨l, hl, hall⟩ := h.signals
    obtain ⟨l', hl', hall'⟩ := h'.signals
    exact ⟨l ++ l', by rw [hl', hl, List.append_assoc], List.forall_mem_append.mpr ⟨hall, hall'⟩⟩

/-- Only the client has changed, and not in what counts. -/
theorem of_client {s t : TaskState Dev B} (ha : t.accounts = s.accounts) (hs : t.signals = s.signals)
    (hstate : t.client.state = s.client.state ∨ t.client.state = .error)
    (hdev : t.client.deviceId = s.client.deviceId)
    (hcached : t.client.cachedAccessRequest = s.client.cachedAccessRequest)
    (hnonce : t.client.loginNonce = s.client.loginNonce) : Quiet s t where
  state := hstate
  deviceId _ := hdev
  cached := hcached
  nonce _ := hnonce
  devices d := by
    rw [ha]
    exact id
  signals := ⟨[], by simp [hs], by simp⟩

end Quiet

namespace Handler

section Quiet

variable {α : Type} {s : TaskState Dev B}

/-- A computation all of whose steps are quiet. -/
def IsQuiet (m : Handler Dev B α) : Prop := Relates Quiet m

namespace IsQuiet

variable {m : Handler Dev B α}

omit [DecidableEq Dev] [DecidableEq B] [Inhabited Dev] [Inhabited B]

theorem bind {β : Type} {f : α → Handler Dev B β} (h : IsQuiet m) (hf : ∀ a, IsQuiet (f a)) : IsQuiet (m >>= f) :=
  Relates.bind (R := Quiet) (fun _ _ _ => Quiet.trans) h hf

theorem pure (a : α) : IsQuiet (Pure.pure a : Handler Dev B α) := Relates.pure Quiet.refl a

theorem throw (e : Exception) : IsQuiet (MonadExcept.throw e : Handler Dev B α) := Relates.throw Quiet.refl e

theorem client : IsQuiet (client : Handler Dev B _) := fun s => runs_client (Quiet.refl s)

theorem sendMessage (message : Reply Dev B) : IsQuiet (sendMessage message) := fun _ =>
  runs_setClient (Quiet.of_client rfl rfl (Or.inl rfl) rfl rfl rfl)

theorem setClient {f : Client Dev B → Client Dev B} (hstate : ∀ c, (f c).state = c.state ∨ (f c).state = .error)
    (hdev : ∀ c, (f c).deviceId = c.deviceId) (hcached : ∀ c, (f c).cachedAccessRequest = c.cachedAccessRequest)
    (hnonce : ∀ c, (f c).loginNonce = c.loginNonce) : IsQuiet (setClient f) := fun _ =>
  runs_setClient (Quiet.of_client rfl rfl (hstate _) (hdev _) (hcached _) (hnonce _))

theorem sendError (type : ErrorType) : IsQuiet (sendError type : Handler Dev B Unit) := fun _ =>
  runs_sendError (Quiet.of_client rfl rfl (Or.inr rfl) rfl rfl rfl)

theorem emit {signal : Signal Dev B} (h : signal.IsHarmless) : IsQuiet (emit signal) := fun s =>
  runs_emit { Quiet.refl s with
    signals := ⟨[signal], rfl, fun x hx => by
      rw [List.mem_singleton] at hx
      rw [hx]
      exact h⟩ }

theorem query : IsQuiet (query : Handler Dev B Unit) := fun _ =>
  runs_query (fun _ => Quiet.of_client rfl rfl (Or.inl rfl) rfl rfl rfl) fun _ =>
    Quiet.of_client rfl rfl (Or.inl rfl) rfl rfl rfl

theorem select (f : Accounts Dev B → α) : IsQuiet (select f) := fun _ =>
  runs_select (fun _ => Quiet.of_client rfl rfl (Or.inl rfl) rfl rfl rfl) fun _ =>
    Quiet.of_client rfl rfl (Or.inl rfl) rfl rfl rfl

theorem execute {f : Accounts Dev B → Option (Accounts Dev B × α)}
    (hf : ∀ a a' x, f a = some (a', x) → ∀ d, a'.IsDevice d → a.IsDevice d) : IsQuiet (execute f) := fun s =>
  runs_execute (fun _ _ _ hx => { Quiet.refl s with devices := hf _ _ _ hx }) fun _ =>
    Quiet.of_client rfl rfl (Or.inl rfl) rfl rfl rfl

theorem execute' {f : Accounts Dev B → Except SqlError (Accounts Dev B)}
    (hf : ∀ a a', f a = .ok a' → ∀ d, a'.IsDevice d → a.IsDevice d) : IsQuiet (execute' f) := fun s =>
  runs_execute' (fun _ _ hx => { Quiet.refl s with devices := hf _ _ hx })
    (fun _ => Quiet.of_client rfl rfl (Or.inl rfl) rfl rfl rfl)

theorem executeQuota {f : Accounts Dev B → Except SqlError (Accounts Dev B)}
    (hf : ∀ a a', f a = .ok a' → ∀ d, a'.IsDevice d → a.IsDevice d) : IsQuiet (executeQuota f) := fun s =>
  runs_executeQuota (fun _ _ hx => { Quiet.refl s with devices := hf _ _ hx })
    (fun _ _ => Quiet.of_client rfl rfl (Or.inl rfl) rfl rfl rfl)
    (fun _ => Quiet.of_client rfl rfl (Or.inl rfl) rfl rfl rfl)

theorem ite {c : Prop} [Decidable c] {m' : Handler Dev B α} (h : IsQuiet m) (h' : IsQuiet m') :
    IsQuiet (if c then m else m') := Relates.ite (fun _ => h) fun _ => h'

theorem checkIdle : IsQuiet (checkIdle : Handler Dev B Unit) :=
  client.bind fun _ => ite (throw _) (pure _)

theorem loadCrypto [DecidableEq Dev] (ownFingerprint : B → B → B → B → Option B) (deviceId : Dev) :
    IsQuiet (loadCrypto ownFingerprint deviceId) := fun _ =>
  runs_loadCrypto (fun _ _ => Quiet.of_client rfl rfl (Or.inl rfl) rfl rfl rfl) fun _ =>
    Quiet.of_client rfl rfl (Or.inl rfl) rfl rfl rfl

theorem verifySignature [DecidableEq B] (signature : Signature B) (key : PublicKey B) :
    IsQuiet (verifySignature signature key : Handler Dev B Unit) := fun s =>
  runs_verifySignature (fun _ => Quiet.refl s) fun _ => Quiet.refl s

theorem withDownload (f : Accounts Dev B → Download.Client Dev → Download.Client Dev) : IsQuiet (withDownload f) :=
  fun _ => runs_modify (Quiet.of_client rfl rfl (Or.inl rfl) rfl rfl rfl)

theorem sendChanges [DecidableEq Dev] (skipNoChanges : Bool) (changes : List Download.Change) (updateChange : Bool) :
    IsQuiet (sendChanges skipNoChanges changes updateChange : Handler Dev B Unit) := by
  induction changes generalizing updateChange with
  | nil => exact withDownload _
  | cons change changes ih =>
    refine bind ?_ fun _ => ih false
    exact client.bind fun _ => ite (query.bind fun _ => withDownload _) (withDownload _)

theorem triggerDownload [DecidableEq Dev] (forceUpdate skipNoChanges : Bool) :
    IsQuiet (triggerDownload forceUpdate skipNoChanges : Handler Dev B Unit) :=
  client.bind fun _ => ite ((select _).bind fun changes => sendChanges skipNoChanges changes forceUpdate) (withDownload _)

theorem replyKeyChange (nextIndex : ℕ) (devices : List (Dev × B × B × Option B)) (offset : ℤ) :
    IsQuiet (replyKeyChange nextIndex devices offset) :=
  ite (sendMessage _) (ite (sendMessage _) (ite (sendError _) (sendError _)))

theorem forceDisconnects (devices : List Dev) : IsQuiet (forceDisconnects devices : Handler Dev B Unit) := by
  induction devices with
  | nil => exact pure ()
  | cons device devices ih =>
    refine bind (emit ?_) fun _ => ih
    exact trivial

end IsQuiet

end Quiet

/-! ### The handlers of clients that are idle -/

section Idle

variable {Dev B : Type} [DecidableEq Dev] [DecidableEq B] [Inhabited Dev] [Inhabited B]

omit [DecidableEq B] [Inhabited Dev] [Inhabited B]

theorem quiet_transaction (tx : Client Dev B → Transaction Dev) (h : ∀ c, (tx c).creates = none) (c : Client Dev B)
    (a a' : Accounts Dev B) (ha : a.transaction (tx c) = .ok a') (d : Dev) (hd : a'.IsDevice d) : a.IsDevice d := by
  rcases Accounts.isDevice_of_transaction ha hd with h' | h'
  · exact h'
  · rw [h c] at h'
    cases h'

theorem quiet_onChange (dataId : QByteArray) (keyIndex : ℕ) (salt data : QByteArray) :
    IsQuiet (onChange dataId keyIndex salt data : Handler Dev B Unit) :=
  IsQuiet.checkIdle.bind fun _ => IsQuiet.client.bind fun c =>
    (IsQuiet.executeQuota (quiet_transaction (fun c => .addChange c.deviceId dataId keyIndex salt data)
      (fun _ => rfl) c)).bind fun _ => .ite (.sendMessage _) (.sendError _)

theorem quiet_onDeviceChange (deviceId : Dev) (dataId : QByteArray) (keyIndex : ℕ) (salt data : QByteArray) :
    IsQuiet (onDeviceChange deviceId dataId keyIndex salt data : Handler Dev B Unit) :=
  IsQuiet.checkIdle.bind fun _ => IsQuiet.client.bind fun c =>
    (IsQuiet.executeQuota (quiet_transaction
      (fun c => .addDeviceChange c.deviceId deviceId dataId keyIndex salt data) (fun _ => rfl) c)).bind fun _ =>
        .ite (.sendMessage _) (.sendError _)

theorem quiet_onChangedAck (dataIndex : ℕ) : IsQuiet (onChangedAck dataIndex : Handler Dev B Unit) := by
  refine IsQuiet.checkIdle.bind fun _ => IsQuiet.client.bind fun c => (IsQuiet.execute' ?_).bind fun _ =>
    IsQuiet.bind ?_ fun _ => .triggerDownload _ _
  · exact quiet_transaction (fun c => .completeChange c.deviceId dataIndex) (fun _ => rfl) c
  · exact .setClient (fun _ => Or.inl rfl) (fun _ => rfl) (fun _ => rfl) fun _ => rfl

theorem quiet_onListDevices : IsQuiet (onListDevices : Handler Dev B Unit) :=
  IsQuiet.checkIdle.bind fun _ => IsQuiet.client.bind fun _ => (IsQuiet.select _).bind fun _ => .sendMessage _

theorem quiet_onRemove (deviceId : Dev) : IsQuiet (onRemove deviceId : Handler Dev B Unit) := by
  refine IsQuiet.checkIdle.bind fun _ => IsQuiet.client.bind fun c => (IsQuiet.execute' ?_).bind fun _ =>
    (IsQuiet.sendMessage _).bind fun _ => .ite ?_ (.emit ?_)
  · exact quiet_transaction (fun c => .removeDevice c.deviceId deviceId) (fun _ => rfl) c
  · exact .setClient (fun _ => Or.inr rfl) (fun _ => rfl) (fun _ => rfl) fun _ => rfl
  · exact trivial

theorem quiet_onMacUpdate (keyIndex : ℕ) (cmac : B) : IsQuiet (onMacUpdate keyIndex cmac : Handler Dev B Unit) := by
  refine IsQuiet.checkIdle.bind fun _ => IsQuiet.client.bind fun c => (IsQuiet.execute ?_).bind fun _ =>
    .ite (.sendMessage _) (.sendError _)
  intro a a' ok h d hd
  rcases Accounts.updateCmac_ok (Option.some.inj h) with ⟨-, rfl⟩ | ⟨-, -, rfl⟩
  · exact hd
  · exact hd

theorem quiet_onKeyChange (nextIndex : ℕ) : IsQuiet (onKeyChange nextIndex : Handler Dev B Unit) := by
  refine IsQuiet.checkIdle.bind fun _ => IsQuiet.client.bind fun c => (IsQuiet.execute ?_).bind fun x =>
    .replyKeyChange nextIndex x.1 x.2
  intro a a' x h d hd
  obtain ⟨y, -, he⟩ := Option.map_eq_some_iff.mp h
  rw [Prod.mk.injEq] at he
  rw [he.1]
  exact hd

theorem quiet_onNewKey [DecidableEq B] (ownFingerprint : B → B → B → B → Option B) (keyIndex : ℕ) (cmac scheme : B)
    (deviceKeys : List (Dev × B × B)) (signature : Signature B) :
    IsQuiet (onNewKey ownFingerprint keyIndex cmac scheme deviceKeys signature : Handler Dev B Unit) := by
  refine IsQuiet.checkIdle.bind fun _ => IsQuiet.client.bind fun c => (IsQuiet.loadCrypto _ _).bind fun _ =>
    (IsQuiet.verifySignature _ _).bind fun _ => (IsQuiet.execute ?_).bind fun _ =>
      .ite ((IsQuiet.forceDisconnects _).bind fun _ => .sendMessage _) (.sendError _)
  intro a a' ok h d hd
  rcases Accounts.updateExchangeKey_ok h with ⟨-, rfl⟩ | ⟨-, userId, -, -, -, -, -, hdb, -, -⟩
  · exact hd
  · rwa [Accounts.IsDevice, hdb] at hd

end Idle

end Handler

/-! ### What a task does -/

/-- What an exception leaves behind. -/
structure Fails (s t : TaskState Dev B) : Prop where
  deviceId : s.client.state ≠ .authenticating → t.client.deviceId = s.client.deviceId
  cached : t.client.cachedAccessRequest = s.client.cachedAccessRequest
  devices : ∀ d, t.accounts.IsDevice d → s.accounts.IsDevice d
  signals : ∃ l, t.signals = s.signals ++ l ∧ ∀ x ∈ l, x.IsHarmless

/-- The state after `sendError`. -/
def TaskState.withError (t : TaskState Dev B) (type : ErrorType) : TaskState Dev B :=
  { t with client := { t.client with state := .error, sent := t.client.sent ++ [.error type] } }

section

omit [DecidableEq Dev] [DecidableEq B] [Inhabited Dev] [Inhabited B]

variable {s t : TaskState Dev B}

theorem Quiet.fails (h : Quiet s t) : Fails s t := ⟨h.deviceId, h.cached, h.devices, h.signals⟩

theorem Fails.quiet (h : Fails s t) (type : ErrorType) : Quiet s (t.withError type) where
  state := Or.inr rfl
  deviceId := h.deviceId
  cached := h.cached
  nonce he := nomatch he
  devices := h.devices
  signals := h.signals

/-- Nothing has happened but to the nonce, and to the id of a client that is not known yet. -/
theorem fails_of_authenticating (hs : s.client.state = .authenticating)
    (hcached : t.client.cachedAccessRequest = s.client.cachedAccessRequest)
    (hdev : ∀ d, t.accounts.IsDevice d → s.accounts.IsDevice d) (hsig : t.signals = s.signals) : Fails s t :=
  ⟨fun h => absurd hs h, hcached, hdev, [], by simp [hsig], by simp⟩

/-- The `catch` blocks end in `error`. -/
theorem Handler.runs_catch {m : Handler Dev B Unit} {P : TaskState Dev B → Prop}
    (h : Runs m s (fun _ t => P t) fun _ t => ∀ type, P (t.withError type)) :
    Runs (tryCatch m handleException) s (fun _ t => P t) fun _ t => P t := by
  refine runs_tryCatch (h.mono (fun _ _ ht => ht) fun e t ht => ?_)
  cases e with
  | database => exact runs_sendError (ht _)
  | clientError type => exact runs_sendError (ht _)
  | std => exact runs_sendError (ht _)

end

/-- What holds when the task ends, or after `sendError` when it fails. -/
theorem Client.run_of_runs {ownFingerprint : B → B → B → B → Option B} {env : Env Dev} {task : Task Dev B}
    {c : Client Dev B} {a : Accounts Dev B} {P : TaskState Dev B → Prop}
    (h : Runs (Handler.body ownFingerprint env task) ⟨c, a, [], env.faults⟩ (fun _ t => P t)
      fun _ t => ∀ type, P (t.withError type)) : P (c.run ownFingerprint env task a) := by
  have hcatch := Handler.runs_catch h
  unfold Runs at hcatch
  unfold Client.run
  generalize exec _ _ = r at hcatch ⊢
  obtain ⟨e | u, t⟩ := r
  · exact hcatch
  · exact hcatch

/-- A task that decides an attempt to authenticate: a message of a new connection, or the result of the proof. -/
def Task.Decides (c : Client Dev B) : Task Dev B → Prop
  | .binaryMessageReceived (.message (.register _) _) => True
  | .binaryMessageReceived (.message (.login _) _) => True
  | .binaryMessageReceived (.message (.access _) _) => True
  | .proofResult message => c.state = .awatingGrant ∧ ∀ m ∈ message, m.deviceId = c.deviceId
  | _ => False

/-- What a task of the client `c` has done when it ends in `t`. -/
inductive Outcome (env : Env Dev) (task : Task Dev B) (c : Client Dev B) (a : Accounts Dev B) (t : TaskState Dev B) :
    Prop
  | quiet (hquiet : Quiet ⟨c, a, [], env.faults⟩ t) (herror : task.Decides c → t.client.state = .error)
      (htask : task ≠ .identify)
  | identified (htask : task = .identify) (hstate : t.client.state = c.state) (hdev : t.client.deviceId = c.deviceId)
      (hcached : t.client.cachedAccessRequest = c.cachedAccessRequest) (hnonce : t.client.loginNonce = env.nonce)
      (hacc : t.accounts = a) (hsignals : t.signals = [])
  | registered (message : RegisterMessage B) (info : DeviceInfo B)
      (htask : task = .binaryMessageReceived (.message (.register message)
        (.genuine ⟨info.signscheme, info.signkey⟩)))
      (hstate : c.state = .authenticating) (hnonce : c.loginNonce = message.nonce)
      (hnew : ¬ a.IsDevice env.deviceId) (hinfo : t.accounts.loadCrypto env.deviceId = some info)
      (hidle : t.client.state = .idle) (hdev : t.client.deviceId = env.deviceId)
      (hdevices : ∀ d, t.accounts.IsDevice d → a.IsDevice d ∨ d = env.deviceId)
      (hsignals : t.signals = [.connected env.deviceId])
  | loggedIn (message : LoginMessage Dev) (info : DeviceInfo B)
      (htask : task = .binaryMessageReceived (.message (.login message) (.genuine ⟨info.signscheme, info.signkey⟩)))
      (hstate : c.state = .authenticating) (hnonce : c.loginNonce = message.nonce)
      (hinfo : a.loadCrypto message.deviceId = some info)
      (hidle : t.client.state = .idle ∨ t.client.state = .error) (hdev : t.client.deviceId = message.deviceId)
      (hdevices : ∀ d, t.accounts.IsDevice d → a.IsDevice d)
      (hsignals : ∃ l, t.signals = .connected message.deviceId :: l ∧ ∀ x ∈ l, x.IsHarmless)
  | accessed (message : AccessMessage Dev B) (proof : ProofMessage Dev B)
      (htask : task = .binaryMessageReceived (.message (.access message)
        (.genuine ⟨message.signAlgorithm, message.signKey⟩)))
      (hstate : c.state = .authenticating) (hnonce : c.loginNonce = message.nonce)
      (hawaits : t.client.state = .awatingGrant) (hdev : t.client.deviceId = env.deviceId)
      (hcached : t.client.cachedAccessRequest = message) (hacc : t.accounts = a)
      (hproof : proof.deviceId = env.deviceId) (hsignals : t.signals = [.proofRequested message.partnerId proof])
  | granted (message : AcceptMessage Dev B) (htask : task = .proofResult (some message))
      (hstate : c.state = .awatingGrant) (hmessage : message.deviceId = c.deviceId)
      (hidle : t.client.state = .idle) (hdev : t.client.deviceId = c.deviceId)
      (hdevices : ∀ d, t.accounts.IsDevice d → a.IsDevice d ∨ d = c.deviceId)
      (hsignals : t.signals = [.connected c.deviceId])
  | accepted (message : AcceptMessage Dev B) (info : DeviceInfo B)
      (htask : task = .binaryMessageReceived (.message (.accept message) (.genuine ⟨info.signscheme, info.signkey⟩)))
      (hstate : c.state = .idle) (hinfo : a.loadCrypto c.deviceId = some info) (hclient : t.client = c)
      (hacc : t.accounts = a) (hsignals : t.signals = [.proofDone message.deviceId (some message)])

namespace Handler

section

variable {ownFingerprint : B → B → B → B → Option B} {env : Env Dev} {c : Client Dev B} {a : Accounts Dev B}

omit [Inhabited Dev] [Inhabited B]

omit [DecidableEq Dev] [DecidableEq B] in
theorem binary_ne_identify (message : Binary Dev B) : Task.binaryMessageReceived message ≠ .identify :=
  fun h => (nomatch h)

omit [DecidableEq B] in
/-- An attempt that fails. -/
theorem outcome_fails {task : Task Dev B} {t : TaskState Dev B} (h : Fails ⟨c, a, [], env.faults⟩ t)
    (htask : task ≠ .identify) (type : ErrorType) : Outcome env task c a (t.withError type) :=
  .quiet (h.quiet type) (fun _ => rfl) htask

theorem runs_onRegister (message : RegisterMessage B) (signature : Signature B) :
    Runs (onRegister ownFingerprint env message signature) ⟨c, a, [], env.faults⟩
      (fun _ t => Outcome env (.binaryMessageReceived (.message (.register message) signature)) c a t)
      fun _ t => ∀ type,
        Outcome env (.binaryMessageReceived (.message (.register message) signature)) c a (t.withError type) := by
  refine runs_bind (runs_takeNonce (fun hst hn => ?_) fun e _ => outcome_fails (Quiet.refl _).fails (binary_ne_identify _))
  have hfail : ∀ faults type, Outcome env (.binaryMessageReceived (.message (.register message) signature)) c a
      (TaskState.withError ⟨{ c with loginNonce := [] }, a, [], faults⟩ type) :=
    fun _ => outcome_fails (fails_of_authenticating hst rfl (fun _ h => h) rfl) (binary_ne_identify _)
  refine runs_bind (runs_createCryptoInfo (fun fingerprint => ?_) (hfail _))
  refine runs_bind (runs_verifySignature (fun hsig => ?_) fun _ => hfail _)
  refine runs_bind (runs_execute' (fun _ a' ha' => ?_) fun _ => hfail _)
  refine runs_bind (runs_setClient (runs_bind (runs_setClient (runs_bind (runs_setClient (runs_emit ?_))))))
  obtain ⟨hnew, hload, hdevices⟩ := Accounts.addNewDevice_ok ha'
  subst hsig
  exact .registered message _ rfl hst hn hnew hload rfl rfl hdevices rfl

theorem runs_onLogin (message : LoginMessage Dev) (signature : Signature B) :
    Runs (onLogin ownFingerprint env message signature) ⟨c, a, [], env.faults⟩
      (fun _ t => Outcome env (.binaryMessageReceived (.message (.login message) signature)) c a t)
      fun _ t => ∀ type,
        Outcome env (.binaryMessageReceived (.message (.login message) signature)) c a (t.withError type) := by
  refine runs_bind (runs_takeNonce (fun hst hn => ?_) fun e _ => outcome_fails (Quiet.refl _).fails (binary_ne_identify _))
  have hfail : ∀ (t : TaskState Dev B) type, t.client.cachedAccessRequest = c.cachedAccessRequest →
      (∀ d, t.accounts.IsDevice d → a.IsDevice d) → t.signals = [] →
      Outcome env (.binaryMessageReceived (.message (.login message) signature)) c a (t.withError type) :=
    fun t type hc hd hs => outcome_fails (fails_of_authenticating hst hc hd hs) (binary_ne_identify _) type
  refine runs_bind (runs_loadCrypto (fun info hinfo => ?_) fun _ type => hfail _ type rfl (fun _ h => h) rfl)
  refine runs_bind (runs_verifySignature (fun hsig => ?_) fun _ type => hfail _ type rfl (fun _ h => h) rfl)
  refine runs_bind (runs_setClient (runs_bind (runs_execute' (fun _ a' ha' => ?_)
    fun _ type => hfail _ type rfl (fun _ h => h) rfl)))
  have hdevices : ∀ d, a'.IsDevice d → a.IsDevice d := fun d hd => Accounts.updateLogin_ok ha' hd
  refine runs_bind (runs_select (fun _ => ?_) fun _ type => hfail _ type rfl hdevices rfl)
  refine runs_bind (runs_setClient (runs_bind (runs_select (fun _ => ?_) fun _ type => hfail _ type rfl hdevices rfl)))
  refine runs_bind (runs_setClient (runs_bind (runs_setClient (runs_bind (runs_emit ?_)))))
  -- the client is idle now, and stays it unless the download fails
  subst hsig
  refine (IsQuiet.triggerDownload _ _ _).mono (fun _ t ht => ?_) fun _ t ht type => ?_
  · obtain ⟨l, hl, hall⟩ := ht.signals
    exact .loggedIn message info rfl hst hn hinfo ht.state (ht.deviceId fun h => nomatch h)
      (fun d hd => hdevices d (ht.devices d hd)) ⟨l, hl, hall⟩
  · obtain ⟨l, hl, hall⟩ := ht.signals
    exact .loggedIn message info rfl hst hn hinfo (Or.inr rfl) (ht.deviceId fun h => nomatch h)
      (fun d hd => hdevices d (ht.devices d hd)) ⟨l, hl, hall⟩

theorem runs_onAccess (message : AccessMessage Dev B) (signature : Signature B) :
    Runs (onAccess ownFingerprint env message signature) ⟨c, a, [], env.faults⟩
      (fun _ t => Outcome env (.binaryMessageReceived (.message (.access message) signature)) c a t)
      fun _ t => ∀ type,
        Outcome env (.binaryMessageReceived (.message (.access message) signature)) c a (t.withError type) := by
  refine runs_bind (runs_takeNonce (fun hst hn => ?_) fun e _ => outcome_fails (Quiet.refl _).fails (binary_ne_identify _))
  have hfail : ∀ faults type, Outcome env (.binaryMessageReceived (.message (.access message) signature)) c a
      (TaskState.withError ⟨{ c with loginNonce := [] }, a, [], faults⟩ type) :=
    fun _ => outcome_fails (fails_of_authenticating hst rfl (fun _ h => h) rfl) (binary_ne_identify _)
  refine runs_bind (runs_createCryptoInfo (fun fingerprint => ?_) (hfail _))
  refine runs_bind (runs_verifySignature (fun hsig => ?_) fun _ => hfail _)
  refine runs_bind (runs_setClient (runs_emit ?_))
  subst hsig
  exact .accessed message _ rfl hst hn rfl rfl rfl rfl rfl rfl

theorem runs_onAccept (message : AcceptMessage Dev B) (signature : Signature B) :
    Runs (onAccept ownFingerprint message signature) ⟨c, a, [], env.faults⟩
      (fun _ t => Outcome env (.binaryMessageReceived (.message (.accept message) signature)) c a t)
      fun _ t => ∀ type,
        Outcome env (.binaryMessageReceived (.message (.accept message) signature)) c a (t.withError type) := by
  have hfail : ∀ faults type, Outcome env (.binaryMessageReceived (.message (.accept message) signature)) c a
      (TaskState.withError ⟨c, a, [], faults⟩ type) :=
    fun _ => outcome_fails ⟨fun _ => rfl, rfl, fun _ h => h, [], rfl, by simp⟩ (binary_ne_identify _)
  refine runs_bind (runs_checkIdle (fun hst => runs_bind (runs_client ?_)) fun _ => hfail _)
  refine runs_bind (runs_loadCrypto (fun info hinfo => ?_) fun _ => hfail _)
  refine runs_bind (runs_verifySignature (fun hsig => runs_emit ?_) fun _ => hfail _)
  subst hsig
  exact .accepted message info rfl hst hinfo rfl rfl rfl

omit [DecidableEq B] [Inhabited Dev] [Inhabited B] in
/-- A quiet computation that decides no attempt. -/
theorem outcome_quiet {task : Task Dev B} {m : Handler Dev B Unit} (h : IsQuiet m) (hdecides : ¬ task.Decides c)
    (htask : task ≠ .identify) :
    Runs m ⟨c, a, [], env.faults⟩ (fun _ t => Outcome env task c a t)
      fun _ t => ∀ type, Outcome env task c a (t.withError type) :=
  (h _).mono (fun _ _ ht => .quiet ht (fun hd => absurd hd hdecides) htask) fun _ _ ht type =>
    outcome_fails ht.fails htask type

end

section

variable {ownFingerprint : B → B → B → B → Option B} {env : Env Dev} {c : Client Dev B} {a : Accounts Dev B}

omit [DecidableEq B] in
theorem runs_proofResult (message : Option (AcceptMessage Dev B)) :
    Runs (proofResult env message) ⟨c, a, [], env.faults⟩
      (fun _ t => Outcome env (.proofResult message) c a t)
      fun _ t => ∀ type, Outcome env (.proofResult message) c a (t.withError type) := by
  have hid : Task.proofResult message ≠ .identify := fun h => (nomatch h)
  refine runs_bind (runs_client (runs_ite (fun hst => runs_pure ?_) fun hst => ?_))
  · exact .quiet (Quiet.refl _) (fun hd => absurd hd.1 hst) hid
  · rw [ne_eq, not_not] at hst
    cases message with
    | none => exact runs_sendError (.quiet (Quiet.of_client rfl rfl (Or.inr rfl) rfl rfl rfl) (fun _ => rfl) hid)
    | some message =>
      refine runs_ite (fun hne => runs_pure ?_) fun hne => ?_
      · exact .quiet (Quiet.refl _) (fun hd => absurd (hd.2 message rfl) hne) hid
      · refine runs_bind (runs_execute' (fun _ a' ha' => ?_) fun _ => ?_)
        · refine runs_bind (runs_setClient (runs_bind (runs_setClient (runs_bind (runs_setClient (runs_emit ?_))))))
          exact .granted message rfl hst (not_not.mp hne) rfl rfl (fun d hd => Accounts.addNewDeviceToUser_ok ha' hd) rfl
        · have hfail : Fails ⟨c, a, [], env.faults⟩ ⟨c, a, [], env.faults.tail⟩ :=
            ⟨fun _ => rfl, rfl, fun _ h => h, [], rfl, by simp⟩
          exact outcome_fails hfail hid

omit [Inhabited Dev] [Inhabited B] in
theorem runs_onMessage (message : Message Dev B) (signature : Signature B) :
    Runs (onMessage ownFingerprint env signature message) ⟨c, a, [], env.faults⟩
      (fun _ t => Outcome env (.binaryMessageReceived (.message message signature)) c a t)
      fun _ t => ∀ type,
        Outcome env (.binaryMessageReceived (.message message signature)) c a (t.withError type) := by
  have hid := binary_ne_identify (Binary.message message signature)
  cases message with
  | register message => exact runs_onRegister message signature
  | login message => exact runs_onLogin message signature
  | access message => exact runs_onAccess message signature
  | accept message => exact runs_onAccept message signature
  | sync => exact outcome_quiet (IsQuiet.checkIdle.bind fun _ => .triggerDownload _ _) id hid
  | change dataId keyIndex salt data => exact outcome_quiet (quiet_onChange dataId keyIndex salt data) id hid
  | deviceChange deviceId dataId keyIndex salt data => exact outcome_quiet (quiet_onDeviceChange deviceId dataId keyIndex salt data) id hid
  | changedAck dataIndex => exact outcome_quiet (quiet_onChangedAck dataIndex) id hid
  | listDevices => exact outcome_quiet quiet_onListDevices id hid
  | remove deviceId => exact outcome_quiet (quiet_onRemove deviceId) id hid
  | deny deviceId => exact outcome_quiet (IsQuiet.checkIdle.bind fun _ => .emit trivial) id hid
  | macUpdate keyIndex cmac => exact outcome_quiet (quiet_onMacUpdate keyIndex cmac) id hid
  | keyChange nextIndex => exact outcome_quiet (quiet_onKeyChange nextIndex) id hid
  | newKey keyIndex cmac scheme deviceKeys => exact outcome_quiet (quiet_onNewKey ownFingerprint keyIndex cmac scheme deviceKeys signature) id hid

variable (ownFingerprint env c a) in
/-- In the state `error` no message is handled. -/
theorem runs_body (task : Task Dev B) :
    Runs (body ownFingerprint env task) ⟨c, a, [], env.faults⟩ (fun _ t => Outcome env task c a t)
      fun _ t => ∀ type, Outcome env task c a (t.withError type) := by
  cases task with
  | identify => exact runs_bind (runs_client (runs_bind (runs_setClient (runs_setClient
      (.identified rfl rfl rfl rfl rfl rfl rfl)))))
  | binaryMessageReceived message =>
    refine runs_bind (runs_client (runs_ite (fun hst => runs_pure ?_) fun _ => ?_))
    · exact .quiet (Quiet.refl _) (fun _ => hst) (binary_ne_identify _)
    · cases message with
      | malformed => exact outcome_quiet (.throw _) id (binary_ne_identify _)
      | incompatible => exact outcome_quiet (.sendError _) id (binary_ne_identify _)
      | unknown => exact outcome_quiet (.sendError _) id (binary_ne_identify _)
      | message message signature => exact runs_onMessage message signature
  | notifyChanged =>
    exact outcome_quiet (IsQuiet.client.bind fun _ => .ite (.triggerDownload _ _) (.pure _)) id fun h => (nomatch h)
  | proofResult message => exact runs_proofResult message
  | sendProof message =>
    exact outcome_quiet (IsQuiet.client.bind fun _ => .ite (.emit trivial) (.sendMessage _)) id fun h => (nomatch h)
  | acceptDone deviceId =>
    exact outcome_quiet (IsQuiet.client.bind fun _ => .ite (.pure _) (.sendMessage _)) id fun h => (nomatch h)

end

end Handler

/-- **One task**: it authenticates, accepts, or is quiet. -/
theorem Client.run_outcome (ownFingerprint : B → B → B → B → Option B) (env : Env Dev) (task : Task Dev B)
    (c : Client Dev B) (a : Accounts Dev B) : Outcome env task c a (c.run ownFingerprint env task a) :=
  Client.run_of_runs (Handler.runs_body ownFingerprint env c a task)

end QtDataSync.Server
