import QtDataSync.Server.Sessions
import QtDataSync.Server.Tenancy

/-!
# Server.Effect — what a message of an idle client does to the accounts

A message is one transaction of `Tenancy`, which a failing query rolls back, or it touches rows of the own account
only; then its signals name no device of another account.
-/

namespace QtDataSync.Server

variable {Dev B : Type} [DecidableEq Dev]

/-! ### The rows of other accounts -/

namespace Accounts

/-- The rows of the devices of other accounts are the same. -/
structure RowsKept (userId : ℕ) (a a' : Accounts Dev B) : Prop where
  tables : Tables.RowsKept userId a.db.toTables a'.db.toTables
  info : ∀ d, a.db.IsForeign userId d → a'.info d = a.info d
  keychanges : ∀ k, a.db.IsForeign userId k.deviceid → (k ∈ a'.keychanges ↔ k ∈ a.keychanges)

/-- The transaction is committed or has no effect. -/
def next (a : Accounts Dev B) (tx : Transaction Dev) : Accounts Dev B :=
  match a.transaction tx with
  | .ok a' => a'
  | .error _ => a

variable {a a' : Accounts Dev B} {userId : ℕ} {tx : Transaction Dev}

theorem RowsKept.refl (userId : ℕ) (a : Accounts Dev B) : RowsKept userId a a :=
  ⟨.refl userId _, fun _ _ => rfl, fun _ _ => Iff.rfl⟩

theorem next_of_ok (h : a.transaction tx = .ok a') : a.next tx = a' := by
  rw [next, h]

theorem next_of_error {e : SqlError} (h : a.transaction tx = .error e) : a.next tx = a := by
  rw [next, h]

@[simp] theorem next_db (a : Accounts Dev B) (tx : Transaction Dev) : (a.next tx).db = tx.next a.db := by
  rcases h : tx.run a.db with e | db
  · have herr : a.transaction tx = .error e := by rw [transaction, h]; rfl
    rw [next_of_error herr, Transaction.next, h]
  · have hok : a.transaction tx = .ok (a.withDb db) := by rw [transaction, h]; rfl
    rw [next_of_ok hok, Transaction.next_of_ok h]
    rfl

@[simp] theorem next_info (a : Accounts Dev B) (tx : Transaction Dev) : (a.next tx).info = a.info := by
  rcases h : a.transaction tx with e | a'
  · rw [next_of_error h]
  · rw [next_of_ok h, (transaction_ok h).2]
    rfl

theorem mem_keychanges_next {k : KeyChange Dev B} :
    k ∈ (a.next tx).keychanges ↔ k ∈ a.keychanges ∧ k.deviceid ∈ (tx.next a.db).devices.map (·.id) := by
  rcases h : a.transaction tx with e | a'
  · rw [← next_db, next_of_error h]
    exact (and_iff_left_of_imp (a.keychanges_deviceid k)).symm
  · rw [← next_db, next_of_ok h, (transaction_ok h).2]
    exact List.mem_filter.trans (and_congr_right fun _ => decide_eq_true_iff)

/-- What a transaction does to the rows of other accounts is what it does to those of the `Database`. -/
theorem rowsKept_next : RowsKept userId a (a.next tx) ↔ Tables.RowsKept userId a.db.toTables (tx.next a.db).toTables := by
  refine ⟨fun h => next_db a tx ▸ h.tables, fun h => ⟨(next_db a tx).symm ▸ h, fun d _ => ?_, fun k hf => ?_⟩⟩
  · rw [next_info]
  · refine mem_keychanges_next.trans (and_iff_left_of_imp fun _ => ?_)
    obtain ⟨u, hu, hne⟩ := hf
    obtain ⟨row, hrow, rfl⟩ := Option.map_eq_some_iff.mp hu
    have hid := List.find?_some hrow
    rw [decide_eq_true_eq] at hid
    rw [← hid]
    exact List.mem_map_of_mem ((h.devices row hne).mpr (List.mem_of_find?_eq_some hrow))

/-- Other columns of a device of the own account, and other rows of `keychanges` for such devices. -/
theorem RowsKept.of_own {own : Dev} (huser : a.db.deviceUserId own = some userId) (hdb : a'.db = a.db)
    (hinfo : ∀ d, d ≠ own → a'.info d = a.info d)
    (hkeys : ∀ k, a.db.deviceUserId k.deviceid ≠ some userId → (k ∈ a'.keychanges ↔ k ∈ a.keychanges)) :
    RowsKept userId a a' := by
  refine ⟨?_, fun d hf => hinfo d (hf.ne huser), fun k hf => hkeys k fun hu => ?_⟩
  · rw [hdb]
    exact .refl userId _
  · obtain ⟨u, hu', hne⟩ := hf
    exact hne (Option.some.inj (hu'.symm.trans hu))

theorem rowsKept_updateCmac {own : Dev} (huser : a.db.deviceUserId own = some userId) {keyIndex : ℕ} {cmac : B}
    {ok : Bool} (h : a.updateCmac own keyIndex cmac = (a', ok)) : a'.db = a.db ∧ RowsKept userId a a' := by
  rcases updateCmac_ok h with ⟨-, rfl⟩ | ⟨-, -, rfl⟩
  · exact ⟨rfl, .refl userId _⟩
  · refine ⟨rfl, ?_⟩
    refine .of_own huser rfl (fun d hd => Function.update_of_ne hd ..) fun k hk => ?_
    refine List.mem_filter.trans (and_iff_left ?_)
    rw [Bool.not_eq_true', decide_eq_false_iff_not]
    rintro ⟨hown, -⟩
    rw [hown] at hk
    exact hk huser

theorem rowsKept_updateExchangeKey {own : Dev} (huser : a.db.deviceUserId own = some userId) {keyIndex : ℕ}
    {scheme cmac : B} {deviceKeys : List (Dev × B × B)} {ok : Bool}
    (h : a.updateExchangeKey own keyIndex scheme cmac deviceKeys = some (a', ok)) :
    a'.db = a.db ∧ RowsKept userId a a' ∧ (ok = true → ∀ x ∈ deviceKeys, ¬ a.db.IsForeign userId x.1) := by
  rcases updateExchangeKey_ok h with ⟨rfl, rfl⟩ | ⟨-, u, hu, -, -, hall, hkeys, hdb, -, hinfo⟩
  · exact ⟨rfl, .refl userId _, fun h => nomatch h⟩
  · obtain rfl := Option.some.inj (huser.symm.trans hu)
    refine ⟨hdb, .of_own huser hdb (fun d hd => ?_) fun k hk => ?_, fun _ x hx => ?_⟩
    · rw [hinfo]
      exact Function.update_of_ne hd ..
    · rw [hkeys]
      refine List.mem_append.trans (or_iff_left fun hm => ?_)
      obtain ⟨x, hx, rfl⟩ := List.mem_map.mp hm
      exact hk (hall x hx).1
    · rintro ⟨u', hu', hne⟩
      exact hne (Option.some.inj (hu'.symm.trans (hall x hx).1))

end Accounts

/-! ### What a message does -/

namespace Message

/-- The transaction of the message. -/
def transaction (own : Dev) : Message Dev B → Option (Transaction Dev)
  | .change dataId keyIndex salt data => some (.addChange own dataId keyIndex salt data)
  | .deviceChange deviceId dataId keyIndex salt data => some (.addDeviceChange own deviceId dataId keyIndex salt data)
  | .changedAck dataIndex => some (.completeChange own dataIndex)
  | .remove deviceId => some (.removeDevice own deviceId)
  | _ => none

/-- The signals after the transaction. -/
def signals (own : Dev) : Message Dev B → List (Signal Dev B)
  | .remove deviceId => if own = deviceId then [] else [.forceDisconnect deviceId]
  | _ => []

end Message

/-- A signal that concerns no device of another account. -/
def Signal.IsOwn (a : Accounts Dev B) (userId : ℕ) : Signal Dev B → Prop
  | .proofDone _ _ => True
  | .forceDisconnect d => ¬ a.db.IsForeign userId d
  | _ => False

/-- What a message of the device `own` of the account has done when the task ends in `t`. -/
structure Effect (own : Dev) (userId : ℕ) (a : Accounts Dev B) (fault : Prop) (message : Message Dev B)
    (t : TaskState Dev B) : Prop where
  commits : ¬ fault → ∀ tx, message.transaction own = some tx → t.accounts = a.next tx ∧ t.signals = message.signals own
  aborts : fault → ∀ tx, message.transaction own = some tx → t.accounts = a ∧ t.signals = []
  other : message.transaction own = none →
    t.accounts.db = a.db ∧ Accounts.RowsKept userId a t.accounts ∧ ∀ x ∈ t.signals, x.IsOwn a userId

namespace Effect

variable {own : Dev} {userId : ℕ} {a : Accounts Dev B} {fault : Prop} {message : Message Dev B} {t : TaskState Dev B}

theorem withError (h : Effect own userId a fault message t) (type : ErrorType) :
    Effect own userId a fault message (t.withError type) := ⟨h.commits, h.aborts, h.other⟩

theorem of_transaction {tx : Transaction Dev} (htx : message.transaction own = some tx)
    (hcommits : ¬ fault → t.accounts = a.next tx ∧ t.signals = message.signals own)
    (haborts : fault → t.accounts = a ∧ t.signals = []) : Effect own userId a fault message t where
  commits hno tx' h := by
    obtain rfl := Option.some.inj (htx.symm.trans h)
    exact hcommits hno
  aborts hf _ _ := haborts hf
  other h := nomatch htx.symm.trans h

theorem of_other (h : message.transaction own = none) (hdb : t.accounts.db = a.db)
    (hrows : Accounts.RowsKept userId a t.accounts) (hsignals : ∀ x ∈ t.signals, x.IsOwn a userId) :
    Effect own userId a fault message t where
  commits _ _ htx := nomatch h.symm.trans htx
  aborts _ _ htx := nomatch h.symm.trans htx
  other _ := ⟨hdb, hrows, hsignals⟩

/-- Nothing has happened. -/
theorem of_same (h : message.transaction own = none) (hacc : t.accounts = a) (hsignals : t.signals = []) :
    Effect own userId a fault message t := by
  refine .of_other h (by rw [hacc]) ?_ (by simp [hsignals])
  rw [hacc]
  exact .refl userId a

end Effect

namespace Handler

/-! ### Handlers that only read -/

/-- The computation changes neither the database nor the signals. -/
def Reads {α : Type} (m : Handler Dev B α) : Prop :=
  Relates (fun s t => t.accounts = s.accounts ∧ t.signals = s.signals) m

namespace Reads

omit [DecidableEq Dev]

variable {α β : Type} {m : Handler Dev B α}

theorem bind {f : α → Handler Dev B β} (h : Reads m) (hf : ∀ x, Reads (f x)) : Reads (m >>= f) :=
  Relates.bind (fun _ _ _ hst htu => ⟨htu.1.trans hst.1, htu.2.trans hst.2⟩) h hf

theorem pure (x : α) : Reads (Pure.pure x : Handler Dev B α) := Relates.pure (fun _ => ⟨rfl, rfl⟩) x

theorem throw (e : Exception) : Reads (MonadExcept.throw e : Handler Dev B α) := Relates.throw (fun _ => ⟨rfl, rfl⟩) e

theorem ite {p : Prop} [Decidable p] {m' : Handler Dev B α} (h : Reads m) (h' : Reads m') :
    Reads (if p then m else m') := Relates.ite (fun _ => h) fun _ => h'

theorem client : Reads (client : Handler Dev B _) := fun _ => runs_client ⟨rfl, rfl⟩

theorem setClient (f : Client Dev B → Client Dev B) : Reads (setClient f) := fun _ => runs_setClient ⟨rfl, rfl⟩

theorem sendMessage (message : Reply Dev B) : Reads (sendMessage message) := setClient _

theorem sendError (type : ErrorType) : Reads (sendError type : Handler Dev B Unit) :=
  (setClient _).bind fun _ => sendMessage _

theorem query : Reads (query : Handler Dev B Unit) := fun _ =>
  runs_query (fun _ => ⟨rfl, rfl⟩) fun _ => ⟨rfl, rfl⟩

theorem select (f : Accounts Dev B → α) : Reads (select f) := fun _ =>
  runs_select (fun _ => ⟨rfl, rfl⟩) fun _ => ⟨rfl, rfl⟩

theorem checkIdle : Reads (checkIdle : Handler Dev B Unit) := client.bind fun _ => ite (throw _) (pure _)

theorem withDownload (f : Accounts Dev B → Download.Client Dev → Download.Client Dev) : Reads (withDownload f) :=
  fun _ => runs_modify ⟨rfl, rfl⟩

theorem loadCrypto [DecidableEq Dev] (ownFingerprint : B → B → B → B → Option B) (deviceId : Dev) :
    Reads (loadCrypto ownFingerprint deviceId) := fun _ =>
  runs_loadCrypto (fun _ _ => ⟨rfl, rfl⟩) fun _ => ⟨rfl, rfl⟩

theorem verifySignature [DecidableEq B] (signature : Signature B) (key : PublicKey B) :
    Reads (verifySignature signature key : Handler Dev B Unit) := fun _ =>
  runs_verifySignature (fun _ => ⟨rfl, rfl⟩) fun _ => ⟨rfl, rfl⟩

theorem sendChanges [DecidableEq Dev] (skipNoChanges : Bool) (changes : List Download.Change) (updateChange : Bool) :
    Reads (sendChanges skipNoChanges changes updateChange : Handler Dev B Unit) := by
  induction changes generalizing updateChange with
  | nil => exact withDownload _
  | cons change changes ih =>
    refine bind ?_ fun _ => ih false
    exact client.bind fun _ => ite (query.bind fun _ => withDownload _) (withDownload _)

theorem triggerDownload [DecidableEq Dev] (forceUpdate skipNoChanges : Bool) :
    Reads (triggerDownload forceUpdate skipNoChanges : Handler Dev B Unit) :=
  client.bind fun _ => ite ((select _).bind fun changes => sendChanges skipNoChanges changes forceUpdate) (withDownload _)

theorem replyKeyChange (nextIndex : ℕ) (devices : List (Dev × B × B × Option B)) (offset : ℤ) :
    Reads (replyKeyChange nextIndex devices offset) :=
  ite (sendMessage _) (ite (sendMessage _) (ite (sendError _) (sendError _)))

end Reads

/-! ### The messages of an idle client -/

section

variable {ownFingerprint : B → B → B → B → Option B} {env : Env Dev} {c : Client Dev B} {a : Accounts Dev B}
  {userId : ℕ}

/-- What a message does when the task ends in `t`, or fails there. -/
abbrev HasEffect (env : Env Dev) (c : Client Dev B) (a : Accounts Dev B) (userId : ℕ) (message : Message Dev B)
    (m : Handler Dev B Unit) : Prop :=
  Runs m ⟨c, a, [], env.faults⟩ (fun _ t => Effect c.deviceId userId a (env.faults.head? = some true) message t)
    fun _ t => Effect c.deviceId userId a (env.faults.head? = some true) message t

theorem hasEffect_reads {message : Message Dev B} {m : Handler Dev B Unit} (h : Reads m)
    (hnone : message.transaction c.deviceId = none) : HasEffect env c a userId message m :=
  (h.runs _).mono (fun _ _ ht => .of_same hnone ht.1 ht.2) fun _ _ ht => .of_same hnone ht.1 ht.2

/-- A transaction that can hit the quota, and what follows it. -/
theorem hasEffect_executeQuota {message : Message Dev B} {tx : Transaction Dev}
    (htx : message.transaction c.deviceId = some tx) (hsig : message.signals c.deviceId = [])
    {m : Bool → Handler Dev B Unit} (hm : ∀ ok, Reads (m ok)) :
    HasEffect env c a userId message (executeQuota (fun a => a.transaction tx) >>= m) := by
  have hdone : ∀ t : TaskState Dev B, env.faults.head? ≠ some true → t.accounts = a.next tx ∧ t.signals = [] →
      Effect c.deviceId userId a (env.faults.head? = some true) message t := fun t hno ht =>
    .of_transaction htx (fun _ => ⟨ht.1, ht.2.trans hsig.symm⟩) fun hf => absurd hf hno
  refine runs_bind (runs_executeQuota (fun hno a' ha' => ?_) (fun hno herr => ?_) fun h => ?_)
  · rw [← Accounts.next_of_ok ha']
    exact ((hm true).runs _).mono (fun _ t => hdone t hno) fun _ t => hdone t hno
  · have hsame : a.next tx = a := Accounts.next_of_error herr
    refine ((hm false).runs _).mono (fun _ t ht => ?_) fun _ t ht => ?_
    · exact hdone t hno ⟨ht.1.trans hsame.symm, ht.2⟩
    · exact hdone t hno ⟨ht.1.trans hsame.symm, ht.2⟩
  · refine .of_transaction htx (fun hno => ?_) fun _ => ⟨rfl, rfl⟩
    obtain ⟨e, herr⟩ := h.resolve_left hno
    exact ⟨(Accounts.next_of_error herr).symm, hsig.symm⟩

/-- A transaction that is always committed, and what follows it. -/
theorem hasEffect_execute' {message : Message Dev B} {tx : Transaction Dev}
    (htx : message.transaction c.deviceId = some tx) (hcommits : ∃ db, tx.run a.db = .ok db) {m : Handler Dev B Unit}
    (hm : Relates (fun s t => t.accounts = s.accounts ∧ t.signals = s.signals ++ message.signals c.deviceId) m) :
    HasEffect env c a userId message (execute' (fun a => a.transaction tx) >>= fun _ => m) := by
  refine runs_bind (runs_execute' (fun hno a' ha' => ?_) fun h => ?_)
  · rw [← Accounts.next_of_ok ha']
    exact (hm _).mono (fun _ t ht => .of_transaction htx (fun _ => ht) fun hf => absurd hf hno)
      fun _ t ht => .of_transaction htx (fun _ => ht) fun hf => absurd hf hno
  · refine .of_transaction htx (fun hno => ?_) fun _ => ⟨rfl, rfl⟩
    obtain ⟨db, hok⟩ := hcommits
    obtain ⟨e, herr⟩ := h.resolve_left hno
    rw [Accounts.transaction, hok] at herr
    cases herr

/-- A message starts with the state of the client. -/
theorem hasEffect_idle (hidle : c.state = .idle) {message : Message Dev B} {m : Client Dev B → Handler Dev B Unit}
    (h : HasEffect env c a userId message (m c)) :
    HasEffect env c a userId message (checkIdle >>= fun _ => client >>= m) :=
  runs_bind (runs_checkIdle (fun _ => runs_bind (runs_client h)) fun hne => absurd hidle hne)

theorem hasEffect_onRemove (hidle : c.state = .idle) (deviceId : Dev) :
    HasEffect env c a userId (.remove deviceId) (onRemove deviceId) := by
  refine hasEffect_idle hidle (hasEffect_execute' rfl ?_ ?_)
  · refine Transaction.deleteUsers_commits fun u hu => ?_
    have hu' := of_decide_eq_true hu
    rw [hu'.1]
    exact hu'.2
  · refine fun s => runs_bind (runs_setClient (runs_ite (fun heq => runs_setClient ⟨rfl, ?_⟩) fun hne => runs_emit ⟨rfl, ?_⟩))
    · rw [Message.signals, if_pos heq, List.append_nil]
    · rw [Message.signals, if_neg hne]

theorem hasEffect_onChangedAck (hidle : c.state = .idle) (dataIndex : ℕ) :
    HasEffect env c a userId (.changedAck dataIndex) (onChangedAck dataIndex) := by
  refine hasEffect_idle hidle (hasEffect_execute' rfl ⟨_, rfl⟩ fun s => ?_)
  have hreads : Reads (do setClient fun c => { c with activeDownloads := c.activeDownloads.erase dataIndex }
                          triggerDownload false false : Handler Dev B Unit) :=
    (Reads.setClient _).bind fun _ => Reads.triggerDownload _ _
  exact (hreads s).mono (fun _ t ht => ⟨ht.1, ht.2.trans (List.append_nil _).symm⟩)
    fun _ t ht => ⟨ht.1, ht.2.trans (List.append_nil _).symm⟩

theorem hasEffect_onMacUpdate (hidle : c.state = .idle) (huser : a.db.deviceUserId c.deviceId = some userId)
    (keyIndex : ℕ) (cmac : B) :
    HasEffect env c a userId (.macUpdate keyIndex cmac) (onMacUpdate keyIndex cmac) := by
  refine hasEffect_idle hidle (runs_bind (runs_execute (fun _ a' ok ha' => ?_) fun _ => ?_))
  · obtain ⟨hdb, hrows⟩ := Accounts.rowsKept_updateCmac huser (Option.some.inj ha')
    have hreads : Reads (if ok then sendMessage .macUpdateAck else sendError .keyIndexError : Handler Dev B Unit) :=
      .ite (.sendMessage _) (.sendError _)
    refine (hreads.runs _).mono (fun _ t ht => ?_) fun _ t ht => ?_
    · exact .of_other rfl (by rw [ht.1]; exact hdb) (by rw [ht.1]; exact hrows) (by rw [ht.2]; simp)
    · exact .of_other rfl (by rw [ht.1]; exact hdb) (by rw [ht.1]; exact hrows) (by rw [ht.2]; simp)
  · exact .of_same rfl rfl rfl

omit [DecidableEq Dev] in
/-- One signal for each device. -/
theorem runs_forceDisconnects {s : TaskState Dev B} {E : Exception → TaskState Dev B → Prop}
    {Q : Unit → TaskState Dev B → Prop} {devices : List Dev}
    (hQ : Q () { s with signals := s.signals ++ devices.map .forceDisconnect }) :
    Runs (forceDisconnects devices) s Q E := by
  induction devices generalizing s with
  | nil =>
    rw [List.map_nil, List.append_nil] at hQ
    exact runs_pure hQ
  | cons device devices ih =>
    refine runs_bind (runs_emit (ih ?_))
    rwa [List.append_assoc]

theorem hasEffect_onNewKey [DecidableEq B] (hidle : c.state = .idle)
    (huser : a.db.deviceUserId c.deviceId = some userId) (keyIndex : ℕ) (cmac scheme : B)
    (deviceKeys : List (Dev × B × B)) (signature : Signature B) :
    HasEffect env c a userId (.newKey keyIndex cmac scheme deviceKeys)
      (onNewKey ownFingerprint keyIndex cmac scheme deviceKeys signature) := by
  refine hasEffect_idle hidle (runs_bind ?_)
  refine runs_loadCrypto (fun info _ => ?_) fun _ => .of_same rfl rfl rfl
  refine runs_bind (runs_verifySignature (fun _ => ?_) fun _ => .of_same rfl rfl rfl)
  refine runs_bind (runs_execute (fun _ a' ok ha' => ?_) fun _ => .of_same rfl rfl rfl)
  obtain ⟨hdb, hrows, hown⟩ := Accounts.rowsKept_updateExchangeKey huser ha'
  refine runs_ite (fun hok => ?_) fun _ => runs_sendError (.of_other rfl hdb hrows (by simp))
  refine runs_bind (runs_forceDisconnects (runs_setClient (.of_other rfl hdb hrows fun x hx => ?_)))
  obtain ⟨d, hd, rfl⟩ := List.mem_map.mp hx
  obtain ⟨y, hy, rfl⟩ := List.mem_map.mp hd
  exact hown hok y hy

theorem hasEffect_onAccept [DecidableEq B] (hidle : c.state = .idle) (message : AcceptMessage Dev B)
    (signature : Signature B) :
    HasEffect env c a userId (.accept message) (onAccept ownFingerprint message signature) := by
  refine hasEffect_idle hidle (runs_bind ?_)
  refine runs_loadCrypto (fun info _ => ?_) fun _ => .of_same rfl rfl rfl
  refine runs_bind (runs_verifySignature (fun _ => runs_emit ?_) fun _ => .of_same rfl rfl rfl)
  refine .of_other rfl rfl (.refl userId a) (List.forall_mem_singleton.mpr ?_)
  exact trivial

variable (ownFingerprint env)

/-- **Each message** of an idle client has its effect. -/
theorem hasEffect_onMessage [DecidableEq B] [Inhabited Dev] [Inhabited B] (hidle : c.state = .idle)
    (huser : a.db.deviceUserId c.deviceId = some userId) (message : Message Dev B) (signature : Signature B) :
    HasEffect env c a userId message (onMessage ownFingerprint env signature message) := by
  have hunexpected : ∀ {message : Message Dev B} {nonce : QByteArray} {m : Handler Dev B Unit},
      message.transaction c.deviceId = none → HasEffect env c a userId message (takeNonce nonce >>= fun _ => m) := by
    intro message nonce m hnone
    refine runs_bind (runs_takeNonce (fun hst _ => ?_) fun _ _ => .of_same hnone rfl rfl)
    rw [hidle] at hst
    cases hst
  cases message with
  | register message => exact hunexpected rfl
  | login message => exact hunexpected rfl
  | access message => exact hunexpected rfl
  | sync => exact hasEffect_reads (Reads.checkIdle.bind fun _ => .triggerDownload _ _) rfl
  | change dataId keyIndex salt data =>
    exact hasEffect_idle hidle (hasEffect_executeQuota rfl rfl fun _ => .ite (.sendMessage _) (.sendError _))
  | deviceChange deviceId dataId keyIndex salt data =>
    exact hasEffect_idle hidle (hasEffect_executeQuota rfl rfl fun _ => .ite (.sendMessage _) (.sendError _))
  | changedAck dataIndex => exact hasEffect_onChangedAck hidle dataIndex
  | listDevices =>
    exact hasEffect_reads (Reads.checkIdle.bind fun _ => Reads.client.bind fun _ =>
      (Reads.select _).bind fun _ => .sendMessage _) rfl
  | remove deviceId => exact hasEffect_onRemove hidle deviceId
  | accept message => exact hasEffect_onAccept hidle message signature
  | deny deviceId =>
    refine runs_bind (runs_checkIdle (fun _ => runs_emit ?_) fun hne => absurd hidle hne)
    refine .of_other rfl rfl (.refl userId a) (List.forall_mem_singleton.mpr ?_)
    exact trivial
  | macUpdate keyIndex cmac => exact hasEffect_onMacUpdate hidle huser keyIndex cmac
  | keyChange nextIndex =>
    refine hasEffect_reads (Reads.checkIdle.bind fun _ => Reads.client.bind fun c => Reads.bind (fun s => ?_)
      fun x => .replyKeyChange nextIndex x.1 x.2) rfl
    refine runs_execute (fun _ a' x h => ?_) fun _ => ⟨rfl, rfl⟩
    obtain ⟨y, -, he⟩ := Option.map_eq_some_iff.mp h
    exact ⟨(congrArg Prod.fst he).symm, rfl⟩
  | newKey keyIndex cmac scheme deviceKeys => exact hasEffect_onNewKey hidle huser keyIndex cmac scheme deviceKeys signature

end

end Handler

section

variable [DecidableEq B] [Inhabited Dev] [Inhabited B] (ownFingerprint : B → B → B → B → Option B) (env : Env Dev)
  {c : Client Dev B} {a : Accounts Dev B} {userId : ℕ}

theorem Client.run_effect (hidle : c.state = .idle) (huser : a.db.deviceUserId c.deviceId = some userId)
    (message : Message Dev B) (signature : Signature B) :
    Effect c.deviceId userId a (env.faults.head? = some true) message
      (c.run ownFingerprint env (.binaryMessageReceived (.message message signature)) a) := by
  have hbody : Handler.HasEffect env c a userId message
      (Handler.body ownFingerprint env (.binaryMessageReceived (.message message signature))) := by
    refine runs_bind (Handler.runs_client (runs_ite (fun herr => ?_) fun _ => ?_))
    · rw [hidle] at herr
      cases herr
    · exact Handler.hasEffect_onMessage ownFingerprint env hidle huser message signature
  exact Client.run_of_runs (hbody.mono (fun _ _ ht => ht) fun _ _ ht => ht.withError)

/-- The task leaves the state, or ends in `error`, and the id stays. -/
theorem Client.run_idle (hidle : c.state = .idle) (message : Message Dev B) (signature : Signature B) :
    ((c.run ownFingerprint env (.binaryMessageReceived (.message message signature)) a).client.state = .idle ∨
      (c.run ownFingerprint env (.binaryMessageReceived (.message message signature)) a).client.state = .error) ∧
    (c.run ownFingerprint env (.binaryMessageReceived (.message message signature)) a).client.deviceId = c.deviceId := by
  have hadvance := (Client.run_outcome ownFingerprint env (.binaryMessageReceived (.message message signature)) c a).advance
  refine ⟨hadvance.idle hidle, hadvance.deviceId ?_⟩
  rw [hidle]
  exact fun h => nomatch h

/-- A device that removes itself is not idle any more. -/
theorem Client.run_remove_self (signature : Signature B) :
    (c.run ownFingerprint env (.binaryMessageReceived (.message (.remove c.deviceId) signature)) a).client.state =
      .error := by
  refine Client.run_of_runs (P := fun t => t.client.state = .error) ?_
  refine runs_bind (Handler.runs_client (runs_ite (fun herr => runs_pure herr) fun _ => ?_))
  refine runs_bind (Handler.runs_checkIdle (fun _ => ?_) fun _ _ => rfl)
  refine runs_bind (Handler.runs_client (runs_bind (Handler.runs_execute' (fun _ a' _ => ?_) fun _ _ => rfl)))
  exact runs_bind (Handler.runs_setClient (runs_ite (fun _ => Handler.runs_setClient rfl) fun hne => absurd rfl hne))

/-- In the state `error` nothing happens. -/
theorem Client.run_of_error (herr : c.state = .error) (message : Binary Dev B) :
    c.run ownFingerprint env (.binaryMessageReceived message) a = ⟨c, a, [], env.faults⟩ :=
  Client.run_of_runs (P := fun t => t = ⟨c, a, [], env.faults⟩)
    (runs_bind (Handler.runs_client (runs_ite (fun _ => runs_pure rfl) fun hne => absurd herr hne)))

end

end QtDataSync.Server
