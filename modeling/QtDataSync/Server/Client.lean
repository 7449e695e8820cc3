import QtDataSync.Lib.Runs
import QtDataSync.Server.Accounts
import QtDataSync.Server.Download

/-!
# Server.Client — the tasks of a connection

`Client` of the server: the handlers of `client.cpp`, each run as one task by `run`, which turns exceptions into an
error message and the state `Error`.  A signature is genuine or not, and a genuine one shows who made it.  Reading the
public keys of a device is a parameter.  Every query can fail; which ones do is part of the environment of a task, as
are the random values and the date.
-/

namespace QtDataSync.Server

structure PublicKey (B : Type) where
  scheme : B
  key : B
deriving DecidableEq, Repr

/-- What stands behind a message: nothing, a signature that nobody made for it, or the signature of a key. -/
inductive Signature (B : Type) where
  | missing
  | forged
  | genuine (key : PublicKey B)
deriving DecidableEq, Repr

structure RegisterMessage (B : Type) where
  nonce : QByteArray
  signAlgorithm : B
  signKey : B
  cryptAlgorithm : B
  cryptKey : B
  deviceName : String
  cmac : B
deriving Inhabited

structure LoginMessage (Dev : Type) where
  nonce : QByteArray
  deviceId : Dev
  deviceName : String

structure AccessMessage (Dev B : Type) where
  nonce : QByteArray
  signAlgorithm : B
  signKey : B
  cryptAlgorithm : B
  cryptKey : B
  deviceName : String
  pNonce : QByteArray
  partnerId : Dev
  macscheme : B
  cmac : B
  trustmac : B
deriving Inhabited

structure ProofMessage (Dev B : Type) where
  pNonce : QByteArray
  deviceId : Dev
  deviceName : String
  signAlgorithm : B
  signKey : B
  cryptAlgorithm : B
  cryptKey : B
  macscheme : B
  cmac : B
  trustmac : B

structure AcceptMessage (Dev B : Type) where
  deviceId : Dev
  index : ℕ
  scheme : B
  secret : B

inductive Message (Dev B : Type) where
  | register (message : RegisterMessage B)
  | login (message : LoginMessage Dev)
  | access (message : AccessMessage Dev B)
  | sync
  | change (dataId : QByteArray) (keyIndex : ℕ) (salt data : QByteArray)
  | deviceChange (deviceId : Dev) (dataId : QByteArray) (keyIndex : ℕ) (salt data : QByteArray)
  | changedAck (dataIndex : ℕ)
  | listDevices
  | remove (deviceId : Dev)
  | accept (message : AcceptMessage Dev B)
  | deny (deviceId : Dev)
  | macUpdate (keyIndex : ℕ) (cmac : B)
  | keyChange (nextIndex : ℕ)
  | newKey (keyIndex : ℕ) (cmac scheme : B) (deviceKeys : List (Dev × B × B))

/-- The binary data of a message, as far as it can be read. -/
inductive Binary (Dev B : Type) where
  | malformed
  | incompatible
  | unknown
  | message (message : Message Dev B) (signature : Signature B)

inductive ErrorType where
  | unknownError
  | incompatibleVersionError
  | unexpectedMessageError
  | serverError
  | clientError
  | authenticationError
  | accessError
  | keyIndexError
  | keyPendingError
  | quotaHitError
deriving DecidableEq, Repr

/-- The messages of the server. -/
inductive Reply (Dev B : Type) where
  | identify (uploadLimit : ℕ) (nonce : QByteArray)
  | account (deviceId : Dev)
  | welcome (hasChanges : Bool) (keyChange : Option (ℕ × B × B × B))
  | grant (message : AcceptMessage Dev B)
  | download (message : Download.Message)
  | changeAck (dataId : QByteArray)
  | deviceChangeAck (deviceId : Dev) (dataId : QByteArray)
  | devices (devices : List (Dev × String × B))
  | removeAck (deviceId : Dev)
  | proof (message : ProofMessage Dev B)
  | acceptAck (deviceId : Dev)
  | macUpdateAck
  | deviceKeys (keyIndex : ℕ) (duplicated : Bool) (devices : List (Dev × B × B × Option B))
  | newKeyAck (keyIndex : ℕ)
  | error (type : ErrorType)

/-- A `proofDone` without message denies. -/
inductive Signal (Dev B : Type) where
  | connected (deviceId : Dev)
  | proofRequested (partner : Dev) (message : ProofMessage Dev B)
  | proofDone (partner : Dev) (message : Option (AcceptMessage Dev B))
  | forceDisconnect (partner : Dev)

/-- The states of a client; `awatingGrant` is the spelling of the source. -/
inductive ClientState where
  | authenticating
  | awatingGrant
  | idle
  | error
deriving DecidableEq, Repr

/-- The members of `Client`, and what it has sent. -/
structure Client (Dev B : Type) where
  uploadLimit : ℕ
  downLimit : ℕ
  downThreshold : ℕ
  state : ClientState
  deviceId : Dev
  loginNonce : QByteArray
  cachedChanges : ℕ
  activeDownloads : List ℕ
  cachedAccessRequest : AccessMessage Dev B
  cachedFingerPrint : B
  sent : List (Reply Dev B)

/-- The exceptions that `run` tells apart. -/
inductive Exception where
  | database
  | clientError (type : ErrorType)
  | std
deriving DecidableEq, Repr

/-- What a task works on: the client, the database, the emitted signals, and which of the next queries fail. -/
structure TaskState (Dev B : Type) where
  client : Client Dev B
  accounts : Accounts Dev B
  signals : List (Signal Dev B)
  faults : List Bool

/-- The random values and the date of a task, the quota limit of new accounts, and the queries that fail. -/
structure Env (Dev : Type) where
  nonce : QByteArray
  deviceId : Dev
  today : ℕ
  quota : ℕ
  faults : List Bool

inductive Task (Dev B : Type) where
  | identify
  | binaryMessageReceived (message : Binary Dev B)
  | notifyChanged
  | proofResult (message : Option (AcceptMessage Dev B))
  | sendProof (message : ProofMessage Dev B)
  | acceptDone (deviceId : Dev)

abbrev Handler (Dev B : Type) := ExceptT Exception (StateM (TaskState Dev B))

variable {Dev B : Type} [DecidableEq Dev] [DecidableEq B] [Inhabited Dev] [Inhabited B]

namespace Client

/-- The part of a client that the downloads use. -/
def download (c : Client Dev B) : Download.Client Dev where
  deviceId := c.deviceId
  downLimit := c.downLimit
  downThreshold := c.downThreshold
  idle := c.state = .idle
  cachedChanges := c.cachedChanges
  activeDownloads := c.activeDownloads
  task := none
  sent := []

def setDownload (c : Client Dev B) (d : Download.Client Dev) : Client Dev B :=
  { c with
    cachedChanges := d.cachedChanges
    activeDownloads := d.activeDownloads
    sent := c.sent ++ d.sent.map .download }

end Client

namespace Handler

/-! ### What the handlers are made of -/

def setClient (f : Client Dev B → Client Dev B) : Handler Dev B Unit :=
  modify fun s => { s with client := f s.client }

def client : Handler Dev B (Client Dev B) := do
  let s ← get
  pure s.client

def setState (state : ClientState) : Handler Dev B Unit := setClient fun c => { c with state := state }

def sendMessage (message : Reply Dev B) : Handler Dev B Unit := setClient fun c => { c with sent := c.sent ++ [message] }

/-- The signal `s`. -/
def emit (signal : Signal Dev B) : Handler Dev B Unit := modify fun s => { s with signals := s.signals ++ [signal] }

def sendError (type : ErrorType) : Handler Dev B Unit := do
  setState .error
  sendMessage (.error type)

/-- A query that may fail. -/
def query : Handler Dev B Unit := do
  let s ← get
  set { s with faults := s.faults.tail }
  if s.faults.head? = some true then throw .database else pure ()

/-- A function of the controller that only reads. -/
def select {α : Type} (f : Accounts Dev B → α) : Handler Dev B α := do
  query
  let s ← get
  pure (f s.accounts)

def setAccounts (a : Accounts Dev B) : Handler Dev B Unit := modify fun s => { s with accounts := a }

/-- A transaction that is committed, or rolled back by an exception. -/
def execute {α : Type} (f : Accounts Dev B → Option (Accounts Dev B × α)) : Handler Dev B α := do
  let res ← select f
  match res with
  | none => throw .database
  | some (a, x) => do
    setAccounts a
    pure x

/-- A transaction that returns nothing. -/
def execute' (f : Accounts Dev B → Except SqlError (Accounts Dev B)) : Handler Dev B Unit :=
  execute fun a => (f a).toOption.map fun a' => (a', ())

/-- `addChange` and `addDeviceChange` return false when the quota is hit. -/
def executeQuota (f : Accounts Dev B → Except SqlError (Accounts Dev B)) : Handler Dev B Bool :=
  execute fun a =>
    match f a with
    | .ok a' => some (a', true)
    | .error .check_violation => some (a, false)
    | .error _ => none

def verifySignature (signature : Signature B) (key : PublicKey B) : Handler Dev B Unit :=
  match signature with
  | .missing => throw .std
  | .forged => throw (.clientError .authenticationError)
  | .genuine signer => if signer = key then pure () else throw (.clientError .authenticationError)

/-! ### Downloads -/

def withDownload (f : Accounts Dev B → Download.Client Dev → Download.Client Dev) : Handler Dev B Unit :=
  modify fun s => { s with client := s.client.setDownload (f s.accounts s.client.download) }

def sendChange (change : Download.Change) (changes : List Download.Change) (updateChange skipNoChanges : Bool) :
    Handler Dev B Unit := do
  let c ← client
  if c.cachedChanges = 0 then do
    query -- changeCount
    withDownload fun a d => d.send a.db change changes updateChange skipNoChanges
  else withDownload fun a d => d.send a.db change changes updateChange skipNoChanges

def sendChanges (skipNoChanges : Bool) : List Download.Change → Bool → Handler Dev B Unit
  | [], _ => withDownload fun _ d => d.finish skipNoChanges
  | change :: changes, updateChange => do
    sendChange change changes updateChange skipNoChanges
    sendChanges skipNoChanges changes false

def triggerDownload (forceUpdate skipNoChanges : Bool) : Handler Dev B Unit := do
  let c ← client
  let cnt := Download.sub32 c.downLimit c.activeDownloads.length
  if c.downThreshold ≤ cnt then do
    let changes ← select fun a => DatabaseController.loadNextChanges a.db c.deviceId cnt c.activeDownloads.length
    sendChanges skipNoChanges changes forceUpdate
  else withDownload fun _ d => d.finish skipNoChanges

/-! ### The messages -/

/-- `createCryptoInfo` with `ownFingerprint`, and the constructor of `AsymmetricCryptoInfo`. -/
def createCryptoInfo (ownFingerprint : B → B → B → B → Option B) (signAlgorithm signKey cryptAlgorithm cryptKey : B) :
    Handler Dev B B :=
  match ownFingerprint signAlgorithm signKey cryptAlgorithm cryptKey with
  | none => throw .std
  | some fingerprint => pure fingerprint

/-- The key in the database that signatures of the device are verified with. -/
def loadCrypto (ownFingerprint : B → B → B → B → Option B) (deviceId : Dev) : Handler Dev B (PublicKey B) := do
  let info ← select fun a => a.loadCrypto deviceId
  match info with
  | none => throw (.clientError .authenticationError)
  | some info => do
    let _ ← createCryptoInfo ownFingerprint info.signscheme info.signkey info.cryptscheme info.cryptkey
    pure ⟨info.signscheme, info.signkey⟩

def checkIdle : Handler Dev B Unit := do
  let c ← client
  if c.state ≠ .idle then throw (.clientError .unexpectedMessageError) else pure ()

/-- The state and the nonce of a message that authenticates; the nonce is used up. -/
def takeNonce (nonce : QByteArray) : Handler Dev B Unit := do
  let c ← client
  if c.state ≠ .authenticating then throw (.clientError .unexpectedMessageError)
  else if c.loginNonce ≠ nonce then throw .std
  else setClient fun c => { c with loginNonce := [] }

variable (ownFingerprint : B → B → B → B → Option B) (env : Env Dev)

def onRegister (message : RegisterMessage B) (signature : Signature B) : Handler Dev B Unit := do
  takeNonce message.nonce
  let fingerprint ←
    createCryptoInfo ownFingerprint message.signAlgorithm message.signKey message.cryptAlgorithm message.cryptKey
  verifySignature signature ⟨message.signAlgorithm, message.signKey⟩
  execute' fun a => a.addNewDevice env.quota env.deviceId env.today
    ⟨message.deviceName, message.signAlgorithm, message.signKey, message.cryptAlgorithm, message.cryptKey,
      fingerprint, some message.cmac⟩
  setClient fun c => { c with deviceId := env.deviceId }
  sendMessage (.account env.deviceId)
  setState .idle
  emit (.connected env.deviceId)

def onLogin (message : LoginMessage Dev) (signature : Signature B) : Handler Dev B Unit := do
  takeNonce message.nonce
  let key ← loadCrypto ownFingerprint message.deviceId
  verifySignature signature key
  setClient fun c => { c with deviceId := message.deviceId }
  execute' fun a => a.updateLogin message.deviceId message.deviceName env.today
  let cachedChanges ← select fun a => DatabaseController.changeCount a.db message.deviceId % 2 ^ 32
  setClient fun c => { c with cachedChanges := cachedChanges }
  let keyChange ← select fun a => a.loadKeyChanges message.deviceId
  sendMessage (.welcome (0 < cachedChanges) keyChange)
  setState .idle
  emit (.connected message.deviceId)
  triggerDownload true (cachedChanges = 0)

/-- The id is not stored yet. -/
def onAccess (message : AccessMessage Dev B) (signature : Signature B) : Handler Dev B Unit := do
  takeNonce message.nonce
  let fingerprint ←
    createCryptoInfo ownFingerprint message.signAlgorithm message.signKey message.cryptAlgorithm message.cryptKey
  verifySignature signature ⟨message.signAlgorithm, message.signKey⟩
  setClient fun c => { c with
    cachedFingerPrint := fingerprint
    deviceId := env.deviceId
    cachedAccessRequest := message
    state := .awatingGrant }
  emit (.proofRequested message.partnerId
    ⟨message.pNonce, env.deviceId, message.deviceName, message.signAlgorithm, message.signKey,
      message.cryptAlgorithm, message.cryptKey, message.macscheme, message.cmac, message.trustmac⟩)

def onSync : Handler Dev B Unit := do
  checkIdle
  triggerDownload false false

def onChange (dataId : QByteArray) (keyIndex : ℕ) (salt data : QByteArray) : Handler Dev B Unit := do
  checkIdle
  let c ← client
  let ok ← executeQuota fun a => a.transaction (.addChange c.deviceId dataId keyIndex salt data)
  if ok then sendMessage (.changeAck dataId) else sendError .quotaHitError

def onDeviceChange (deviceId : Dev) (dataId : QByteArray) (keyIndex : ℕ) (salt data : QByteArray) :
    Handler Dev B Unit := do
  checkIdle
  let c ← client
  let ok ← executeQuota fun a => a.transaction (.addDeviceChange c.deviceId deviceId dataId keyIndex salt data)
  if ok then sendMessage (.deviceChangeAck deviceId dataId) else sendError .quotaHitError

def onChangedAck (dataIndex : ℕ) : Handler Dev B Unit := do
  checkIdle
  let c ← client
  execute' fun a => a.transaction (.completeChange c.deviceId dataIndex)
  setClient fun c => { c with activeDownloads := c.activeDownloads.erase dataIndex }
  triggerDownload false false

def onListDevices : Handler Dev B Unit := do
  checkIdle
  let c ← client
  let devices ← select fun a => a.listDevices c.deviceId
  sendMessage (.devices devices)

def onRemove (deviceId : Dev) : Handler Dev B Unit := do
  checkIdle
  let c ← client
  execute' fun a => a.transaction (.removeDevice c.deviceId deviceId)
  sendMessage (.removeAck deviceId)
  if c.deviceId = deviceId then setState .error else emit (.forceDisconnect deviceId)

def onAccept (message : AcceptMessage Dev B) (signature : Signature B) : Handler Dev B Unit := do
  checkIdle
  let c ← client
  let key ← loadCrypto ownFingerprint c.deviceId
  verifySignature signature key
  emit (.proofDone message.deviceId (some message))

def onDeny (deviceId : Dev) : Handler Dev B Unit := do
  checkIdle
  emit (.proofDone deviceId none)

def onMacUpdate (keyIndex : ℕ) (cmac : B) : Handler Dev B Unit := do
  checkIdle
  let c ← client
  let ok ← execute fun a => some (a.updateCmac c.deviceId keyIndex cmac)
  if ok then sendMessage .macUpdateAck else sendError .keyIndexError

/-- The reply to a key change by the `offset` of the proposed index. -/
def replyKeyChange (nextIndex : ℕ) (devices : List (Dev × B × B × Option B)) (offset : ℤ) : Handler Dev B Unit :=
  if offset = 1 then sendMessage (.deviceKeys nextIndex false devices)
  else if offset = 0 then sendMessage (.deviceKeys nextIndex true [])
  else if offset = -1 then sendError .keyPendingError
  else sendError .keyIndexError

def onKeyChange (nextIndex : ℕ) : Handler Dev B Unit := do
  checkIdle
  let c ← client
  let (devices, offset) ← execute fun a => (a.tryKeyChange c.deviceId nextIndex).map fun x => (a, x)
  replyKeyChange nextIndex devices offset

/-- The devices with a new key are disconnected, one signal each. -/
def forceDisconnects : List Dev → Handler Dev B Unit
  | [] => pure ()
  | device :: devices => do
    emit (.forceDisconnect device)
    forceDisconnects devices

def onNewKey (keyIndex : ℕ) (cmac scheme : B) (deviceKeys : List (Dev × B × B)) (signature : Signature B) :
    Handler Dev B Unit := do
  checkIdle
  let c ← client
  let key ← loadCrypto ownFingerprint c.deviceId
  verifySignature signature key
  let ok ← execute fun a => a.updateExchangeKey c.deviceId keyIndex scheme cmac deviceKeys
  if ok then do
    forceDisconnects (deviceKeys.map (·.1))
    sendMessage (.newKeyAck keyIndex)
  else sendError .keyIndexError

def onMessage (signature : Signature B) : Message Dev B → Handler Dev B Unit
  | .register message => onRegister ownFingerprint env message signature
  | .login message => onLogin ownFingerprint env message signature
  | .access message => onAccess ownFingerprint env message signature
  | .sync => onSync
  | .change dataId keyIndex salt data => onChange dataId keyIndex salt data
  | .deviceChange deviceId dataId keyIndex salt data => onDeviceChange deviceId dataId keyIndex salt data
  | .changedAck dataIndex => onChangedAck dataIndex
  | .listDevices => onListDevices
  | .remove deviceId => onRemove deviceId
  | .accept message => onAccept ownFingerprint message signature
  | .deny deviceId => onDeny deviceId
  | .macUpdate keyIndex cmac => onMacUpdate keyIndex cmac
  | .keyChange nextIndex => onKeyChange nextIndex
  | .newKey keyIndex cmac scheme deviceKeys => onNewKey ownFingerprint keyIndex cmac scheme deviceKeys signature

/-! ### The tasks -/

def binaryMessageReceived : Binary Dev B → Handler Dev B Unit
  | .malformed => throw .std
  | .incompatible => sendError .incompatibleVersionError
  | .unknown => sendError .incompatibleVersionError
  | .message message signature => onMessage ownFingerprint env signature message

def proofResult (message : Option (AcceptMessage Dev B)) : Handler Dev B Unit := do
  let c ← client
  if c.state ≠ .awatingGrant then pure ()
  else
    match message with
    | none => sendError .accessError
    | some message =>
      if message.deviceId ≠ c.deviceId then pure ()
      else do
        let request := c.cachedAccessRequest
        execute' fun a => a.addNewDeviceToUser c.deviceId request.partnerId env.today
          ⟨request.deviceName, request.signAlgorithm, request.signKey, request.cryptAlgorithm, request.cryptKey,
            c.cachedFingerPrint, none⟩
        setClient fun c => { c with cachedAccessRequest := default, cachedFingerPrint := default }
        sendMessage (.grant message)
        setState .idle
        emit (.connected c.deviceId)

def sendProof (message : ProofMessage Dev B) : Handler Dev B Unit := do
  let c ← client
  if c.state ≠ .idle then emit (.proofDone message.deviceId none) else sendMessage (.proof message)

def body : Task Dev B → Handler Dev B Unit
  | .identify => do
    let c ← client
    setClient fun c => { c with loginNonce := env.nonce }
    sendMessage (.identify c.uploadLimit env.nonce)
  | .binaryMessageReceived message => do
    let c ← client
    if c.state = .error then pure () else binaryMessageReceived ownFingerprint env message
  | .notifyChanged => do
    let c ← client
    if c.state = .idle then triggerDownload false false else pure ()
  | .proofResult message => proofResult env message
  | .sendProof message => sendProof message
  | .acceptDone deviceId => do
    let c ← client
    if c.state ≠ .idle then pure () else sendMessage (.acceptAck deviceId)

/-- The `catch` blocks of `run`. -/
def handleException : Exception → Handler Dev B Unit
  | .database => sendError .serverError
  | .clientError type => sendError type
  | .std => sendError .clientError

end Handler

/-! ### Rules -/

namespace Handler

variable {s : TaskState Dev B} {E : Exception → TaskState Dev B → Prop}

omit [DecidableEq Dev] [DecidableEq B] [Inhabited Dev] [Inhabited B]

theorem runs_client {Q : Client Dev B → TaskState Dev B → Prop} (hQ : Q s.client s) : Runs client s Q E :=
  runs_bind (runs_get (runs_pure hQ))

theorem runs_setClient {Q : Unit → TaskState Dev B → Prop} {f : Client Dev B → Client Dev B}
    (hQ : Q () { s with client := f s.client }) : Runs (setClient f) s Q E := runs_modify hQ

theorem runs_emit {Q : Unit → TaskState Dev B → Prop} {signal : Signal Dev B}
    (hQ : Q () { s with signals := s.signals ++ [signal] }) : Runs (emit signal) s Q E := runs_modify hQ

theorem runs_sendError {Q : Unit → TaskState Dev B → Prop} {type : ErrorType}
    (hQ : Q () { s with client := { s.client with state := .error, sent := s.client.sent ++ [.error type] } }) :
    Runs (sendError type) s Q E := runs_bind (runs_setClient (runs_setClient hQ))

theorem runs_query {Q : Unit → TaskState Dev B → Prop}
    (hQ : s.faults.head? ≠ some true → Q () { s with faults := s.faults.tail })
    (hE : s.faults.head? = some true → E .database { s with faults := s.faults.tail }) : Runs query s Q E := by
  refine runs_bind (runs_get (runs_bind (runs_modify ?_)))
  exact runs_ite (fun h => runs_throw (hE h)) fun h => runs_pure (hQ h)

theorem runs_select {α : Type} {Q : α → TaskState Dev B → Prop} {f : Accounts Dev B → α}
    (hQ : s.faults.head? ≠ some true → Q (f s.accounts) { s with faults := s.faults.tail })
    (hE : s.faults.head? = some true → E .database { s with faults := s.faults.tail }) : Runs (select f) s Q E :=
  runs_bind (runs_query (fun h => runs_bind (runs_get (runs_pure (hQ h)))) hE)

theorem runs_execute {α : Type} {Q : α → TaskState Dev B → Prop}
    {f : Accounts Dev B → Option (Accounts Dev B × α)}
    (hQ : s.faults.head? ≠ some true → ∀ a x, f s.accounts = some (a, x) →
      Q x { s with accounts := a, faults := s.faults.tail })
    (hE : s.faults.head? = some true ∨ f s.accounts = none → E .database { s with faults := s.faults.tail }) :
    Runs (execute f) s Q E := by
  refine runs_bind (runs_select (fun hok => ?_) fun h => hE (Or.inl h))
  rcases hf : f s.accounts with _ | ⟨a, x⟩
  · exact runs_throw (hE (Or.inr hf))
  · exact runs_bind (runs_modify (runs_pure (hQ hok a x hf)))

theorem runs_execute' {Q : Unit → TaskState Dev B → Prop} {f : Accounts Dev B → Except SqlError (Accounts Dev B)}
    (hQ : s.faults.head? ≠ some true → ∀ a, f s.accounts = .ok a →
      Q () { s with accounts := a, faults := s.faults.tail })
    (hE : (s.faults.head? = some true ∨ ∃ e, f s.accounts = .error e) → E .database { s with faults := s.faults.tail }) :
    Runs (execute' f) s Q E := by
  refine runs_execute (fun hok a x h => ?_) fun h => hE (h.imp_right fun h => ?_)
  · rcases hf : f s.accounts with e | a'
    · rw [hf] at h
      cases h
    · rw [hf] at h
      cases h
      exact hQ hok a hf
  · rcases hf : f s.accounts with e | a'
    · exact ⟨e, rfl⟩
    · rw [hf] at h
      cases h

theorem runs_executeQuota {Q : Bool → TaskState Dev B → Prop}
    {f : Accounts Dev B → Except SqlError (Accounts Dev B)}
    (hok : s.faults.head? ≠ some true → ∀ a, f s.accounts = .ok a →
      Q true { s with accounts := a, faults := s.faults.tail })
    (hquota : s.faults.head? ≠ some true → f s.accounts = .error .check_violation →
      Q false { s with faults := s.faults.tail })
    (hE : (s.faults.head? = some true ∨ ∃ e, f s.accounts = .error e) → E .database { s with faults := s.faults.tail }) :
    Runs (executeQuota f) s Q E := by
  refine runs_execute (fun hno a x h => ?_) fun h => hE (h.imp_right fun h => ?_)
  · split at h
    · rename_i hf
      cases h
      exact hok hno a hf
    · rename_i hf
      cases h
      exact hquota hno hf
    · cases h
  · split at h
    · cases h
    · cases h
    · rename_i e _ hf
      exact ⟨e, hf⟩

theorem runs_createCryptoInfo {Q : B → TaskState Dev B → Prop} {ownFingerprint : B → B → B → B → Option B}
    {signAlgorithm signKey cryptAlgorithm cryptKey : B} (hQ : ∀ fingerprint, Q fingerprint s) (hE : E .std s) :
    Runs (createCryptoInfo ownFingerprint signAlgorithm signKey cryptAlgorithm cryptKey) s Q E := by
  unfold createCryptoInfo
  split
  · exact runs_throw hE
  · exact runs_pure (hQ _)

theorem runs_loadCrypto [DecidableEq Dev] {Q : PublicKey B → TaskState Dev B → Prop}
    {ownFingerprint : B → B → B → B → Option B} {deviceId : Dev}
    (hQ : ∀ info, s.accounts.loadCrypto deviceId = some info →
      Q ⟨info.signscheme, info.signkey⟩ { s with faults := s.faults.tail })
    (hE : ∀ e, E e { s with faults := s.faults.tail }) : Runs (loadCrypto ownFingerprint deviceId) s Q E := by
  refine runs_bind (runs_select (fun _ => ?_) fun _ => hE _)
  rcases hinfo : s.accounts.loadCrypto deviceId with _ | info
  · exact runs_throw (hE _)
  · exact runs_bind (runs_createCryptoInfo (fun _ => runs_pure (hQ info hinfo)) (hE _))

theorem runs_verifySignature [DecidableEq B] {Q : Unit → TaskState Dev B → Prop} {signature : Signature B}
    {key : PublicKey B} (hQ : signature = .genuine key → Q () s) (hE : ∀ e, E e s) :
    Runs (verifySignature signature key) s Q E := by
  rcases signature with - | - | signer
  · exact runs_throw (hE _)
  · exact runs_throw (hE _)
  · exact runs_ite (fun h => runs_pure (hQ (congrArg _ h))) fun _ => runs_throw (hE _)

theorem runs_checkIdle {Q : Unit → TaskState Dev B → Prop} (hQ : s.client.state = .idle → Q () s)
    (hE : s.client.state ≠ .idle → E (.clientError .unexpectedMessageError) s) : Runs checkIdle s Q E :=
  runs_bind (runs_client (runs_ite (fun h => runs_throw (hE h)) fun h => runs_pure (hQ (not_not.mp h))))

theorem runs_takeNonce {Q : Unit → TaskState Dev B → Prop} {nonce : QByteArray}
    (hQ : s.client.state = .authenticating → s.client.loginNonce = nonce →
      Q () { s with client := { s.client with loginNonce := [] } })
    (hE : ∀ e, (s.client.state ≠ .authenticating ∨ s.client.loginNonce ≠ nonce) → E e s) :
    Runs (takeNonce nonce) s Q E := by
  refine runs_bind (runs_client (runs_ite (fun h => runs_throw (hE _ (Or.inl h))) fun hst => ?_))
  refine runs_ite (fun h => runs_throw (hE _ (Or.inr h))) fun hn => ?_
  exact runs_setClient (hQ (not_not.mp hst) (not_not.mp hn))

end Handler

/-- A task of the client. -/
def Client.run (ownFingerprint : B → B → B → B → Option B) (env : Env Dev) (task : Task Dev B) (c : Client Dev B)
    (a : Accounts Dev B) : TaskState Dev B :=
  (exec (tryCatch (Handler.body ownFingerprint env task) Handler.handleException) ⟨c, a, [], env.faults⟩).2

end QtDataSync.Server
