import QtDataSync.Connector.StateMachine
import QtDataSync.Lib.Transition

/-!
# Connector.RemoteConnector — the socket, the state machine and the messages between them

`RemoteConnector` with its socket, the state machine it submits events to, and what waits in the event loop: the events
of the machine, the calls of `machineReady` and of `disconnected`, and the buffered messages.  A turn of the machine
takes one event.  `machineReady` handles the buffered messages one by one, and what the slots that are connected to a
signal of a handler call is a step of its own.  What a message, a call or the configuration holds that decides a branch
is part of it.  The events carry the number of sockets that had been created when they were submitted.
-/

namespace QtDataSync.Connector

/-- `QAbstractSocket::SocketState`. -/
inductive SocketState where
  | Unconnected
  | Connecting
  | Connected
  | Closing
deriving DecidableEq, Repr

/-- A `QWebSocket`, by the number of sockets that were created up to it; `keepalive` tells whether it is connected to
the ping timer. -/
structure Socket where
  id : ℕ
  state : SocketState
  keepalive : Bool
deriving DecidableEq, Repr

def SocketState.isOpen : SocketState → Bool
  | Connected | Closing => true
  | _ => false

/-- The message that answers an `IdentifyMessage`. -/
inductive Request where
  | login
  | register
  | access
deriving DecidableEq, Repr

def Request.awaits : Request → Event
  | login => .awaitLogin
  | register => .awaitRegister
  | access => .awaitGranted

/-- What becomes of a key update when an account is ready: nothing has to be sent, the mac is sent, or it fails. -/
inductive KeyUpdate where
  | nothing
  | sent
  | failed
deriving DecidableEq, Repr

/-- What `onProof` finds; a trusted proof is accepted if the key can be encrypted. -/
inductive Verdict where
  | rejected
  | trusted (encrypts : Bool)
  | untrusted
deriving DecidableEq, Repr

/-- The messages of the server; `fails` tells that the handler throws before it sends or submits anything. -/
inductive Content (Dev : Type*) where
  | Ping
  | Error (canRecover : Bool)
  | Identify (request : Request) (fails : Bool)
  | Account (fails : Bool)
  | Welcome (update : KeyUpdate)
  | Grant (fails : Bool) (update : KeyUpdate)
  | ChangeAck
  | DeviceChangeAck
  | Changed (fails : Bool)
  | ChangedInfo (fails : Bool)
  | LastChanged
  | Devices
  | RemoveAck (own : Bool)
  | Proof (deviceId : Dev) (verdict : Verdict)
  | AcceptAck
  | MacUpdateAck
  | DeviceKeys (duplicated fails : Bool)
  | NewKeyAck (fails : Bool)
  | Unknown
deriving DecidableEq, Repr

/-- A message with the socket it was received from. -/
structure Received (Dev : Type*) where
  socket : ℕ
  content : Content Dev
deriving DecidableEq, Repr

/-- A message that was handled: whether a submitted event was pending, and how many sockets had been created. -/
structure Handled (Dev : Type*) where
  message : Received Dev
  pending : Bool
  sockets : ℕ
deriving DecidableEq, Repr

inductive SendKind where
  | sendMessage
  | sendSignedMessage
  | ping
deriving DecidableEq, Repr

/-- What was sent: on which socket, after a login and an account of which socket, and whether in `Idle`. -/
structure Sent where
  kind : SendKind
  socket : Option ℕ
  login : Option ℕ
  account : Option ℕ
  idle : Bool
deriving DecidableEq, Repr

/-- The members of the connector and what waits in the event loop: `readies` calls of `machineReady` (`draining` while
one runs) and `disconnects` calls of `disconnected`.  `login` and `account` are the sockets of the messages of the
current login, and the last three fields are the history. -/
structure RemoteConnector (Dev : Type*) where
  socket : Option Socket
  sockets : ℕ
  machine : State
  isClosing : Bool
  events : List (Event × ℕ)
  messageProcessingBlocked : Bool
  messageBuffer : List (Received Dev)
  readies : ℕ
  draining : Bool
  disconnects : ℕ
  pingTimer : Bool
  awaitingPing : Bool
  retrying : Bool
  activeProofs : List Dev
  login : Option ℕ
  account : Option ℕ
  sent : List Sent
  received : List (Received Dev)
  handled : List (Handled Dev)
deriving DecidableEq, Repr

/-- What a turn of the machine finds: `checkCanSync`, the keepalive timeout, and an unfinished key update. -/
structure Env where
  canSync : Bool
  keepalive : Bool
  hasKeyUpdate : Bool
deriving DecidableEq, Repr

/-- The calls from outside; `fails` is an exception of the encryption. -/
inductive Call (Dev : Type*) where
  | reconnect
  | disconnectRemote
  | resync
  | listDevices
  | removeDevice (own : Bool)
  | resetAccount (registered : Bool)
  | loginReply (deviceId : Dev) (accept encrypts : Bool)
  | initKeyUpdate
  | uploadData (fails : Bool)
  | uploadDeviceData (fails : Bool)
  | downloadDone
  | setSyncEnabled (syncEnabled : Bool)
  | finalize
deriving DecidableEq, Repr

variable {Dev : Type*}

/-- The handler sends, or takes a step of the login. -/
def Content.reaches (machine : State) : Content Dev → Bool
  | .Identify _ fails => !fails && (machine == .Connected || machine == .Connecting)
  | .Account fails => !fails && machine == .Registering
  | .Welcome _ => machine == .LoggingIn
  | .Grant fails _ => !fails && machine == .Granting
  | .Proof _ verdict => machine == .Idle && verdict != .untrusted
  | .DeviceKeys duplicated fails => !duplicated && !fails && machine == .Idle
  | _ => false

namespace RemoteConnector

/-! ### Events and sending -/

def submitEventSync (s : RemoteConnector Dev) (event : Event) : RemoteConnector Dev :=
  { s with messageProcessingBlocked := true, events := s.events ++ [(event, s.sockets)] }

def isIdle (s : RemoteConnector Dev) : Bool := s.machine == .Idle

/-- What is sent goes to the socket; without one this is a null pointer. -/
def send (s : RemoteConnector Dev) (kind : SendKind) : RemoteConnector Dev :=
  { s with sent := s.sent ++ [⟨kind, s.socket.map (·.id), s.login, s.account, s.isIdle⟩] }

def sendMessage (s : RemoteConnector Dev) : RemoteConnector Dev := s.send .sendMessage

def sendSignedMessage (s : RemoteConnector Dev) : RemoteConnector Dev := s.send .sendSignedMessage

def triggerError (s : RemoteConnector Dev) (canRecover : Bool) : RemoteConnector Dev :=
  s.submitEventSync (if canRecover then .basicError else .fatalError)

/-- A local error cannot be recovered. -/
def onClientError (s : RemoteConnector Dev) : RemoteConnector Dev := s.triggerError false

/-! ### Calls -/

def reconnect (s : RemoteConnector Dev) : RemoteConnector Dev := s.submitEventSync .reconnect

def disconnectRemote (s : RemoteConnector Dev) : RemoteConnector Dev := s.triggerError false

def resync (s : RemoteConnector Dev) : RemoteConnector Dev := if s.isIdle then s.sendMessage else s

def listDevices (s : RemoteConnector Dev) : RemoteConnector Dev := if s.isIdle then s.sendMessage else s

def removeDevice (s : RemoteConnector Dev) (own : Bool) : RemoteConnector Dev :=
  if s.isIdle then if own then s else s.sendMessage else s

/-- Without a machine that runs the reset is over; without a device there is nothing to be removed. -/
def resetAccount (s : RemoteConnector Dev) (registered : Bool) : RemoteConnector Dev :=
  let s := if registered then { s with activeProofs := [] } else s
  if s.machine.isRunning then
    if registered && s.isIdle then s.sendMessage else s.reconnect
  else s

variable [DecidableEq Dev]

/-- Only a proof that is known is answered; if the key cannot be encrypted, it is denied. -/
def loginReply (s : RemoteConnector Dev) (deviceId : Dev) (accept encrypts : Bool) : RemoteConnector Dev :=
  if s.isIdle then
    if deviceId ∈ s.activeProofs then
      let s := { s with activeProofs := s.activeProofs.filter (· ≠ deviceId) }
      if accept && encrypts then s.sendSignedMessage else s.sendMessage
    else s
  else s

def initKeyUpdate (s : RemoteConnector Dev) : RemoteConnector Dev := if s.isIdle then s.sendMessage else s

/-- `uploadData` and `uploadDeviceData`. -/
def upload (s : RemoteConnector Dev) (fails : Bool) : RemoteConnector Dev :=
  if s.isIdle then if fails then s.onClientError else s.sendMessage else s

def downloadDone (s : RemoteConnector Dev) : RemoteConnector Dev := if s.isIdle then s.sendMessage else s

/-- The setting has changed. -/
def setSyncEnabled (s : RemoteConnector Dev) (syncEnabled : Bool) : RemoteConnector Dev :=
  if syncEnabled then s.reconnect else s.disconnectRemote

def finalize (s : RemoteConnector Dev) : RemoteConnector Dev :=
  let s := { s with pingTimer := false }
  if s.machine.isRunning then { s with isClosing := true }.submitEventSync .close else s

def call (s : RemoteConnector Dev) : Call Dev → RemoteConnector Dev
  | .reconnect => s.reconnect
  | .disconnectRemote => s.disconnectRemote
  | .resync => s.resync
  | .listDevices => s.listDevices
  | .removeDevice own => s.removeDevice own
  | .resetAccount registered => s.resetAccount registered
  | .loginReply deviceId accept encrypts => s.loginReply deviceId accept encrypts
  | .initKeyUpdate => s.initKeyUpdate
  | .uploadData fails => s.upload fails
  | .uploadDeviceData fails => s.upload fails
  | .downloadDone => s.downloadDone
  | .setSyncEnabled syncEnabled => s.setSyncEnabled syncEnabled
  | .finalize => s.finalize

/-! ### Timers -/

/-- The interval of the keepalive timer is over: the last ping was not answered, or one is sent. -/
def ping (s : RemoteConnector Dev) : RemoteConnector Dev :=
  if s.awaitingPing then { s with awaitingPing := false }.reconnect else { s with awaitingPing := true }.send .ping

/-- A proof that nobody has answered is denied. -/
def proofTimeout (s : RemoteConnector Dev) (deviceId : Dev) : RemoteConnector Dev :=
  if deviceId ∈ s.activeProofs then
    { s with activeProofs := s.activeProofs.filter (· ≠ deviceId) }.sendMessage
  else s

def retry (s : RemoteConnector Dev) : RemoteConnector Dev := if s.retrying then s.reconnect else s

/-! ### Messages -/

/-- What is only expected in `Idle`. -/
def checkIdle (s : RemoteConnector Dev) (handler : RemoteConnector Dev → RemoteConnector Dev) : RemoteConnector Dev :=
  if s.isIdle then handler s else s.triggerError true

/-- A handler that sends nothing. -/
def readIdle (s : RemoteConnector Dev) (fails : Bool) : RemoteConnector Dev :=
  s.checkIdle fun s => if fails then s.onClientError else s

/-- The login starts on the socket of the message. -/
def onIdentify (s : RemoteConnector Dev) (socket : ℕ) (request : Request) (fails : Bool) : RemoteConnector Dev :=
  if s.machine = .Connected ∨ s.machine = .Connecting then
    if fails then s.onClientError
    else { s with login := some socket }.sendSignedMessage.submitEventSync request.awaits
  else s.triggerError true

/-- The end of `onWelcome` and `onGrant`. -/
def sendKeyUpdate (s : RemoteConnector Dev) : KeyUpdate → RemoteConnector Dev
  | .nothing => s
  | .sent => s.sendMessage
  | .failed => s.onClientError

/-- The login is over on the socket of the message. -/
def submitAccount (s : RemoteConnector Dev) (socket : ℕ) : RemoteConnector Dev :=
  { s with account := some socket }.submitEventSync .account

def onAccount (s : RemoteConnector Dev) (socket : ℕ) (fails : Bool) : RemoteConnector Dev :=
  if s.machine = .Registering then if fails then s.onClientError else s.submitAccount socket
  else s.triggerError true

def onWelcome (s : RemoteConnector Dev) (socket : ℕ) (update : KeyUpdate) : RemoteConnector Dev :=
  if s.machine = .LoggingIn then (s.submitAccount socket).sendKeyUpdate update else s.triggerError true

def onGrant (s : RemoteConnector Dev) (socket : ℕ) (fails : Bool) (update : KeyUpdate) : RemoteConnector Dev :=
  if s.machine = .Granting then
    if fails then s.onClientError else (s.submitAccount socket).sendKeyUpdate update
  else s.triggerError true

/-- The own device is only removed by a reset, which ends with a reconnect. -/
def onRemoveAck (s : RemoteConnector Dev) (own : Bool) : RemoteConnector Dev :=
  s.checkIdle fun s => if own then s.reconnect else s

def onProof (s : RemoteConnector Dev) (deviceId : Dev) (verdict : Verdict) : RemoteConnector Dev :=
  s.checkIdle fun s =>
    match verdict with
    | .rejected => s.sendMessage
    | .trusted encrypts => { s with activeProofs := deviceId :: s.activeProofs }.loginReply deviceId true encrypts
    | .untrusted => { s with activeProofs := deviceId :: s.activeProofs }

def onDeviceKeys (s : RemoteConnector Dev) (duplicated fails : Bool) : RemoteConnector Dev :=
  s.checkIdle fun s => if fails then s.onClientError else if duplicated then s else s.sendSignedMessage

/-- The event loop has submitted an event that the machine has yet to take; `doDisconnect` is sent by the machine. -/
def pending (s : RemoteConnector Dev) : Bool := s.events.any (·.1 ≠ .doDisconnect)

/-- `binaryMessageReceived` for a message that is handled. -/
def handle (s : RemoteConnector Dev) (message : Received Dev) : RemoteConnector Dev :=
  let s := { s with handled := s.handled ++ [⟨message, s.pending, s.sockets⟩] }
  match message.content with
  | .Ping => s
  | .Error canRecover => s.triggerError canRecover
  | .Identify request fails => s.onIdentify message.socket request fails
  | .Account fails => s.onAccount message.socket fails
  | .Welcome update => s.onWelcome message.socket update
  | .Grant fails update => s.onGrant message.socket fails update
  | .ChangeAck => s.readIdle false
  | .DeviceChangeAck => s.readIdle false
  | .Changed fails => s.readIdle fails
  | .ChangedInfo fails => s.readIdle fails
  | .LastChanged => s.readIdle false
  | .Devices => s.readIdle false
  | .RemoveAck own => s.onRemoveAck own
  | .Proof deviceId verdict => s.onProof deviceId verdict
  | .AcceptAck => s.readIdle false
  | .MacUpdateAck => s.readIdle false
  | .DeviceKeys duplicated fails => s.onDeviceKeys duplicated fails
  | .NewKeyAck fails => s.readIdle fails
  | .Unknown => s.triggerError true

/-- A message of the socket; one that must wait is buffered. -/
def binaryMessageReceived (s : RemoteConnector Dev) (message : Received Dev) : RemoteConnector Dev :=
  if message.content = .Ping then { s with awaitingPing := false, pingTimer := true }
  else
    let s := { s with received := s.received ++ [message] }
    if s.messageProcessingBlocked then { s with messageBuffer := s.messageBuffer ++ [message] }
    else s.handle message

/-! ### The socket -/

omit [DecidableEq Dev] in
/-- A socket that is deleted is closed, which stops the ping timer it is connected to. -/
def deleteSocket (s : RemoteConnector Dev) (socket : Socket) : RemoteConnector Dev :=
  if socket.keepalive && socket.state.isOpen then { s with pingTimer := false } else s

omit [DecidableEq Dev] in
/-- The slot that is called when the socket has been disconnected. -/
def disconnected (s : RemoteConnector Dev) : RemoteConnector Dev :=
  let s : RemoteConnector Dev := match s.socket with
    | some socket => { s.deleteSocket socket with socket := none }
    | none => s
  s.submitEventSync .disconnected

omit [DecidableEq Dev] in
def tryClose (s : RemoteConnector Dev) : RemoteConnector Dev :=
  match s.socket with
  | some ⟨id, .Connected, keepalive⟩ => { s with socket := some ⟨id, .Closing, keepalive⟩ }
  | _ => s

omit [DecidableEq Dev] in
def doConnect (s : RemoteConnector Dev) (env : Env) : RemoteConnector Dev :=
  if env.canSync && !s.isClosing then
    let s : RemoteConnector Dev := match s.socket with
      | some socket => if socket.state = .Unconnected then s else s.deleteSocket socket
      | none => s
    { s with
      sockets := s.sockets + 1
      socket := some ⟨s.sockets + 1, .Connecting, env.keepalive⟩
      awaitingPing := if env.keepalive then false else s.awaitingPing
      login := none
      account := none }
  else s.submitEventSync .noConnect

omit [DecidableEq Dev] in
def doDisconnect (s : RemoteConnector Dev) : RemoteConnector Dev :=
  match s.socket with
  | some ⟨id, .Connected, keepalive⟩ => { s with socket := some ⟨id, .Closing, keepalive⟩ }
  | some ⟨_, .Closing, _⟩ => s
  | some _ => { s with socket := none }.submitEventSync .disconnected
  | none => s.submitEventSync .disconnected

/-! ### The machine -/

omit [DecidableEq Dev] in
/-- The slots of the states that are left and entered. -/
def enter (s : RemoteConnector Dev) (env : Env) (t : State) : RemoteConnector Dev :=
  let s := { s with
    activeProofs := if s.machine.isActive && !t.isActive then [] else s.activeProofs
    machine := t
    events := s.events ++ if s.machine.sendsDisconnect t then [(.doDisconnect, s.sockets)] else [] }
  match t with
  | .Connecting => s.doConnect env
  | .Retry => { s with retrying := true }
  | .Idle =>
    let s := { s with retrying := false }
    if env.hasKeyUpdate then s.initKeyUpdate else s
  | _ => s

omit [DecidableEq Dev] in
/-- The transition without an event. -/
def enterClosing (s : RemoteConnector Dev) (env : Env) : RemoteConnector Dev :=
  if s.isClosing then
    match s.machine.closingTransition with
    | some t => s.enter env t
    | none => s
  else s

omit [DecidableEq Dev] in
/-- The slot of the event, and its transition. -/
def process (s : RemoteConnector Dev) (env : Env) (event : Event) : RemoteConnector Dev :=
  let s := if event = .doDisconnect then s.doDisconnect else s
  match s.machine.transition event with
  | some t => s.enter env t
  | none => s

omit [DecidableEq Dev] in
/-- The end of a turn, which calls `machineReady` later. -/
def reachedStableState (s : RemoteConnector Dev) : RemoteConnector Dev := { s with readies := s.readies + 1 }

/-- What happens, in any order: calls and timers, signals of the socket and calls of its slots, messages, and turns of
the machine and of the event loop. -/
inductive Step (Dev : Type*) where
  | start (env : Env)
  | call (call : Call Dev)
  | ping
  | proofTimeout (deviceId : Dev)
  | retry
  | specialOperationTimeout
  | connected
  | socketDisconnected
  | disconnected
  | tryClose
  | message (content : Content Dev)
  | turn (env : Env)
  | machineReady
  | dequeue
  | drained

/-- While `machineReady` runs, only what its handlers call can happen. -/
def next (s : RemoteConnector Dev) : Step Dev → Option (RemoteConnector Dev)
  | .call c => some (s.call c)
  | .dequeue =>
    match s.draining && !s.messageProcessingBlocked, s.messageBuffer with
    | true, message :: buffer => some ({ s with messageBuffer := buffer }.handle message)
    | _, _ => none
  | .drained =>
    if s.draining && (s.messageProcessingBlocked || s.messageBuffer.isEmpty) then some { s with draining := false }
    else none
  | .start env =>
    if s.machine = .NotRunning then some (s.enter env .Connecting).reachedStableState else none
  | .ping => if s.draining || !s.pingTimer then none else some s.ping
  | .proofTimeout deviceId => if s.draining then none else some (s.proofTimeout deviceId)
  | .retry => if s.draining then none else some s.retry
  | .specialOperationTimeout => if s.draining then none else some (s.triggerError true)
  | .connected =>
    match s.draining, s.socket with
    | false, some ⟨id, .Connecting, keepalive⟩ => some { s.submitEventSync .connected with
        socket := some ⟨id, .Connected, keepalive⟩
        pingTimer := keepalive || s.pingTimer }
    | _, _ => none
  | .socketDisconnected =>
    match s.draining, s.socket with
    | false, some socket =>
      if socket.state = .Unconnected then none
      else some { s with
        socket := some ⟨socket.id, .Unconnected, socket.keepalive⟩
        pingTimer := !socket.keepalive && s.pingTimer
        disconnects := s.disconnects + 1 }
    | _, _ => none
  | .disconnected =>
    if s.draining || s.disconnects == 0 then none
    else some { s with disconnects := s.disconnects - 1 }.disconnected
  | .tryClose => if s.draining then none else some s.tryClose
  | .message content =>
    match s.draining, s.socket with
    | false, some socket =>
      if socket.state.isOpen then some (s.binaryMessageReceived ⟨socket.id, content⟩) else none
    | _, _ => none
  | .turn env =>
    match s.draining || !s.machine.isRunning, s.events with
    | false, (event, _) :: events =>
      let s := ({ s with events := events }.enterClosing env).process env event
      some (s.enterClosing env).reachedStableState
    | _, _ => none
  | .machineReady =>
    if s.draining || s.readies == 0 then none
    else some { s with readies := s.readies - 1, messageProcessingBlocked := false, draining := true }

/-- A connector that was initialized, with any saved state. -/
def Init (s : RemoteConnector Dev) : Prop :=
  s.socket = none ∧ s.sockets = 0 ∧ s.machine = .NotRunning ∧ s.isClosing = false ∧ s.events = [] ∧
    s.messageProcessingBlocked = false ∧ s.messageBuffer = [] ∧ s.readies = 0 ∧ s.draining = false ∧
    s.disconnects = 0 ∧ s.pingTimer = false ∧ s.activeProofs = [] ∧ s.login = none ∧ s.account = none ∧
    s.sent = [] ∧ s.received = [] ∧ s.handled = []

def lts : LTS (RemoteConnector Dev) (Step Dev) := LTS.ofStep Init next

/-! ### Rules -/

section

variable {s : RemoteConnector Dev} {P : RemoteConnector Dev → Prop}

/-- The call sends something in `Idle`. -/
def Sends (s : RemoteConnector Dev) : Call Dev → Prop
  | .reconnect | .disconnectRemote | .setSyncEnabled _ | .finalize => False
  | .removeDevice own => own = false
  | .resetAccount registered => registered = true
  | .loginReply deviceId _ _ => deviceId ∈ s.activeProofs
  | .uploadData fails | .uploadDeviceData fails => fails = false
  | .resync | .listDevices | .initKeyUpdate | .downloadDone => True

instance (s : RemoteConnector Dev) : (c : Call Dev) → Decidable (s.Sends c)
  | .reconnect | .disconnectRemote | .setSyncEnabled _ | .finalize => isFalse id
  | .removeDevice own => inferInstanceAs (Decidable (own = false))
  | .resetAccount registered => inferInstanceAs (Decidable (registered = true))
  | .loginReply deviceId _ _ => inferInstanceAs (Decidable (deviceId ∈ s.activeProofs))
  | .uploadData fails | .uploadDeviceData fails => inferInstanceAs (Decidable (fails = false))
  | .resync | .listDevices | .initKeyUpdate | .downloadDone => isTrue trivial

/-- The events that a call, a timer or a handler submits. -/
def IsRequest (e : Event) : Prop := e = .reconnect ∨ e = .basicError ∨ e = .fatalError ∨ e = .close

/-- A call submits requests, and sends in `Idle`. -/
theorem call_rule {c : Call Dev} (hs : P s) (hsubmit : ∀ u e, IsRequest e → P u → P (u.submitEventSync e))
    (hsend : ∀ u kind, s.Sends c → u.isIdle = true → P u → P (u.send kind))
    (hproofs : ∀ u l, l ⊆ u.activeProofs → P u → P { u with activeProofs := l })
    (hclosing : ∀ u closing, P u → P { u with pingTimer := false, isClosing := closing }) : P (s.call c) := by
  have hreconnect : ∀ u, P u → P u.reconnect := fun u hu => hsubmit u _ (Or.inl rfl) hu
  have herror : ∀ u, P u → P (u.triggerError false) := fun u hu => hsubmit u _ (Or.inr (Or.inr (Or.inl rfl))) hu
  have hidle : s.Sends c → P (if s.isIdle then s.sendMessage else s) := by
    intro hc
    split_ifs with h
    · exact hsend s _ hc h hs
    · exact hs
  have hupload : ∀ fails, (fails = false → s.Sends c) → P (s.upload fails) := by
    intro fails hc
    unfold upload
    split_ifs with h hfails
    · exact herror s hs
    · exact hsend s _ (hc (by simpa using hfails)) h hs
    · exact hs
  cases c with
  | reconnect => exact hreconnect s hs
  | disconnectRemote => exact herror s hs
  | resync => exact hidle trivial
  | listDevices => exact hidle trivial
  | removeDevice own =>
    show P (s.removeDevice own)
    unfold removeDevice
    split_ifs with h hown
    · exact hs
    · exact hsend s _ (by simpa [Sends] using hown) h hs
    · exact hs
  | resetAccount registered =>
    have hu : P (if registered then { s with activeProofs := [] } else s) := by
      split_ifs
      · exact hproofs s [] (List.nil_subset _) hs
      · exact hs
    show P (s.resetAccount registered)
    unfold resetAccount
    simp only
    generalize (if registered then { s with activeProofs := [] } else s) = u at hu ⊢
    split_ifs with _ h
    · rw [Bool.and_eq_true] at h
      exact hsend u _ h.1 h.2 hu
    · exact hreconnect u hu
    · exact hu
  | loginReply deviceId accept encrypts =>
    have hu := hproofs s (s.activeProofs.filter (· ≠ deviceId)) (List.filter_subset_self _) hs
    show P (s.loginReply deviceId accept encrypts)
    unfold loginReply
    simp only
    split_ifs with h hknown
    · exact hsend _ _ hknown h hu
    · exact hsend _ _ hknown h hu
    · exact hs
    · exact hs
  | initKeyUpdate => exact hidle trivial
  | uploadData fails => exact hupload fails id
  | uploadDeviceData fails => exact hupload fails id
  | downloadDone => exact hidle trivial
  | setSyncEnabled syncEnabled =>
    show P (s.setSyncEnabled syncEnabled)
    unfold setSyncEnabled
    split_ifs
    · exact hreconnect s hs
    · exact herror s hs
  | finalize =>
    show P s.finalize
    unfold finalize
    simp only
    split_ifs
    · exact hsubmit _ _ (Or.inr (Or.inr (Or.inr rfl))) (hclosing s true hs)
    · exact hclosing s s.isClosing hs

/-- A handler submits requests or does what it reaches. -/
theorem handle_rule {m : Received Dev}
    (hs : P { s with handled := s.handled ++ [⟨m, s.pending, s.sockets⟩] })
    (hsubmit : ∀ u e, IsRequest e → P u → P (u.submitEventSync e))
    (hproofs : ∀ u l, u.machine = .Idle → P u → P { u with activeProofs := l })
    (hsend : ∀ u kind, m.content.reaches s.machine = true → u.machine = s.machine → s.machine.isIdentified = true →
      P u → P (u.send kind))
    (hidentify : ∀ u (request : Request), m.content.reaches s.machine = true → u.machine = s.machine → P u →
      P ({ u with login := some m.socket }.sendSignedMessage.submitEventSync request.awaits))
    (haccount : ∀ u, m.content.reaches s.machine = true → u.machine = s.machine → P u →
      P (u.submitAccount m.socket)) : P (s.handle m) := by
  obtain ⟨socket, content⟩ := m
  unfold handle
  generalize hu : ({ s with handled := s.handled ++ [⟨⟨socket, content⟩, s.pending, s.sockets⟩] } :
    RemoteConnector Dev) = u at hs
  have hmachine : u.machine = s.machine := by rw [← hu]
  have herror : ∀ v, P v → P (v.triggerError false) := fun v hv => hsubmit v _ (Or.inr (Or.inr (Or.inl rfl))) hv
  have hunexpected : ∀ v, P v → P (v.triggerError true) := fun v hv => hsubmit v _ (Or.inr (Or.inl rfl)) hv
  have hcheck : ∀ handler : RemoteConnector Dev → RemoteConnector Dev, (s.machine = .Idle → P (handler u)) →
      P (u.checkIdle handler) := by
    intro handler hhandler
    unfold checkIdle
    split_ifs with h
    · exact hhandler (hmachine.symm.trans (beq_iff_eq.mp h))
    · exact hunexpected u hs
  have hread : ∀ fails, P (u.readIdle fails) := by
    intro fails
    refine hcheck _ fun _ => ?_
    split_ifs
    · exact herror u hs
    · exact hs
  have hupdate : ∀ v update, Content.reaches s.machine content = true → v.machine = s.machine →
      s.machine.isIdentified = true → P v → P (v.sendKeyUpdate update) := by
    intro v update hr hm hi hv
    cases update with
    | nothing => exact hv
    | sent => exact hsend v _ hr hm hi hv
    | failed => exact herror v hv
  cases content with
  | Ping => exact hs
  | Error canRecover =>
    cases canRecover with
    | true => exact hunexpected u hs
    | false => exact herror u hs
  | Identify request fails =>
    show P (u.onIdentify socket request fails)
    unfold onIdentify
    split_ifs with h hfails
    · exact herror u hs
    · rw [hmachine] at h
      exact hidentify u request (by rcases h with h | h <;> simp [Content.reaches, hfails, h]) hmachine hs
    · exact hunexpected u hs
  | Account fails =>
    show P (u.onAccount socket fails)
    unfold onAccount
    rw [hmachine]
    split_ifs with h hfails
    · exact herror u hs
    · exact haccount u (by simp [Content.reaches, hfails, h]) hmachine hs
    · exact hunexpected u hs
  | Welcome update =>
    show P (u.onWelcome socket update)
    unfold onWelcome
    rw [hmachine]
    split_ifs with h
    · have hr : (Content.Welcome update : Content Dev).reaches s.machine = true := by simp [Content.reaches, h]
      exact hupdate (u.submitAccount socket) update hr hmachine (by rw [h]; rfl) (haccount u hr hmachine hs)
    · exact hunexpected u hs
  | Grant fails update =>
    show P (u.onGrant socket fails update)
    unfold onGrant
    rw [hmachine]
    split_ifs with h hfails
    · exact herror u hs
    · have hr : (Content.Grant fails update : Content Dev).reaches s.machine = true := by
        simp [Content.reaches, h, hfails]
      exact hupdate (u.submitAccount socket) update hr hmachine (by rw [h]; rfl) (haccount u hr hmachine hs)
    · exact hunexpected u hs
  | RemoveAck own =>
    refine hcheck _ fun _ => ?_
    split_ifs
    · exact hsubmit u _ (Or.inl rfl) hs
    · exact hs
  | Proof deviceId verdict =>
    refine hcheck _ fun h => ?_
    have hidentified : s.machine.isIdentified = true := by rw [h]; rfl
    have hu' := hproofs u (deviceId :: u.activeProofs) (hmachine.trans h) hs
    cases verdict with
    | rejected => exact hsend u _ (by simp [Content.reaches, h]) hmachine hidentified hs
    | trusted encrypts =>
      have hr : (Content.Proof deviceId (.trusted encrypts)).reaches s.machine = true := by simp [Content.reaches, h]
      have hidle : ({ u with activeProofs := deviceId :: u.activeProofs } : RemoteConnector Dev).isIdle = true := by
        simp [isIdle, hmachine, h]
      have hv := hproofs ({ u with activeProofs := deviceId :: u.activeProofs })
        ((deviceId :: u.activeProofs).filter (· ≠ deviceId)) (hmachine.trans h) hu'
      show P (loginReply { u with activeProofs := deviceId :: u.activeProofs } deviceId true encrypts)
      unfold loginReply
      rw [if_pos hidle, if_pos List.mem_cons_self]
      simp only
      split_ifs
      · exact hsend _ _ hr hmachine hidentified hv
      · exact hsend _ _ hr hmachine hidentified hv
    | untrusted => exact hu'
  | DeviceKeys duplicated fails =>
    refine hcheck _ fun h => ?_
    split_ifs with hfails hduplicated
    · exact herror u hs
    · exact hs
    · exact hsend u _ (by simp [Content.reaches, hfails, hduplicated, h]) hmachine (by rw [h]; rfl) hs
  | ChangeAck => exact hread false
  | DeviceChangeAck => exact hread false
  | Changed fails => exact hread fails
  | ChangedInfo fails => exact hread fails
  | LastChanged => exact hread false
  | Devices => exact hread false
  | AcceptAck => exact hread false
  | MacUpdateAck => exact hread false
  | NewKeyAck fails => exact hread fails
  | Unknown => exact hunexpected u hs

omit [DecidableEq Dev] in
/-- A state is entered: what it changes, and then its slot. -/
theorem enter_rule {env : Env} {t : State}
    (hbase : ∀ l, l ⊆ s.activeProofs → (s.machine.isActive = true → t.isActive = false → l = []) →
      P { s with
        activeProofs := l
        machine := t
        events := s.events ++ if s.machine.sendsDisconnect t then [(Event.doDisconnect, s.sockets)] else [] })
    (hretry : ∀ u retrying, P u → P { u with retrying := retrying })
    (hconnect : t = .Connecting → ∀ u, P u → P (u.doConnect env))
    (hkey : t = .Idle → env.hasKeyUpdate = true → ∀ u, P u → P (u.send .sendMessage)) : P (s.enter env t) := by
  have hu := hbase (if s.machine.isActive && !t.isActive then [] else s.activeProofs) ?_ ?_
  · unfold enter
    generalize ({ s with
        activeProofs := if s.machine.isActive && !t.isActive then [] else s.activeProofs
        machine := t
        events := s.events ++ if s.machine.sendsDisconnect t then [(Event.doDisconnect, s.sockets)] else [] } :
      RemoteConnector Dev) = u at hu ⊢
    split
    · exact hconnect rfl u hu
    · exact hretry u true hu
    · have hready := hretry u false hu
      have hkeyed : env.hasKeyUpdate = true → P (initKeyUpdate { u with retrying := false }) := by
        intro hupdate
        unfold initKeyUpdate
        split_ifs
        · exact hkey rfl hupdate _ hready
        · exact hready
      split_ifs with hupdate
      · exact hkeyed hupdate
      · exact hready
    · exact hu
  · split_ifs
    · exact List.nil_subset _
    · exact List.Subset.refl _
  · intro ha ht
    rw [ha, ht]
    rfl

omit [DecidableEq Dev] in
/-- A socket is created, or there is none to be connected. -/
theorem doConnect_eq (s : RemoteConnector Dev) (env : Env) :
    (env.canSync = true ∧ s.isClosing = false ∧ ∃ pingTimer awaitingPing, s.doConnect env = { s with
      sockets := s.sockets + 1
      socket := some ⟨s.sockets + 1, .Connecting, env.keepalive⟩
      pingTimer := pingTimer
      awaitingPing := awaitingPing
      login := none
      account := none } ∧ (pingTimer = true → s.pingTimer = true ∧ ∀ k, s.socket = some k →
        k.state = .Unconnected ∨ ¬ (k.keepalive = true ∧ k.state.isOpen = true))) ∨
      s.doConnect env = s.submitEventSync .noConnect := by
  unfold doConnect
  by_cases h : (env.canSync && !s.isClosing) = true
  · rw [if_pos h]
    rw [Bool.and_eq_true, Bool.not_eq_true'] at h
    refine Or.inl ⟨h.1, h.2, ?_⟩
    rcases hs : s.socket with - | k
    · exact ⟨s.pingTimer, _, rfl, by simp⟩
    · by_cases hk : k.state = .Unconnected
      · exact ⟨s.pingTimer, if env.keepalive then false else s.awaitingPing, by simp [hk], by simp [hk]⟩
      · by_cases hopen : (k.keepalive && k.state.isOpen) = true
        · exact ⟨false, if env.keepalive then false else s.awaitingPing, by simp [hk, deleteSocket, hopen], by simp⟩
        · refine ⟨s.pingTimer, if env.keepalive then false else s.awaitingPing, by simp [hk, deleteSocket, hopen], ?_⟩
          simpa using fun h => ⟨h, Or.inr (by simpa using hopen)⟩
  · exact Or.inr (if_neg h)

end

/-! ### A login -/

namespace Sample

/-- A connector that was not started. -/
def stopped : RemoteConnector ℕ where
  socket := none
  sockets := 0
  machine := .NotRunning
  isClosing := false
  events := []
  messageProcessingBlocked := false
  messageBuffer := []
  readies := 0
  draining := false
  disconnects := 0
  pingTimer := false
  awaitingPing := false
  retrying := false
  activeProofs := []
  login := none
  account := none
  sent := []
  received := []
  handled := []

theorem init_stopped : Init stopped := by simp [Init, stopped]

def env : Env := ⟨true, true, false⟩

/-- The server identifies itself before the machine has taken the event of the connection. -/
def identified : List (Step ℕ) := [.start env, .machineReady, .drained, .connected, .message (.Identify .login false)]

/-- The connector logs in. -/
def login : List (Step ℕ) :=
  identified ++ [.turn env, .machineReady, .dequeue, .drained, .turn env, .machineReady, .drained,
    .message (.Welcome .nothing), .turn env, .machineReady, .drained]

end Sample

end RemoteConnector

end QtDataSync.Connector
