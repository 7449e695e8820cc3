import QtDataSync.Lib.Past
import QtDataSync.Server.Client

/-!
# Server.ClientConnector — the connections of the server

The clients with their queues, the map from devices to clients, and the signal connections of
`clientconnector.cpp`.  Signals that clients emit in a task are queued for the main thread, which handles them one
after another.  A step is one task, one queued signal, or an event of a socket; sockets can fail and disconnect at any
time.  A client is known by the number of its connection.
-/

namespace QtDataSync.Server

/-- The connection of `proofDone` that `proofRequested` makes. -/
structure ProofLink (Dev : Type) where
  pClient : ℕ
  client : ℕ
  devId : Dev
deriving DecidableEq, Repr

/-- What is queued for the main thread, with the sender, or with the receiver of a functor. -/
inductive Event (Dev B : Type) where
  | clientConnected (sender : ℕ) (deviceId : Dev)
  | proofRequested (sender : ℕ) (partner : Dev) (message : ProofMessage Dev B)
  | proofDone (link : ProofLink Dev) (partner : Dev) (message : Option (AcceptMessage Dev B))
  | acceptDone (pClient : ℕ) (partner : Dev)
  | forceDisconnect (partner : Dev)

/-- A client with its queue.  `registered` is the device it is known for since `clientConnected`; a socket that is not
`isOpen` has been closed. -/
structure Connection (Dev B : Type) where
  client : Client Dev B
  queue : List (Task Dev B)
  registered : Option Dev
  isOpen : Bool

/-- `links` are the connections of `proofDone` to clients, `acceptLinks` those of `connected`, as pairs of the client
and its partner. -/
structure ClientConnector (Dev B : Type) where
  accounts : Accounts Dev B
  nextConnection : ℕ
  connections : ℕ → Option (Connection Dev B)
  clients : Dev → Option ℕ
  links : List (ProofLink Dev)
  acceptLinks : List (ℕ × ℕ)
  events : List (Event Dev B)

/-- The limits of `server/uploads` and `server/downloads`. -/
structure Limits where
  uploadLimit : ℕ
  downLimit : ℕ
  downThreshold : ℕ

variable {Dev B : Type} [DecidableEq Dev] [DecidableEq B] [Inhabited Dev] [Inhabited B]

/-- A new client, with the first task in its queue. -/
def Connection.create (limits : Limits) : Connection Dev B where
  client :=
    { uploadLimit := limits.uploadLimit
      downLimit := limits.downLimit
      downThreshold := limits.downThreshold
      state := .authenticating
      deviceId := default
      loginNonce := []
      cachedChanges := 0
      activeDownloads := []
      cachedAccessRequest := default
      cachedFingerPrint := default
      sent := [] }
  queue := [.identify]
  registered := none
  isOpen := true

namespace Connection

def enqueue (task : Task Dev B) (x : Connection Dev B) : Connection Dev B := { x with queue := x.queue ++ [task] }

def close (x : Connection Dev B) : Connection Dev B := { x with isOpen := false }

/-- `error`, `sslErrors` and `timeout`. -/
def fail (x : Connection Dev B) : Connection Dev B :=
  { x with client := { x.client with state := .error }, isOpen := false }

/-- `closeClient`: the head of the queue has been started and stays. -/
def closeClient (x : Connection Dev B) : Connection Dev B := { x with queue := x.queue.take 1, isOpen := false }

end Connection

namespace ClientConnector

/-- Changes a client, if there is one. -/
def modify (s : ClientConnector Dev B) (c : ℕ) (f : Connection Dev B → Connection Dev B) : ClientConnector Dev B :=
  { s with connections := Function.update s.connections c ((s.connections c).map f) }

/-- What is queued for a signal that client `c` emits.  The signal `forceDisconnect` is connected since
`clientConnected`. -/
def queued (s : ClientConnector Dev B) (c : ℕ) (x : Connection Dev B) : Signal Dev B → List (Event Dev B)
  | .connected deviceId => .clientConnected c deviceId ::
      (s.acceptLinks.filter fun l => l.1 = c).map fun l => .acceptDone l.2 deviceId
  | .proofRequested partner message => [.proofRequested c partner message]
  | .proofDone partner message =>
    (s.links.filter fun l => l.pClient = c).map fun l => .proofDone l partner message
  | .forceDisconnect partner => if x.registered.isSome then [.forceDisconnect partner] else []

def newConnection (s : ClientConnector Dev B) (limits : Limits) : ClientConnector Dev B :=
  { s with
    nextConnection := s.nextConnection + 1
    connections := Function.update s.connections s.nextConnection (some (.create limits)) }

def clientConnected (s : ClientConnector Dev B) (sender : ℕ) (deviceId : Dev) : ClientConnector Dev B :=
  if (s.connections sender).isNone then s
  else
    { s.modify sender fun x => { x with registered := some deviceId } with
      clients := Function.update s.clients deviceId (some sender) }

def proofRequested (s : ClientConnector Dev B) (sender : ℕ) (partner : Dev) (message : ProofMessage Dev B) :
    ClientConnector Dev B :=
  if (s.connections sender).isNone then s
  else
    match s.clients partner with
    | none => s.modify sender (·.enqueue (.proofResult none))
    | some pClient =>
      { s.modify pClient (·.enqueue (.sendProof message)) with
        links := s.links ++ [⟨pClient, sender, message.deviceId⟩] }

/-- The functor that `proofRequested` connects. -/
def proofDone (s : ClientConnector Dev B) (l : ProofLink Dev) (partner : Dev)
    (message : Option (AcceptMessage Dev B)) : ClientConnector Dev B :=
  if l.devId = partner then
    let s' := s.modify l.client (·.enqueue (.proofResult message))
    if (s.connections l.pClient).isSome then
      { s' with
        links := s.links.filter fun l' => ¬ (l'.pClient = l.pClient ∧ l'.client = l.client)
        acceptLinks := s.acceptLinks ++ [(l.client, l.pClient)] }
    else s'
  else s

def dropConnection (s : ClientConnector Dev B) (partner : Dev) : ClientConnector Dev B :=
  match s.clients partner with
  | none => s
  | some c => s.modify c Connection.close

def handle (s : ClientConnector Dev B) : Event Dev B → ClientConnector Dev B
  | .clientConnected sender deviceId => s.clientConnected sender deviceId
  | .proofRequested sender partner message => s.proofRequested sender partner message
  | .proofDone l partner message => s.proofDone l partner message
  | .acceptDone pClient partner => s.modify pClient (·.enqueue (.acceptDone partner))
  | .forceDisconnect partner => s.dropConnection partner

/-- An event whose receiver is the client. -/
def Event.isFor (c : ℕ) : Event Dev B → Bool
  | .proofDone l _ _ => l.client = c
  | .acceptDone pClient _ => pClient = c
  | _ => false

/-- The client is deleted, with its signal connections and the events for it. -/
def destroy (s : ClientConnector Dev B) (c : ℕ) (x : Connection Dev B) : ClientConnector Dev B :=
  { s with
    connections := Function.update s.connections c none
    clients :=
      match x.registered with
      | none => s.clients
      | some deviceId => Function.update s.clients deviceId none
    links := s.links.filter fun l => ¬ (l.pClient = c ∨ l.client = c)
    acceptLinks := s.acceptLinks.filter fun l => ¬ (l.1 = c ∨ l.2 = c)
    events := s.events.filter fun e => !Event.isFor c e }

inductive Step (Dev B : Type) where
  | newConnection (limits : Limits)
  | binaryMessageReceived (c : ℕ) (message : Binary Dev B)
  | task (c : ℕ) (env : Env Dev)
  | event
  | notifyChanged (deviceId : Dev)
  | fail (c : ℕ)
  | disconnected (c : ℕ)
  | destroyed (c : ℕ)
  | cleanupDevices (today offlineSinceDays : ℕ)

variable (ownFingerprint : B → B → B → B → Option B)

/-- The next task of client `c` has run. -/
def ran (s : ClientConnector Dev B) (c : ℕ) (x : Connection Dev B) (t : TaskState Dev B) : ClientConnector Dev B :=
  { s with
    accounts := t.accounts
    connections := Function.update s.connections c (some { x with client := t.client, queue := x.queue.tail })
    events := s.events ++ t.signals.flatMap (s.queued c x) }

def next (s : ClientConnector Dev B) : Step Dev B → Option (ClientConnector Dev B)
  | .newConnection limits => some (s.newConnection limits)
  | .binaryMessageReceived c message => some (s.modify c (·.enqueue (.binaryMessageReceived message)))
  | .task c env =>
    match s.connections c with
    | none => none
    | some x =>
      match x.queue with
      | [] => none
      | task :: _ => some (s.ran c x (x.client.run ownFingerprint env task s.accounts))
  | .event =>
    match s.events with
    | [] => none
    | e :: events => some ({ s with events := events }.handle e)
  | .notifyChanged deviceId =>
    match s.clients deviceId with
    | none => some s
    | some c => some (s.modify c (·.enqueue .notifyChanged))
  | .fail c => some (s.modify c Connection.fail)
  | .disconnected c => some (s.modify c Connection.closeClient)
  | .destroyed c =>
    match s.connections c with
    | none => none
    | some x => if x.isOpen ∨ !x.queue.isEmpty then none else some (s.destroy c x)
  | .cleanupDevices today days =>
    match s.accounts.transaction (.cleanupDevices today days) with
    | .ok a => some { s with accounts := a }
    | .error _ => some s

/-- A server without connections, on any database. -/
def Init (s : ClientConnector Dev B) : Prop :=
  (∀ c, s.connections c = none) ∧ (∀ d, s.clients d = none) ∧ s.links = [] ∧ s.acceptLinks = [] ∧ s.events = []

def lts : LTS (ClientConnector Dev B) (Step Dev B) := LTS.ofStep Init (next ownFingerprint)

end ClientConnector

end QtDataSync.Server
