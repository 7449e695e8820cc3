import Mathlib.Logic.Function.Basic
import QtDataSync.Lib.Past
import QtDataSync.Store.LocalStore

/-!
# Account.Import — who is granted access to the account

`exportAccount`, `onProof`, `loginReply` and the timer of `remoteconnector.cpp`, against a server that sends arbitrary
proofs.  An export is cached by its nonce and taken by the first proof that names it; the keys of a proof that waits
for the user are cached by a device id that the other side chooses.  The cryptographic library is a parameter; an
encrypted secret can be read by the owner of the keys it is encrypted for.
-/

namespace QtDataSync.Account

/-- What the cryptographic library computes.  `create` reads and validates the public keys of a device, and `cmac` is
`none` for schemes that are not supported. -/
structure Crypto (Dev Info : Type) where
  cmac : QByteArray → QByteArray → QByteArray → Option QByteArray
  create : QByteArray → QByteArray → QByteArray → QByteArray → Option Info
  trustMessage : Info → QByteArray
  fingerprint : Info → QByteArray
  toRfc4122 : Option Dev → QByteArray

structure ExportData (Dev : Type) where
  pNonce : QByteArray
  partnerId : Dev
  trusted : Bool
  scheme : QByteArray
  cmac : QByteArray

/-- `trustmac` is `none` when it is null. -/
structure ProofMessage (Dev : Type) where
  pNonce : QByteArray
  deviceId : Dev
  deviceName : String
  signAlgorithm : QByteArray
  signKey : QByteArray
  cryptAlgorithm : QByteArray
  cryptKey : QByteArray
  macscheme : QByteArray
  cmac : QByteArray
  trustmac : Option QByteArray

/-- A key that is encrypted for the owner of public keys. -/
structure Sealed (Info : Type) where
  recipient : Info
  content : QByteArray

structure AcceptMessage (Dev Info : Type) where
  deviceId : Dev
  index : ℕ
  scheme : QByteArray
  secret : Sealed Info

structure DeviceInfo (Dev : Type) where
  deviceId : Dev
  name : String
  fingerprint : QByteArray

/-- What the connector sends, and what it shows to the user. -/
inductive Event (Dev Info : Type) where
  | exported (data : ExportData Dev) (salt key : QByteArray)
  | accept (message : AcceptMessage Dev Info)
  | deny (deviceId : Dev)
  | loginRequested (info : DeviceInfo Dev)
  | triggerError

/-- The members of `RemoteConnector` that the import uses, the running timers, and the current exchange key with its
index and scheme (`none`: it cannot be read). -/
structure RemoteConnector (Dev Info : Type) where
  idle : Bool
  deviceId : Option Dev
  exportsCache : QByteArray → Option QByteArray
  activeProofs : Dev → Option Info
  timers : List Dev
  localCipher : Option (ℕ × QByteArray × QByteArray)

variable {Dev Info : Type} [DecidableEq Dev]

namespace RemoteConnector

variable (crypto : Crypto Dev Info)

/-- The random nonce, and the result of `generateExportKey` for the password, are passed. -/
def exportAccount (s : RemoteConnector Dev Info) (pNonce : QByteArray) (hasPassword : Bool)
    (scheme salt key : QByteArray) : Option (RemoteConnector Dev Info × Event Dev Info) := do
  let partnerId ← s.deviceId
  let cmac ← crypto.cmac scheme key (pNonce ++ crypto.toRfc4122 s.deviceId ++ scheme)
  some ({ s with exportsCache := Function.update s.exportsCache pNonce (some key) },
    .exported ⟨pNonce, partnerId, hasPassword, scheme, cmac⟩ salt key)

def loginReply (s : RemoteConnector Dev Info) (deviceId : Dev) (accept : Bool) :
    RemoteConnector Dev Info × List (Event Dev Info) :=
  if !s.idle then (s, [])
  else
    match s.activeProofs deviceId with
    | none => (s, [])
    | some info =>
      ({ s with activeProofs := Function.update s.activeProofs deviceId none },
        if accept then
          match s.localCipher with
          | some (index, scheme, key) => [.accept ⟨deviceId, index, scheme, ⟨info, key⟩⟩]
          | none => [.deny deviceId]
        else [.deny deviceId])

/-- The checks of `onProof`: the keys of the proof, and whether they are trusted. -/
def verifyProof (s : RemoteConnector Dev Info) (message : ProofMessage Dev) : Option (Info × Bool) := do
  let key ← s.exportsCache message.pNonce
  guard (key ≠ [])
  let macData := message.pNonce ++ crypto.toRfc4122 s.deviceId ++ message.macscheme
  guard (crypto.cmac message.macscheme key macData = some message.cmac)
  let info ← crypto.create message.signAlgorithm message.signKey message.cryptAlgorithm message.cryptKey
  match message.trustmac with
  | none => some (info, false)
  | some trustmac =>
    guard (crypto.cmac message.macscheme key (crypto.trustMessage info) = some trustmac)
    some (info, true)

def onProof (s : RemoteConnector Dev Info) (message : ProofMessage Dev) :
    RemoteConnector Dev Info × List (Event Dev Info) :=
  if !s.idle then (s, [.triggerError])
  else
    let taken := { s with exportsCache := Function.update s.exportsCache message.pNonce none }
    match verifyProof crypto s message with
    | none => (taken, [.deny message.deviceId])
    | some (info, trusted) =>
      let active := { taken with
        activeProofs := Function.update s.activeProofs message.deviceId (some info)
        timers := s.timers ++ [message.deviceId] }
      if trusted then loginReply active message.deviceId true
      else (active, [.loginRequested ⟨message.deviceId, message.deviceName, crypto.fingerprint info⟩])

/-- A timer of `onProof`. -/
def timeout (s : RemoteConnector Dev Info) (deviceId : Dev) :
    Option (RemoteConnector Dev Info × List (Event Dev Info)) :=
  if deviceId ∈ s.timers then
    some ({ s with
      timers := s.timers.erase deviceId
      activeProofs := Function.update s.activeProofs deviceId none },
      if (s.activeProofs deviceId).isSome then [.deny deviceId] else [])
  else none

def clearCaches (s : RemoteConnector Dev Info) (includeExport : Bool) : RemoteConnector Dev Info :=
  { s with
    exportsCache := if includeExport then fun _ => none else s.exportsCache
    activeProofs := fun _ => none }

end RemoteConnector

/-- The calls of the user, what the server sends, and what else changes the members: the state machine enters the idle
state and leaves the active one, the device is registered or reset, and the exchange key is updated. -/
inductive Step (Dev : Type) where
  | exportAccount (pNonce : QByteArray) (hasPassword : Bool) (scheme salt key : QByteArray)
  | proof (message : ProofMessage Dev)
  | loginReply (deviceId : Dev) (accept : Bool)
  | timeout (deviceId : Dev)
  | onEntryIdleState
  | onExitActiveState
  | resetAccount
  | setDeviceId (deviceId : Option Dev)
  | setLocalCipher (cipher : Option (ℕ × QByteArray × QByteArray))

open RemoteConnector

/-- The state after the step, and what the step sends and shows. -/
def run (crypto : Crypto Dev Info) (s : RemoteConnector Dev Info) :
    Step Dev → Option (RemoteConnector Dev Info × List (Event Dev Info))
  | .exportAccount pNonce hasPassword scheme salt key =>
    (RemoteConnector.exportAccount crypto s pNonce hasPassword scheme salt key).map fun r => (r.1, [r.2])
  | .proof message => some (onProof crypto s message)
  | .loginReply deviceId accept => some (RemoteConnector.loginReply s deviceId accept)
  | .timeout deviceId => RemoteConnector.timeout s deviceId
  | .onEntryIdleState => some ({ s with idle := true }, [])
  | .onExitActiveState => some ({ s.clearCaches false with idle := false }, [])
  | .resetAccount => some (s.clearCaches true, [])
  | .setDeviceId deviceId => some ({ s with deviceId := deviceId }, [])
  | .setLocalCipher cipher => some ({ s with localCipher := cipher }, [])

/-- A connector that starts without exports and proofs. -/
def lts (crypto : Crypto Dev Info) : LTS (RemoteConnector Dev Info) (Step Dev) where
  init s := (∀ pNonce, s.exportsCache pNonce = none) ∧ ∀ deviceId, s.activeProofs deviceId = none
  step s a t := (run crypto s a).map (·.1) = some t

/-- The events of a step of a trace. -/
def events (crypto : Crypto Dev Info) (x : RemoteConnector Dev Info × Step Dev × RemoteConnector Dev Info) :
    List (Event Dev Info) :=
  ((run crypto x.1 x.2.1).map (·.2)).getD []

end QtDataSync.Account
