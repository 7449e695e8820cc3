import QtDataSync.Keys.SignatureData
import QtDataSync.Lib.Tagged
import QtDataSync.Lib.Transition

/-!
# Keys.KeyUpdates — key updates and their MACs, as bytes

The handlers of `remoteconnector.cpp` that use an exchange key for MACs, with the data as they are concatenated.  The
server sends any messages at any time, and computes MACs of any data with the exchange keys that it knows; it knows one
that it has drawn, and nothing tells a device which waits for a `GrantMessage` that a key is one of those.  A CMAC is
accepted only if somebody has computed it, and `macs` is the history of these.  `onWelcome` accepts a key update if the
MAC and then the encrypted key are accepted; the MAC leaves the border between the two open, and the encryption has none
but one.
-/

namespace QtDataSync.KeyUpdates

open QDataStream

/-- The states of the connector while it is connected. -/
inductive ConnectorState where
  | connected
  | registering
  | loggingIn
  | granting
  | idle
deriving DecidableEq, Repr

/-- A cipher scheme with an exchange key. -/
structure CipherInfo where
  scheme : CipherScheme
  key : QByteArray
deriving DecidableEq

/-- What is used of the cryptography library; `encrypt` draws at random, and both it and `decrypt` may throw. -/
structure CryptoPP (PrivateKey PublicKey Seed : Type) where
  publicKey : PrivateKey → PublicKey
  readKey : EncryptionScheme → QByteArray → Option PublicKey
  writeKey : PublicKey → QByteArray
  encrypt : PublicKey → Seed → QByteArray → Option QByteArray
  decrypt : PrivateKey → QByteArray → Option QByteArray
  cmac : CipherInfo → QByteArray → QByteArray
  length_cmac : ∀ info data, (cmac info data).length = info.scheme.digestSize

/-- The encryption has integrity: what has been cut off or extended does not decrypt, with no key. -/
def CryptoPP.Integrity {PrivateKey PublicKey Seed : Type} (lib : CryptoPP PrivateKey PublicKey Seed) : Prop :=
  ∀ publicKey seed plain cipher, lib.encrypt publicKey seed plain = some cipher →
    ∀ privateKey cipher', (lib.decrypt privateKey cipher').isSome → cipher <+: cipher' ∨ cipher' <+: cipher →
      cipher' = cipher

/-- What a MAC under an exchange key is made for; the server makes it for any data. -/
inductive Purpose where
  | cryptKey (scheme : EncryptionScheme) (key : QByteArray)
  | keyUpdate (keyIndex : UInt32) (scheme : CipherScheme) (deviceId : Uuid) (key : QByteArray)
  | other (data : QByteArray)
deriving DecidableEq

def Purpose.data : Purpose → QByteArray
  | cryptKey scheme key => cryptKeyData scheme key
  | keyUpdate keyIndex scheme deviceId key => signatureData keyIndex scheme.name deviceId key
  | other data => data

/-- A MAC that a device has computed, or the server if there is no `holder`. -/
structure Mac (ι : Type) where
  holder : Option ι
  info : CipherInfo
  purpose : Purpose
deriving DecidableEq

/-- The key pair, `_localCipher`, `_loadedChiphers` with the key files, and the setting `nextkey`. -/
structure CryptoController (PrivateKey : Type) where
  encryptionScheme : EncryptionScheme
  cryptKey : PrivateKey
  localCipher : UInt32
  loadedChiphers : UInt32 → Option CipherInfo
  nextSymKey : Option UInt32

/-- The members that the keys depend on; without a `state` there is no connection. -/
structure RemoteConnector (PrivateKey : Type) where
  deviceId : Uuid
  crypto : CryptoController PrivateKey
  sendCmac : Bool
  state : Option ConnectorState

structure GrantMessage where
  deviceId : Uuid
  index : UInt32
  scheme : QByteArray
  secret : QByteArray

/-- What a device draws at random. -/
structure Choice (PrivateKey Seed : Type) where
  encryptionScheme : EncryptionScheme
  cryptKey : PrivateKey
  info : CipherInfo
  seed : ℕ → Seed

variable {ι PrivateKey PublicKey Seed : Type} (lib : CryptoPP PrivateKey PublicKey Seed)

/-- The CMACs that have been computed with a key. -/
def tags (macs : List (Mac ι)) (info : CipherInfo) : Tags UInt8 where
  tagSize := info.scheme.digestSize
  table := (macs.filter (·.info = info)).map fun m => (m.purpose.data, lib.cmac info m.purpose.data)
  length_tag := by
    intro x hx
    obtain ⟨m, -, rfl⟩ := List.mem_map.mp hx
    exact lib.length_cmac info _

namespace CryptoController

variable (c : CryptoController PrivateKey)

def getInfo (keyIndex : UInt32) : Option CipherInfo := c.loadedChiphers keyIndex

def createPrivateKeys (choice : Choice PrivateKey Seed) : CryptoController PrivateKey :=
  { c with
    encryptionScheme := choice.encryptionScheme
    cryptKey := choice.cryptKey
    localCipher := 0
    loadedChiphers := Function.update (fun _ => none) 0 (some choice.info) }

def cleanCiphers : CryptoController PrivateKey :=
  { c with loadedChiphers := fun keyIndex => if keyIndex + 5 < c.localCipher then none else c.loadedChiphers keyIndex }

/-- A CMAC, and those that have been computed. -/
def createCmac (holder : ι) (macs : List (Mac ι)) (keyIndex : UInt32) (purpose : Purpose) :
    Option (QByteArray × List (Mac ι)) :=
  (c.getInfo keyIndex).map fun info => (lib.cmac info purpose.data, macs ++ [⟨some holder, info, purpose⟩])

/-- The last bytes are taken for the CMAC. -/
def verifyCmac (macs : List (Mac ι)) (keyIndex : UInt32) (data mac : QByteArray) : Bool :=
  (c.getInfo keyIndex).any fun info => (tags lib macs info).accepts (data ++ mac)

def encryptSecretKey (keyIndex : UInt32) (publicKey : PublicKey) (seed : Seed) : Option QByteArray :=
  (c.getInfo keyIndex).bind fun info => lib.encrypt publicKey seed info.key

def decryptSecretKey (keyIndex : UInt32) (scheme data : QByteArray) (grantInit : Bool) :
    Option (CryptoController PrivateKey) := do
  let key ← lib.decrypt c.cryptKey data
  let scheme ← CipherScheme.createScheme scheme
  let c := { c with loadedChiphers := Function.update c.loadedChiphers keyIndex (some ⟨scheme, key⟩) }
  if grantInit then return { c with localCipher := keyIndex }
  else if c.localCipher < keyIndex then return { c with localCipher := keyIndex }.cleanCiphers
  else return c

def generateEncryptionKeyCmac (holder : ι) (macs : List (Mac ι)) (keyIndex : UInt32) :
    Option (QByteArray × List (Mac ι)) :=
  c.createCmac lib holder macs keyIndex (.cryptKey c.encryptionScheme (lib.writeKey (lib.publicKey c.cryptKey)))

def verifyEncryptionKeyCmac (macs : List (Mac ι)) (scheme : EncryptionScheme) (publicKey : PublicKey)
    (cmac : QByteArray) : Bool :=
  c.verifyCmac lib macs c.localCipher (cryptKeyData scheme (lib.writeKey publicKey)) cmac

/-- The next key with its index; a stored proposal is used again. -/
def generateNextKey (choice : Choice PrivateKey Seed) :
    Option (CryptoController PrivateKey × UInt32 × CipherScheme) :=
  let keyIndex := c.localCipher + 1
  if c.nextSymKey = some keyIndex then (c.getInfo keyIndex).map fun info => (c, keyIndex, info.scheme)
  else some ({ c with
    loadedChiphers := Function.update c.loadedChiphers keyIndex (some choice.info)
    nextSymKey := some keyIndex }, keyIndex, choice.info.scheme)

def activateNextKey (keyIndex : UInt32) : Option (CryptoController PrivateKey) :=
  if c.localCipher + 1 ≠ keyIndex then some c
  else if c.nextSymKey ≠ some keyIndex then some c
  else (c.getInfo keyIndex).map fun _ => { c with localCipher := keyIndex, nextSymKey := none }.cleanCiphers

/-- The entry of a device in a `NewKeyMessage`; `none` is an exception, and the device is excluded. -/
def keyUpdate (holder : ι) (keyIndex : UInt32) (scheme : CipherScheme) (seed : Seed)
    (info : Uuid × QByteArray × QByteArray × QByteArray) (macs : List (Mac ι)) :
    Option ((Uuid × QByteArray × QByteArray) × List (Mac ι)) := do
  let (deviceId, cryptScheme, key, mac) := info
  let cryptScheme ← EncryptionScheme.setEncryptionScheme cryptScheme
  let publicKey ← lib.readKey cryptScheme key
  if c.verifyEncryptionKeyCmac lib macs cryptScheme publicKey mac then
    let secret ← c.encryptSecretKey lib keyIndex publicKey seed
    -- uses the current key
    let (cmac, macs) ← c.createCmac lib holder macs c.localCipher (.keyUpdate keyIndex scheme deviceId secret)
    return ((deviceId, secret, cmac), macs)
  else none

/-- The loop of `onDeviceKeys`. -/
def keyUpdates (holder : ι) (keyIndex : UInt32) (scheme : CipherScheme) (seed : ℕ → Seed) :
    List (Uuid × QByteArray × QByteArray × QByteArray) → List (Mac ι) →
      List (Uuid × QByteArray × QByteArray) × List (Mac ι)
  | [], macs => ([], macs)
  | info :: devices, macs =>
    match c.keyUpdate lib holder keyIndex scheme (seed devices.length) info macs with
    | none => keyUpdates holder keyIndex scheme seed devices macs
    | some (key, macs) =>
      let (keys, macs) := keyUpdates holder keyIndex scheme seed devices macs
      (key :: keys, macs)

end CryptoController

/-! ### Handlers -/

/-- What a device sends with the MACs. -/
inductive Sent where
  | cmac (keyIndex : UInt32) (cmac : QByteArray)
  | newKey (message : NewKeyMessage)

/-- A handler has returned; `none` stands for an exception or an unexpected message. -/
abbrev Result (ι PrivateKey : Type) := Option (RemoteConnector PrivateKey × List (Mac ι) × List Sent)

namespace RemoteConnector

variable (r : RemoteConnector PrivateKey) (holder : ι) (macs : List (Mac ι))

/-- The MAC of the own public key is sent. -/
def sendKeyUpdate : Result ι PrivateKey :=
  (r.crypto.generateEncryptionKeyCmac lib holder macs r.crypto.localCipher).map fun (cmac, macs) =>
    ({ r with sendCmac := true }, macs, [.cmac r.crypto.localCipher cmac])

def onIdentify (choice : Choice PrivateKey Seed) (importing : Bool) : Result ι PrivateKey :=
  if r.state ≠ some .connected then none
  else if r.deviceId ≠ nullUuid then some ({ r with state := some .loggingIn }, macs, [])
  else
    let r := { r with crypto := r.crypto.createPrivateKeys choice }
    if importing then some ({ r with state := some .granting }, macs, [])
    else (r.crypto.generateEncryptionKeyCmac lib holder macs r.crypto.localCipher).map fun (cmac, macs) =>
      ({ r with state := some .registering }, macs, [.cmac r.crypto.localCipher cmac])

def onAccount (deviceId : Uuid) : Result ι PrivateKey :=
  if r.state ≠ some .registering then none else some ({ r with deviceId := deviceId, state := some .idle }, macs, [])

/-- A key update is verified with the current key, and then decrypted. -/
def onWelcome (message : WelcomeMessage) : Result ι PrivateKey :=
  if r.state ≠ some .loggingIn then none
  else
    let r := { r with state := some .idle }
    if message.hasKeyUpdate then
      if r.crypto.verifyCmac lib macs r.crypto.localCipher (message.signatureData r.deviceId) message.cmac then
        (r.crypto.decryptSecretKey lib message.keyIndex message.scheme message.key false).bind fun crypto =>
          sendKeyUpdate lib { r with crypto := crypto } holder macs
      else none
    else if r.sendCmac then sendKeyUpdate lib r holder macs
    else some (r, macs, [])

def onGrant (message : GrantMessage) : Result ι PrivateKey :=
  if r.state ≠ some .granting then none
  else (r.crypto.decryptSecretKey lib message.index message.scheme message.secret true).bind fun crypto =>
    sendKeyUpdate lib { r with crypto := crypto, deviceId := message.deviceId, state := some .idle } holder macs

def onDeviceKeys (choice : Choice PrivateKey Seed) (message : DeviceKeysMessage) : Result ι PrivateKey :=
  if r.state ≠ some .idle then none
  else if message.duplicated then
    (r.crypto.activateNextKey message.keyIndex).map fun crypto => ({ r with crypto := crypto }, macs, [])
  else
    (r.crypto.generateNextKey choice).bind fun (crypto, keyIndex, scheme) =>
      (crypto.generateEncryptionKeyCmac lib holder macs keyIndex).map fun (cmac, macs) =>
        let (deviceKeys, macs) := crypto.keyUpdates lib holder keyIndex scheme choice.seed message.devices macs
        ({ r with crypto := crypto }, macs, [.newKey ⟨keyIndex, cmac, scheme.name, deviceKeys⟩])

def onNewKeyAck (keyIndex : UInt32) : Result ι PrivateKey :=
  if r.state ≠ some .idle then none
  else (r.crypto.activateNextKey keyIndex).map fun crypto => ({ r with crypto := crypto }, macs, [])

def onMacUpdateAck : Result ι PrivateKey :=
  if r.state ≠ some .idle then none else some ({ r with sendCmac := false }, macs, [])

end RemoteConnector

/-! ### The system -/

/-- The devices, the CMACs that have been computed, and the exchange keys that the server knows. -/
structure System (ι PrivateKey : Type) where
  devices : ι → RemoteConnector PrivateKey
  macs : List (Mac ι)
  known : List CipherInfo

/-- What happens to a device; the messages may have any contents.  The server learns a key that it draws, or that a device
has encrypted for a public key of the server, and computes MACs with it. -/
inductive Step (ι PrivateKey Seed : Type) where
  | connect (d : ι)
  | disconnect (d : ι)
  | identify (d : ι) (choice : Choice PrivateKey Seed) (importing : Bool)
  | account (d : ι) (deviceId : Uuid)
  | welcome (d : ι) (message : WelcomeMessage)
  | grant (d : ι) (message : GrantMessage)
  | deviceKeys (d : ι) (choice : Choice PrivateKey Seed) (message : DeviceKeysMessage)
  | newKeyAck (d : ι) (keyIndex : UInt32)
  | macUpdateAck (d : ι)
  | reset (d : ι)
  | learn (info : CipherInfo)
  | createCmac (info : CipherInfo) (data : QByteArray)

namespace System

variable [DecidableEq ι] (s : System ι PrivateKey)

def set (d : ι) (r : RemoteConnector PrivateKey) : System ι PrivateKey :=
  { s with devices := Function.update s.devices d r }

/-- A device has handled a message; after an exception it closes the connection. -/
def handled (d : ι) : Result ι PrivateKey → System ι PrivateKey
  | none => s.set d { s.devices d with state := none }
  | some (r, macs, _) => { s.set d r with macs := macs }

def next : Step ι PrivateKey Seed → System ι PrivateKey
  | .connect d => s.set d { s.devices d with state := some .connected }
  | .disconnect d => s.set d { s.devices d with state := none }
  | .identify d choice importing => s.handled d ((s.devices d).onIdentify lib d s.macs choice importing)
  | .account d deviceId => s.handled d ((s.devices d).onAccount s.macs deviceId)
  | .welcome d message => s.handled d ((s.devices d).onWelcome lib d s.macs message)
  | .grant d message => s.handled d ((s.devices d).onGrant lib d s.macs message)
  | .deviceKeys d choice message => s.handled d ((s.devices d).onDeviceKeys lib d s.macs choice message)
  | .newKeyAck d keyIndex => s.handled d ((s.devices d).onNewKeyAck s.macs keyIndex)
  | .macUpdateAck d => s.handled d ((s.devices d).onMacUpdateAck s.macs)
  | .reset d => s.set d { s.devices d with deviceId := nullUuid, state := none }
  | .learn info => { s with known := info :: s.known }
  | .createCmac info data => if info ∈ s.known then { s with macs := s.macs ++ [⟨none, info, .other data⟩] } else s

end System

/-- The devices with any keys, with which nobody has computed a CMAC. -/
def lts [DecidableEq ι] : LTS (System ι PrivateKey) (Step ι PrivateKey Seed) :=
  LTS.ofStep (fun s => s.macs = []) fun s a => some (s.next lib a)

end QtDataSync.KeyUpdates
