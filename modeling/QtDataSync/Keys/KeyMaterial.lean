import QtDataSync.Keys.KeyUpdates
import QtDataSync.Lib.Runs

/-!
# Keys.KeyMaterial — the keys of a device in memory, in the settings, in files and in the keystore

`cryptocontroller.cpp` for the storing and loading of keys.  An exchange key is in a file, encrypted for the device
itself, with its scheme in the settings; the private keys are in a keystore.  Every access can fail (`Env.fails`), and
what has been done before an exception stays done.  `table` is what `getInfo` finds: a loaded key, or else a stored one.
-/

namespace QtDataSync

open QDataStream

namespace CipherScheme

/-- `MAX_KEYLENGTH`. -/
def defaultKeyLength : CipherScheme → ℕ
  | IDEA_EAX => 16
  | _ => 32

/-- `StaticGetValidKeyLength`. -/
def toKeyLength (s : CipherScheme) (length : ℕ) : ℕ :=
  match s with
  | IDEA_EAX => 16
  | _ => if length ≤ 16 then 16 else if 32 ≤ length then 32 else length + 7 - (length + 7) % 8

/-- `createScheme` of a value of `Setup::CipherScheme`. -/
def ofSetup : CipherScheme → CipherScheme
  | TWOFISH_GCM => TWOFISH_EAX
  | SERPENT_GCM => SERPENT_EAX
  | scheme => scheme

theorem createScheme_of_name (s : CipherScheme) : createScheme s.name = some s := by
  cases s <;> decide

theorem toKeyLength_toKeyLength (s : CipherScheme) (length : ℕ) :
    s.toKeyLength (s.toKeyLength length) = s.toKeyLength length := by
  cases s <;> simp only [toKeyLength] <;> split_ifs <;> omega

theorem toKeyLength_defaultKeyLength (s : CipherScheme) : s.toKeyLength s.defaultKeyLength = s.defaultKeyLength := by
  cases s <;> rfl

end CipherScheme

namespace KeyMaterial

open KeyUpdates (CryptoPP CipherInfo)

/-! ### The state -/

/-- The keys of a device in a keystore. -/
inductive KeyName where
  | signing (deviceId : Uuid)
  | encryption (deviceId : Uuid)
deriving DecidableEq

/-- The private keys of a device. -/
structure KeyPair (SignKey PrivateKey : Type) where
  signKey : SignKey
  cryptKey : PrivateKey

/-- What is used of the cryptography library: private keys can be saved, data encrypted for a device are decrypted by it,
and so are data encrypted with an exchange key. -/
structure ClientCrypto (SignKey PrivateKey PublicKey Seed : Type) extends CryptoPP PrivateKey PublicKey Seed where
  signatureScheme : SignKey → QByteArray
  encryptionScheme : PrivateKey → EncryptionScheme
  savePrivateSignKey : SignKey → QByteArray
  savePrivateCryptKey : PrivateKey → QByteArray
  loadSignKey : QByteArray → QByteArray → Option SignKey
  loadCryptKey : QByteArray → QByteArray → Option PrivateKey
  encryptImpl : CipherInfo → QByteArray → QByteArray → QByteArray
  decryptImpl : CipherInfo → QByteArray → QByteArray → Option QByteArray
  load_signKey : ∀ key, loadSignKey (signatureScheme key) (savePrivateSignKey key) = some key
  load_cryptKey : ∀ key, loadCryptKey (encryptionScheme key).name (savePrivateCryptKey key) = some key
  decrypt_encrypt : ∀ key seed plain data, encrypt (publicKey key) seed plain = some data →
    decrypt key data = some plain
  decrypt_encryptImpl : ∀ info salt plain, decryptImpl info salt (encryptImpl info salt plain) = some plain

/-- The settings of the controller. -/
structure Settings where
  keystore : Option String
  signScheme : Option QByteArray
  cryptScheme : Option QByteArray
  localSymKey : Option UInt32
  nextSymKey : Option UInt32
  symKeys : UInt32 → Option QByteArray

/-- What is in memory: the provider of the keystore, the private keys, `_loadedChiphers` and `_localCipher`; and what is
not lost with the process: the settings, the key files, and the keys in the keystores. -/
structure CryptoController (SignKey PrivateKey : Type) where
  keyStore : Option String
  asymCrypto : Option (KeyPair SignKey PrivateKey)
  loadedChiphers : UInt32 → Option CipherInfo
  localCipher : UInt32
  settings : Settings
  keyFiles : UInt32 → Option QByteArray
  keyStores : String → KeyName → Option QByteArray

/-- `CryptoPP::Exception`, `KeyStoreException`, `Exception`, `CryptoException`, and the use of a null pointer. -/
inductive Error where
  | cryptoPP
  | keyStore
  | exception (message : String)
  | crypto (message : String)
  | nullPointer
deriving DecidableEq, Repr

/-- The accesses that can fail; `keysDir` is called by four functions. -/
inductive FailurePoint where
  | createInstance
  | openStore
  | loadKey
  | saveSignKey
  | saveCryptKey
  | removeSignKey
  | removeCryptKey
  | generate
  | getInfoDir
  | storeCipherKeyDir
  | cleanCiphersDir
  | deleteKeyMaterialDir
  | readKeyFile
  | writeKeyFile
deriving DecidableEq, Repr

/-- The defaults, the accesses that fail, and the key files that cannot be removed. -/
structure Env where
  keyStoreProvider : String
  symScheme : CipherScheme
  symKeyParam : ℕ
  fails : FailurePoint → Bool
  remains : UInt32 → Bool

/-- Nothing fails. -/
structure Env.Sound (env : Env) : Prop where
  fails : ∀ step, env.fails step = false
  remains : ∀ keyIndex, env.remains keyIndex = false

/-- What is drawn at random. -/
structure Random (SignKey PrivateKey Seed : Type) where
  signKey : SignKey
  cryptKey : PrivateKey
  seed : Seed
  block : ℕ → QByteArray
  length_block : ∀ size, (block size).length = size

section Operations

variable {SignKey PrivateKey PublicKey Seed : Type}

/-- The operations of the controller: what they have done stays done when they throw. -/
abbrev CryptoM (SignKey PrivateKey α : Type) := ExceptT Error (StateM (CryptoController SignKey PrivateKey)) α

/-! ### The operations -/

variable (lib : ClientCrypto SignKey PrivateKey PublicKey Seed) (env : Env)

def check (step : FailurePoint) (e : Error) : CryptoM SignKey PrivateKey Unit :=
  if env.fails step then throw e else pure ()

/-- What is not there is an exception. -/
def orThrow {α : Type} (e : Error) : Option α → CryptoM SignKey PrivateKey α
  | some a => pure a
  | none => throw e

/-- The `catch` block of the operations. -/
def catchCpp {α : Type} (message : String) (m : CryptoM SignKey PrivateKey α) : CryptoM SignKey PrivateKey α :=
  tryCatch m fun e => throw (if e = .cryptoPP then .crypto message else e)

/-- The private keys. -/
def asymCrypto : CryptoM SignKey PrivateKey (KeyPair SignKey PrivateKey) := do
  orThrow .nullPointer (← get).asymCrypto

/-- `_loadedChiphers.insert`. -/
def CryptoController.loads (c : CryptoController SignKey PrivateKey) (keyIndex : UInt32) (info : CipherInfo) :
    CryptoController SignKey PrivateKey :=
  { c with loadedChiphers := Function.update c.loadedChiphers keyIndex (some info) }

def CryptoController.set (c : CryptoController SignKey PrivateKey) (f : Settings → Settings) :
    CryptoController SignKey PrivateKey :=
  { c with settings := f c.settings }

def acquireStore (existing : Bool) : CryptoM SignKey PrivateKey Unit := do
  let c ← get
  let provider := if existing then c.settings.keystore.getD "" else env.keyStoreProvider
  if c.keyStore = some provider then return
  modify fun c => { c with keyStore := none }
  if provider = "" then throw (.exception "Keystore  not available")
  check env .createInstance (.exception ("Keystore " ++ provider ++ " not available"))
  modify fun c => { c with keyStore := some provider }

/-- The provider of the keystore that has been opened. -/
def ensureStoreOpen : CryptoM SignKey PrivateKey String := do
  let provider ← orThrow .cryptoPP (← get).keyStore
  check env .openStore .keyStore
  return provider

/-- A loaded key, or the one in the key file. -/
def getInfo (keyIndex : UInt32) : CryptoM SignKey PrivateKey CipherInfo := do
  let c ← get
  match c.loadedChiphers keyIndex with
  | some info => return info
  | none =>
    check env .getInfoDir .cryptoPP
    let scheme ← orThrow .cryptoPP (CipherScheme.createScheme ((c.settings.symKeys keyIndex).getD []))
    check env .readKeyFile .cryptoPP
    let encData ← orThrow .cryptoPP (c.keyFiles keyIndex)
    let keys ← asymCrypto
    let key ← orThrow .cryptoPP (lib.decrypt keys.cryptKey encData)
    if key.length ≠ scheme.toKeyLength key.length then throw .cryptoPP
    modify fun c => c.loads keyIndex ⟨scheme, key⟩
    return ⟨scheme, key⟩

/-- A key file is written, and its scheme is stored. -/
def CryptoController.stores (c : CryptoController SignKey PrivateKey) (keyIndex : UInt32)
    (scheme encData : QByteArray) : CryptoController SignKey PrivateKey :=
  { c with
    keyFiles := Function.update c.keyFiles keyIndex (some encData)
    settings := { c.settings with symKeys := Function.update c.settings.symKeys keyIndex (some scheme) } }

def storeCipherKey (seed : Seed) (keyIndex : UInt32) : CryptoM SignKey PrivateKey Unit := do
  check env .storeCipherKeyDir .cryptoPP
  let info ← getInfo lib env keyIndex
  let keys ← asymCrypto
  let encData ← orThrow .cryptoPP (lib.encrypt (lib.publicKey keys.cryptKey) seed info.key)
  check env .writeKeyFile .cryptoPP
  modify fun c => c.stores keyIndex info.scheme.name encData

/-- Keys more than five indexes back. -/
def CryptoController.isOld (c : CryptoController SignKey PrivateKey) (keyIndex : UInt32) : Bool :=
  (c.settings.symKeys keyIndex).isSome && keyIndex + 5 < c.localCipher

def CryptoController.cleaned (c : CryptoController SignKey PrivateKey) : CryptoController SignKey PrivateKey :=
  { c with
    settings := { c.settings with
      symKeys := fun keyIndex => if c.isOld keyIndex then none else c.settings.symKeys keyIndex }
    keyFiles := fun keyIndex => if c.isOld keyIndex && !env.remains keyIndex then none else c.keyFiles keyIndex
    loadedChiphers := fun keyIndex => if c.isOld keyIndex then none else c.loadedChiphers keyIndex }

def cleanCiphers : CryptoM SignKey PrivateKey Unit := do
  check env .cleanCiphersDir .cryptoPP
  modify fun c => c.cleaned env

def createInfo (random : Random SignKey PrivateKey Seed) : CipherInfo :=
  let scheme := env.symScheme.ofSetup
  ⟨scheme, random.block (if env.symKeyParam = 0 then scheme.defaultKeyLength else scheme.toKeyLength env.symKeyParam)⟩

/-- The private keys and the active key as they were stored. -/
def CryptoController.withKeys (c : CryptoController SignKey PrivateKey) (keys : KeyPair SignKey PrivateKey) :
    CryptoController SignKey PrivateKey :=
  { c with asymCrypto := some keys, localCipher := c.settings.localSymKey.getD 0 }

def loadKeyMaterial (deviceId : Uuid) : CryptoM SignKey PrivateKey Unit :=
  catchCpp "Failed to load key material" do
    let provider ← ensureStoreOpen env
    let c ← get
    check env .loadKey .keyStore
    let signKey ← orThrow .keyStore (c.keyStores provider (.signing deviceId))
    let cryptKey ← orThrow .keyStore (c.keyStores provider (.encryption deviceId))
    modify fun c => { c with asymCrypto := none }
    let signKey ← orThrow .cryptoPP (lib.loadSignKey (c.settings.signScheme.getD []) signKey)
    let cryptKey ← orThrow .cryptoPP (lib.loadCryptKey (c.settings.cryptScheme.getD []) cryptKey)
    modify fun c => c.withKeys ⟨signKey, cryptKey⟩
    let _ ← getInfo lib env (c.settings.localSymKey.getD 0)

/-- What is in memory, except for the keystore, is cleared. -/
def CryptoController.cleared (c : CryptoController SignKey PrivateKey) : CryptoController SignKey PrivateKey :=
  { c with asymCrypto := none, loadedChiphers := fun _ => none, localCipher := 0 }

def clearKeyMaterial : CryptoM SignKey PrivateKey Unit := modify CryptoController.cleared

/-- The key files and some of the settings are removed, but neither `nextkey` nor the schemes of the keys. -/
def CryptoController.deleted (c : CryptoController SignKey PrivateKey) : CryptoController SignKey PrivateKey :=
  { c with
    keyFiles := fun keyIndex => if env.remains keyIndex then c.keyFiles keyIndex else none
    settings := { c.settings with keystore := none, signScheme := none, cryptScheme := none, localSymKey := none } }

/-- A key is saved in a keystore, or removed from it. -/
def CryptoController.saved (c : CryptoController SignKey PrivateKey) (provider : String) (name : KeyName)
    (key : Option QByteArray) : CryptoController SignKey PrivateKey :=
  { c with keyStores := Function.update c.keyStores provider (Function.update (c.keyStores provider) name key) }

def deleteKeyMaterial (deviceId : Uuid) : CryptoM SignKey PrivateKey Unit := do
  check env .deleteKeyMaterialDir .cryptoPP
  modify fun c => c.deleted env
  tryCatch (do
    let provider ← ensureStoreOpen env
    check env .removeSignKey .keyStore
    modify fun c => c.saved provider (.signing deviceId) none
    check env .removeCryptKey .keyStore
    modify fun c => c.saved provider (.encryption deviceId) none)
    fun e => if e = .cryptoPP then pure () else throw e
  clearKeyMaterial

def createPrivateKeys (random : Random SignKey PrivateKey Seed) : CryptoM SignKey PrivateKey Unit :=
  catchCpp "Failed to generate key material" do
    modify fun c => { c with asymCrypto := none }
    check env .generate .cryptoPP
    modify fun c => { c with asymCrypto := some ⟨random.signKey, random.cryptKey⟩, localCipher := 0 }
    modify fun c => c.loads 0 (createInfo env random)

def storePrivateKeys (seed : Seed) (deviceId : Uuid) : CryptoM SignKey PrivateKey Unit :=
  catchCpp "Failed to store key material" do
    let provider ← ensureStoreOpen env
    let keys ← asymCrypto
    modify fun c => c.set fun s => { s with signScheme := some (lib.signatureScheme keys.signKey) }
    check env .saveSignKey .keyStore
    modify fun c => c.saved provider (.signing deviceId) (some (lib.savePrivateSignKey keys.signKey))
    modify fun c => c.set fun s => { s with cryptScheme := some (lib.encryptionScheme keys.cryptKey).name }
    check env .saveCryptKey .keyStore
    modify fun c => c.saved provider (.encryption deviceId) (some (lib.savePrivateCryptKey keys.cryptKey))
    storeCipherKey lib env seed (← get).localCipher
    modify fun c => c.set fun s => { s with localSymKey := some c.localCipher }
    modify fun c => c.set fun s => { s with keystore := some provider }

/-- An operation that uses one key. -/
def useInfo {α : Type} (message : String) (keyIndex : UInt32) (f : CipherInfo → Option α) :
    CryptoM SignKey PrivateKey α :=
  catchCpp message do
    let info ← getInfo lib env keyIndex
    orThrow .cryptoPP (f info)

/-- The index of the key, the salt and the data. -/
def encryptData (salt plain : QByteArray) : CryptoM SignKey PrivateKey (UInt32 × QByteArray × QByteArray) := do
  let c ← get
  useInfo lib env "Failed to encrypt data for upload" c.localCipher fun info =>
    some (c.localCipher, salt, lib.encryptImpl info salt plain)

def decryptData (keyIndex : UInt32) (salt cipher : QByteArray) : CryptoM SignKey PrivateKey QByteArray :=
  useInfo lib env "Failed to decrypt downloaded data" keyIndex fun info => lib.decryptImpl info salt cipher

def createCmac (keyIndex : UInt32) (data : QByteArray) : CryptoM SignKey PrivateKey QByteArray :=
  useInfo lib env "Failed to create CMAC" keyIndex fun info => some (lib.cmac info data)

/-- The last bytes are taken for the CMAC. -/
def verifyCmacImpl (info : CipherInfo) (data mac : QByteArray) : Option Unit :=
  let size := (data ++ mac).length - info.scheme.digestSize
  if lib.cmac info ((data ++ mac).take size) = (data ++ mac).drop size then some () else none

def verifyCmac (keyIndex : UInt32) (data mac : QByteArray) : CryptoM SignKey PrivateKey Unit :=
  useInfo lib env "Failed to verify CMAC" keyIndex fun info => verifyCmacImpl lib info data mac

def encryptSecretKey (seed : Seed) (keyIndex : UInt32) (publicKey : PublicKey) :
    CryptoM SignKey PrivateKey QByteArray :=
  useInfo lib env "Failed to encrypt exchange key for peer" keyIndex fun info => lib.encrypt publicKey seed info.key

/-- The MAC of the own public key. -/
def generateEncryptionKeyCmac (keyIndex : UInt32) : CryptoM SignKey PrivateKey QByteArray := do
  let keys ← asymCrypto
  useInfo lib env "Failed to create CMAC for private encryption key" keyIndex fun info =>
    some (lib.cmac info (cryptKeyData (lib.encryptionScheme keys.cryptKey) (lib.writeKey (lib.publicKey keys.cryptKey))))

/-- The active key. -/
def CryptoController.activates (c : CryptoController SignKey PrivateKey) (keyIndex : UInt32) :
    CryptoController SignKey PrivateKey :=
  { c with localCipher := keyIndex, settings := { c.settings with localSymKey := some keyIndex } }

/-- The setting `nextkey`. -/
def CryptoController.proposes (c : CryptoController SignKey PrivateKey) (keyIndex : Option UInt32) :
    CryptoController SignKey PrivateKey :=
  { c with settings := { c.settings with nextSymKey := keyIndex } }

/-- An exchange key that has been encrypted for the device. -/
def decryptInfo (scheme data : QByteArray) : CryptoM SignKey PrivateKey CipherInfo := do
  let keys ← asymCrypto
  let key ← orThrow .cryptoPP (lib.decrypt keys.cryptKey data)
  let scheme ← orThrow .cryptoPP (CipherScheme.createScheme scheme)
  return ⟨scheme, key⟩

def decryptSecretKey (seed : Seed) (keyIndex : UInt32) (scheme data : QByteArray) (grantInit : Bool) :
    CryptoM SignKey PrivateKey Unit :=
  catchCpp "Failed to exchange secret key from peer" do
    let info ← decryptInfo lib scheme data
    modify fun c => c.loads keyIndex info
    if grantInit then modify fun c => { c with localCipher := keyIndex }
    else
      storeCipherKey lib env seed keyIndex
      if (← get).localCipher < keyIndex then
        modify fun c => c.activates keyIndex
        cleanCiphers env

/-- The index and the scheme of the next key; a stored proposal is used again. -/
def generateNextKey (random : Random SignKey PrivateKey Seed) : CryptoM SignKey PrivateKey (UInt32 × CipherScheme) :=
  catchCpp "Failed to generate new exchange key" do
    let c ← get
    let keyIndex := c.localCipher + 1
    if c.settings.nextSymKey = some keyIndex then
      let info ← getInfo lib env keyIndex
      return (keyIndex, info.scheme)
    else
      let info := createInfo env random
      modify fun c => c.loads keyIndex info
      storeCipherKey lib env random.seed keyIndex
      modify fun c => c.proposes (some keyIndex)
      return (keyIndex, info.scheme)

def activateNextKey (keyIndex : UInt32) : CryptoM SignKey PrivateKey Unit :=
  catchCpp "Failed to save new exchange key" do
    let c ← get
    if c.localCipher + 1 ≠ keyIndex then return
    if c.settings.nextSymKey.getD 0 ≠ keyIndex then return
    let _ ← getInfo lib env keyIndex
    modify fun c => c.activates keyIndex
    modify fun c => c.proposes none
    cleanCiphers env

end Operations

/-! ### The keys that are found -/

section Table

variable {SignKey PrivateKey PublicKey Seed : Type} (lib : ClientCrypto SignKey PrivateKey PublicKey Seed)

/-- The encryption for a device throws nothing. -/
def ClientCrypto.Encrypts : Prop := ∀ publicKey seed plain, (lib.encrypt publicKey seed plain).isSome

namespace CryptoController

variable (c : CryptoController SignKey PrivateKey)

/-- The key in a key file, read with a private key. -/
def storedKey (cryptKey : PrivateKey) (keyIndex : UInt32) : Option CipherInfo := do
  let scheme ← CipherScheme.createScheme ((c.settings.symKeys keyIndex).getD [])
  let encData ← c.keyFiles keyIndex
  let key ← lib.decrypt cryptKey encData
  if key.length = scheme.toKeyLength key.length then some ⟨scheme, key⟩ else none

/-- The key that `getInfo` returns if nothing fails. -/
def table (keyIndex : UInt32) : Option CipherInfo :=
  match c.loadedChiphers keyIndex with
  | some info => some info
  | none => c.asymCrypto.bind fun keys => c.storedKey lib keys.cryptKey keyIndex

end CryptoController

/-- A key of a valid length for its scheme. -/
def ValidKey (info : CipherInfo) : Prop := info.key.length = info.scheme.toKeyLength info.key.length

variable {lib} {env : Env} {c : CryptoController SignKey PrivateKey} {i : UInt32}

theorem validKey_createInfo (env : Env) (random : Random SignKey PrivateKey Seed) :
    ValidKey (createInfo env random) := by
  simp only [ValidKey, createInfo, random.length_block]
  split_ifs
  · exact (CipherScheme.toKeyLength_defaultKeyLength _).symm
  · exact (CipherScheme.toKeyLength_toKeyLength _ _).symm

theorem storedKey_eq_some {cryptKey : PrivateKey} {info : CipherInfo} :
    c.storedKey lib cryptKey i = some info ↔
      CipherScheme.createScheme ((c.settings.symKeys i).getD []) = some info.scheme ∧
        (∃ encData, c.keyFiles i = some encData ∧ lib.decrypt cryptKey encData = some info.key) ∧ ValidKey info := by
  simp only [CryptoController.storedKey, Option.bind_eq_bind, Option.bind_eq_some_iff, Option.ite_none_right_eq_some,
    Option.some.injEq]
  constructor
  · rintro ⟨scheme, hscheme, encData, hfile, key, hkey, hlength, rfl⟩
    exact ⟨hscheme, ⟨encData, hfile, hkey⟩, hlength⟩
  · rintro ⟨hscheme, ⟨encData, hfile, hkey⟩, hlength⟩
    exact ⟨_, hscheme, encData, hfile, _, hkey, hlength, rfl⟩

/-- What is stored of one index is read from its file and its setting. -/
theorem storedKey_congr {c' : CryptoController SignKey PrivateKey} (hfile : c'.keyFiles i = c.keyFiles i)
    (hscheme : c'.settings.symKeys i = c.settings.symKeys i) (cryptKey : PrivateKey) :
    c'.storedKey lib cryptKey i = c.storedKey lib cryptKey i := by
  rw [CryptoController.storedKey, CryptoController.storedKey, hfile, hscheme]

@[simp] theorem keyFiles_stores_self (scheme encData : QByteArray) :
    (c.stores i scheme encData).keyFiles i = some encData :=
  Function.update_self ..

theorem keyFiles_stores_of_ne {j : UInt32} (h : i ≠ j) (scheme encData : QByteArray) :
    (c.stores j scheme encData).keyFiles i = c.keyFiles i := Function.update_of_ne h ..

theorem keyFiles_cleaned_of_not (h : c.isOld i = false) : (c.cleaned env).keyFiles i = c.keyFiles i := by
  simp [CryptoController.cleaned, h]

@[simp] theorem storedKey_loads (cryptKey : PrivateKey) (j : UInt32) (info : CipherInfo) :
    (c.loads j info).storedKey lib cryptKey i = c.storedKey lib cryptKey i := rfl

/-- A key that has been stored is read again. -/
theorem storedKey_stores_self {keys : KeyPair SignKey PrivateKey} {info : CipherInfo} {seed : Seed}
    {encData : QByteArray}
    (hvalid : ValidKey info) (henc : lib.encrypt (lib.publicKey keys.cryptKey) seed info.key = some encData) :
    (c.stores i info.scheme.name encData).storedKey lib keys.cryptKey i = some info := by
  rw [storedKey_eq_some]
  refine ⟨?_, ⟨encData, keyFiles_stores_self .., lib.decrypt_encrypt _ _ _ _ henc⟩, hvalid⟩
  simp only [CryptoController.stores, Function.update_self, Option.getD_some]
  exact CipherScheme.createScheme_of_name _

theorem storedKey_stores_of_ne {j : UInt32} (h : i ≠ j) (scheme encData : QByteArray) (cryptKey : PrivateKey) :
    (c.stores j scheme encData).storedKey lib cryptKey i = c.storedKey lib cryptKey i :=
  storedKey_congr (keyFiles_stores_of_ne h ..) (Function.update_of_ne h ..) cryptKey

theorem storedKey_cleaned_of_not (h : c.isOld i = false) (cryptKey : PrivateKey) :
    (c.cleaned env).storedKey lib cryptKey i = c.storedKey lib cryptKey i :=
  storedKey_congr (keyFiles_cleaned_of_not h) (by simp [CryptoController.cleaned, h]) cryptKey

@[simp] theorem loadedChiphers_loads_self (info : CipherInfo) : (c.loads i info).loadedChiphers i = some info :=
  Function.update_self ..

theorem loadedChiphers_loads_of_ne {j : UInt32} (h : j ≠ i) (info : CipherInfo) :
    (c.loads i info).loadedChiphers j = c.loadedChiphers j := Function.update_of_ne h ..

theorem table_of_loaded {info : CipherInfo} (h : c.loadedChiphers i = some info) : c.table lib i = some info := by
  rw [CryptoController.table, h]

theorem table_of_not_loaded (h : c.loadedChiphers i = none) :
    c.table lib i = c.asymCrypto.bind fun keys => c.storedKey lib keys.cryptKey i := by
  rw [CryptoController.table, h]

@[simp] theorem table_loads_self (info : CipherInfo) : (c.loads i info).table lib i = some info :=
  table_of_loaded (loadedChiphers_loads_self info)

/-- To load a key that is found changes none that is found. -/
theorem table_loads {info : CipherInfo} (h : c.table lib i = some info) : (c.loads i info).table lib = c.table lib := by
  funext j
  rcases eq_or_ne j i with rfl | hj
  · rw [table_loads_self, h]
  · rw [CryptoController.table, CryptoController.table, loadedChiphers_loads_of_ne hj]
    rfl

theorem loads_of_loaded {info : CipherInfo} (h : c.loadedChiphers i = some info) : c.loads i info = c := by
  rw [CryptoController.loads, ← h, Function.update_eq_self]

end Table

/-! ### What the operations do -/

section Runs

variable {SignKey PrivateKey PublicKey Seed α : Type} {lib : ClientCrypto SignKey PrivateKey PublicKey Seed} {env : Env}
  {c : CryptoController SignKey PrivateKey} {i : UInt32} {e : Error}
  {Q : α → CryptoController SignKey PrivateKey → Prop} {E : Error → CryptoController SignKey PrivateKey → Prop}

theorem not_sound {step : FailurePoint} (h : env.fails step = true) : ¬ env.Sound := by
  rintro ⟨hfails, -⟩
  rw [hfails] at h
  cases h

theorem cryptoPP_ne : Error.cryptoPP ≠ .nullPointer := by decide

theorem runs_check {step : FailurePoint} {Q : Unit → CryptoController SignKey PrivateKey → Prop}
    (hQ : env.fails step = false → Q () c) (hE : env.fails step = true → E e c) : Runs (check env step e) c Q E := by
  refine runs_ite (fun h => runs_throw (hE h)) fun h => runs_pure (hQ ?_)
  rwa [Bool.not_eq_true] at h

theorem runs_orThrow {o : Option α} (hQ : ∀ a, o = some a → Q a c) (hE : o = none → E e c) :
    Runs (orThrow e o) c Q E := by
  rcases o with - | a
  · exact runs_throw (hE rfl)
  · exact runs_pure (hQ a rfl)

theorem runs_asymCrypto {Q : KeyPair SignKey PrivateKey → CryptoController SignKey PrivateKey → Prop}
    (hQ : ∀ keys, c.asymCrypto = some keys → Q keys c) (hE : c.asymCrypto = none → E .nullPointer c) :
    Runs asymCrypto c Q E :=
  runs_bind (runs_get (runs_orThrow hQ hE))

/-- The exception of a `catch` block. -/
def wrapped (message : String) (e : Error) : Error := if e = .cryptoPP then .crypto message else e

theorem runs_catchCpp {m : CryptoM SignKey PrivateKey α} {message : String}
    (h : Runs m c Q fun e t => E (wrapped message e) t) : Runs (catchCpp message m) c Q E :=
  runs_tryCatch (h.mono (fun _ _ h => h) fun _ _ h => runs_throw h)

theorem wrapped_eq_nullPointer {message : String} (h : wrapped message e = .nullPointer) : e = .nullPointer := by
  unfold wrapped at h
  split_ifs at h
  exact h

theorem wrapped_ne {message : String} (h : e ≠ .nullPointer) :
    wrapped message e ≠ .nullPointer ∧ wrapped message e ≠ .cryptoPP := by
  refine ⟨fun he => h (wrapped_eq_nullPointer he), ?_⟩
  unfold wrapped
  split_ifs with he
  · simp
  · exact he

theorem runs_getInfo (lib : ClientCrypto SignKey PrivateKey PublicKey Seed) (env : Env)
    (c : CryptoController SignKey PrivateKey) (i : UInt32) :
    Runs (getInfo lib env i) c (fun info t => c.table lib i = some info ∧ t = c.loads i info)
      (fun e t => t = c ∧ c.loadedChiphers i = none ∧ (env.Sound → c.table lib i = none) ∧
        (e = .nullPointer → c.asymCrypto = none)) := by
  refine runs_bind (runs_get ?_)
  rcases hl : c.loadedChiphers i with - | info
  · have htable : c.table lib i = _ := table_of_not_loaded hl
    have hne : ∀ {P : Prop}, Error.cryptoPP = .nullPointer → P := fun h => absurd h cryptoPP_ne
    refine runs_bind (runs_check (fun _ => ?_) fun hf => ⟨rfl, rfl, fun hs => absurd hs (not_sound hf), hne⟩)
    refine runs_bind (runs_orThrow (fun scheme hscheme => ?_) fun hscheme => ⟨rfl, rfl, fun _ => ?_, hne⟩)
    swap
    · rw [htable]
      simp [CryptoController.storedKey, hscheme]
    refine runs_bind (runs_check (fun _ => ?_) fun hf => ⟨rfl, rfl, fun hs => absurd hs (not_sound hf), hne⟩)
    refine runs_bind (runs_orThrow (fun encData hfile => ?_) fun hfile => ⟨rfl, rfl, fun _ => ?_, hne⟩)
    swap
    · rw [htable]
      simp [CryptoController.storedKey, hfile]
    refine runs_bind (runs_asymCrypto (fun keys hkeys => ?_) fun hkeys => ⟨rfl, rfl, fun _ => ?_, fun _ => hkeys⟩)
    swap
    · rw [htable, hkeys, Option.bind_none]
    refine runs_bind (runs_orThrow (fun key hkey => ?_) fun hkey => ⟨rfl, rfl, fun _ => ?_, hne⟩)
    swap
    · rw [htable, hkeys]
      simp [CryptoController.storedKey, hfile, hkey]
    refine runs_ite (fun hlength => runs_bind (runs_throw ⟨rfl, rfl, fun _ => ?_, hne⟩)) fun hlength => ?_
    · rw [htable, hkeys]
      simp [CryptoController.storedKey, hscheme, hfile, hkey, hlength]
    · refine runs_bind (runs_modify (runs_pure ⟨?_, rfl⟩))
      rw [htable, hkeys]
      exact storedKey_eq_some.mpr ⟨hscheme, ⟨encData, hfile, hkey⟩, not_not.mp hlength⟩
  · exact runs_pure ⟨table_of_loaded hl, (loads_of_loaded hl).symm⟩

theorem runs_useInfo {f : CipherInfo → Option α} {message : String} :
    Runs (useInfo lib env message i f) c (fun a t => ∃ info, c.table lib i = some info ∧ f info = some a ∧
      t = c.loads i info)
      (fun e t => (t = c ∨ ∃ info, c.table lib i = some info ∧ t = c.loads i info) ∧
        (∀ info, c.loadedChiphers i = some info → f info = none) ∧ (env.Sound → (c.table lib i).bind f = none) ∧
        (e = .nullPointer → c.asymCrypto = none)) := by
  refine runs_catchCpp (runs_bind ((runs_getInfo lib env c i).mono ?_ ?_))
  · rintro info t ⟨hinfo, rfl⟩
    refine runs_orThrow (fun a ha => ⟨info, hinfo, ha, rfl⟩) fun hf =>
      ⟨Or.inr ⟨info, hinfo, rfl⟩, fun info' hl => ?_, fun _ => ?_, ?_⟩
    · obtain rfl := Option.some.inj ((table_of_loaded hl).symm.trans hinfo)
      exact hf
    · rw [hinfo, Option.bind_some, hf]
    · exact fun h => absurd (wrapped_eq_nullPointer h) cryptoPP_ne
  · rintro e t ⟨rfl, hl, hsound, hnull⟩
    refine ⟨Or.inl rfl, fun info hinfo => ?_, fun hs => ?_, fun h => hnull (wrapped_eq_nullPointer h)⟩
    · rw [hl] at hinfo
      cases hinfo
    · rw [hsound hs, Option.bind_none]

theorem runs_storeCipherKey (seed : Seed) (lib : ClientCrypto SignKey PrivateKey PublicKey Seed) (env : Env)
    (c : CryptoController SignKey PrivateKey) (i : UInt32) :
    Runs (storeCipherKey lib env seed i) c
      (fun _ t => ∃ info keys encData, c.table lib i = some info ∧ c.asymCrypto = some keys ∧
        lib.encrypt (lib.publicKey keys.cryptKey) seed info.key = some encData ∧
        t = (c.loads i info).stores i info.scheme.name encData)
      (fun e t => (t = c ∨ ∃ info, c.table lib i = some info ∧ t = c.loads i info) ∧
        (env.Sound → lib.Encrypts → c.table lib i = none ∨ c.asymCrypto = none) ∧
        (e = .nullPointer → c.asymCrypto = none)) := by
  have hne : ∀ {P : Prop}, Error.cryptoPP = .nullPointer → P := fun h => absurd h cryptoPP_ne
  refine runs_bind (runs_check (fun _ => ?_) fun hf => ⟨Or.inl rfl, fun hs => absurd hs (not_sound hf), hne⟩)
  refine runs_bind ((runs_getInfo lib env c i).mono ?_ ?_)
  swap
  · rintro e t ⟨rfl, -, hsound, hnull⟩
    exact ⟨Or.inl rfl, fun hs _ => Or.inl (hsound hs), hnull⟩
  rintro info t ⟨hinfo, rfl⟩
  have hloads : ∃ info, c.table lib i = some info ∧ c.loads i info = c.loads i info := ⟨info, hinfo, rfl⟩
  refine runs_bind (runs_asymCrypto (fun keys hkeys => ?_) fun hkeys => ⟨Or.inr ⟨info, hinfo, rfl⟩,
    fun _ _ => Or.inr hkeys,
    fun _ => hkeys⟩)
  refine runs_bind (runs_orThrow (fun encData henc => ?_) fun henc => ⟨Or.inr ⟨info, hinfo, rfl⟩,
    fun _ hlib => ?_, hne⟩)
  swap
  · rw [Option.eq_none_iff_forall_ne_some] at henc
    obtain ⟨encData, hsome⟩ := Option.isSome_iff_exists.mp (hlib (lib.publicKey keys.cryptKey) seed info.key)
    exact absurd hsome (henc encData)
  refine runs_bind (runs_check (fun _ => ?_) fun hf => ⟨Or.inr ⟨info, hinfo, rfl⟩,
    fun hs => absurd hs (not_sound hf), hne⟩)
  exact runs_modify ⟨info, keys, encData, hinfo, hkeys, henc, rfl⟩

/-- A key that has been loaded is stored. -/
theorem runs_storeCipherKey_loads (seed : Seed) (info : CipherInfo) :
    Runs (storeCipherKey lib env seed i) (c.loads i info)
      (fun _ t => ∃ keys encData, c.asymCrypto = some keys ∧
        lib.encrypt (lib.publicKey keys.cryptKey) seed info.key = some encData ∧
        t = (c.loads i info).stores i info.scheme.name encData)
      (fun e t => t = c.loads i info ∧ (env.Sound → lib.Encrypts → c.asymCrypto = none) ∧
        (e = .nullPointer → c.asymCrypto = none)) := by
  have htable : (c.loads i info).table lib i = some info := table_loads_self info
  have hsame : (c.loads i info).loads i info = c.loads i info := loads_of_loaded (loadedChiphers_loads_self info)
  refine (runs_storeCipherKey seed lib env _ i).mono ?_ ?_
  · rintro - t ⟨info', keys, encData, hinfo, hkeys, henc, rfl⟩
    obtain rfl := Option.some.inj (htable.symm.trans hinfo)
    exact ⟨keys, encData, hkeys, henc, by rw [hsame]⟩
  · rintro e t ⟨ht, hsound, hnull⟩
    refine ⟨?_, fun hs hlib => ?_, hnull⟩
    · rcases ht with rfl | ⟨info', hinfo, rfl⟩
      · rfl
      · obtain rfl := Option.some.inj (htable.symm.trans hinfo)
        exact hsame
    · rcases hsound hs hlib with hnone | hnone
      · rw [htable] at hnone
        cases hnone
      · exact hnone

/-- What `decryptSecretKey` decrypts. -/
def decrypted (lib : ClientCrypto SignKey PrivateKey PublicKey Seed) (c : CryptoController SignKey PrivateKey)
    (scheme data : QByteArray) : Option CipherInfo := do
  let keys ← c.asymCrypto
  let key ← lib.decrypt keys.cryptKey data
  let scheme ← CipherScheme.createScheme scheme
  return ⟨scheme, key⟩

theorem runs_decryptInfo {scheme data : QByteArray} :
    Runs (decryptInfo lib scheme data) c (fun info t => decrypted lib c scheme data = some info ∧ t = c)
      (fun e t => decrypted lib c scheme data = none ∧ t = c ∧ (e = .nullPointer → c.asymCrypto = none)) := by
  have hne : ∀ {P : Prop}, Error.cryptoPP = .nullPointer → P := fun h => absurd h cryptoPP_ne
  refine runs_bind (runs_asymCrypto (fun keys hkeys => ?_) fun hkeys => ⟨?_, rfl, fun _ => hkeys⟩)
  swap
  · rw [decrypted, hkeys]
    rfl
  refine runs_bind (runs_orThrow (fun key hkey => ?_) fun hkey => ⟨?_, rfl, hne⟩)
  swap
  · simp [decrypted, hkeys, hkey]
  refine runs_bind (runs_orThrow (fun s hs => runs_pure ⟨?_, rfl⟩) fun hs => ⟨?_, rfl, hne⟩)
  · simp [decrypted, hkeys, hkey, hs]
  · simp [decrypted, hkeys, hs]

/-- A key is imported: it is loaded and stored. -/
def Imports (lib : ClientCrypto SignKey PrivateKey PublicKey Seed) (seed : Seed)
    (c : CryptoController SignKey PrivateKey)
    (i : UInt32) (info : CipherInfo) (t : CryptoController SignKey PrivateKey) : Prop :=
  ∃ keys encData, c.asymCrypto = some keys ∧ lib.encrypt (lib.publicKey keys.cryptKey) seed info.key = some encData ∧
    t = (c.loads i info).stores i info.scheme.name encData

theorem runs_decryptSecretKey_grant {seed : Seed} {scheme data : QByteArray} :
    Runs (decryptSecretKey lib env seed i scheme data true) c
      (fun _ t => ∃ info, decrypted lib c scheme data = some info ∧ t = { c.loads i info with localCipher := i })
      (fun e t => t = c ∧ decrypted lib c scheme data = none ∧ (e = .nullPointer → c.asymCrypto = none)) := by
  refine runs_catchCpp (runs_bind (runs_decryptInfo.mono ?_ ?_))
  · rintro info t ⟨hinfo, rfl⟩
    exact runs_bind (runs_modify (runs_ite (fun _ => runs_modify ⟨info, hinfo, rfl⟩) fun h => absurd rfl h))
  · rintro e t ⟨hnone, rfl, hnull⟩
    exact ⟨rfl, hnone, fun h => hnull (wrapped_eq_nullPointer h)⟩

theorem runs_decryptSecretKey {seed : Seed} {scheme data : QByteArray} :
    Runs (decryptSecretKey lib env seed i scheme data false) c
      (fun _ t => ∃ info u, decrypted lib c scheme data = some info ∧ Imports lib seed c i info u ∧
        t = if c.localCipher < i then (u.activates i).cleaned env else u)
      (fun e t => (t = c ∧ decrypted lib c scheme data = none ∨
          ∃ info, decrypted lib c scheme data = some info ∧ ((t = c.loads i info ∧ (env.Sound → ¬ lib.Encrypts)) ∨
            ∃ u, Imports lib seed c i info u ∧ c.localCipher < i ∧ t = u.activates i ∧ ¬ env.Sound)) ∧
        (e = .nullPointer → c.asymCrypto = none)) := by
  refine runs_catchCpp (runs_bind (runs_decryptInfo.mono ?_ ?_))
  swap
  · rintro e t ⟨hnone, rfl, hnull⟩
    exact ⟨Or.inl ⟨rfl, hnone⟩, fun h => hnull (wrapped_eq_nullPointer h)⟩
  rintro info c ⟨hinfo, rfl⟩
  have hkeys : c.asymCrypto ≠ none := by
    intro hnone
    rw [decrypted, hnone] at hinfo
    cases hinfo
  refine runs_bind (runs_modify (runs_ite (fun h => by cases h) fun _ => ?_))
  refine runs_bind ((runs_storeCipherKey_loads seed info).mono ?_ ?_)
  swap
  · rintro e t ⟨rfl, hsound, hnull⟩
    exact ⟨Or.inr ⟨info, hinfo, Or.inl ⟨rfl, fun hs hlib => hkeys (hsound hs hlib)⟩⟩,
      fun h => hnull (wrapped_eq_nullPointer h)⟩
  rintro - u ⟨keys, encData, hk, henc, rfl⟩
  have himports : Imports lib seed c i info _ := ⟨keys, encData, hk, henc, rfl⟩
  refine runs_bind (runs_get (runs_ite (fun hlt => ?_) fun hlt => runs_pure ⟨info, _, hinfo, himports,
    (if_neg hlt).symm⟩))
  refine runs_bind (runs_modify (runs_bind (runs_check (fun _ => ?_) fun hf => ?_)))
  · exact runs_modify ⟨info, _, hinfo, himports, (if_pos hlt).symm⟩
  · exact ⟨Or.inr ⟨info, hinfo, Or.inr ⟨_, himports, hlt, rfl, not_sound hf⟩⟩,
      fun h => absurd (wrapped_eq_nullPointer h) cryptoPP_ne⟩

theorem runs_generateNextKey {random : Random SignKey PrivateKey Seed} (hi : c.localCipher + 1 = i) :
    Runs (generateNextKey lib env random) c
      (fun r t => r.1 = i ∧
        ((c.settings.nextSymKey = some i ∧ ∃ info, c.table lib i = some info ∧ r.2 = info.scheme ∧ t = c.loads i info) ∨
          (c.settings.nextSymKey ≠ some i ∧ r.2 = (createInfo env random).scheme ∧
            ∃ u, Imports lib random.seed c i (createInfo env random) u ∧ t = u.proposes (some i))))
      (fun e t => ((t = c ∧ c.settings.nextSymKey = some i ∧ (env.Sound → c.table lib i = none)) ∨
          (c.settings.nextSymKey ≠ some i ∧ t = c.loads i (createInfo env random) ∧
            (env.Sound → lib.Encrypts → c.asymCrypto = none))) ∧ (e = .nullPointer → c.asymCrypto = none)) := by
  subst hi
  refine runs_catchCpp (runs_bind (runs_get (runs_ite (fun hnext => ?_) fun hnext => ?_)))
  · refine runs_bind ((runs_getInfo lib env c _).mono ?_ ?_)
    · rintro info t ⟨hinfo, rfl⟩
      exact runs_pure ⟨rfl, Or.inl ⟨hnext, info, hinfo, rfl, rfl⟩⟩
    · rintro e t ⟨rfl, -, hsound, hnull⟩
      exact ⟨Or.inl ⟨rfl, hnext, hsound⟩, fun h => hnull (wrapped_eq_nullPointer h)⟩
  · refine runs_bind (runs_modify (runs_bind ((runs_storeCipherKey_loads random.seed _).mono ?_ ?_)))
    · rintro - t ⟨keys, encData, hk, henc, rfl⟩
      exact runs_bind (runs_modify (runs_pure ⟨rfl, Or.inr ⟨hnext, rfl, _, ⟨keys, encData, hk, henc, rfl⟩, rfl⟩⟩))
    · rintro e t ⟨rfl, hsound, hnull⟩
      exact ⟨Or.inr ⟨hnext, rfl, hsound⟩, fun h => hnull (wrapped_eq_nullPointer h)⟩

theorem runs_activateNextKey :
    Runs (activateNextKey lib env i) c
      (fun _ t => (t = c ∧ ¬ (c.localCipher + 1 = i ∧ c.settings.nextSymKey.getD 0 = i)) ∨
        (c.localCipher + 1 = i ∧ c.settings.nextSymKey.getD 0 = i ∧
          ∃ info, c.table lib i = some info ∧ t = (((c.loads i info).activates i).proposes none).cleaned env))
      (fun e t => c.localCipher + 1 = i ∧ c.settings.nextSymKey.getD 0 = i ∧
        ((t = c ∧ (env.Sound → c.table lib i = none)) ∨
          ∃ info, c.table lib i = some info ∧ t = ((c.loads i info).activates i).proposes none ∧ ¬ env.Sound) ∧
        (e = .nullPointer → c.asymCrypto = none)) := by
  refine runs_catchCpp (runs_bind (runs_get ?_))
  refine runs_ite (fun hindex => runs_pure (Or.inl ⟨rfl, fun h => hindex h.1⟩)) fun hindex => ?_
  refine runs_ite (fun hnext => runs_pure (Or.inl ⟨rfl, fun h => hnext h.2⟩)) fun hnext => ?_
  have hindex := not_not.mp hindex
  have hnext := not_not.mp hnext
  refine runs_bind ((runs_getInfo lib env c i).mono ?_ ?_)
  · rintro info t ⟨hinfo, rfl⟩
    refine runs_bind (runs_modify (runs_bind (runs_modify (runs_bind (runs_check (fun _ => ?_) fun hf => ?_)))))
    · exact runs_modify (Or.inr ⟨hindex, hnext, info, hinfo, rfl⟩)
    · exact ⟨hindex, hnext, Or.inr ⟨info, hinfo, rfl, not_sound hf⟩,
        fun h => absurd (wrapped_eq_nullPointer h) cryptoPP_ne⟩
  · rintro e t ⟨rfl, -, hsound, hnull⟩
    exact ⟨hindex, hnext, Or.inl ⟨rfl, hsound⟩, fun h => hnull (wrapped_eq_nullPointer h)⟩

/-- The private keys of a device in a keystore. -/
def CryptoController.identity (lib : ClientCrypto SignKey PrivateKey PublicKey Seed)
    (c : CryptoController SignKey PrivateKey)
    (provider : String) (deviceId : Uuid) : Option (KeyPair SignKey PrivateKey) := do
  let signKey ← c.keyStores provider (.signing deviceId)
  let cryptKey ← c.keyStores provider (.encryption deviceId)
  let signKey ← lib.loadSignKey (c.settings.signScheme.getD []) signKey
  let cryptKey ← lib.loadCryptKey (c.settings.cryptScheme.getD []) cryptKey
  return ⟨signKey, cryptKey⟩

theorem runs_ensureStoreOpen :
    Runs (ensureStoreOpen env) c (fun provider t => c.keyStore = some provider ∧ t = c ∧ env.fails .openStore = false)
      (fun e t => t = c ∧ (e = .cryptoPP ∧ c.keyStore = none ∨ e = .keyStore ∧ env.fails .openStore = true)) := by
  refine runs_bind (runs_get (runs_bind (runs_orThrow (fun provider hp => ?_) fun hp => ?_)))
  · exact runs_bind (runs_check (fun hf => runs_pure ⟨hp, rfl, hf⟩) fun hf => ⟨rfl, Or.inr ⟨rfl, hf⟩⟩)
  · exact ⟨rfl, Or.inl ⟨rfl, hp⟩⟩

theorem keyStore_of_not_open (h : e = .cryptoPP ∧ c.keyStore = none ∨ e = .keyStore ∧ env.fails .openStore = true) :
    (env.fails .openStore = false → c.keyStore = none) ∧ e ≠ .nullPointer := by
  rcases h with ⟨rfl, hnone⟩ | ⟨rfl, hf⟩
  · exact ⟨fun _ => hnone, by decide⟩
  · refine ⟨fun h => ?_, by decide⟩
    rw [hf] at h
    cases h

theorem runs_acquireStore {existing : Bool} {provider : String}
    (hp : provider = if existing then c.settings.keystore.getD "" else env.keyStoreProvider) :
    Runs (acquireStore env existing) c
      (fun _ t => t = { c with keyStore := some provider } ∧ (c.keyStore ≠ some provider →
        provider ≠ "" ∧ env.fails .createInstance = false))
      (fun e t => t = { c with keyStore := none } ∧ c.keyStore ≠ some provider ∧
        (provider = "" ∨ env.fails .createInstance = true) ∧ e ≠ .nullPointer ∧ e ≠ .cryptoPP) := by
  subst hp
  refine runs_bind (runs_get (runs_ite (fun h => runs_pure ⟨?_, fun hne => absurd h hne⟩) fun hne => ?_))
  · rw [← h]
  refine runs_bind (runs_modify (runs_ite (fun hp => ?_) fun hp => runs_bind (runs_check (fun hf => ?_) fun hf => ?_)))
  · exact runs_bind (runs_throw ⟨rfl, hne, Or.inl hp, by simp, by simp⟩)
  · exact runs_modify ⟨rfl, fun _ => ⟨hp, hf⟩⟩
  · exact ⟨rfl, hne, Or.inr hf, by simp, by simp⟩

/-- What is left when the keys cannot be loaded: no private keys, or these without the active key. -/
def NotLoaded (lib : ClientCrypto SignKey PrivateKey PublicKey Seed) (env : Env)
    (c : CryptoController SignKey PrivateKey)
    (deviceId : Uuid) (t : CryptoController SignKey PrivateKey) : Prop :=
  ((t = c ∨ t = { c with asymCrypto := none }) ∧
    (env.fails .openStore = false → env.fails .loadKey = false → ∀ provider, c.keyStore = some provider →
      c.identity lib provider deviceId = none)) ∨
  ∃ provider keys, c.keyStore = some provider ∧ c.identity lib provider deviceId = some keys ∧ t = c.withKeys keys ∧
    env.fails .openStore = false ∧ env.fails .loadKey = false ∧
    (env.Sound → (c.withKeys keys).table lib (c.settings.localSymKey.getD 0) = none)

theorem runs_loadKeyMaterial {deviceId : Uuid} :
    Runs (loadKeyMaterial lib env deviceId) c
      (fun _ t => ∃ provider keys info, c.keyStore = some provider ∧ c.identity lib provider deviceId = some keys ∧
        (c.withKeys keys).table lib (c.settings.localSymKey.getD 0) = some info ∧
        env.fails .openStore = false ∧ env.fails .loadKey = false ∧
        t = (c.withKeys keys).loads (c.settings.localSymKey.getD 0) info)
      (fun e t => NotLoaded lib env c deviceId t ∧ e ≠ .nullPointer ∧ e ≠ .cryptoPP) := by
  refine runs_catchCpp (runs_bind (runs_ensureStoreOpen.mono ?_ ?_))
  swap
  · rintro e t ⟨rfl, hclosed⟩
    obtain ⟨hsound, he⟩ := keyStore_of_not_open hclosed
    refine ⟨Or.inl ⟨Or.inl rfl, fun hopen _ provider hp => ?_⟩, wrapped_ne he⟩
    rw [hsound hopen] at hp
    cases hp
  rintro provider c ⟨hp, rfl, hopen⟩
  -- an exception before the private keys are known to be there
  have hearly : ∀ {e : Error} {t : CryptoController SignKey PrivateKey}, e ≠ .nullPointer →
      (t = c ∨ t = { c with asymCrypto := none }) →
      (env.fails .loadKey = false → c.identity lib provider deviceId = none) →
      NotLoaded lib env c deviceId t ∧ wrapped "Failed to load key material" e ≠ .nullPointer ∧
        wrapped "Failed to load key material" e ≠ .cryptoPP := by
    rintro e t he ht hnone
    refine ⟨Or.inl ⟨ht, fun _ hload provider' hp' => ?_⟩, wrapped_ne he⟩
    obtain rfl := Option.some.inj (hp.symm.trans hp')
    exact hnone hload
  refine runs_bind (runs_get (runs_bind (runs_check (fun hload => ?_) fun hf => ?_)))
  swap
  · refine hearly (by decide) (Or.inl rfl) fun h => ?_
    rw [hf] at h
    cases h
  refine runs_bind (runs_orThrow (fun signKey hsign => ?_) fun hsign => hearly (by decide) (Or.inl rfl) fun _ => ?_)
  swap
  · rw [CryptoController.identity, hsign]
    rfl
  refine runs_bind (runs_orThrow (fun cryptKey hcrypt => ?_) fun hcrypt => hearly (by decide) (Or.inl rfl) fun _ => ?_)
  swap
  · simp [CryptoController.identity, hcrypt]
  refine runs_bind (runs_modify (runs_bind (runs_orThrow (fun signKey' hsign' => ?_) fun hsign' => ?_)))
  swap
  · exact hearly (by decide) (Or.inr rfl) fun _ => by
      simp [CryptoController.identity, hsign, hcrypt, hsign']
  refine runs_bind (runs_orThrow (fun cryptKey' hcrypt' => ?_) fun hcrypt' => ?_)
  swap
  · exact hearly (by decide) (Or.inr rfl) fun _ => by
      simp [CryptoController.identity, hsign, hcrypt, hcrypt']
  have hidentity : c.identity lib provider deviceId = some ⟨signKey', cryptKey'⟩ := by
    simp [CryptoController.identity, hsign, hcrypt, hsign', hcrypt']
  refine runs_bind (runs_modify (runs_bind ((runs_getInfo lib env _ _).mono ?_ ?_)))
  · rintro info t ⟨hinfo, rfl⟩
    exact runs_pure ⟨provider, _, info, hp, hidentity, hinfo, hopen, hload, rfl⟩
  · rintro e t ⟨rfl, -, hsound, hnull⟩
    refine ⟨Or.inr ⟨provider, _, hp, hidentity, rfl, hopen, hload, hsound⟩, wrapped_ne fun he => ?_⟩
    cases hnull he

/-- The private keys with their schemes are saved. -/
def CryptoController.savesKeys (lib : ClientCrypto SignKey PrivateKey PublicKey Seed)
    (c : CryptoController SignKey PrivateKey)
    (provider : String) (deviceId : Uuid) (keys : KeyPair SignKey PrivateKey) : CryptoController SignKey PrivateKey :=
  (((c.set fun s => { s with signScheme := some (lib.signatureScheme keys.signKey) }).saved provider (.signing deviceId)
    (some (lib.savePrivateSignKey keys.signKey))).set
      fun s => { s with cryptScheme := some (lib.encryptionScheme keys.cryptKey).name }).saved provider
        (.encryption deviceId) (some (lib.savePrivateCryptKey keys.cryptKey))

/-- The last settings of `storePrivateKeys`. -/
def CryptoController.registered (c : CryptoController SignKey PrivateKey) (provider : String) :
    CryptoController SignKey PrivateKey :=
  { c with settings := { c.settings with localSymKey := some c.localCipher, keystore := some provider } }

/-- The exchange keys and their settings are as before. -/
structure NotStored (c t : CryptoController SignKey PrivateKey) : Prop where
  keyFiles : t.keyFiles = c.keyFiles
  keystore : t.settings.keystore = c.settings.keystore
  localSymKey : t.settings.localSymKey = c.settings.localSymKey
  nextSymKey : t.settings.nextSymKey = c.settings.nextSymKey
  asymCrypto : t.asymCrypto = c.asymCrypto
  localCipher : t.localCipher = c.localCipher
  loaded : t.loadedChiphers = c.loadedChiphers ∨ c.asymCrypto ≠ none

theorem runs_storePrivateKeys {seed : Seed} {deviceId : Uuid} :
    Runs (storePrivateKeys lib env seed deviceId) c
      (fun _ t => ∃ provider keys info encData, c.keyStore = some provider ∧ c.asymCrypto = some keys ∧
        c.table lib c.localCipher = some info ∧
        lib.encrypt (lib.publicKey keys.cryptKey) seed info.key = some encData ∧
        t = (((c.savesKeys lib provider deviceId keys).loads c.localCipher info).stores c.localCipher info.scheme.name
          encData).registered provider)
      (fun e t => NotStored c t ∧
        (env.Sound → lib.Encrypts → c.keyStore = none ∨ c.asymCrypto = none ∨ c.table lib c.localCipher = none) ∧
        (e = .nullPointer → c.asymCrypto = none)) := by
  have hne : ∀ {message : String} {e : Error} {P : Prop}, e ≠ .nullPointer → wrapped message e = .nullPointer → P :=
    fun he h => absurd (wrapped_eq_nullPointer h) he
  have hsame : ∀ c : CryptoController SignKey PrivateKey, NotStored c c :=
    fun _ => ⟨rfl, rfl, rfl, rfl, rfl, rfl, Or.inl rfl⟩
  refine runs_catchCpp (runs_bind (runs_ensureStoreOpen.mono ?_ ?_))
  swap
  · rintro e t ⟨rfl, hclosed⟩
    obtain ⟨hsound, he⟩ := keyStore_of_not_open hclosed
    exact ⟨hsame _, fun hs _ => Or.inl (hsound (hs.fails _)), hne he⟩
  rintro provider c ⟨hp, rfl, -⟩
  refine runs_bind (runs_asymCrypto (fun keys hkeys => ?_) fun hkeys =>
    ⟨hsame _, fun _ _ => Or.inr (Or.inl hkeys), fun _ => hkeys⟩)
  refine runs_bind (runs_modify (runs_bind (runs_check (fun _ => ?_) fun hf => ?_)))
  swap
  · exact ⟨⟨rfl, rfl, rfl, rfl, rfl, rfl, Or.inl rfl⟩, fun hs => absurd hs (not_sound hf), hne (by decide)⟩
  refine runs_bind (runs_modify (runs_bind (runs_modify (runs_bind (runs_check (fun _ => ?_) fun hf => ?_)))))
  swap
  · exact ⟨⟨rfl, rfl, rfl, rfl, rfl, rfl, Or.inl rfl⟩, fun hs => absurd hs (not_sound hf), hne (by decide)⟩
  refine runs_bind (runs_modify (runs_bind (runs_get (runs_bind ((runs_storeCipherKey seed lib env
    (c.savesKeys lib provider deviceId keys) c.localCipher).mono ?_ ?_)))))
  · rintro - t ⟨info, keys', encData, hinfo, hkeys', henc, rfl⟩
    obtain rfl := Option.some.inj (hkeys.symm.trans hkeys')
    exact runs_bind (runs_modify (runs_modify ⟨provider, keys, info, encData, hp, hkeys, hinfo, henc, rfl⟩))
  · rintro e t ⟨ht, hsound, hnull⟩
    refine ⟨?_, fun hs hlib => Or.inr ((hsound hs hlib).symm), fun h => hnull (wrapped_eq_nullPointer h)⟩
    rcases ht with rfl | ⟨info, -, rfl⟩
    · exact ⟨rfl, rfl, rfl, rfl, rfl, rfl, Or.inl rfl⟩
    · exact ⟨rfl, rfl, rfl, rfl, rfl, rfl, Or.inr (hkeys ▸ Option.some_ne_none keys)⟩

theorem identity_savesKeys (provider : String) (deviceId : Uuid) (keys : KeyPair SignKey PrivateKey) :
    (c.savesKeys lib provider deviceId keys).identity lib provider deviceId = some keys := by
  simp [CryptoController.identity, CryptoController.savesKeys, CryptoController.saved, CryptoController.set,
    lib.load_signKey, lib.load_cryptKey]

theorem runs_createPrivateKeys {random : Random SignKey PrivateKey Seed} :
    Runs (createPrivateKeys env random) c
      (fun _ t => t = { c with asymCrypto := some ⟨random.signKey, random.cryptKey⟩, localCipher := 0 }.loads 0
        (createInfo env random))
      (fun e t => t = { c with asymCrypto := none } ∧ ¬ env.Sound ∧ e ≠ .nullPointer) := by
  refine runs_catchCpp (runs_bind (runs_modify (runs_bind (runs_check (fun _ => ?_) fun hf => ?_))))
  · exact runs_bind (runs_modify (runs_modify rfl))
  · exact ⟨rfl, not_sound hf, (wrapped_ne (by decide)).1⟩

/-- The key files and the settings of the account are gone. -/
structure Deleted (env : Env) (c t : CryptoController SignKey PrivateKey) : Prop where
  keyStore : t.keyStore = c.keyStore
  keyFiles : t.keyFiles = (c.deleted env).keyFiles
  settings : t.settings = (c.deleted env).settings

/-- If the keystore fails, then the keys stay in memory. -/
theorem runs_deleteKeyMaterial {deviceId : Uuid} :
    Runs (deleteKeyMaterial env deviceId) c (fun _ t => Deleted env c t ∧ t.cleared = t)
      (fun e t => (t = c ∧ env.fails .deleteKeyMaterialDir = true ∨
          Deleted env c t ∧ t.loadedChiphers = c.loadedChiphers) ∧ ¬ env.Sound ∧ e ≠ .nullPointer) := by
  refine runs_bind (runs_check (fun _ => ?_) fun hf => ⟨Or.inl ⟨rfl, hf⟩, not_sound hf, by decide⟩)
  refine runs_bind (runs_modify (runs_bind (runs_tryCatch (runs_bind (runs_ensureStoreOpen.mono ?_ ?_)))))
  · rintro provider u ⟨hp, rfl, -⟩
    have hne : ¬ Error.keyStore = .cryptoPP := by decide
    have hthrow : ∀ {step : FailurePoint} {Q : Unit → CryptoController SignKey PrivateKey → Prop}
        {v : CryptoController SignKey PrivateKey}, env.fails step = true →
        Deleted env c v ∧ v.loadedChiphers = c.loadedChiphers →
        Runs (if Error.keyStore = .cryptoPP then pure () else throw .keyStore : CryptoM SignKey PrivateKey Unit) v Q
          (fun e t => (t = c ∧ env.fails .deleteKeyMaterialDir = true ∨
            Deleted env c t ∧ t.loadedChiphers = c.loadedChiphers) ∧ ¬ env.Sound ∧ e ≠ .nullPointer) := by
      rintro step Q v hf hd
      rw [if_neg hne]
      exact runs_throw ⟨Or.inr hd, not_sound hf, by decide⟩
    refine runs_bind (runs_check (fun _ => ?_) fun hf => hthrow hf ⟨⟨rfl, rfl, rfl⟩, rfl⟩)
    refine runs_bind (runs_modify (runs_bind (runs_check (fun _ => ?_) fun hf => hthrow hf ⟨⟨rfl, rfl, rfl⟩, rfl⟩)))
    exact runs_modify (runs_modify ⟨⟨rfl, rfl, rfl⟩, rfl⟩)
  · rintro e t ⟨rfl, ⟨rfl, -⟩ | ⟨rfl, hs⟩⟩
    · exact runs_ite (fun _ => runs_pure (runs_modify ⟨⟨rfl, rfl, rfl⟩, rfl⟩)) fun h => absurd rfl h
    · exact runs_throw ⟨Or.inr ⟨⟨rfl, rfl, rfl⟩, rfl⟩, not_sound hs, by decide⟩

end Runs

end KeyMaterial

end QtDataSync
