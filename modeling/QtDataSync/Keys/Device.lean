import QtDataSync.Keys.KeyMaterial

/-!
# Keys.Device — a device that loads, creates, stores, uses and deletes its keys

The handlers of `remoteconnector.cpp` that call the controller.  The id of the device is a setting, and `_deviceId` is
what has been loaded.  A handler that throws ends the connection, and the use of a null pointer ends the process.  The
handlers of a device that is connected keep what the calls of the controller keep (`runs_handle`).
-/

namespace QtDataSync.KeyMaterial

open QDataStream
open KeyUpdates (CryptoPP CipherInfo ConnectorState)

/-- `_deviceId`, the state of the connection (`none` without one), the setting of the device id, and the keys. -/
structure Device (SignKey PrivateKey : Type) where
  deviceId : Uuid
  state : Option ConnectorState
  keyDeviceId : Uuid
  crypto : CryptoController SignKey PrivateKey

section Handlers

variable {SignKey PrivateKey PublicKey Seed : Type}

abbrev DeviceM (SignKey PrivateKey α : Type) := ExceptT Error (StateM (Device SignKey PrivateKey)) α

/-- A call of the controller. -/
def crypto {α : Type} (m : CryptoM SignKey PrivateKey α) : DeviceM SignKey PrivateKey α :=
  ExceptT.mk fun d => ((exec m d.crypto).1, { d with crypto := (exec m d.crypto).2 })

def setState (state : Option ConnectorState) : DeviceM SignKey PrivateKey Unit :=
  modify fun d => { d with state := state }

variable (lib : ClientCrypto SignKey PrivateKey PublicKey Seed) (env : Env)

/-- The keys are loaded if the id has changed; if that throws, then the id stays as if they were. -/
def loadIdentity : DeviceM SignKey PrivateKey Bool :=
  tryCatch (do
    let d ← get
    let nId := d.keyDeviceId
    if nId ≠ d.deviceId ∨ nId = nullUuid then
      modify fun d => { d with deviceId := nId }
      crypto clearKeyMaterial
      crypto (acquireStore env (decide (nId ≠ nullUuid)))
      if nId = nullUuid then return true
      crypto (loadKeyMaterial lib env nId)
    return true)
    fun e => if e = .cryptoPP ∨ e = .nullPointer then throw e else return false

/-- `doConnect`, if there is no connection; `enabled` is what else `checkCanSync` asks for. -/
def doConnect (enabled : Bool) : DeviceM SignKey PrivateKey Unit := do
  if (← get).state = none then
    let loaded ← loadIdentity lib env
    if loaded && enabled then setState (some .connected)

/-- A message is signed. -/
def sendSignedMessage : DeviceM SignKey PrivateKey Unit := do
  let _ ← crypto asymCrypto

/-- Messages that are expected in one state. -/
def checkState (state : ConnectorState) (m : DeviceM SignKey PrivateKey Unit) : DeviceM SignKey PrivateKey Unit := do
  if (← get).state = some state then m else setState none

def onIdentify (random : Random SignKey PrivateKey Seed) (importing : Bool) : DeviceM SignKey PrivateKey Unit :=
  checkState .connected do
    if (← get).deviceId ≠ nullUuid then
      sendSignedMessage
      setState (some .loggingIn)
    else
      crypto (createPrivateKeys env random)
      if importing then
        sendSignedMessage
        setState (some .granting)
      else
        let _ ← crypto (generateEncryptionKeyCmac lib env (← get).crypto.localCipher)
        sendSignedMessage
        setState (some .registering)

/-- The id is stored before the keys are. -/
def register (seed : Seed) (deviceId : Uuid) : DeviceM SignKey PrivateKey Unit := do
  modify fun d => { d with deviceId := deviceId, keyDeviceId := deviceId }
  crypto (storePrivateKeys lib env seed deviceId)
  setState (some .idle)

def onAccount (seed : Seed) (deviceId : Uuid) : DeviceM SignKey PrivateKey Unit :=
  checkState .registering (register lib env seed deviceId)

/-- The MAC of the own public key is sent. -/
def sendKeyUpdate : DeviceM SignKey PrivateKey Unit := do
  let _ ← crypto (generateEncryptionKeyCmac lib env (← get).crypto.localCipher)

def onGrant (seed : Seed) (deviceId : Uuid) (index : UInt32) (scheme secret : QByteArray) :
    DeviceM SignKey PrivateKey Unit :=
  checkState .granting do
    crypto (decryptSecretKey lib env seed index scheme secret true)
    register lib env seed deviceId
    sendKeyUpdate lib env

def onWelcome (seed : Seed) (sendCmac : Bool) (message : WelcomeMessage) : DeviceM SignKey PrivateKey Unit :=
  checkState .loggingIn do
    setState (some .idle)
    if message.hasKeyUpdate then
      let d ← get
      crypto (verifyCmac lib env d.crypto.localCipher (message.signatureData d.deviceId) message.cmac)
      crypto (decryptSecretKey lib env seed message.keyIndex message.scheme message.key false)
      sendKeyUpdate lib env
    else if sendCmac then sendKeyUpdate lib env

/-- The new key is encrypted for another device, which has shown that it has the active one; a device that cannot be
verified is excluded. -/
def keyUpdate (seed : Seed) (keyIndex : UInt32) (scheme : CipherScheme)
    (info : Uuid × QByteArray × QByteArray × QByteArray) : CryptoM SignKey PrivateKey Unit :=
  tryCatch (do
    let localCipher := (← get).localCipher
    let cryptScheme ← orThrow .cryptoPP (EncryptionScheme.setEncryptionScheme info.2.1)
    let publicKey ← orThrow .cryptoPP (lib.readKey cryptScheme info.2.2.1)
    verifyCmac lib env localCipher (cryptKeyData cryptScheme (lib.writeKey publicKey)) info.2.2.2
    let secret ← encryptSecretKey lib env seed keyIndex publicKey
    let _ ← createCmac lib env localCipher (signatureData keyIndex scheme.name info.1 secret))
    fun e => if e = .nullPointer then throw e else return

def onDeviceKeys (random : Random SignKey PrivateKey Seed) (message : DeviceKeysMessage) :
    DeviceM SignKey PrivateKey Unit :=
  checkState .idle do
    if message.duplicated then crypto (activateNextKey lib env message.keyIndex)
    else
      let (keyIndex, scheme) ← crypto (generateNextKey lib env random)
      let _ ← crypto (generateEncryptionKeyCmac lib env keyIndex)
      message.devices.forM fun info => crypto (keyUpdate lib env random.seed keyIndex scheme info)
      sendSignedMessage

def onNewKeyAck (keyIndex : UInt32) : DeviceM SignKey PrivateKey Unit :=
  checkState .idle (crypto (activateNextKey lib env keyIndex))

/-- `uploadData` and `uploadDeviceData`. -/
def uploadData (salt plain : QByteArray) : DeviceM SignKey PrivateKey Unit := do
  if (← get).state = some .idle then
    let _ ← crypto (encryptData lib env salt plain)

/-- `onChanged`. -/
def onChanged (keyIndex : UInt32) (salt data : QByteArray) : DeviceM SignKey PrivateKey Unit :=
  checkState .idle do
    let _ ← crypto (decryptData lib env keyIndex salt data)

/-- `loginReply`, if the device is accepted. -/
def loginReply (seed : Seed) (publicKey : PublicKey) : DeviceM SignKey PrivateKey Unit := do
  if (← get).state = some .idle then
    let _ ← crypto (encryptSecretKey lib env seed (← get).crypto.localCipher publicKey)
    sendSignedMessage

/-- The keys are deleted; if the device is connected, it is removed from the server first. -/
def resetAccount : DeviceM SignKey PrivateKey Unit := do
  let d ← get
  let devId := if d.deviceId = nullUuid then d.keyDeviceId else d.deviceId
  if devId = nullUuid then setState none
  else
    modify fun d => { d with keyDeviceId := nullUuid }
    crypto (deleteKeyMaterial env devId)
    if d.state ≠ some .idle then
      modify fun d => { d with deviceId := nullUuid, state := none }

/-- `onRemoveAck` for the own device. -/
def onRemoveAck (deviceId : Uuid) : DeviceM SignKey PrivateKey Unit :=
  checkState .idle do
    if (← get).deviceId = deviceId then modify fun d => { d with deviceId := nullUuid, state := none }

end Handlers

/-! ### The system -/

section System

variable {SignKey PrivateKey PublicKey Seed : Type}

/-- What happens to a device. -/
inductive Step (SignKey PrivateKey PublicKey Seed : Type) where
  | start
  | doConnect (enabled : Bool)
  | disconnected
  | onIdentify (random : Random SignKey PrivateKey Seed) (importing : Bool)
  | onAccount (seed : Seed) (deviceId : Uuid)
  | onGrant (seed : Seed) (deviceId : Uuid) (index : UInt32) (scheme secret : QByteArray)
  | onWelcome (seed : Seed) (sendCmac : Bool) (message : WelcomeMessage)
  | onDeviceKeys (random : Random SignKey PrivateKey Seed) (message : DeviceKeysMessage)
  | onNewKeyAck (keyIndex : UInt32)
  | uploadData (salt plain : QByteArray)
  | onChanged (keyIndex : UInt32) (salt data : QByteArray)
  | loginReply (seed : Seed) (publicKey : PublicKey)
  | resetAccount
  | onRemoveAck (deviceId : Uuid)

variable (lib : ClientCrypto SignKey PrivateKey PublicKey Seed) (env : Env)

/-- The process has ended; what is not in memory stays. -/
def Device.lost (d : Device SignKey PrivateKey) : Device SignKey PrivateKey :=
  { d with deviceId := nullUuid, state := none, crypto := { d.crypto.cleared with keyStore := none } }

def handle : Step SignKey PrivateKey PublicKey Seed → DeviceM SignKey PrivateKey Unit
  | .start => modify Device.lost
  | .doConnect enabled => doConnect lib env enabled
  | .disconnected => setState none
  | .onIdentify random importing => onIdentify lib env random importing
  | .onAccount seed deviceId => onAccount lib env seed deviceId
  | .onGrant seed deviceId index scheme secret => onGrant lib env seed deviceId index scheme secret
  | .onWelcome seed sendCmac message => onWelcome lib env seed sendCmac message
  | .onDeviceKeys random message => onDeviceKeys lib env random message
  | .onNewKeyAck keyIndex => onNewKeyAck lib env keyIndex
  | .uploadData salt plain => uploadData lib env salt plain
  | .onChanged keyIndex salt data => onChanged lib env keyIndex salt data
  | .loginReply seed publicKey => loginReply lib env seed publicKey
  | .resetAccount => resetAccount env
  | .onRemoveAck deviceId => onRemoveAck deviceId

/-- The handlers of messages catch what they throw; an exception of `resetAccount` ends the process. -/
def Step.IsReset : Step SignKey PrivateKey PublicKey Seed → Bool
  | .resetAccount => true
  | _ => false

/-- What is left when a handler has thrown. -/
def caught (fatal : Bool) (d : Device SignKey PrivateKey) : Device SignKey PrivateKey :=
  if fatal then d.lost else { d with state := none }

/-- A handler runs in an environment. -/
def next (d : Device SignKey PrivateKey) (a : Step SignKey PrivateKey PublicKey Seed × Env) :
    Device SignKey PrivateKey :=
  match exec (handle lib a.2 a.1) d with
  | (.ok _, t) => t
  | (.error e, t) => caught (a.1.IsReset || e = .nullPointer) t

/-- Nothing has been stored yet. -/
def Init (d : Device SignKey PrivateKey) : Prop :=
  d = ⟨nullUuid, none, nullUuid, ⟨none, none, fun _ => none, 0, ⟨none, none, none, none, none, fun _ => none⟩,
    fun _ => none, fun _ _ => none⟩⟩

def lts : LTS (Device SignKey PrivateKey) (Step SignKey PrivateKey PublicKey Seed × Env) :=
  LTS.ofStep Init fun d a => some (next lib d a)

end System

/-! ### What the handlers keep -/

section Handled

variable {SignKey PrivateKey PublicKey Seed α : Type} {lib : ClientCrypto SignKey PrivateKey PublicKey Seed} {env : Env}
  {c : CryptoController SignKey PrivateKey} {d t : Device SignKey PrivateKey}

theorem exec_crypto {α : Type} (m : CryptoM SignKey PrivateKey α) (d : Device SignKey PrivateKey) :
    exec (crypto m) d = ((exec m d.crypto).1, { d with crypto := (exec m d.crypto).2 }) := rfl

theorem runs_crypto {α : Type} {m : CryptoM SignKey PrivateKey α} {Q : α → Device SignKey PrivateKey → Prop}
    {E : Error → Device SignKey PrivateKey → Prop}
    (h : Runs m d.crypto (fun a t => Q a { d with crypto := t }) fun e t => E e { d with crypto := t }) :
    Runs (crypto m) d Q E := by
  unfold Runs at h ⊢
  rw [exec_crypto]
  generalize exec m d.crypto = r at h ⊢
  obtain ⟨e | a, t⟩ := r
  · exact h
  · exact h

/-- The ways through `loadIdentity`: the id is loaded, there is none, the keystore cannot be created, or the keys are
loaded. -/
theorem runs_loadIdentity {Q : Bool → Device SignKey PrivateKey → Prop} {E : Error → Device SignKey PrivateKey → Prop}
    {provider : String} (hp : d.keyDeviceId ≠ nullUuid → provider = d.crypto.settings.keystore.getD "")
    (hsame : d.keyDeviceId ≠ nullUuid → d.keyDeviceId = d.deviceId → Q true d)
    (hnull : d.keyDeviceId = nullUuid → ∀ b (keyStore : Option String),
      (d.crypto.keyStore ≠ some "" → keyStore ≠ some "") →
      Q b { d with deviceId := d.keyDeviceId, crypto := { d.crypto.cleared with keyStore := keyStore } })
    (hstore : d.keyDeviceId ≠ nullUuid → d.keyDeviceId ≠ d.deviceId → d.crypto.keyStore ≠ some provider →
      provider = "" ∨ env.fails .createInstance = true →
      Q false { d with deviceId := d.keyDeviceId, crypto := { d.crypto.cleared with keyStore := none } })
    (hload : d.keyDeviceId ≠ nullUuid → d.keyDeviceId ≠ d.deviceId →
      (d.crypto.keyStore ≠ some provider → provider ≠ "" ∧ env.fails .createInstance = false) →
      Runs (loadKeyMaterial lib env d.keyDeviceId) { d.crypto.cleared with keyStore := some provider }
        (fun _ c => Q true { d with deviceId := d.keyDeviceId, crypto := c })
        fun e c => Q false { d with deviceId := d.keyDeviceId, crypto := c } ∧ e ≠ .nullPointer ∧ e ≠ .cryptoPP) :
    Runs (loadIdentity lib env) d Q E := by
  have hcatch : ∀ (e : Error) (t : Device SignKey PrivateKey), e ≠ .nullPointer ∧ e ≠ .cryptoPP → Q false t →
      Runs (if e = .cryptoPP ∨ e = .nullPointer then throw e else return false : DeviceM SignKey PrivateKey Bool) t Q E := by
    rintro e t ⟨hnull, hcpp⟩ hQ
    exact runs_ite (fun he => absurd he (by simp [hnull, hcpp])) fun _ => runs_pure hQ
  refine runs_tryCatch (runs_bind (runs_get (runs_ite (fun hor => ?_) fun hor => ?_)))
  swap
  · rw [not_or, not_not] at hor
    exact runs_pure (hsame hor.2 hor.1)
  refine runs_bind (runs_modify (runs_bind (runs_crypto (runs_modify ?_))))
  by_cases hid : d.keyDeviceId = nullUuid
  · refine runs_bind (runs_crypto ((runs_acquireStore rfl).mono ?_ ?_))
    · rintro - t ⟨rfl, hacquired⟩
      refine runs_ite (fun _ => runs_pure (hnull hid _ _ fun hne hempty => ?_)) fun h => absurd hid h
      refine (hacquired fun hsame => hne (hsame.trans hempty)).1 (Option.some.inj hempty)
    · rintro e t ⟨rfl, -, -, he⟩
      exact hcatch e _ he (hnull hid _ _ fun _ => by simp)
  · have hne : d.keyDeviceId ≠ d.deviceId := fun heq => hor.elim (fun hne => hne heq) hid
    have hp' : provider = if decide (d.keyDeviceId ≠ nullUuid) then d.crypto.cleared.settings.keystore.getD "" else
        env.keyStoreProvider := (hp hid).trans (if_pos (decide_eq_true hid)).symm
    refine runs_bind (runs_crypto ((runs_acquireStore (c := d.crypto.cleared) hp').mono ?_ ?_))
    · rintro - t ⟨rfl, hacquired⟩
      refine runs_ite (fun h => absurd h hid) fun _ => runs_bind (runs_crypto ?_)
      exact (hload hid hne hacquired).mono (fun _ c hc => runs_pure hc) fun e c hc => hcatch e _ hc.2 hc.1
    · rintro e t ⟨rfl, hother, hfails, he⟩
      exact hcatch e _ he (hstore hid hne hother hfails)

/-- However `m` ends, it keeps `K`. -/
def Keeps (K : CryptoController SignKey PrivateKey → Prop) (m : CryptoM SignKey PrivateKey α) : Prop :=
  ∀ c, K c → Runs m c (fun _ t => K t) (fun _ t => K t)

/-- To load a key that is found keeps `K`. -/
def Stable (lib : ClientCrypto SignKey PrivateKey PublicKey Seed) (K : CryptoController SignKey PrivateKey → Prop) :
    Prop := ∀ c i info, K c → c.table lib i = some info → K (c.loads i info)

variable {K : CryptoController SignKey PrivateKey → Prop} {i : UInt32}

theorem keeps_asymCrypto : Keeps K asymCrypto := fun _ h => runs_asymCrypto (fun _ _ => h) fun _ => h

namespace Stable

variable (hK : Stable lib K)

include hK

theorem useInfo {message : String} {f : CipherInfo → Option α} : Keeps K (useInfo lib env message i f) := by
  intro c h
  refine runs_useInfo.mono ?_ ?_
  · rintro a t ⟨info, hinfo, -, rfl⟩
    exact hK c i info h hinfo
  · rintro e t ⟨rfl | ⟨info, hinfo, rfl⟩, -⟩
    · exact h
    · exact hK c i info h hinfo

theorem generateEncryptionKeyCmac : Keeps K (generateEncryptionKeyCmac lib env i) :=
  fun c h => runs_bind (runs_asymCrypto (fun _ _ => hK.useInfo c h) fun _ => h)

theorem encryptData {salt plain : QByteArray} : Keeps K (encryptData lib env salt plain) :=
  fun c h => runs_bind (runs_get (hK.useInfo c h))

/-- The entry of another device; what is thrown is caught. -/
theorem keyUpdate {seed : Seed} {scheme : CipherScheme} {info : Uuid × QByteArray × QByteArray × QByteArray} :
    Keeps K (keyUpdate lib env seed i scheme info) := by
  intro c h
  have hhandle : ∀ (e : Error) (t : CryptoController SignKey PrivateKey), K t →
      Runs (if e = .nullPointer then throw e else return : CryptoM SignKey PrivateKey Unit) t
        (fun _ t => K t) fun _ t => K t :=
    fun e t ht => runs_ite (fun _ => runs_throw ht) fun _ => runs_pure ht
  refine runs_tryCatch (Runs.mono (Q := fun _ t => K t) (E := fun _ t => K t) ?_ (fun _ _ ht => ht) hhandle)
  refine runs_bind (runs_get (runs_bind (runs_orThrow (fun cryptScheme _ => ?_) fun _ => h)))
  refine runs_bind (runs_orThrow (fun publicKey _ => ?_) fun _ => h)
  refine runs_bind ((hK.useInfo c h).mono (fun _ t ht => ?_) fun _ _ ht => ht)
  refine runs_bind ((hK.useInfo t ht).mono (fun _ u hu => ?_) fun _ _ hu => hu)
  exact runs_bind ((hK.useInfo u hu).mono (fun _ _ hv => runs_pure hv) fun _ _ hv => hv)

end Stable

/-- The connection of `d` is in the state `Idle`, with `K`. -/
structure Idle (K : CryptoController SignKey PrivateKey → Prop) (d t : Device SignKey PrivateKey) : Prop where
  crypto : K t.crypto
  state : t.state = some .idle
  deviceId : t.deviceId = d.deviceId
  keyDeviceId : t.keyDeviceId = d.keyDeviceId

/-- A call of the controller in the state `Idle`. -/
theorem Idle.call {m : CryptoM SignKey PrivateKey α} {Q : α → Device SignKey PrivateKey → Prop} (h : Idle K d t)
    (hm : Runs m t.crypto (fun _ t => K t) fun _ t => K t) (hQ : ∀ a u, Idle K d u → Q a u) :
    Runs (KeyMaterial.crypto m) t Q fun _ u => Idle K d u := by
  obtain ⟨-, hs, hid, hkid⟩ := h
  exact runs_crypto (hm.mono (fun a _ hu => hQ a _ ⟨hu, hs, hid, hkid⟩) fun _ _ hu => ⟨hu, hs, hid, hkid⟩)

theorem Idle.sendKeyUpdate {Q : Unit → Device SignKey PrivateKey → Prop} (h : Idle K d t) (hK : Stable lib K)
    (hQ : ∀ u, Idle K d u → Q () u) : Runs (sendKeyUpdate lib env) t Q fun _ u => Idle K d u :=
  runs_bind (runs_get (runs_bind (h.call (hK.generateEncryptionKeyCmac _ h.crypto) fun _ u hu => runs_pure (hQ u hu))))

theorem Idle.keyUpdates {Q : Unit → Device SignKey PrivateKey → Prop} {seed : Seed} {scheme : CipherScheme}
    (devices : List (Uuid × QByteArray × QByteArray × QByteArray)) (hK : Stable lib K) (h : Idle K d t)
    (hQ : ∀ u, Idle K d u → Q () u) :
    Runs (devices.forM fun info => KeyMaterial.crypto (keyUpdate lib env seed i scheme info)) t Q
      fun _ u => Idle K d u := by
  induction devices generalizing t with
  | nil => exact runs_pure (hQ t h)
  | cons info devices ih => exact runs_bind (h.call (hK.keyUpdate _ h.crypto) fun _ u hu => ih hu)

/-- The handlers that neither load nor create nor delete the private keys. -/
def Step.KeepsKeys : Step SignKey PrivateKey PublicKey Seed → Prop
  | .disconnected | .onWelcome .. | .onDeviceKeys .. | .onNewKeyAck _ | .uploadData .. | .onChanged .. | .loginReply .. =>
    True
  | _ => False

/-- What the handlers of a device that is connected rely on: the calls that change the active key keep `K`. -/
structure Calls (lib : ClientCrypto SignKey PrivateKey PublicKey Seed) (env : Env)
    (K : CryptoController SignKey PrivateKey → Prop) (c : CryptoController SignKey PrivateKey)
    (a : Step SignKey PrivateKey PublicKey Seed) : Prop where
  stable : Stable lib K
  decryptSecretKey : ∀ seed sendCmac (message : WelcomeMessage), a = .onWelcome seed sendCmac message →
    ∀ t, K t → t.asymCrypto = c.asymCrypto →
      Runs (decryptSecretKey lib env seed message.keyIndex message.scheme message.key false) t (fun _ t => K t)
        fun _ t => K t
  generateNextKey : ∀ random message, a = .onDeviceKeys random message → K c →
    Runs (generateNextKey lib env random) c (fun _ t => K t) fun _ t => K t
  activateNextKey : ∀ i, Keeps K (activateNextKey lib env i)

/-- **The handlers of a device that is connected**: nothing happens, or the connection ends, or the calls have kept what
they keep. -/
theorem runs_handle {a : Step SignKey PrivateKey PublicKey Seed} (ha : a.KeepsKeys) (hK : Calls lib env K d.crypto a)
    (hd : d.state = some .idle ∨ d.state = some .loggingIn → K d.crypto) :
    Runs (handle lib env a) d
      (fun _ t => (t = d ∨ t = { d with state := none }) ∨
        (d.state = some .idle ∨ d.state = some .loggingIn) ∧ Idle K d t)
      fun _ t => (d.state = some .idle ∨ d.state = some .loggingIn) ∧ Idle K d t := by
  have hidle : d.state = some .idle → Idle K d d := fun hs => ⟨hd (Or.inl hs), hs, rfl, rfl⟩
  have hthen : ∀ {m : DeviceM SignKey PrivateKey Unit}, (d.state = some .idle ∨ d.state = some .loggingIn) →
      Runs m d (fun _ t => Idle K d t) (fun _ t => Idle K d t) →
      Runs m d (fun _ t => (t = d ∨ t = { d with state := none }) ∨
          (d.state = some .idle ∨ d.state = some .loggingIn) ∧ Idle K d t)
        fun _ t => (d.state = some .idle ∨ d.state = some .loggingIn) ∧ Idle K d t :=
    fun hs hm => hm.mono (fun _ _ ht => Or.inr ⟨hs, ht⟩) fun _ _ ht => ⟨hs, ht⟩
  have hcheck : ∀ {state : ConnectorState} {m : DeviceM SignKey PrivateKey Unit},
      (state = .idle ∨ state = .loggingIn) →
      (d.state = some state → Runs m d (fun _ t => Idle K d t) fun _ t => Idle K d t) →
      Runs (checkState state m) d
        (fun _ t => (t = d ∨ t = { d with state := none }) ∨
          (d.state = some .idle ∨ d.state = some .loggingIn) ∧ Idle K d t)
        fun _ t => (d.state = some .idle ∨ d.state = some .loggingIn) ∧ Idle K d t := by
    intro state m hstate hm
    refine runs_bind (runs_get (runs_ite (fun hs => hthen ?_ (hm hs)) fun _ => runs_modify (Or.inl (Or.inr rfl))))
    rcases hstate with rfl | rfl
    · exact Or.inl hs
    · exact Or.inr hs
  cases a with
  | disconnected => exact runs_modify (Or.inl (Or.inr rfl))
  | onWelcome seed sendCmac message =>
    refine hcheck (Or.inr rfl) fun hs => runs_bind (runs_modify ?_)
    have h : Idle K d { d with state := some .idle } := ⟨hd (Or.inr hs), rfl, rfl, rfl⟩
    refine runs_ite (fun _ => runs_bind (runs_get ?_)) fun _ => runs_ite
      (fun _ => h.sendKeyUpdate hK.stable fun _ ht => ht) fun _ => runs_pure h
    -- the check of the MAC changes no private keys
    have hsame : Stable lib fun t => K t ∧ t.asymCrypto = d.crypto.asymCrypto :=
      fun t i info ht hinfo => ⟨hK.stable t i info ht.1 hinfo, ht.2⟩
    refine runs_bind (runs_crypto ((hsame.useInfo d.crypto ⟨hd (Or.inr hs), rfl⟩).mono (fun _ t ht => ?_) fun _ t ht =>
      ⟨ht.1, rfl, rfl, rfl⟩))
    have h' : Idle K d { d with state := some .idle, crypto := t } := ⟨ht.1, rfl, rfl, rfl⟩
    exact runs_bind (h'.call (hK.decryptSecretKey seed sendCmac message rfl t ht.1 ht.2) fun _ u hu =>
      hu.sendKeyUpdate hK.stable fun _ hv => hv)
  | onDeviceKeys random message =>
    refine hcheck (Or.inl rfl) fun hs => runs_ite (fun _ => ?_) fun _ => ?_
    · exact (hidle hs).call (hK.activateNextKey _ _ (hd (Or.inl hs))) fun _ _ ht => ht
    refine runs_bind ((hidle hs).call (hK.generateNextKey random message rfl (hd (Or.inl hs))) fun r t ht => ?_)
    refine runs_bind (ht.call (hK.stable.generateEncryptionKeyCmac _ ht.crypto) fun _ u hu => ?_)
    refine runs_bind (hu.keyUpdates message.devices hK.stable fun v hv => ?_)
    exact runs_bind (hv.call (keeps_asymCrypto _ hv.crypto) fun _ _ hw => runs_pure hw)
  | onNewKeyAck keyIndex =>
    exact hcheck (Or.inl rfl) fun hs => (hidle hs).call (hK.activateNextKey _ _ (hd (Or.inl hs))) fun _ _ ht => ht
  | uploadData salt plain =>
    refine runs_bind (runs_get (runs_ite (fun hs => hthen (Or.inl hs) ?_) fun _ => runs_pure (Or.inl (Or.inl rfl))))
    exact runs_bind ((hidle hs).call (hK.stable.encryptData _ (hd (Or.inl hs))) fun _ _ ht => runs_pure ht)
  | onChanged keyIndex salt data =>
    exact hcheck (Or.inl rfl) fun hs =>
      runs_bind ((hidle hs).call (hK.stable.useInfo _ (hd (Or.inl hs))) fun _ _ ht => runs_pure ht)
  | loginReply seed publicKey =>
    refine runs_bind (runs_get (runs_ite (fun hs => hthen (Or.inl hs) ?_) fun _ => runs_pure (Or.inl (Or.inl rfl))))
    refine runs_bind (runs_get (runs_bind ((hidle hs).call (hK.stable.useInfo _ (hd (Or.inl hs))) fun _ t ht => ?_)))
    exact runs_bind (ht.call (keeps_asymCrypto _ ht.crypto) fun _ _ hu => runs_pure hu)
  | _ => exact ha.elim

end Handled

end QtDataSync.KeyMaterial
