import QtDataSync.Keys.KeyUpdates

/-!
# Keys.Binding — key updates are bound by their MACs

What a device has computed a CMAC of is either its own public key, or a key update in `onDeviceKeys` under its current
key.  A key update that is accepted under a key which the server does not know is one of the latter, with the same index,
scheme, device and encrypted key.  The server knows the key that it has sent in a `GrantMessage` (`not_welcome_bound`).
-/

namespace QtDataSync.KeyUpdates

open QDataStream

variable {ι PrivateKey PublicKey Seed : Type} {lib : CryptoPP PrivateKey PublicKey Seed}

/-- A MAC of a public key. -/
def Mac.IsCryptKey (m : Mac ι) : Prop := ∃ scheme key, m.purpose = .cryptKey scheme key

/-- A MAC that the device has computed with its current key, of an encrypted key. -/
structure Mac.IsKeyUpdate (lib : CryptoPP PrivateKey PublicKey Seed) (c : CryptoController PrivateKey) (holder : ι)
    (m : Mac ι) : Prop where
  not_other : ∀ data, m.purpose ≠ .other data
  holder_eq : m.holder = some holder
  current : c.getInfo c.localCipher = some m.info
  encrypted : ∀ keyIndex scheme deviceId key, m.purpose = .keyUpdate keyIndex scheme deviceId key →
    ∃ publicKey seed plain, lib.encrypt publicKey seed plain = some key

/-- A MAC that the server has computed with a key that it knows. -/
structure Mac.IsForged (s : System ι PrivateKey) (m : Mac ι) : Prop where
  purpose_eq : ∃ data, m.purpose = .other data
  known : m.info ∈ s.known

/-! ### What the handlers compute -/

section

variable {c : CryptoController PrivateKey} {r : RemoteConnector PrivateKey} {holder : ι} {macs : List (Mac ι)}
  {keyIndex : UInt32}

theorem CryptoController.createCmac_eq_some {purpose : Purpose} {x : QByteArray × List (Mac ι)}
    (h : c.createCmac lib holder macs keyIndex purpose = some x) :
    ∃ info, c.getInfo keyIndex = some info ∧ x.2 = macs ++ [⟨some holder, info, purpose⟩] := by
  obtain ⟨info, hinfo, rfl⟩ := Option.map_eq_some_iff.mp h
  exact ⟨info, hinfo, rfl⟩

theorem CryptoController.macs_generateEncryptionKeyCmac {x : QByteArray × List (Mac ι)}
    (h : c.generateEncryptionKeyCmac lib holder macs keyIndex = some x) {m : Mac ι} (hm : m ∈ x.2) :
    m ∈ macs ∨ m.IsCryptKey := by
  obtain ⟨info, -, hx⟩ := CryptoController.createCmac_eq_some h
  rw [hx, List.mem_append, List.mem_singleton] at hm
  exact hm.imp_right fun hm => by rw [hm]; exact ⟨_, _, rfl⟩

theorem RemoteConnector.macs_sendKeyUpdate {x : RemoteConnector PrivateKey × List (Mac ι) × List Sent}
    (h : r.sendKeyUpdate lib holder macs = some x) {m : Mac ι} (hm : m ∈ x.2.1) : m ∈ macs ∨ m.IsCryptKey := by
  obtain ⟨y, hy, rfl⟩ := Option.map_eq_some_iff.mp h
  exact CryptoController.macs_generateEncryptionKeyCmac hy hm

theorem CryptoController.macs_keyUpdate {scheme : CipherScheme} {seed : Seed}
    {info : Uuid × QByteArray × QByteArray × QByteArray} {x : (Uuid × QByteArray × QByteArray) × List (Mac ι)}
    (h : c.keyUpdate lib holder keyIndex scheme seed info macs = some x) {m : Mac ι} (hm : m ∈ x.2) :
    m ∈ macs ∨ m.IsKeyUpdate lib c holder := by
  simp only [keyUpdate, Option.bind_eq_bind, Option.bind_eq_some_iff] at h
  obtain ⟨cryptScheme, -, publicKey, -, h⟩ := h
  split_ifs at h
  simp only [Option.bind_eq_some_iff] at h
  obtain ⟨secret, hsecret, y, hy, h⟩ := h
  obtain ⟨current, hcurrent, hmacs⟩ := CryptoController.createCmac_eq_some hy
  obtain ⟨plain, -, hencrypt⟩ := Option.bind_eq_some_iff.mp hsecret
  cases h
  rw [hmacs, List.mem_append, List.mem_singleton] at hm
  rcases hm with hm | rfl
  · exact Or.inl hm
  · refine Or.inr ⟨nofun, rfl, hcurrent, fun _ _ _ key hkey => ?_⟩
    cases hkey
    exact ⟨publicKey, seed, plain.key, hencrypt⟩

theorem CryptoController.macs_keyUpdates {scheme : CipherScheme} {seed : ℕ → Seed}
    {devices : List (Uuid × QByteArray × QByteArray × QByteArray)} {m : Mac ι}
    (hm : m ∈ (c.keyUpdates lib holder keyIndex scheme seed devices macs).2) :
    m ∈ macs ∨ m.IsKeyUpdate lib c holder := by
  induction devices generalizing macs with
  | nil => exact Or.inl hm
  | cons info devices ih =>
    rw [keyUpdates] at hm
    split at hm
    · exact ih hm
    · rename_i hkey
      exact (ih hm).elim (fun hm => CryptoController.macs_keyUpdate hkey hm) Or.inr

/-- The next key is not the current one. -/
theorem CryptoController.current_generateNextKey {choice : Choice PrivateKey Seed}
    {x : CryptoController PrivateKey × UInt32 × CipherScheme} (h : c.generateNextKey choice = some x) :
    x.1.localCipher = c.localCipher ∧ x.1.getInfo c.localCipher = c.getInfo c.localCipher := by
  rw [generateNextKey] at h
  split_ifs at h with hnext
  · obtain ⟨info, -, rfl⟩ := Option.map_eq_some_iff.mp h
    exact ⟨rfl, rfl⟩
  · cases h
    have hne : c.localCipher ≠ c.localCipher + 1 := by
      intro heq
      have := congrArg UInt32.toNat heq
      rw [UInt32.toNat_add] at this
      have hlt := c.localCipher.toNat_lt
      simp at this
      omega
    exact ⟨rfl, Function.update_of_ne hne _ _⟩

theorem RemoteConnector.macs_onDeviceKeys {choice : Choice PrivateKey Seed} {message : DeviceKeysMessage}
    {x : RemoteConnector PrivateKey × List (Mac ι) × List Sent}
    (h : r.onDeviceKeys lib holder macs choice message = some x) {m : Mac ι} (hm : m ∈ x.2.1) :
    m ∈ macs ∨ m.IsCryptKey ∨ m.IsKeyUpdate lib r.crypto holder := by
  rw [onDeviceKeys] at h
  split_ifs at h
  · obtain ⟨crypto, -, rfl⟩ := Option.map_eq_some_iff.mp h
    exact Or.inl hm
  · obtain ⟨⟨crypto, keyIndex, scheme⟩, hnext, h⟩ := Option.bind_eq_some_iff.mp h
    obtain ⟨y, hy, rfl⟩ := Option.map_eq_some_iff.mp h
    obtain ⟨hlocal, hinfo⟩ := CryptoController.current_generateNextKey hnext
    rcases CryptoController.macs_keyUpdates hm with hm | ⟨hother, hholder, hcurrent, hencrypted⟩
    · exact (CryptoController.macs_generateEncryptionKeyCmac hy hm).imp_right Or.inl
    · refine Or.inr (Or.inr ⟨hother, hholder, ?_, hencrypted⟩)
      rw [← hinfo, ← hcurrent]
      exact congrArg crypto.getInfo hlocal.symm

theorem RemoteConnector.macs_onWelcome {message : WelcomeMessage}
    {x : RemoteConnector PrivateKey × List (Mac ι) × List Sent}
    (h : r.onWelcome lib holder macs message = some x) {m : Mac ι} (hm : m ∈ x.2.1) : m ∈ macs ∨ m.IsCryptKey := by
  simp only [onWelcome] at h
  split_ifs at h
  · obtain ⟨crypto, -, h⟩ := Option.bind_eq_some_iff.mp h
    exact RemoteConnector.macs_sendKeyUpdate h hm
  · exact RemoteConnector.macs_sendKeyUpdate h hm
  · cases h
    exact Or.inl hm

theorem RemoteConnector.macs_onGrant {message : GrantMessage}
    {x : RemoteConnector PrivateKey × List (Mac ι) × List Sent}
    (h : r.onGrant lib holder macs message = some x) {m : Mac ι} (hm : m ∈ x.2.1) : m ∈ macs ∨ m.IsCryptKey := by
  rw [onGrant] at h
  split_ifs at h
  obtain ⟨crypto, -, h⟩ := Option.bind_eq_some_iff.mp h
  exact RemoteConnector.macs_sendKeyUpdate h hm

theorem RemoteConnector.macs_onIdentify {choice : Choice PrivateKey Seed} {importing : Bool}
    {x : RemoteConnector PrivateKey × List (Mac ι) × List Sent}
    (h : r.onIdentify lib holder macs choice importing = some x) {m : Mac ι} (hm : m ∈ x.2.1) :
    m ∈ macs ∨ m.IsCryptKey := by
  rw [onIdentify] at h
  split_ifs at h
  · cases h
    exact Or.inl hm
  · cases h
    exact Or.inl hm
  · obtain ⟨y, hy, rfl⟩ := Option.map_eq_some_iff.mp h
    exact CryptoController.macs_generateEncryptionKeyCmac hy hm

end

/-! ### What the system computes -/

section

variable [DecidableEq ι] {s : System ι PrivateKey}

/-- A step computes a MAC of a public key, in `onDeviceKeys` one of a key update, or one for the server. -/
def Computes (lib : CryptoPP PrivateKey PublicKey Seed) (s : System ι PrivateKey) (a : Step ι PrivateKey Seed)
    (m : Mac ι) : Prop :=
  m.IsCryptKey ∨ (∃ d choice message, a = .deviceKeys d choice message ∧ m.IsKeyUpdate lib (s.devices d).crypto d) ∨
    m.IsForged s

theorem macs_handled {d : ι} {x : Result ι PrivateKey} {m : Mac ι} (hm : m ∈ (s.handled d x).macs) :
    m ∈ s.macs ∨ ∃ y, x = some y ∧ m ∈ y.2.1 := by
  rcases x with - | y
  · exact Or.inl hm
  · exact Or.inr ⟨y, rfl, hm⟩

/-- **One step**. -/
theorem macs_next {a : Step ι PrivateKey Seed} {m : Mac ι} (hm : m ∈ (s.next lib a).macs) :
    m ∈ s.macs ∨ Computes lib s a m := by
  have hhandled : ∀ {d : ι} {x : Result ι PrivateKey}, (∀ y, x = some y → m ∈ y.2.1 → m ∈ s.macs ∨ Computes lib s a m) →
      m ∈ (s.handled d x).macs → m ∈ s.macs ∨ Computes lib s a m := by
    intro d x hx hm
    rcases macs_handled hm with hm | ⟨y, hy, hm⟩
    · exact Or.inl hm
    · exact hx y hy hm
  cases a with
  | connect d => exact Or.inl hm
  | disconnect d => exact Or.inl hm
  | reset d => exact Or.inl hm
  | identify d choice importing =>
    exact hhandled (fun y hy hm => (RemoteConnector.macs_onIdentify hy hm).imp_right Or.inl) hm
  | welcome d message => exact hhandled (fun y hy hm => (RemoteConnector.macs_onWelcome hy hm).imp_right Or.inl) hm
  | grant d message => exact hhandled (fun y hy hm => (RemoteConnector.macs_onGrant hy hm).imp_right Or.inl) hm
  | deviceKeys d choice message =>
    refine hhandled (fun y hy hm => ?_) hm
    rcases RemoteConnector.macs_onDeviceKeys hy hm with hm | hm | hm
    · exact Or.inl hm
    · exact Or.inr (Or.inl hm)
    · exact Or.inr (Or.inr (Or.inl ⟨d, choice, message, rfl, hm⟩))
  | account d deviceId =>
    refine hhandled (fun y hy hm => Or.inl ?_) hm
    rw [RemoteConnector.onAccount] at hy
    split_ifs at hy
    cases hy
    exact hm
  | newKeyAck d keyIndex =>
    refine hhandled (fun y hy hm => Or.inl ?_) hm
    rw [RemoteConnector.onNewKeyAck] at hy
    split_ifs at hy
    obtain ⟨crypto, -, rfl⟩ := Option.map_eq_some_iff.mp hy
    exact hm
  | macUpdateAck d =>
    refine hhandled (fun y hy hm => Or.inl ?_) hm
    rw [RemoteConnector.onMacUpdateAck] at hy
    split_ifs at hy
    cases hy
    exact hm
  | learn info => exact Or.inl hm
  | createCmac info data =>
    rw [System.next] at hm
    split_ifs at hm with hknown
    · rcases List.mem_append.mp hm with hm | hm
      · exact Or.inl hm
      · rw [List.mem_singleton] at hm
        subst hm
        exact Or.inr (Or.inr (Or.inr ⟨⟨data, rfl⟩, hknown⟩))
    · exact Or.inl hm

theorem known_handled {d : ι} {x : Result ι PrivateKey} : (s.handled d x).known = s.known := by
  rcases x with - | y
  · rfl
  · rfl

/-- The server forgets no key. -/
theorem known_next {a : Step ι PrivateKey Seed} {info : CipherInfo} (h : info ∈ s.known) :
    info ∈ (s.next lib a).known := by
  cases a with
  | learn info' => exact List.mem_cons_of_mem _ h
  | createCmac info' data =>
    rw [System.next]
    split_ifs
    · exact h
    · exact h
  | connect d => exact h
  | disconnect d => exact h
  | reset d => exact h
  | _ =>
    rw [System.next, known_handled]
    exact h

end

/-! ### What is accepted -/

/-- An accepted CMAC has been computed by some device, of data that are the same with it. -/
theorem exists_of_verifyCmac {c : CryptoController PrivateKey} {macs : List (Mac ι)} {keyIndex : UInt32}
    {data mac : QByteArray} (h : c.verifyCmac lib macs keyIndex data mac = true) :
    ∃ m ∈ macs, c.getInfo keyIndex = some m.info ∧ data ++ mac = m.purpose.data ++ lib.cmac m.info m.purpose.data := by
  rw [CryptoController.verifyCmac] at h
  rcases hinfo : c.getInfo keyIndex with - | info
  · rw [hinfo] at h
    cases h
  · rw [hinfo, Option.any_some] at h
    obtain ⟨x, hx, hdata⟩ := Tags.accepts_iff.mp h
    obtain ⟨m, hm, rfl⟩ := List.mem_map.mp hx
    obtain ⟨hmem, hminfo⟩ := List.mem_filter.mp hm
    obtain rfl := of_decide_eq_true hminfo
    exact ⟨m, hmem, rfl, hdata⟩

theorem isSome_of_decryptSecretKey {c c' : CryptoController PrivateKey} {keyIndex : UInt32} {scheme data : QByteArray}
    {grantInit : Bool} (h : c.decryptSecretKey lib keyIndex scheme data grantInit = some c') :
    (lib.decrypt c.cryptKey data).isSome ∧ ∃ s, CipherScheme.createScheme scheme = some s := by
  simp only [CryptoController.decryptSecretKey, Option.bind_eq_bind, Option.bind_eq_some_iff] at h
  obtain ⟨key, hkey, s, hs, -⟩ := h
  exact ⟨by rw [hkey]; rfl, s, hs⟩

/-- `onWelcome` verifies a key update with the current key, and decrypts it. -/
theorem accepted_of_onWelcome {r : RemoteConnector PrivateKey} {holder : ι} {macs : List (Mac ι)}
    {message : WelcomeMessage} {x : RemoteConnector PrivateKey × List (Mac ι) × List Sent}
    (h : r.onWelcome lib holder macs message = some x) (hkey : message.hasKeyUpdate = true) :
    r.crypto.verifyCmac lib macs r.crypto.localCipher (message.signatureData r.deviceId) message.cmac = true ∧
      (lib.decrypt r.crypto.cryptKey message.key).isSome ∧ ∃ s, CipherScheme.createScheme message.scheme = some s := by
  simp only [RemoteConnector.onWelcome, hkey, if_true] at h
  split_ifs at h with hstate hverify
  obtain ⟨crypto, hcrypto, -⟩ := Option.bind_eq_some_iff.mp h
  exact ⟨hverify, isSome_of_decryptSecretKey hcrypto⟩

theorem crypto_onWelcome {r : RemoteConnector PrivateKey} {holder : ι} {macs : List (Mac ι)}
    {message : WelcomeMessage} {x : RemoteConnector PrivateKey × List (Mac ι) × List Sent}
    (h : r.onWelcome lib holder macs message = some x) (hkey : message.hasKeyUpdate = false) :
    x.1.crypto = r.crypto := by
  simp only [RemoteConnector.onWelcome, hkey, Bool.false_eq_true, if_false] at h
  split_ifs at h
  · obtain ⟨y, -, rfl⟩ := Option.map_eq_some_iff.mp h
    rfl
  · cases h
    rfl

/-- **What a MAC binds**: of all MACs under the current key that devices have computed, only one of the same key update is
accepted for it. -/
theorem eq_of_accepted (hlib : lib.Integrity) {c : CryptoController PrivateKey} {macs : List (Mac ι)}
    (hforged : ∀ m ∈ macs, c.getInfo c.localCipher = some m.info → ∀ data, m.purpose ≠ .other data)
    (hencrypted : ∀ m ∈ macs, ∀ keyIndex scheme deviceId key, m.purpose = .keyUpdate keyIndex scheme deviceId key →
      ∃ publicKey seed plain, lib.encrypt publicKey seed plain = some key)
    {message : WelcomeMessage} {deviceId : Uuid} {s : CipherScheme}
    (hverify : c.verifyCmac lib macs c.localCipher (message.signatureData deviceId) message.cmac = true)
    (hdecrypt : (lib.decrypt c.cryptKey message.key).isSome) (hscheme : s.name = message.scheme) :
    ∃ m ∈ macs, c.getInfo c.localCipher = some m.info ∧ m.purpose = .keyUpdate message.keyIndex s deviceId message.key ∧
      message.cmac = lib.cmac m.info (message.signatureData deviceId) := by
  obtain ⟨⟨holder, info, purpose⟩, hm, hinfo, hdata⟩ := exists_of_verifyCmac hverify
  rw [WelcomeMessage.signatureData, ← hscheme] at hdata ⊢
  cases purpose with
  | other data => exact absurd rfl (hforged _ hm hinfo data)
  | cryptKey scheme key => exact absurd hdata cryptKeyData_append_ne
  | keyUpdate keyIndex scheme deviceId' key =>
    obtain ⟨rfl, rfl, rfl, hborder⟩ := signatureData_append_inj hdata
    obtain ⟨publicKey, seed, plain, hencrypt⟩ := hencrypted _ hm _ _ _ _ rfl
    have hcomparable : key <+: message.key ∨ message.key <+: key :=
      List.prefix_or_prefix_of_prefix (List.prefix_append key _) (hborder ▸ List.prefix_append message.key message.cmac)
    have hkey := hlib _ _ _ _ hencrypt _ _ hdecrypt hcomparable
    rw [hkey] at hborder ⊢
    exact ⟨_, hm, hinfo, rfl, List.append_cancel_left hborder⟩

/-! ### Runs -/

section

variable [DecidableEq ι] {s₀ s : System ι PrivateKey}
  {tr : List (System ι PrivateKey × Step ι PrivateKey Seed × System ι PrivateKey)}

/-- In the run the MAC of the key update has been computed: in `onDeviceKeys`, by a device that had the key of `info` as
its current exchange key. -/
def ComputedIn (lib : CryptoPP PrivateKey PublicKey Seed)
    (tr : List (System ι PrivateKey × Step ι PrivateKey Seed × System ι PrivateKey)) (info : CipherInfo)
    (keyIndex : UInt32) (scheme : CipherScheme) (deviceId : Uuid) (key : QByteArray) : Prop :=
  ∃ x ∈ tr, ∃ holder choice message, x.2.1 = .deviceKeys holder choice message ∧ x.2.2 = x.1.next lib x.2.1 ∧
    (x.1.devices holder).crypto.getInfo (x.1.devices holder).crypto.localCipher = some info ∧
    ⟨some holder, info, .keyUpdate keyIndex scheme deviceId key⟩ ∉ x.1.macs ∧
    ⟨some holder, info, .keyUpdate keyIndex scheme deviceId key⟩ ∈ x.2.2.macs

/-- An accepted key update is one that a device has made, with the MAC of it; without one no key is imported. -/
def Bound (lib : CryptoPP PrivateKey PublicKey Seed)
    (tr : List (System ι PrivateKey × Step ι PrivateKey Seed × System ι PrivateKey)) (r : RemoteConnector PrivateKey)
    (message : WelcomeMessage) (r' : RemoteConnector PrivateKey) : Prop :=
  if message.hasKeyUpdate then
    ∃ info scheme, r.crypto.getInfo r.crypto.localCipher = some info ∧ scheme.name = message.scheme ∧
      ComputedIn lib tr info message.keyIndex scheme r.deviceId message.key ∧
      message.cmac = lib.cmac info (message.signatureData r.deviceId)
  else r'.crypto = r.crypto

/-- The step of a run that has computed a MAC. -/
theorem computes_of_run (h0 : s₀.macs = []) (hr : LTS.Run (lts lib) LTS.free s₀ tr s) {m : Mac ι} (hm : m ∈ s.macs) :
    ∃ x ∈ tr, m ∉ x.1.macs ∧ m ∈ x.2.2.macs ∧ x.2.2 = x.1.next lib x.2.1 ∧ Computes lib x.1 x.2.1 m := by
  have hnone : m ∉ s₀.macs := by
    rw [h0]
    exact List.not_mem_nil
  obtain ⟨x, hx, hbefore, hafter, hstep⟩ := hr.exists_step (P := fun s => m ∈ s.macs) hnone hm
  have hnext : x.2.2 = x.1.next lib x.2.1 := (Option.some.inj hstep).symm
  rw [hnext] at hafter
  exact ⟨x, hx, hbefore, hnext ▸ hafter, hnext, (macs_next hafter).resolve_left hbefore⟩

/-- What the server has computed is under keys that it knows. -/
theorem known_of_run (h0 : s₀.macs = []) (hr : LTS.Run (lts lib) LTS.free s₀ tr s) {m : Mac ι} (hm : m ∈ s.macs)
    {data : QByteArray} (hpurpose : m.purpose = .other data) : m.info ∈ s.known := by
  refine hr.invariant (I := fun s => ∀ m ∈ s.macs, ∀ data, m.purpose = .other data → m.info ∈ s.known) ?_ ?_ m hm data
    hpurpose
  · rintro s a t hI - hstep m hm data hpurpose
    obtain rfl : s.next lib a = t := Option.some.inj hstep
    rcases macs_next hm with hm | ⟨_, _, hcrypt⟩ | ⟨d, choice, message, ha, hupdate⟩ | hforged
    · exact known_next (hI m hm data hpurpose)
    · rw [hpurpose] at hcrypt
      cases hcrypt
    · exact absurd hpurpose (hupdate.not_other data)
    · exact known_next hforged.known
  · rw [h0]
    exact nofun

/-- **Key updates are bound by their MACs**, in every run and for any message, if the server does not know the current key
of the device. -/
theorem welcome_bound (hlib : lib.Integrity) (h0 : (lts lib).init s₀) (hr : LTS.Run (lts lib) LTS.free s₀ tr s) (d : ι)
    (hsecret : ∀ info, (s.devices d).crypto.getInfo (s.devices d).crypto.localCipher = some info → info ∉ s.known)
    {message : WelcomeMessage} {x : RemoteConnector PrivateKey × List (Mac ι) × List Sent}
    (haccepts : (s.devices d).onWelcome lib d s.macs message = some x) :
    Bound lib tr (s.devices d) message x.1 := by
  unfold Bound
  split_ifs with hkey
  · obtain ⟨hverify, hdecrypt, scheme, hcreate⟩ := accepted_of_onWelcome haccepts hkey
    have hforged : ∀ m ∈ s.macs, (s.devices d).crypto.getInfo (s.devices d).crypto.localCipher = some m.info →
        ∀ data, m.purpose ≠ .other data :=
      fun m hm hinfo data hpurpose => hsecret m.info hinfo (known_of_run h0 hr hm hpurpose)
    have hencrypted : ∀ m ∈ s.macs, ∀ keyIndex scheme deviceId key,
        m.purpose = .keyUpdate keyIndex scheme deviceId key →
          ∃ publicKey seed plain, lib.encrypt publicKey seed plain = some key := by
      intro m hm keyIndex scheme deviceId key hpurpose
      obtain ⟨y, -, -, -, -, hcomputes⟩ := computes_of_run h0 hr hm
      rcases hcomputes with ⟨_, _, hcrypt⟩ | ⟨_, choice, request, -, hupdate⟩ | ⟨⟨data, hother⟩, -⟩
      · rw [hpurpose] at hcrypt
        cases hcrypt
      · exact hupdate.encrypted _ _ _ _ hpurpose
      · rw [hpurpose] at hother
        cases hother
    have hname := CipherScheme.createScheme_name hcreate
    obtain ⟨⟨holder, info, purpose⟩, hm, hinfo, rfl, hcmac⟩ :=
      eq_of_accepted hlib hforged hencrypted hverify hdecrypt hname
    obtain ⟨y, hy, hbefore, hafter, hnext, hcomputes⟩ := computes_of_run h0 hr hm
    refine ⟨info, scheme, hinfo, hname, ⟨y, hy, ?_⟩, hcmac⟩
    rcases hcomputes with ⟨_, _, hcrypt⟩ | ⟨d', choice, request, hstep, hupdate⟩ | ⟨⟨data, hother⟩, -⟩
    · cases hcrypt
    · obtain rfl : holder = some d' := hupdate.holder_eq
      exact ⟨d', choice, request, hstep, hnext, hupdate.current, hbefore, hafter⟩
    · cases hother
  · exact crypto_onWelcome haccepts (by simpa using hkey)

end

namespace Sample

def id : Uuid := ⟨List.replicate 16 7, rfl⟩

/-- Encryption with ciphertexts of one size, and a checksum for the CMAC. -/
def cryptoPP : CryptoPP UInt8 UInt8 Unit where
  publicKey privateKey := privateKey
  readKey _ key := key.head?
  writeKey publicKey := [publicKey]
  encrypt publicKey _ plain := if plain.length = 16 then some (publicKey :: plain) else none
  decrypt privateKey cipher := if cipher.length = 17 ∧ cipher.head? = some privateKey then some cipher.tail else none
  cmac info data := List.replicate info.scheme.digestSize (data.foldl (· + ·) info.key.head!)
  length_cmac _ _ := List.length_replicate

theorem integrity : cryptoPP.Integrity := by
  intro publicKey seed plain cipher hencrypt privateKey cipher' hdecrypt hcomparable
  have hlength : cipher.length = 17 := by
    simp only [cryptoPP, Option.ite_none_right_eq_some, Option.some.injEq] at hencrypt
    obtain ⟨hplain, rfl⟩ := hencrypt
    rw [List.length_cons, hplain]
  have hlength' : cipher'.length = 17 := by
    simp only [cryptoPP, Option.isSome_ite] at hdecrypt
    exact hdecrypt.1
  rcases hcomparable with h | h
  · exact (h.eq_of_length (hlength.trans hlength'.symm)).symm
  · exact h.eq_of_length (hlength'.trans hlength.symm)

def info : CipherInfo := ⟨.AES_GCM, List.replicate 16 3⟩

/-- A device that has the exchange key, and one that waits for it. -/
def start : System Bool UInt8 where
  devices
    | false => ⟨⟨List.replicate 16 1, rfl⟩, ⟨.RSA_OAEP_SHA3_512, 1, 0, fun _ => some info, none⟩, false, some .idle⟩
    | true => ⟨nullUuid, ⟨.RSA_OAEP_SHA3_512, 2, 0, fun _ => none, none⟩, false, some .granting⟩
  macs := []
  known := []

def choice : Choice UInt8 Unit := ⟨.RSA_OAEP_SHA3_512, 2, ⟨.AES_EAX, List.replicate 16 4⟩, fun _ => ()⟩

/-- The MAC of the public key of the granted device. -/
def announced : QByteArray := cryptoPP.cmac info (cryptKeyData .RSA_OAEP_SHA3_512 [2])

/-- A device gets the exchange key, the other one makes a new key for it, and it logs in again. -/
def steps : List (Step Bool UInt8 Unit) := [
  .grant true ⟨id, 0, CipherScheme.AES_GCM.name, 2 :: info.key⟩,
  .deviceKeys false choice ⟨1, false, [(id, EncryptionScheme.RSA_OAEP_SHA3_512.name, [2], announced)]⟩,
  .connect true,
  .identify true choice false]

def welcome : WelcomeMessage :=
  let message : WelcomeMessage := ⟨false, 1, CipherScheme.AES_EAX.name, 2 :: choice.info.key, []⟩
  { message with cmac := cryptoPP.cmac info (message.signatureData id) }

/-- After the steps. -/
def updated : System Bool UInt8 := steps.foldl (fun s a => s.next cryptoPP a) start

/-- The exchange key that the server draws. -/
def drawn : CipherInfo := ⟨.AES_GCM, List.replicate 16 9⟩

/-- A key update that the server makes with it. -/
def forged : WelcomeMessage :=
  let message : WelcomeMessage := ⟨false, 1, CipherScheme.AES_EAX.name, 2 :: drawn.key, []⟩
  { message with cmac := cryptoPP.cmac drawn (message.signatureData id) }

/-- The server grants the device access with its own key, and the device logs in again. -/
def granted : List (Step Bool UInt8 Unit) := [
  .learn drawn,
  .grant true ⟨id, 0, CipherScheme.AES_GCM.name, 2 :: drawn.key⟩,
  .connect true,
  .identify true choice false,
  .createCmac drawn (forged.signatureData id)]

/-- The steps in which no device makes a key update. -/
def quiet : Step Bool UInt8 Unit → Bool
  | .deviceKeys _ _ _ => false
  | _ => true

end Sample

/-- A key update that another device has made is accepted. -/
theorem welcome_bound_updated : ∃ (tr : List (System Bool UInt8 × Step Bool UInt8 Unit × System Bool UInt8))
    (r : RemoteConnector UInt8), Bound Sample.cryptoPP tr (Sample.updated.devices true) Sample.welcome r ∧
      Sample.welcome.hasKeyUpdate = true ∧ r.crypto.localCipher = 1 := by
  obtain ⟨tr, hr⟩ := LTS.exec_run (G := LTS.free) (fun s : System Bool UInt8 => s.macs = []) (fun _ _ _ => trivial)
    (rfl : LTS.exec (fun s a => some (s.next Sample.cryptoPP a)) (fun _ _ => true) Sample.start Sample.steps =
      some Sample.updated)
  have haccepts : ((Sample.updated.devices true).onWelcome Sample.cryptoPP true Sample.updated.macs
      Sample.welcome).map (fun x => x.1.crypto.localCipher) = some 1 := by decide +kernel
  obtain ⟨x, hx, hlocal⟩ := Option.map_eq_some_iff.mp haccepts
  have hstart : (lts Sample.cryptoPP).init Sample.start := rfl
  exact ⟨tr, x.1, welcome_bound Sample.integrity hstart hr true (fun _ _ => List.not_mem_nil) hx, by decide, hlocal⟩

/-- The key update of the server is accepted, and no device has made it. -/
theorem not_welcome_bound : ¬ ∀ (s₀ s : System Bool UInt8)
    (tr : List (System Bool UInt8 × Step Bool UInt8 Unit × System Bool UInt8)) (d : Bool) (message : WelcomeMessage)
    (x : RemoteConnector UInt8 × List (Mac Bool) × List Sent), (lts Sample.cryptoPP).init s₀ →
      LTS.Run (lts Sample.cryptoPP) LTS.free s₀ tr s →
        (s.devices d).onWelcome Sample.cryptoPP d s.macs message = some x →
          Bound Sample.cryptoPP tr (s.devices d) message x.1 := by
  intro h
  obtain ⟨s, hs⟩ := Option.isSome_iff_exists.mp
    (rfl : (LTS.exec (fun s a => some (s.next Sample.cryptoPP a)) (fun _ a => Sample.quiet a) Sample.start
      Sample.granted).isSome = true)
  obtain ⟨tr, hr⟩ := LTS.exec_run (G := fun _ a => Sample.quiet a = true) (fun s : System Bool UInt8 => s.macs = [])
    (fun _ _ hquiet => hquiet) hs
  have haccepts : ((s.devices true).onWelcome Sample.cryptoPP true s.macs Sample.forged).isSome = true := by
    obtain rfl := Option.some.inj hs
    decide +kernel
  obtain ⟨x, hx⟩ := Option.isSome_iff_exists.mp haccepts
  have hbound := h Sample.start s tr true Sample.forged x rfl (hr.mono fun _ _ _ => trivial) hx
  obtain ⟨info, scheme, -, -, ⟨y, hy, holder, choice, message, hstep, -⟩, -⟩ := hbound
  have hquiet := hr.guard y hy
  rw [hstep] at hquiet
  cases hquiet

end QtDataSync.KeyUpdates
