import QtDataSync.Keys.Identity

/-!
# Keys.Proposals — the setting `nextkey`

A device that makes a new exchange key stores it and keeps its index in the setting `nextkey` until the server has
accepted it; with the setting there, `onEntryIdleState` starts the update again and `generateNextKey` takes the stored
key.  `deleteKeyMaterial` removes the key files and leaves the setting, and that is the only way to lose the key of a
proposal (`proposed_iff`).
-/

namespace QtDataSync.KeyMaterial

open QDataStream
open KeyUpdates (CryptoPP CipherInfo ConnectorState)

variable {SignKey PrivateKey PublicKey Seed : Type} {lib : ClientCrypto SignKey PrivateKey PublicKey Seed} {env : Env}
  {c t : CryptoController SignKey PrivateKey} {d : Device SignKey PrivateKey} {i : UInt32} {info : CipherInfo}

/-- The key of a proposal is in its file. -/
def Proposed (c : CryptoController SignKey PrivateKey) : Prop :=
  ∀ n, c.settings.nextSymKey = some n → c.settings.localSymKey.getD 0 < n → c.keyFiles n ≠ none

/-- The active key in memory is not older than the stored one, and without private keys no proposal is loaded. -/
def Current (c : CryptoController SignKey PrivateKey) : Prop :=
  (c.asymCrypto ≠ none ∧ c.settings.localSymKey.getD 0 ≤ c.localCipher) ∨
    c.asymCrypto = none ∧ ∀ n, c.settings.nextSymKey = some n → c.loadedChiphers n = none

/-- A proposal, with what keeps it: it is not too old to be kept. -/
structure Proposal (c : CryptoController SignKey PrivateKey) : Prop where
  proposed : Proposed c
  bound : ∀ n, c.settings.nextSymKey = some n → n.toNat + 5 < UInt32.size
  current : Current c

namespace Proposal

variable (h : Proposal c)

include h

/-- The settings of the indexes are the same, and no key file is gone. -/
theorem congr (hfiles : ∀ n, c.keyFiles n ≠ none → t.keyFiles n ≠ none)
    (hnext : t.settings.nextSymKey = c.settings.nextSymKey) (hlocal : t.settings.localSymKey = c.settings.localSymKey)
    (hcurrent : Current t) : Proposal t := by
  refine ⟨fun n hn hlt => ?_, fun n hn => h.bound n (hnext ▸ hn), hcurrent⟩
  rw [hnext] at hn
  rw [hlocal] at hlt
  exact hfiles n (h.proposed n hn hlt)

theorem loads (hnext : c.asymCrypto = none → c.settings.nextSymKey ≠ some i) (info : CipherInfo) :
    Proposal (c.loads i info) := by
  refine h.congr (fun _ hn => hn) rfl rfl (h.current.imp id ?_)
  rintro ⟨hnone, hloaded⟩
  refine ⟨hnone, fun n hn => ?_⟩
  have hni : n ≠ i := fun hni => hnext hnone (hni ▸ hn)
  exact (loadedChiphers_loads_of_ne hni info).trans (hloaded n hn)

/-- Without private keys only a key that is loaded is found. -/
theorem loads_table (ht : c.table lib i = some info) : Proposal (c.loads i info) := by
  rcases hl : c.loadedChiphers i with - | info'
  · refine h.loads (fun hnone => ?_) info
    rw [table_of_not_loaded hl, hnone] at ht
    cases ht
  · obtain rfl := Option.some.inj ((table_of_loaded hl).symm.trans ht)
    rwa [loads_of_loaded hl]

theorem active (hkeys : c.asymCrypto ≠ none) : c.settings.localSymKey.getD 0 ≤ c.localCipher := by
  rcases h.current with ⟨-, hle⟩ | ⟨hnone, -⟩
  · exact hle
  · exact absurd hnone hkeys

theorem stores (hkeys : c.asymCrypto ≠ none) (scheme encData : QByteArray) : Proposal (c.stores i scheme encData) := by
  refine h.congr (fun n hn => ?_) rfl rfl (Or.inl ⟨hkeys, h.active hkeys⟩)
  rcases eq_or_ne n i with rfl | hni
  · simp
  · rwa [keyFiles_stores_of_ne hni]

theorem imports {seed : Seed} (hu : Imports lib seed c i info t) : Proposal t ∧ t.keyFiles i ≠ none ∧
    t.localCipher = c.localCipher ∧ t.asymCrypto ≠ none := by
  obtain ⟨keys, encData, hkeys, -, rfl⟩ := hu
  have hne : c.asymCrypto ≠ none := hkeys ▸ Option.some_ne_none keys
  exact ⟨(h.loads (fun hnone => absurd hnone hne) info).stores hne _ _, by simp, rfl, hne⟩

/-- A newer key becomes the active one. -/
theorem activates (hkeys : c.asymCrypto ≠ none) (hlt : c.localCipher < i) : Proposal (c.activates i) := by
  have hle := UInt32.lt_of_le_of_lt (h.active hkeys) hlt
  exact ⟨fun n hn hin => h.proposed n hn (UInt32.lt_trans hle hin), h.bound, Or.inl ⟨hkeys, UInt32.le_refl i⟩⟩

theorem proposes (hkeys : c.asymCrypto ≠ none) {next : Option UInt32}
    (hnext : ∀ n, next = some n → c.keyFiles n ≠ none ∧ n.toNat + 5 < UInt32.size) : Proposal (c.proposes next) :=
  ⟨fun n hn _ => (hnext n hn).1, fun n hn => (hnext n hn).2, Or.inl ⟨hkeys, h.active hkeys⟩⟩

/-- Any key is newer than none. -/
theorem activates_of_none (hkeys : c.asymCrypto ≠ none) (hlocal : c.settings.localSymKey = none) :
    Proposal (c.activates c.localCipher) := by
  refine ⟨fun n hn hlt => h.proposed n hn ?_, h.bound, Or.inl ⟨hkeys, UInt32.le_refl _⟩⟩
  rw [hlocal]
  exact UInt32.lt_of_le_of_lt (UInt32.zero_le) hlt

/-- No key after the active one is old. -/
theorem cleaned (hkeys : c.asymCrypto ≠ none) (hlocal : c.settings.localSymKey = some c.localCipher) :
    Proposal (c.cleaned env) := by
  refine ⟨fun n hn hlt => ?_, h.bound, Or.inl ⟨hkeys, h.active hkeys⟩⟩
  have hlt' : c.localCipher < n := by
    have hlt'' : c.settings.localSymKey.getD 0 < n := hlt
    rwa [hlocal, Option.getD_some] at hlt''
  have hfile := h.proposed n hn hlt
  rwa [keyFiles_cleaned_of_not (isOld_eq_false (UInt32.le_of_lt hlt') (h.bound n hn))]

/-- The memory is cleared. -/
theorem lost (keyStore : Option String) : Proposal { c.cleared with keyStore := keyStore } :=
  h.congr (fun _ hn => hn) rfl rfl (Or.inr ⟨rfl, fun _ _ => rfl⟩)

end Proposal

/-! ### What the operations keep -/

/-- A proposal of a device that is connected; after a reset there are no keys in memory. -/
structure Proposing (deviceId : Uuid) (c : CryptoController SignKey PrivateKey) : Prop where
  proposal : Proposal c
  reset : deviceId = nullUuid → c.settings.localSymKey = none ∧ c.asymCrypto = none ∧ c.localCipher = 0

/-- The server gives no null id, indexes stay below the bound of their type, and the key files are in reach of a reset. -/
def Expected (d : Device SignKey PrivateKey) (a : Step SignKey PrivateKey PublicKey Seed × Env) : Prop :=
  match a.1 with
  | .onAccount _ deviceId => deviceId ≠ nullUuid
  | .onGrant _ deviceId _ _ _ => deviceId ≠ nullUuid
  | .onDeviceKeys _ _ => d.crypto.localCipher.toNat + 6 < UInt32.size
  | .resetAccount => a.2.fails .deleteKeyMaterialDir = false
  | _ => True

section Calls

variable {deviceId : Uuid}

theorem proposing_decryptSecretKey {seed : Seed} {scheme data : QByteArray} (h : Proposing deviceId c) :
    Runs (decryptSecretKey lib env seed i scheme data false) c (fun _ t => Proposing deviceId t)
      fun _ t => Proposing deviceId t := by
  have hkeep : ∀ {t : CryptoController SignKey PrivateKey}, c.asymCrypto ≠ none → Proposal t → Proposing deviceId t :=
    fun hkeys ht => ⟨ht, fun hid => absurd (h.reset hid).2.1 hkeys⟩
  have hkeys : ∀ {info}, decrypted lib c scheme data = some info → c.asymCrypto ≠ none := by
    rintro info hinfo hnone
    rw [decrypted, hnone] at hinfo
    cases hinfo
  refine runs_decryptSecretKey.mono ?_ ?_
  · rintro - t ⟨info, u, hinfo, hu, rfl⟩
    obtain ⟨hp, -, hlocal, hkeys'⟩ := h.proposal.imports hu
    split_ifs with hlt
    · exact hkeep (hkeys hinfo) ((hp.activates hkeys' (hlocal ▸ hlt)).cleaned hkeys' rfl)
    · exact hkeep (hkeys hinfo) hp
  · rintro e t ⟨⟨rfl, -⟩ | ⟨info, hinfo, ⟨rfl, -⟩ | ⟨u, hu, hlt, rfl, -⟩⟩, -⟩
    · exact h
    · exact hkeep (hkeys hinfo) (h.proposal.loads (fun hnone => absurd hnone (hkeys hinfo)) info)
    · obtain ⟨hp, -, hlocal, hkeys'⟩ := h.proposal.imports hu
      exact hkeep (hkeys hinfo) (hp.activates hkeys' (hlocal ▸ hlt))

theorem proposing_generateNextKey {random : Random SignKey PrivateKey Seed} (h : Proposing deviceId c)
    (hb : c.localCipher.toNat + 6 < UInt32.size) :
    Runs (generateNextKey lib env random) c (fun _ t => Proposing deviceId t) fun _ t => Proposing deviceId t := by
  refine (runs_generateNextKey rfl).mono ?_ ?_
  · rintro r t ⟨-, ⟨-, info, hinfo, -, rfl⟩ | ⟨hnext, -, u, hu, rfl⟩⟩
    · exact ⟨h.proposal.loads_table hinfo, h.reset⟩
    · obtain ⟨hp, hfile, -, hkeys⟩ := h.proposal.imports hu
      refine ⟨hp.proposes hkeys fun n hn => ?_, fun hid => ?_⟩
      · obtain rfl := Option.some.inj hn
        refine ⟨hfile, ?_⟩
        rw [toNat_add_one (by omega)]
        omega
      · obtain ⟨keys, encData, hkeys', -⟩ := hu
        rw [(h.reset hid).2.1] at hkeys'
        cases hkeys'
  · rintro e t ⟨⟨rfl, -⟩ | ⟨hnext, rfl, -⟩, -⟩
    · exact h
    · exact ⟨h.proposal.loads (fun _ => hnext) _, h.reset⟩

theorem proposing_activateNextKey (h : Proposing deviceId c) :
    Runs (activateNextKey lib env i) c (fun _ t => Proposing deviceId t) fun _ t => Proposing deviceId t := by
  -- after a reset no key can be activated
  have hid : c.localCipher + 1 = i → c.settings.nextSymKey.getD 0 = i → (c.table lib i).isSome →
      deviceId ≠ nullUuid := by
    rintro rfl hnext hfound hid
    obtain ⟨-, hkeys, hzero⟩ := h.reset hid
    rw [hzero] at hnext hfound
    have hn : c.settings.nextSymKey = some (0 + 1) := by
      rcases hc : c.settings.nextSymKey with - | n
      · rw [hc] at hnext
        cases hnext
      · rw [hc, Option.getD_some] at hnext
        rw [hnext]
    rcases h.proposal.current with ⟨hne, -⟩ | ⟨-, hloaded⟩
    · exact hne hkeys
    · rw [table_of_not_loaded (hloaded _ hn), hkeys] at hfound
      cases hfound
  -- nothing is proposed any more
  have hnone : ∀ {t : CryptoController SignKey PrivateKey}, t.settings.nextSymKey = none →
      t.settings.localSymKey.getD 0 = t.localCipher → Proposal t := by
    intro t hnext hlocal
    have hno : ∀ n, t.settings.nextSymKey ≠ some n := fun n hn => by
      rw [hnext] at hn
      cases hn
    refine ⟨fun n hn => absurd hn (hno n), fun n hn => absurd hn (hno n), ?_⟩
    rcases hk : t.asymCrypto with - | keys
    · exact Or.inr ⟨hk, fun n hn => absurd hn (hno n)⟩
    · exact Or.inl ⟨hk ▸ Option.some_ne_none keys, hlocal ▸ UInt32.le_refl _⟩
  refine runs_activateNextKey.mono ?_ ?_
  · rintro - t (⟨rfl, -⟩ | ⟨hindex, hnext, info, hinfo, rfl⟩)
    · exact h
    · exact ⟨hnone rfl rfl, fun hnull => absurd hnull (hid hindex hnext (Option.isSome_iff_exists.mpr ⟨info, hinfo⟩))⟩
  · rintro e t ⟨hindex, hnext, ⟨rfl, -⟩ | ⟨info, hinfo, rfl, -⟩, -⟩
    · exact h
    · exact ⟨hnone rfl rfl, fun hnull => absurd hnull (hid hindex hnext (Option.isSome_iff_exists.mpr ⟨info, hinfo⟩))⟩

theorem calls_proposing {a : Step SignKey PrivateKey PublicKey Seed} (ha : Expected d (a, env)) :
    Calls lib env (Proposing deviceId) d.crypto a := by
  refine ⟨fun c i info h hinfo => ⟨h.proposal.loads_table hinfo, h.reset⟩, ?_, ?_,
    fun i c h => proposing_activateNextKey h⟩
  · rintro seed sendCmac message - t ht -
    exact proposing_decryptSecretKey ht
  · rintro random message rfl h
    exact proposing_generateNextKey h ha

end Calls

/-! ### What the handlers keep -/

/-- What is kept, whether there is a connection or not. -/
structure Kept (d : Device SignKey PrivateKey) : Prop where
  proposal : Proposal d.crypto
  unregistered : d.keyDeviceId = nullUuid → d.crypto.settings.localSymKey = none

/-- A device that connects for a new account has no keys in memory. -/
structure Steady (d : Device SignKey PrivateKey) : Prop extends Kept d where
  phase : Phase d
  fresh : d.state = some .connected → d.deviceId = nullUuid → ∀ n, d.crypto.loadedChiphers n = none

theorem Kept.steady (h : Kept d) (hs : d.state = none) : Steady d := by
  refine ⟨h, ?_, fun hc => ?_⟩
  · unfold Phase
    rw [hs]
    trivial
  · rw [hs] at hc
    cases hc

theorem Kept.lost (h : Kept d) : Steady d.lost := Kept.steady ⟨h.proposal.lost none, h.unregistered⟩ rfl

theorem Steady.proposing (h : Steady d) (hs : d.state = some .idle ∨ d.state = some .loggingIn) :
    Proposing d.keyDeviceId d.crypto := by
  have hphase := h.phase
  unfold Phase at hphase
  refine ⟨h.proposal, fun hid => ⟨h.unregistered hid, ?_⟩⟩
  rcases hs with hs | hs
  · rw [hs] at hphase
    rcases hphase with ⟨-, hne⟩ | ⟨-, -, hkeys⟩
    · exact absurd hid hne
    · exact hkeys
  · rw [hs] at hphase
    exact absurd hid hphase.2

theorem Steady.of_idle (h : Proposing d.keyDeviceId d.crypto) (hs : d.state = some .idle) (hid : d.deviceId ≠ nullUuid)
    (hcurrent : d.keyDeviceId ≠ nullUuid → d.deviceId = d.keyDeviceId) : Steady d := by
  refine ⟨⟨h.proposal, fun hnull => (h.reset hnull).1⟩, ?_, fun hc => ?_⟩
  · unfold Phase
    rw [hs]
    by_cases hnull : d.keyDeviceId = nullUuid
    · exact Or.inr ⟨hid, hnull, (h.reset hnull).2⟩
    · exact Or.inl ⟨hcurrent hnull, hnull⟩
  · rw [hs] at hc
    cases hc

theorem steady_loadIdentity {Q : Bool → Device SignKey PrivateKey → Prop} {E : Error → Device SignKey PrivateKey → Prop}
    (h : Steady d) (hs : d.state = none) (hQ : ∀ b t, Kept t → t.deviceId = t.keyDeviceId →
      (t.deviceId = nullUuid → ∀ n, t.crypto.loadedChiphers n = none) → t.state = none → Q b t) :
    Runs (loadIdentity lib env) d Q E := by
  have hcleared : ∀ keyStore b, Q b { d with
      deviceId := d.keyDeviceId, crypto := { d.crypto.cleared with keyStore := keyStore } } :=
    fun keyStore b => hQ b _ ⟨h.proposal.lost keyStore, h.unregistered⟩ rfl (fun _ _ => rfl) hs
  refine runs_loadIdentity (fun _ => rfl) (fun hid heq => ?_) (fun _ b keyStore _ => hcleared keyStore b)
    (fun _ _ _ _ => hcleared none false) fun hid _ _ => ?_
  · exact hQ true d h.toKept heq.symm (fun hnull => absurd (heq.trans hnull) hid) hs
  -- the keys are loaded into a memory that has been cleared
  have hload : ∀ b (c : CryptoController SignKey PrivateKey), Proposal c → Q b { d with
      deviceId := d.keyDeviceId, crypto := c } :=
    fun b c hc => hQ b _ ⟨hc, fun hnull => absurd hnull hid⟩ rfl (fun hnull => absurd hnull hid) hs
  have hkeys : ∀ (keyStore : Option String) (keys : KeyPair SignKey PrivateKey),
      Proposal (CryptoController.withKeys { d.crypto.cleared with keyStore := keyStore } keys) :=
    fun keyStore keys => (h.proposal.lost keyStore).congr (fun _ hn => hn) rfl rfl
      (Or.inl ⟨Option.some_ne_none keys, UInt32.le_refl _⟩)
  refine runs_loadKeyMaterial.mono ?_ ?_
  · rintro - t ⟨provider, keys, info, -, -, hinfo, -, -, rfl⟩
    exact hload true _ ((hkeys _ keys).loads_table hinfo)
  · rintro e t ⟨⟨rfl | rfl, -⟩ | ⟨provider, keys, -, -, rfl, -⟩, he⟩
    · exact ⟨hload false _ (h.proposal.lost _), he⟩
    · exact ⟨hload false _ (h.proposal.lost _), he⟩
    · exact ⟨hload false _ (hkeys _ keys), he⟩

theorem steady_doConnect (h : Steady d) (enabled : Bool) :
    Runs (doConnect lib env enabled) d (fun _ t => Steady t) fun _ t => Kept t := by
  refine runs_bind (runs_get (runs_ite (fun hs => ?_) fun _ => runs_pure h))
  refine runs_bind (steady_loadIdentity h hs fun b t ht hid hfresh hs' => ?_)
  exact runs_ite (fun _ => runs_modify ⟨⟨ht.proposal, ht.unregistered⟩, hid, fun _ => hfresh⟩) fun _ =>
    runs_pure (ht.steady hs')

/-- Without an account, the new private keys come with the first exchange key. -/
theorem steady_onIdentify (h : Steady d) (random : Random SignKey PrivateKey Seed) (importing : Bool) :
    Runs (onIdentify lib env random importing) d (fun _ t => Steady t) fun _ t => Kept t := by
  refine runs_bind (runs_get (runs_ite (fun hs => ?_) fun _ =>
    runs_modify (Kept.steady ⟨h.proposal, h.unregistered⟩ rfl)))
  have hphase := h.phase
  unfold Phase at hphase
  rw [hs] at hphase
  refine runs_bind (runs_get (runs_ite (fun hid => ?_) fun hid => ?_))
  · refine runs_bind (runs_bind (runs_crypto (runs_asymCrypto (fun _ _ => runs_pure (runs_modify ?_))
      fun _ => h.toKept)))
    exact ⟨⟨h.proposal, h.unregistered⟩, ⟨hphase, hphase ▸ hid⟩, fun hc => by cases hc⟩
  have hid := not_not.mp hid
  have hkid : d.keyDeviceId = nullUuid := hphase ▸ hid
  have hlocal := h.unregistered hkid
  refine runs_bind (runs_crypto (runs_createPrivateKeys.mono ?_ ?_))
  swap
  · rintro e t ⟨rfl, -⟩
    exact ⟨h.proposal.congr (fun _ hn => hn) rfl rfl (Or.inr ⟨rfl, fun n _ => h.fresh hs hid n⟩), h.unregistered⟩
  rintro - t rfl
  have hp : Proposal { d.crypto with
      asymCrypto := some (⟨random.signKey, random.cryptKey⟩ : KeyPair SignKey PrivateKey), localCipher := 0 } := by
    refine h.proposal.congr (fun _ hn => hn) rfl rfl (Or.inl ⟨Option.some_ne_none _, ?_⟩)
    rw [hlocal]
    exact UInt32.le_refl _
  have hp := hp.loads (i := 0) (fun hnone => by cases hnone) (createInfo env random)
  have hsent : ∀ (state : ConnectorState) (c : CryptoController SignKey PrivateKey),
      (state = .granting ∨ state = .registering) → Proposal c → c.localCipher = 0 → c.settings.localSymKey = none →
      Runs (do sendSignedMessage; setState (some state) : DeviceM SignKey PrivateKey Unit) { d with crypto := c }
        (fun _ t => Steady t) fun _ t => Kept t := by
    intro state c hstate hc hzero hnone
    refine runs_bind (runs_bind (runs_crypto (runs_asymCrypto (fun _ _ => runs_pure (runs_modify ?_))
      fun _ => ⟨hc, fun _ => hnone⟩)))
    refine ⟨⟨hc, fun _ => hnone⟩, ?_, fun hcon => ?_⟩
    · rcases hstate with rfl | rfl <;> exact ⟨hid, hkid, hzero⟩
    · rcases hstate with rfl | rfl <;> cases hcon
  refine runs_ite (fun _ => hsent .granting _ (Or.inl rfl) hp rfl hlocal) fun _ => runs_bind (runs_get ?_)
  refine runs_bind (runs_crypto (runs_bind (runs_asymCrypto (fun keys _ => runs_useInfo.mono ?_ ?_)
    fun hnone => by cases hnone)))
  · rintro - t ⟨info, hinfo, -, rfl⟩
    exact hsent .registering _ (Or.inr rfl) (hp.loads_table hinfo) rfl hlocal
  · rintro e t ⟨rfl | ⟨info, hinfo, rfl⟩, -⟩
    · exact ⟨hp, fun _ => hlocal⟩
    · exact ⟨hp.loads_table hinfo, fun _ => hlocal⟩

/-- The active key of a new account is not older than no key. -/
theorem steady_register {Q : Unit → Device SignKey PrivateKey → Prop} {seed : Seed} {deviceId : Uuid}
    (h : Proposal d.crypto) (hlocal : d.crypto.settings.localSymKey = none) (hid : deviceId ≠ nullUuid)
    (hQ : ∀ t, Steady t → t.state = some .idle → Q () t) :
    Runs (register lib env seed deviceId) d Q fun _ t => Kept t := by
  refine runs_bind (runs_modify (runs_bind (runs_crypto (runs_storePrivateKeys.mono ?_ ?_))))
  · rintro - t ⟨provider, keys, info, encData, -, hkeys, hinfo, -, rfl⟩
    have hne : d.crypto.asymCrypto ≠ none := hkeys ▸ Option.some_ne_none keys
    have hsaved : Proposal (d.crypto.savesKeys lib provider deviceId keys) :=
      h.congr (fun _ hn => hn) rfl rfl h.current
    have hstored := (hsaved.loads_table hinfo).stores (i := d.crypto.localCipher) hne info.scheme.name encData
    have hp := hstored.activates_of_none hne hlocal
    refine runs_modify (hQ _ (Steady.of_idle ⟨hp.congr (fun _ hn => hn) rfl rfl hp.current,
      fun hnull => absurd hnull hid⟩ rfl
      hid fun _ => rfl) rfl)
  · rintro e t ⟨ht, -⟩
    refine ⟨h.congr (fun _ hn => ht.keyFiles.symm ▸ hn) ht.nextSymKey ht.localSymKey ?_, fun hnull => absurd hnull hid⟩
    unfold Current
    rw [ht.asymCrypto, ht.nextSymKey, ht.localSymKey, ht.localCipher]
    refine h.current.imp id ?_
    rintro ⟨hnone, hloaded⟩
    refine ⟨hnone, ?_⟩
    rcases ht.loaded with heq | hne
    · rwa [heq]
    · exact absurd hnone hne

theorem steady_sendKeyUpdate {Q : Unit → Device SignKey PrivateKey → Prop} (h : Steady d) (hs : d.state = some .idle)
    (hQ : ∀ t, Steady t → Q () t) : Runs (sendKeyUpdate lib env) d Q fun _ t => Kept t := by
  have hidle : Idle (Proposing d.keyDeviceId) d d := ⟨h.proposing (Or.inl hs), hs, rfl, rfl⟩
  obtain ⟨hid, hcurrent⟩ := h.phase.current (Or.inl hs)
  refine (hidle.sendKeyUpdate (fun c i info hc hinfo => ⟨hc.proposal.loads_table hinfo, hc.reset⟩) fun t ht => ?_).mono
    (fun _ _ ht => ht) fun _ t ht => ⟨ht.crypto.proposal, fun hnull => (ht.crypto.reset (ht.keyDeviceId ▸ hnull)).1⟩
  exact hQ t (Steady.of_idle (ht.keyDeviceId ▸ ht.crypto) ht.state (ht.deviceId ▸ hid) (by
    rwa [ht.deviceId, ht.keyDeviceId]))

theorem steady_onGrant (h : Steady d) {seed : Seed} {deviceId : Uuid} {index : UInt32} {scheme secret : QByteArray}
    (hid : deviceId ≠ nullUuid) :
    Runs (onGrant lib env seed deviceId index scheme secret) d (fun _ t => Steady t) fun _ t => Kept t := by
  refine runs_bind (runs_get (runs_ite (fun hs => ?_) fun _ =>
    runs_modify (Kept.steady ⟨h.proposal, h.unregistered⟩ rfl)))
  have hphase := h.phase
  unfold Phase at hphase
  rw [hs] at hphase
  have hlocal := h.unregistered hphase.2.1
  refine runs_bind (runs_crypto (runs_decryptSecretKey_grant.mono ?_ ?_))
  swap
  · rintro e t ⟨rfl, -⟩
    exact h.toKept
  rintro - t ⟨info, hinfo, rfl⟩
  have hkeys : d.crypto.asymCrypto ≠ none := by
    intro hnone
    rw [decrypted, hnone] at hinfo
    cases hinfo
  have hp : Proposal ({ d.crypto.loads index info with localCipher := index }) := by
    refine (h.proposal.loads (i := index) (fun hnone => absurd hnone hkeys) info).congr (fun _ hn => hn) rfl rfl
      (Or.inl ⟨hkeys, ?_⟩)
    show d.crypto.settings.localSymKey.getD 0 ≤ index
    rw [hlocal]
    exact UInt32.zero_le
  exact runs_bind (steady_register
    (d := { d with crypto := { d.crypto.loads index info with localCipher := index } }) hp
    hlocal hid fun t ht hs' => steady_sendKeyUpdate ht hs' fun _ hu => hu)

/-- A reset leaves no index in `nextkey`, unless its file remains. -/
def KeepsProposal (d : Device SignKey PrivateKey) (a : Step SignKey PrivateKey PublicKey Seed × Env) : Prop :=
  a.1 = .resetAccount → (d.deviceId ≠ nullUuid ∨ d.keyDeviceId ≠ nullUuid) →
    ∀ n, d.crypto.settings.nextSymKey = some n → 0 < n → a.2.remains n = true ∧ d.crypto.keyFiles n ≠ none

/-- The key files are gone, and the index is still there. -/
theorem proposed_deleted_iff (ht : Deleted env c t) :
    Proposed t ↔ ∀ n, c.settings.nextSymKey = some n → 0 < n → env.remains n = true ∧ c.keyFiles n ≠ none := by
  unfold Proposed
  rw [ht.keyFiles, ht.settings]
  refine forall_congr' fun n => imp_congr_right fun _ => imp_congr_right fun _ => ?_
  show (if env.remains n then c.keyFiles n else none) ≠ none ↔ _
  by_cases hr : env.remains n
  · simp [hr]
  · simp [hr]

/-- What a reset leaves. -/
theorem runs_resetAccount_iff (h : Steady d) (hdir : env.fails .deleteKeyMaterialDir = false)
    {a : Step SignKey PrivateKey PublicKey Seed} (ha : a = .resetAccount) :
    Runs (resetAccount env) d
      (fun _ t => (Proposed t.crypto ↔ KeepsProposal d (a, env)) ∧ (KeepsProposal d (a, env) → Steady t))
      fun _ t => (Proposed t.crypto ↔ KeepsProposal d (a, env)) ∧ (KeepsProposal d (a, env) → Steady t.lost) := by
  refine runs_bind (runs_get (runs_ite (fun hdev => runs_modify ?_) fun hdev => ?_))
  · have hids : ¬ (d.deviceId ≠ nullUuid ∨ d.keyDeviceId ≠ nullUuid) := by
      split_ifs at hdev with hid
      · simp [hid, hdev]
      · exact absurd hdev hid
    exact ⟨iff_of_true h.proposal.proposed fun _ hne => absurd hne hids,
      fun _ => Kept.steady ⟨h.proposal, h.unregistered⟩ rfl⟩
  have hids : d.deviceId ≠ nullUuid ∨ d.keyDeviceId ≠ nullUuid := by
    split_ifs at hdev with hid
    · exact Or.inr hdev
    · exact Or.inl hid
  have hkeeps : ∀ {t : CryptoController SignKey PrivateKey}, Deleted env d.crypto t →
      (Proposed t ↔ KeepsProposal d (a, env)) := by
    intro t ht
    rw [proposed_deleted_iff ht]
    exact ⟨fun hall _ _ => hall, fun hk => hk ha hids⟩
  have hproposal : ∀ {t : CryptoController SignKey PrivateKey}, Deleted env d.crypto t → Current t →
      KeepsProposal d (a, env) → Proposal t ∧ t.settings.localSymKey = none := by
    intro t ht hcurrent hk
    refine ⟨⟨(hkeeps ht).mpr hk, fun n hn => h.proposal.bound n ?_, hcurrent⟩, by rw [ht.settings]; rfl⟩
    rw [ht.settings] at hn
    exact hn
  refine runs_bind (runs_modify (runs_bind (runs_crypto (runs_deleteKeyMaterial.mono ?_ ?_))))
  · rintro - t ⟨hdeleted, hcleared⟩
    have hcurrent : Current t := by
      rw [← hcleared]
      exact Or.inr ⟨rfl, fun _ _ => rfl⟩
    refine runs_ite (fun _ => runs_modify ⟨hkeeps hdeleted, fun hk => ?_⟩)
      fun hs => runs_pure ⟨hkeeps hdeleted, fun hk => ?_⟩
    · obtain ⟨hp, hlocal⟩ := hproposal hdeleted hcurrent hk
      exact Kept.steady ⟨hp, fun _ => hlocal⟩ rfl
    · obtain ⟨hp, hlocal⟩ := hproposal hdeleted hcurrent hk
      have hs := not_not.mp hs
      refine Steady.of_idle ⟨hp, fun _ => ⟨hlocal, ?_⟩⟩ hs (h.phase.current (Or.inl hs)).1 fun hne => absurd rfl hne
      rw [← hcleared]
      exact ⟨rfl, rfl⟩
  · rintro e t ⟨⟨-, hf⟩ | ⟨hdeleted, -⟩, -⟩
    · rw [hdir] at hf
      cases hf
    · refine ⟨hkeeps hdeleted, fun hk => ?_⟩
      have hlost : Deleted env d.crypto ({ t.cleared with keyStore := t.keyStore }) :=
        ⟨hdeleted.keyStore, hdeleted.keyFiles, hdeleted.settings⟩
      obtain ⟨hp, hlocal⟩ := hproposal hlost (Or.inr ⟨rfl, fun _ _ => rfl⟩) hk
      exact Kept.steady ⟨hp.lost none, fun _ => hlocal⟩ rfl

/-- What a step that is no reset keeps. -/
theorem steady_handle (h : Steady d) {a : Step SignKey PrivateKey PublicKey Seed} (ha : Expected d (a, env))
    (hreset : a ≠ .resetAccount) : Runs (handle lib env a) d (fun _ t => Steady t) fun _ t => Kept t := by
  have hkeeps : a.KeepsKeys → Runs (handle lib env a) d (fun _ t => Steady t) fun _ t => Kept t := by
    intro hk
    refine (runs_handle hk (calls_proposing ha) h.proposing).mono ?_ fun _ t ht =>
      ⟨ht.2.crypto.proposal, fun hnull => (ht.2.crypto.reset (ht.2.keyDeviceId ▸ hnull)).1⟩
    rintro - t ((rfl | rfl) | ⟨hs, hp, hidle, hid, hkid⟩)
    · exact h
    · exact Kept.steady ⟨h.proposal, h.unregistered⟩ rfl
    · obtain ⟨hne, hcurrent⟩ := h.phase.current hs
      exact Steady.of_idle (hkid ▸ hp) hidle (hid ▸ hne) (by rwa [hid, hkid])
  cases a with
  | start => exact runs_modify h.toKept.lost
  | doConnect enabled => exact steady_doConnect h enabled
  | onIdentify random importing => exact steady_onIdentify h random importing
  | onAccount seed deviceId =>
    refine runs_bind (runs_get (runs_ite (fun hs => ?_) fun _ =>
      runs_modify (Kept.steady ⟨h.proposal, h.unregistered⟩ rfl)))
    have hphase := h.phase
    unfold Phase at hphase
    rw [hs] at hphase
    exact steady_register h.proposal (h.unregistered hphase.2.1) ha fun _ ht _ => ht
  | onGrant seed deviceId index scheme secret => exact steady_onGrant h ha
  | resetAccount => exact absurd rfl hreset
  | onRemoveAck deviceId =>
    refine runs_bind (runs_get (runs_ite (fun hs => ?_) fun _ =>
      runs_modify (Kept.steady ⟨h.proposal, h.unregistered⟩ rfl)))
    exact runs_bind (runs_get (runs_ite (fun _ => runs_modify (Kept.steady ⟨h.proposal, h.unregistered⟩ rfl)) fun _ =>
      runs_pure h))
  | _ => exact hkeeps trivial

theorem steady_caught {fatal : Bool} (h : Kept d) : Steady (caught fatal d) := by
  unfold caught
  split_ifs
  · exact h.lost
  · exact Kept.steady ⟨h.proposal, h.unregistered⟩ rfl

/-- **One step.** -/
theorem proposed_next_iff {a : Step SignKey PrivateKey PublicKey Seed × Env} (h : Steady d) (ha : Expected d a) :
    (Proposed (next lib d a).crypto ↔ KeepsProposal d a) ∧ (KeepsProposal d a → Steady (next lib d a)) := by
  obtain ⟨a, env⟩ := a
  unfold next
  by_cases hreset : a = .resetAccount
  · have hdir : env.fails .deleteKeyMaterialDir = false := by
      rw [hreset] at ha
      exact ha
    have hruns := runs_resetAccount_iff h hdir hreset
    unfold Runs at hruns
    subst hreset
    simp only [handle, Step.IsReset, Bool.true_or, caught, if_true]
    generalize exec (resetAccount env) d = r at hruns ⊢
    obtain ⟨e | u, t⟩ := r
    · exact hruns
    · exact hruns
  · have hsteady : Steady (next lib d (a, env)) := by
      have hruns : Runs (handle lib env a) d _ _ := steady_handle h ha hreset
      unfold Runs at hruns
      unfold next
      generalize exec (handle lib env a) d = r at hruns ⊢
      obtain ⟨e | u, t⟩ := r
      · exact steady_caught hruns
      · exact hruns
    exact ⟨iff_of_true hsteady.proposal.proposed fun heq => absurd heq hreset, fun _ => hsteady⟩

namespace Sample

/-- A device is registered and proposes a key. -/
def proposes : List (Step UInt8 UInt8 UInt8 Unit × Env) :=
  [(.doConnect true, .default), (.onIdentify random false, .default), (.onAccount () id, .default),
    (.onDeviceKeys random ⟨0, false, []⟩, .default)]

def expects (d : Device UInt8 UInt8) (a : Step UInt8 UInt8 UInt8 Unit × Env) : Bool :=
  match a.1 with
  | .doConnect _ | .onIdentify .. => true
  | .onAccount _ deviceId => deviceId ≠ nullUuid
  | .onDeviceKeys .. => d.crypto.localCipher.toNat + 6 < UInt32.size
  | _ => false

theorem expected_of_expects {d : Device UInt8 UInt8} {a : Step UInt8 UInt8 UInt8 Unit × Env} (h : expects d a = true) :
    Expected d a := by
  obtain ⟨a, env⟩ := a
  cases a with
  | doConnect enabled => exact trivial
  | onIdentify random importing => exact trivial
  | onAccount seed deviceId =>
    show deviceId ≠ nullUuid
    exact of_decide_eq_true h
  | onDeviceKeys random message =>
    show d.crypto.localCipher.toNat + 6 < UInt32.size
    exact of_decide_eq_true h
  | _ => cases h

end Sample

/-- **The key of a proposal is in its file** after every step of a run if and only if no reset leaves an index in
`nextkey` whose file it removes. -/
theorem proposed_iff {d₀ : Device SignKey PrivateKey}
    {tr : List (_ × (Step SignKey PrivateKey PublicKey Seed × Env) × _)}
    (hinit : Init d₀) (hr : (lts lib).Run Expected d₀ tr d) :
    (∀ x ∈ tr, Proposed x.2.2.crypto) ↔ ∀ x ∈ tr, KeepsProposal x.1 x.2.1 := by
  refine hr.forall_iff_of_guard (I := Steady) (P := fun d => Proposed d.crypto) ?_ (fun d a t h ha hst hk => ?_)
    fun d a t h ha hst => ?_
  · rw [hinit]
    refine Kept.steady ⟨⟨fun n hn => ?_, fun n hn => ?_, Or.inr ⟨rfl, fun _ _ => rfl⟩⟩, fun _ => rfl⟩ rfl
    · cases hn
    · cases hn
  · obtain rfl := Option.some.inj hst
    exact (proposed_next_iff h ha).2 hk
  · obtain rfl := Option.some.inj hst
    exact (proposed_next_iff h ha).1

/-- A device that is reset after it has proposed a key loses it. -/
theorem proposed_reset : ∃ tr d, (lts Sample.lib).Run Expected Sample.start tr d ∧
    ¬ ∀ x ∈ tr, Proposed x.2.2.crypto := by
  have hexec : ∃ d, LTS.exec (fun d a => some (next Sample.lib d a))
    Sample.expects Sample.start Sample.proposes = some d ∧
      d.keyDeviceId = Sample.id ∧ d.crypto.settings.nextSymKey = some 1 := ⟨_, rfl, rfl, rfl⟩
  obtain ⟨d, hd, hid, hnext⟩ := hexec
  obtain ⟨tr, hr⟩ := LTS.exec_run Init (fun _ _ => Sample.expected_of_expects) hd
  have hexpected : Expected d ((.resetAccount, .default) : Step UInt8 UInt8 UInt8 Unit × Env) := rfl
  have hreset := hr.snoc hexpected rfl
  refine ⟨_, _, hreset, fun hall => ?_⟩
  have hkeeps := (proposed_iff rfl hreset).mp hall _ (List.mem_append_right _ (List.mem_singleton_self _)) rfl
    (Or.inr (hid.symm ▸ by decide)) 1 hnext (by decide)
  cases hkeeps.1

end QtDataSync.KeyMaterial
