import QtDataSync.Keys.Device

/-!
# Keys.Identity — the identity of a device over restarts, failures and resets

What is stored of an account are the private keys, the active exchange key and a proposed one.  The handlers keep that,
except that one which stores the keys of a new account can throw in the middle, when the id is stored already.  So what
was stored can be loaded again exactly as long as no registration fails (`durable_iff`).
-/

namespace QtDataSync.KeyMaterial

open QDataStream
open KeyUpdates (CryptoPP CipherInfo ConnectorState)

/-! ### The stored identity -/

section Registered

variable {SignKey PrivateKey PublicKey Seed : Type} {lib : ClientCrypto SignKey PrivateKey PublicKey Seed} {env : Env}
  {c : CryptoController SignKey PrivateKey} {deviceId : Uuid} {provider : String} {keys : KeyPair SignKey PrivateKey}
  {i k : UInt32} {info : CipherInfo}

/-- The private keys and the active key of a device are stored, and so is the key that has been proposed.  In memory there
are these private keys with the active key, or none. -/
structure Registered (lib : ClientCrypto SignKey PrivateKey PublicKey Seed) (deviceId : Uuid)
    (c : CryptoController SignKey PrivateKey) (provider : String) (keys : KeyPair SignKey PrivateKey) (k : UInt32) :
    Prop where
  keystore : c.settings.keystore = some provider
  provider_ne : provider ≠ ""
  identity : c.identity lib provider deviceId = some keys
  localSymKey : c.settings.localSymKey = some k
  stored : (c.storedKey lib keys.cryptKey k).isSome
  bound : k.toNat + 5 < UInt32.size
  pending : ∀ n, c.settings.nextSymKey = some n → k < n →
    n.toNat + 5 < UInt32.size ∧ (c.storedKey lib keys.cryptKey n).isSome
  memory : (c.asymCrypto = some keys ∧ c.localCipher = k) ∨
    c.asymCrypto = none ∧ c.localCipher = 0 ∧ ∀ n, c.settings.nextSymKey = some n → c.loadedChiphers n = none

theorem not_add_five_lt {n : UInt32} (h : k ≤ n) (hb : n.toNat + 5 < UInt32.size) : ¬ n + 5 < k := by
  have hsize : n.toNat + 5 < 4294967296 := hb
  rw [UInt32.le_iff_toNat_le] at h
  rw [UInt32.lt_iff_toNat_lt, UInt32.toNat_add, show UInt32.toNat 5 = 5 from rfl]
  omega

theorem toNat_add_one (h : k.toNat + 1 < UInt32.size) : (k + 1).toNat = k.toNat + 1 := by
  have hsize : k.toNat + 1 < 4294967296 := h
  rw [UInt32.toNat_add, show UInt32.toNat 1 = 1 from rfl]
  omega

theorem isOld_eq_false {n : UInt32} (h : c.localCipher ≤ n) (hb : n.toNat + 5 < UInt32.size) : c.isOld n = false := by
  rw [CryptoController.isOld, Bool.and_eq_false_iff, decide_eq_false_iff_not]
  exact Or.inr (not_add_five_lt h hb)

namespace Registered

variable (h : Registered lib deviceId c provider keys k)

include h

/-- What is loaded is not what counts, as long as a proposal is not loaded without private keys. -/
theorem loads (hnext : c.asymCrypto = none → c.settings.nextSymKey ≠ some i) (info : CipherInfo) :
    Registered lib deviceId (c.loads i info) provider keys k := by
  obtain ⟨hkeystore, hne, hid, hlocal, hstored, hb, hpending, hmem⟩ := h
  refine ⟨hkeystore, hne, hid, hlocal, hstored, hb, hpending, hmem.imp id ?_⟩
  rintro ⟨hnone, hzero, hloaded⟩
  refine ⟨hnone, hzero, fun n hn => ?_⟩
  have hni : n ≠ i := fun hni => hnext hnone (hni ▸ hn)
  exact (loadedChiphers_loads_of_ne hni info).trans (hloaded n hn)

theorem keys_eq {keys' : KeyPair SignKey PrivateKey} (hkeys : c.asymCrypto = some keys') :
    keys' = keys ∧ c.localCipher = k := by
  rcases h.memory with ⟨hsome, hk⟩ | ⟨hnone, -⟩
  · exact ⟨Option.some.inj (hkeys.symm.trans hsome), hk⟩
  · rw [hnone] at hkeys
    cases hkeys

/-- A key that is written is stored, and all others stay. -/
theorem imports {seed : Seed} {u : CryptoController SignKey PrivateKey} (hvalid : ValidKey info)
    (hu : Imports lib seed c i info u) :
    Registered lib deviceId u provider keys k ∧ (u.storedKey lib keys.cryptKey i).isSome ∧ u.asymCrypto = some keys ∧
      u.settings.nextSymKey = c.settings.nextSymKey ∧ u.localCipher = c.localCipher := by
  obtain ⟨keys', encData, hkeys, henc, rfl⟩ := hu
  obtain ⟨rfl, hk⟩ := h.keys_eq hkeys
  obtain ⟨hkeystore, hne, hid, hlocal, hstored, hb, hpending, -⟩ := h
  have hself : (((c.loads i info).stores i info.scheme.name encData).storedKey lib keys'.cryptKey i).isSome := by
    rw [storedKey_stores_self hvalid henc]
    rfl
  have hall : ∀ n, (c.storedKey lib keys'.cryptKey n).isSome →
      (((c.loads i info).stores i info.scheme.name encData).storedKey lib keys'.cryptKey n).isSome := by
    intro n hn
    rcases eq_or_ne n i with rfl | hni
    · exact hself
    · rwa [storedKey_stores_of_ne hni]
  refine ⟨⟨hkeystore, hne, hid, hlocal, hall k hstored, hb, fun n hn hlt => ?_,
    Or.inl ⟨hkeys, hk⟩⟩, hself, hkeys, rfl, rfl⟩
  exact ⟨(hpending n hn hlt).1, hall n (hpending n hn hlt).2⟩

/-- A newer key that is stored becomes the active one. -/
theorem activates (hkeys : c.asymCrypto = some keys) (hlt : k < i) (hstored : (c.storedKey lib keys.cryptKey i).isSome)
    (hb : i.toNat + 5 < UInt32.size) : Registered lib deviceId (c.activates i) provider keys i := by
  obtain ⟨hkeystore, hne, hid, -, -, -, hpending, -⟩ := h
  exact ⟨hkeystore, hne, hid, rfl, hstored, hb, fun n hn hin => hpending n hn (UInt32.lt_trans hlt hin),
    Or.inl ⟨hkeys, rfl⟩⟩

theorem proposes (hkeys : c.asymCrypto = some keys) {next : Option UInt32} (hnext : ∀ n, next = some n → k < n →
      n.toNat + 5 < UInt32.size ∧ (c.storedKey lib keys.cryptKey n).isSome) :
    Registered lib deviceId (c.proposes next) provider keys k := by
  obtain ⟨-, hk⟩ := h.keys_eq hkeys
  obtain ⟨hkeystore, hne, hid, hlocal, hstored, hb, -, -⟩ := h
  exact ⟨hkeystore, hne, hid, hlocal, hstored, hb, hnext, Or.inl ⟨hkeys, hk⟩⟩

/-- Neither the active key nor the proposal is old. -/
theorem cleaned (hkeys : c.asymCrypto = some keys) : Registered lib deviceId (c.cleaned env) provider keys k := by
  obtain ⟨-, hk⟩ := h.keys_eq hkeys
  obtain ⟨hkeystore, hne, hid, hlocal, hstored, hb, hpending, -⟩ := h
  have hkept : ∀ n, k ≤ n → n.toNat + 5 < UInt32.size → (c.storedKey lib keys.cryptKey n).isSome →
      ((c.cleaned env).storedKey lib keys.cryptKey n).isSome := by
    intro n hn hnb hs
    rwa [storedKey_cleaned_of_not (isOld_eq_false (hk ▸ hn) hnb)]
  refine ⟨hkeystore, hne, hid, hlocal, hkept k (UInt32.le_refl k) hb hstored, hb, fun n hn hlt => ?_,
    Or.inl ⟨hkeys, hk⟩⟩
  exact ⟨(hpending n hn hlt).1, hkept n (UInt32.le_of_lt hlt) (hpending n hn hlt).1 (hpending n hn hlt).2⟩

omit h in
/-- The memory is cleared. -/
theorem lost (h : Registered lib deviceId c provider keys k) (keyStore : Option String) :
    Registered lib deviceId { c.cleared with keyStore := keyStore } provider keys k := by
  obtain ⟨hkeystore, hne, hid, hlocal, hstored, hb, hpending, -⟩ := h
  exact ⟨hkeystore, hne, hid, hlocal, hstored, hb, hpending, Or.inr ⟨rfl, rfl, fun _ _ => rfl⟩⟩

end Registered

/-! ### What the operations keep -/

/-- The keys that are loaded have valid lengths. -/
def Valid (c : CryptoController SignKey PrivateKey) : Prop := ∀ i info, c.loadedChiphers i = some info → ValidKey info

theorem Valid.table (h : Valid c) (ht : c.table lib i = some info) : ValidKey info := by
  rcases hl : c.loadedChiphers i with - | info'
  · rw [table_of_not_loaded hl, Option.bind_eq_some_iff] at ht
    obtain ⟨keys, -, hstored⟩ := ht
    exact (storedKey_eq_some.mp hstored).2.2
  · rw [table_of_loaded hl, Option.some.injEq] at ht
    exact h i info (ht ▸ hl)

theorem Valid.loads (h : Valid c) (hinfo : ValidKey info) : Valid (c.loads i info) := by
  intro j info' hj
  rcases eq_or_ne j i with rfl | hji
  · rw [loadedChiphers_loads_self, Option.some.injEq] at hj
    exact hj ▸ hinfo
  · rw [loadedChiphers_loads_of_ne hji] at hj
    exact h j info' hj

theorem Valid.cleaned (h : Valid c) : Valid (c.cleaned env) := by
  intro j info' hj
  simp only [CryptoController.cleaned, Option.ite_none_left_eq_some] at hj
  exact h j info' hj.2

/-- The keys of a device that is connected: those of its account, or none after a reset. -/
structure Safe (lib : ClientCrypto SignKey PrivateKey PublicKey Seed) (deviceId : Uuid)
    (c : CryptoController SignKey PrivateKey) : Prop where
  valid : Valid c
  keyStore : c.keyStore ≠ some ""
  account : (deviceId ≠ nullUuid ∧ ∃ provider keys k, Registered lib deviceId c provider keys k) ∨
    deviceId = nullUuid ∧ c.settings.keystore = none ∧ c.settings.nextSymKey = none ∧ c.asymCrypto = none ∧
      c.localCipher = 0

namespace Safe

variable (h : Safe lib deviceId c)

include h

/-- Without private keys only a key that is loaded is found. -/
theorem loads_table (ht : c.table lib i = some info) : Safe lib deviceId (c.loads i info) := by
  rcases hk : c.asymCrypto with - | keys
  · have hl : c.loadedChiphers i = some info := by
      rcases hl : c.loadedChiphers i with - | info'
      · rw [table_of_not_loaded hl, hk] at ht
        cases ht
      · rw [← ht, table_of_loaded hl]
    rw [loads_of_loaded hl]
    exact h
  · refine ⟨h.valid.loads (h.valid.table ht), h.keyStore, h.account.imp ?_ ?_⟩
    · rintro ⟨hid, provider, keys', k, hr⟩
      refine ⟨hid, provider, keys', k, hr.loads (fun hnone => ?_) info⟩
      rw [hk] at hnone
      cases hnone
    · rintro ⟨-, -, -, hnone, -⟩
      rw [hk] at hnone
      cases hnone

/-- Whoever has private keys has an account. -/
theorem registered (hkeys : c.asymCrypto = some keys) :
    deviceId ≠ nullUuid ∧ ∃ provider k, Registered lib deviceId c provider keys k ∧ c.localCipher = k := by
  rcases h.account with ⟨hid, provider, keys', k, hr⟩ | ⟨-, -, -, hnone, -⟩
  · obtain ⟨rfl, hk⟩ := hr.keys_eq hkeys
    exact ⟨hid, provider, k, hr, hk⟩
  · rw [hnone] at hkeys
    cases hkeys

omit h in
theorem of_registered (hvalid : Valid c) (hstore : c.keyStore ≠ some "") (hid : deviceId ≠ nullUuid)
    (hr : Registered lib deviceId c provider keys k) : Safe lib deviceId c :=
  ⟨hvalid, hstore, Or.inl ⟨hid, provider, keys, k, hr⟩⟩

end Safe

/-- The key of an update has a valid length and a small index. -/
def Fits (lib : ClientCrypto SignKey PrivateKey PublicKey Seed) (c : CryptoController SignKey PrivateKey) (i : UInt32)
    (scheme data : QByteArray) : Prop :=
  i.toNat + 5 < UInt32.size ∧ ∀ info, decrypted lib c scheme data = some info → ValidKey info

theorem keeps_decryptSecretKey {seed : Seed} {scheme data : QByteArray} (h : Safe lib deviceId c)
    (hfits : Fits lib c i scheme data) :
    Runs (decryptSecretKey lib env seed i scheme data false) c (fun _ t => Safe lib deviceId t)
      (fun _ t => Safe lib deviceId t) := by
  -- the key that is imported becomes the active one, if it is newer
  have hactivates : ∀ info u, decrypted lib c scheme data = some info → Imports lib seed c i info u →
      Safe lib deviceId u ∧ (c.localCipher < i → Safe lib deviceId (u.activates i) ∧
        Safe lib deviceId ((u.activates i).cleaned env)) := by
    rintro info u hinfo hu
    have hvalid := hfits.2 info hinfo
    obtain ⟨keys, encData, hkeys, henc, hu'⟩ := id hu
    obtain ⟨hid, provider, k, hr, hk⟩ := h.registered hkeys
    obtain ⟨hr', hstored, hkeys', -, -⟩ := hr.imports hvalid hu
    have hv : Valid u := by
      rw [hu']
      exact h.valid.loads hvalid
    have hstore : u.keyStore ≠ some "" := by
      rw [hu']
      exact h.keyStore
    refine ⟨.of_registered hv hstore hid hr', fun hlt => ?_⟩
    have ha := hr'.activates hkeys' (hk ▸ hlt) hstored hfits.1
    exact ⟨.of_registered hv hstore hid ha,
      .of_registered (Valid.cleaned (c := u.activates i) hv) hstore hid (ha.cleaned hkeys')⟩
  refine runs_decryptSecretKey.mono ?_ ?_
  · rintro - t ⟨info, u, hinfo, hu, rfl⟩
    split_ifs with hlt
    · exact ((hactivates info u hinfo hu).2 hlt).2
    · exact (hactivates info u hinfo hu).1
  · rintro e t ⟨⟨rfl, -⟩ | ⟨info, hinfo, ⟨rfl, -⟩ | ⟨u, hu, hlt, rfl, -⟩⟩, -⟩
    · exact h
    · have hkeys : c.asymCrypto ≠ none := by
        intro hnone
        rw [decrypted, hnone] at hinfo
        cases hinfo
      obtain ⟨keys, hkeys⟩ := Option.ne_none_iff_exists'.mp hkeys
      obtain ⟨hid, provider, k, hr, -⟩ := h.registered hkeys
      refine .of_registered (h.valid.loads (hfits.2 info hinfo)) h.keyStore hid (hr.loads (fun hnone => ?_) info)
      rw [hkeys] at hnone
      cases hnone
    · exact ((hactivates info u hinfo hu).2 hlt).1

theorem keeps_generateNextKey {random : Random SignKey PrivateKey Seed} (h : Safe lib deviceId c)
    (hb : c.localCipher.toNat + 6 < UInt32.size) :
    Runs (generateNextKey lib env random) c (fun _ t => Safe lib deviceId t) (fun _ t => Safe lib deviceId t) := by
  have hvalid := validKey_createInfo env random
  refine (runs_generateNextKey rfl).mono ?_ ?_
  · rintro r t ⟨-, ⟨-, info, hinfo, -, rfl⟩ | ⟨hnext, -, u, hu, rfl⟩⟩
    · exact h.loads_table hinfo
    · obtain ⟨keys, encData, hkeys, henc, hu'⟩ := id hu
      obtain ⟨hid, provider, k, hr, hk⟩ := h.registered hkeys
      obtain ⟨hr', hstored, hkeys', -, -⟩ := hr.imports hvalid hu
      have hp : Registered lib deviceId (u.proposes (some (c.localCipher + 1))) provider keys k := by
        refine hr'.proposes hkeys' fun n hn _ => ?_
        obtain rfl := Option.some.inj hn
        refine ⟨?_, hstored⟩
        rw [toNat_add_one (by omega)]
        omega
      subst hu'
      exact .of_registered (h.valid.loads hvalid) h.keyStore hid hp
  · rintro e t ⟨⟨rfl, -⟩ | ⟨hnext, rfl, -⟩, -⟩
    · exact h
    · refine ⟨h.valid.loads hvalid, h.keyStore, h.account.imp ?_ id⟩
      rintro ⟨hid, provider, keys, k, hr⟩
      exact ⟨hid, provider, keys, k, hr.loads (fun _ => hnext) _⟩

/-- An active key has been proposed, and the proposal is stored. -/
theorem keeps_activateNextKey (h : Safe lib deviceId c) :
    Runs (activateNextKey lib env i) c (fun _ t => Safe lib deviceId t) (fun _ t => Safe lib deviceId t) := by
  have hactivates : c.localCipher + 1 = i → c.settings.nextSymKey.getD 0 = i → ∀ info, c.table lib i = some info →
      Safe lib deviceId (((c.loads i info).activates i).proposes none) ∧
        Safe lib deviceId ((((c.loads i info).activates i).proposes none).cleaned env) := by
    rintro rfl hnext info hinfo
    have hsmall : c.localCipher.toNat + 5 < UInt32.size := by
      rcases h.account with ⟨-, provider, keys, k, hr⟩ | ⟨-, -, -, -, hzero⟩
      · rcases hr.memory with ⟨-, hk⟩ | ⟨-, hzero, -⟩
        · exact hk ▸ hr.bound
        · rw [hzero]
          decide
      · rw [hzero]
        decide
    have hsucc : (c.localCipher + 1).toNat = c.localCipher.toNat + 1 := toNat_add_one (by omega)
    have hn : c.settings.nextSymKey = some (c.localCipher + 1) := by
      rcases hc : c.settings.nextSymKey with - | n
      · rw [hc, Option.getD_none] at hnext
        rw [← hnext] at hsucc
        exact absurd hsucc (by simp)
      · rw [hc, Option.getD_some] at hnext
        rw [hnext]
    rcases h.account with ⟨hid, provider, keys, k, hr⟩ | ⟨-, -, hnone, -⟩
    swap
    · rw [hnone] at hn
      cases hn
    rcases hr.memory with ⟨hkeys, hk⟩ | ⟨hnone, -, hloaded⟩
    swap
    · rw [table_of_not_loaded (hloaded _ hn), hnone] at hinfo
      cases hinfo
    have hlt : k < c.localCipher + 1 := by
      rw [UInt32.lt_iff_toNat_lt, hsucc, hk]
      omega
    obtain ⟨hb, hstored⟩ := hr.pending _ hn hlt
    have hl := hr.loads (i := c.localCipher + 1) (fun hnone => by rw [hkeys] at hnone; cases hnone) info
    have ha := hl.activates hkeys hlt hstored hb
    have hp := ha.proposes hkeys fun n (hn : none = some n) => by cases hn
    have hv := h.valid.loads (i := c.localCipher + 1) (h.valid.table hinfo)
    exact ⟨.of_registered hv h.keyStore hid hp, .of_registered
      (Valid.cleaned (c := ((c.loads (c.localCipher + 1) info).activates (c.localCipher + 1)).proposes none) hv)
      h.keyStore hid (hp.cleaned hkeys)⟩
  refine runs_activateNextKey.mono ?_ ?_
  · rintro - t (⟨rfl, -⟩ | ⟨hindex, hnext, info, hinfo, rfl⟩)
    · exact h
    · exact (hactivates hindex hnext info hinfo).2
  · rintro e t ⟨hindex, hnext, ⟨rfl, -⟩ | ⟨info, hinfo, rfl, -⟩, -⟩
    · exact h
    · exact (hactivates hindex hnext info hinfo).1

end Registered

/-! ### The handlers -/

section Invariant

variable {SignKey PrivateKey PublicKey Seed : Type} {lib : ClientCrypto SignKey PrivateKey PublicKey Seed} {env : Env}
  {c : CryptoController SignKey PrivateKey} {d : Device SignKey PrivateKey} {deviceId : Uuid}

/-- What is stored, whether there is a connection or not. -/
structure Stored (lib : ClientCrypto SignKey PrivateKey PublicKey Seed) (deviceId : Uuid)
    (c : CryptoController SignKey PrivateKey) : Prop where
  valid : Valid c
  keyStore : c.keyStore ≠ some ""
  unregistered : deviceId = nullUuid → c.settings.keystore = none ∧ c.settings.nextSymKey = none
  registered : deviceId ≠ nullUuid → ∃ provider keys k, Registered lib deviceId c provider keys k

/-- What `_deviceId` and the keys in memory are in each state of the connection; after a reset they are there no more. -/
def Phase (d : Device SignKey PrivateKey) : Prop :=
  match d.state with
  | none => True
  | some .connected => d.deviceId = d.keyDeviceId
  | some .registering | some .granting => d.deviceId = nullUuid ∧ d.keyDeviceId = nullUuid ∧ d.crypto.localCipher = 0
  | some .loggingIn => d.deviceId = d.keyDeviceId ∧ d.keyDeviceId ≠ nullUuid
  | some .idle => (d.deviceId = d.keyDeviceId ∧ d.keyDeviceId ≠ nullUuid) ∨
      d.deviceId ≠ nullUuid ∧ d.keyDeviceId = nullUuid ∧ d.crypto.asymCrypto = none ∧ d.crypto.localCipher = 0

/-- The invariant of a device. -/
def Inv (lib : ClientCrypto SignKey PrivateKey PublicKey Seed) (d : Device SignKey PrivateKey) : Prop :=
  Stored lib d.keyDeviceId d.crypto ∧ Phase d

theorem Safe.stored (h : Safe lib deviceId c) : Stored lib deviceId c := by
  refine ⟨h.valid, h.keyStore, fun hid => ?_, fun hid => ?_⟩
  · rcases h.account with ⟨hne, -⟩ | ⟨-, hkeystore, hnext, -⟩
    · exact absurd hid hne
    · exact ⟨hkeystore, hnext⟩
  · rcases h.account with ⟨-, hr⟩ | ⟨heq, -⟩
    · exact hr
    · exact absurd heq hid

/-- The memory is cleared. -/
theorem Stored.lost (h : Stored lib deviceId c) {keyStore : Option String} (hstore : keyStore ≠ some "") :
    Stored lib deviceId { c.cleared with keyStore := keyStore } := by
  refine ⟨fun i info hi => ?_, hstore, h.unregistered, fun hid => ?_⟩
  · cases hi
  · obtain ⟨provider, keys, k, hr⟩ := h.registered hid
    exact ⟨provider, keys, k, hr.lost keyStore⟩

theorem Inv.lost (h : Stored lib d.keyDeviceId d.crypto) : Inv lib d.lost := ⟨h.lost (by simp), trivial⟩

theorem Inv.safe (h : Inv lib d) (hs : d.state = some .idle ∨ d.state = some .loggingIn) :
    Safe lib d.keyDeviceId d.crypto := by
  obtain ⟨hstored, hphase⟩ := h
  refine ⟨hstored.valid, hstored.keyStore, ?_⟩
  unfold Phase at hphase
  rcases hs with hs | hs
  · rw [hs] at hphase
    rcases hphase with ⟨-, hid⟩ | ⟨-, hid, hkeys, hk⟩
    · exact Or.inl ⟨hid, hstored.registered hid⟩
    · exact Or.inr ⟨hid, (hstored.unregistered hid).1, (hstored.unregistered hid).2, hkeys, hk⟩
  · rw [hs] at hphase
    exact Or.inl ⟨hphase.2, hstored.registered hphase.2⟩

/-- In the state `Idle` the keys are safe, and `_deviceId` is the id that was loaded. -/
theorem Inv.of_safe (h : Safe lib d.keyDeviceId d.crypto) (hs : d.state = some .idle) (hid : d.deviceId ≠ nullUuid)
    (hcurrent : d.keyDeviceId ≠ nullUuid → d.deviceId = d.keyDeviceId) : Inv lib d := by
  refine ⟨h.stored, ?_⟩
  unfold Phase
  rw [hs]
  rcases h.account with ⟨hne, -⟩ | ⟨heq, -, -, hkeys, hk⟩
  · exact Or.inl ⟨hcurrent hne, hne⟩
  · exact Or.inr ⟨hid, heq, hkeys, hk⟩

theorem Phase.current (h : Phase d) (hs : d.state = some .idle ∨ d.state = some .loggingIn) :
    d.deviceId ≠ nullUuid ∧ (d.keyDeviceId ≠ nullUuid → d.deviceId = d.keyDeviceId) := by
  unfold Phase at h
  rcases hs with hs | hs
  · rw [hs] at h
    rcases h with ⟨heq, hne⟩ | ⟨hne, heq, -⟩
    · exact ⟨heq ▸ hne, fun _ => heq⟩
    · exact ⟨hne, fun hid => absurd heq hid⟩
  · rw [hs] at h
    exact ⟨h.1 ▸ h.2, fun _ => h.1⟩

/-- How a handler that throws leaves a device: with what is stored as safe as before, or with the id of a new account
whose keys are not stored. -/
def Thrown (lib : ClientCrypto SignKey PrivateKey PublicKey Seed) (d t : Device SignKey PrivateKey) : Prop :=
  (Stored lib t.keyDeviceId t.crypto ∧ (t.keyDeviceId = d.keyDeviceId ∨ t.keyDeviceId = nullUuid)) ∨
    d.keyDeviceId = nullUuid ∧ t.keyDeviceId ≠ nullUuid ∧ t.crypto.settings.keystore = none

/-- What a handler does. -/
def Handled (lib : ClientCrypto SignKey PrivateKey PublicKey Seed) (m : DeviceM SignKey PrivateKey Unit)
    (d : Device SignKey PrivateKey) : Prop :=
  Runs m d (fun _ t => Inv lib t) fun _ t => Thrown lib d t

theorem Handled.setState_none (h : Inv lib d) : Handled lib (setState none) d := runs_modify ⟨h.1, trivial⟩

theorem Handled.checkState (h : Inv lib d) {state : ConnectorState} {m : DeviceM SignKey PrivateKey Unit}
    (hm : d.state = some state → Handled lib m d) : Handled lib (checkState state m) d :=
  runs_bind (runs_get (runs_ite hm fun _ => Handled.setState_none h))

end Invariant

/-! ### Steps and runs -/

section Steps

variable {SignKey PrivateKey PublicKey Seed : Type} {lib : ClientCrypto SignKey PrivateKey PublicKey Seed} {env : Env}
  {c : CryptoController SignKey PrivateKey} {d : Device SignKey PrivateKey} {deviceId : Uuid}

/-- What the handlers rely on: the server gives no null id, keys that are imported have valid lengths, indexes stay below
the bound of their type, and an account is reset without a pending proposal, and with the key files in reach. -/
def Allowed (lib : ClientCrypto SignKey PrivateKey PublicKey Seed) (d : Device SignKey PrivateKey)
    (a : Step SignKey PrivateKey PublicKey Seed × Env) : Prop :=
  match a.1 with
  | .onAccount _ deviceId => deviceId ≠ nullUuid
  | .onGrant _ deviceId index scheme secret => deviceId ≠ nullUuid ∧ Fits lib d.crypto index scheme secret
  | .onWelcome _ _ message => Fits lib d.crypto message.keyIndex message.scheme message.key
  | .onDeviceKeys _ _ => d.crypto.localCipher.toNat + 6 < UInt32.size
  | .resetAccount => d.crypto.settings.nextSymKey = none ∧ a.2.fails .deleteKeyMaterialDir = false
  | _ => True

/-- The keys of a new account are stored, and the active one is in memory. -/
theorem runs_register {seed : Seed} (hvalid : Valid c) (hstore : c.keyStore ≠ some "")
    (hnext : c.settings.nextSymKey = none) (hb : c.localCipher.toNat + 5 < UInt32.size) (hid : deviceId ≠ nullUuid) :
    Runs (storePrivateKeys lib env seed deviceId) c
      (fun _ t => Safe lib deviceId t ∧ t.asymCrypto ≠ none ∧ (t.loadedChiphers t.localCipher).isSome)
      (fun _ t => t.settings.keystore = c.settings.keystore) := by
  refine runs_storePrivateKeys.mono ?_ fun _ t ht => ht.1.keystore
  rintro - t ⟨provider, keys, info, encData, hp, hkeys, hinfo, henc, rfl⟩
  have hne : provider ≠ "" := by
    rintro rfl
    exact hstore hp
  have hinfo' := hvalid.table hinfo
  have hstored := storedKey_stores_self (c := (c.savesKeys lib provider deviceId keys).loads c.localCipher info)
    (i := c.localCipher) hinfo' henc
  have hv := Valid.loads (c := c.savesKeys lib provider deviceId keys) (i := c.localCipher) hvalid hinfo'
  have hr : Registered lib deviceId ((((c.savesKeys lib provider deviceId keys).loads c.localCipher info).stores
      c.localCipher info.scheme.name encData).registered provider) provider keys c.localCipher := by
    refine ⟨rfl, hne, identity_savesKeys provider deviceId keys, rfl, ?_, hb, fun n hn => ?_, Or.inl ⟨hkeys, rfl⟩⟩
    · exact Option.isSome_iff_exists.mpr ⟨info, hstored⟩
    · exact absurd (hnext.symm.trans hn) (by simp)
  refine ⟨.of_registered hv hstore hid hr, fun hnone => ?_, ?_⟩
  · cases hkeys.symm.trans hnone
  · exact Option.isSome_iff_exists.mpr ⟨info, loadedChiphers_loads_self _⟩

/-- The private keys of an account are in memory afterwards exactly if the keystore can be read. -/
theorem runs_loads (h : Stored lib deviceId c) (hid : deviceId ≠ nullUuid) (hnone : c.asymCrypto = none)
    (hstore : c.keyStore = some (c.settings.keystore.getD "")) :
    Runs (loadKeyMaterial lib env deviceId) c
      (fun _ t => Stored lib deviceId t ∧
        (t.asymCrypto ≠ none ↔ env.fails .openStore = false ∧ env.fails .loadKey = false))
      (fun e t => (Stored lib deviceId t ∧
        (t.asymCrypto ≠ none ↔ env.fails .openStore = false ∧ env.fails .loadKey = false)) ∧
          e ≠ .nullPointer ∧ e ≠ .cryptoPP) := by
  obtain ⟨provider, keys, k, hr⟩ := h.registered hid
  rw [hr.keystore, Option.getD_some] at hstore
  -- the private keys of the account, with the active key
  have hkeys : ∀ provider' keys', c.keyStore = some provider' → c.identity lib provider' deviceId = some keys' →
      keys' = keys ∧ Registered lib deviceId (c.withKeys keys) provider keys k := by
    intro provider' keys' hp' hkeys'
    obtain rfl := Option.some.inj (hstore.symm.trans hp')
    obtain rfl := Option.some.inj (hkeys'.symm.trans hr.identity)
    refine ⟨rfl, hr.keystore, hr.provider_ne, hr.identity, hr.localSymKey, hr.stored, hr.bound, hr.pending,
      Or.inl ⟨rfl, ?_⟩⟩
    rw [CryptoController.withKeys, hr.localSymKey, Option.getD_some]
  refine runs_loadKeyMaterial.mono ?_ ?_
  · rintro - t ⟨provider', keys', info, hp', hkeys', hinfo, hopen, hload, rfl⟩
    obtain ⟨rfl, hr'⟩ := hkeys provider' keys' hp' hkeys'
    have hv := Valid.table (c := c.withKeys keys') h.valid hinfo
    refine ⟨⟨Valid.loads (c := c.withKeys keys') h.valid hv, h.keyStore, h.unregistered,
      fun _ => ⟨provider, keys', k, ?_⟩⟩,
      iff_of_true (fun hn => by cases hn) ⟨hopen, hload⟩⟩
    exact hr'.loads (fun hn => by cases hn) info
  · rintro e t ⟨⟨ht, hunread⟩ | ⟨provider', keys', hp', hkeys', rfl, hopen, hload, -⟩, he⟩
    · have hsame : t = c := by
        rcases ht with rfl | rfl
        · rfl
        · rw [← hnone]
      subst hsame
      refine ⟨⟨h, iff_of_false (fun hn => hn hnone) fun hread => ?_⟩, he⟩
      exact absurd (hr.identity.symm.trans (hunread hread.1 hread.2 provider hstore)) (by simp)
    · obtain ⟨rfl, hr'⟩ := hkeys provider' keys' hp' hkeys'
      exact ⟨⟨⟨h.valid, h.keyStore, h.unregistered, fun _ => ⟨provider, keys', k, hr'⟩⟩,
        iff_of_true (fun hn => by cases hn) ⟨hopen, hload⟩⟩, he⟩

/-- The keys are loaded for a stored id, or cleared without one. -/
theorem handled_loadIdentity {Q : Bool → Device SignKey PrivateKey → Prop} (h : Inv lib d)
    (hQ : ∀ b t, Stored lib t.keyDeviceId t.crypto → t.deviceId = t.keyDeviceId → t.keyDeviceId = d.keyDeviceId →
      t.state = d.state → Q b t) : Runs (loadIdentity lib env) d Q fun _ t => Thrown lib d t := by
  refine runs_loadIdentity (fun _ => rfl) (fun _ hsame => hQ true d h.1 hsame.symm rfl rfl)
    (fun _ b keyStore hstore => hQ b _ (h.1.lost (hstore h.1.keyStore)) rfl rfl rfl)
    (fun _ _ _ _ => hQ false _ (h.1.lost (by simp)) rfl rfl rfl) fun hid _ hacquired => ?_
  have hstore : some (d.crypto.settings.keystore.getD "") ≠ some "" := fun hempty =>
    (hacquired fun hsame => h.1.keyStore (hsame.trans hempty)).1 (Option.some.inj hempty)
  have hcleared := h.1.lost hstore
  refine (runs_loads hcleared hid rfl rfl).mono ?_ ?_
  · rintro - t ⟨ht, -⟩
    exact hQ true _ ht rfl rfl rfl
  · rintro e t ⟨⟨ht, -⟩, he⟩
    exact ⟨hQ false _ ht rfl rfl rfl, he⟩

theorem handled_doConnect (h : Inv lib d) (enabled : Bool) : Handled lib (doConnect lib env enabled) d := by
  refine runs_bind (runs_get (runs_ite (fun hs => ?_) fun _ => runs_pure h))
  refine runs_bind (handled_loadIdentity h fun b t hstored hcurrent _ hs' => ?_)
  refine runs_ite (fun _ => runs_modify ⟨hstored, ?_⟩) fun _ => runs_pure ⟨hstored, ?_⟩
  · exact hcurrent
  · unfold Phase
    rw [hs'.trans hs]
    trivial

theorem handled_onIdentify (h : Inv lib d) (random : Random SignKey PrivateKey Seed) (importing : Bool) :
    Handled lib (onIdentify lib env random importing) d := by
  refine .checkState h fun hs => ?_
  have hphase := h.2
  unfold Phase at hphase
  rw [hs] at hphase
  have hthrown : Thrown lib d d := Or.inl ⟨h.1, Or.inl rfl⟩
  refine runs_bind (runs_get (runs_ite (fun hid => ?_) fun hid => ?_))
  · refine runs_bind (runs_bind (runs_crypto (runs_asymCrypto (fun _ _ => runs_pure (runs_modify ⟨h.1, ?_⟩))
      fun _ => hthrown)))
    exact ⟨hphase, hphase ▸ hid⟩
  -- new private keys
  have hid := not_not.mp hid
  have hkid : d.keyDeviceId = nullUuid := hphase ▸ hid
  obtain ⟨hkeystore, hnext⟩ := h.1.unregistered hkid
  have hstored : ∀ keys loaded, (∀ i info, loaded i = some info → ValidKey info) → ∀ localCipher,
      Stored lib d.keyDeviceId { d.crypto with
        asymCrypto := keys, loadedChiphers := loaded, localCipher := localCipher } :=
    fun _ _ hl _ => ⟨hl, h.1.keyStore, fun _ => ⟨hkeystore, hnext⟩, fun hne => absurd hkid hne⟩
  refine runs_bind (runs_crypto (runs_createPrivateKeys.mono ?_ ?_))
  swap
  · rintro e t ⟨rfl, -⟩
    exact Or.inl ⟨hstored _ _ h.1.valid _, Or.inl rfl⟩
  rintro - t rfl
  have hloaded := Valid.loads (i := 0) (c := { d.crypto with
    asymCrypto := some ⟨random.signKey, random.cryptKey⟩, localCipher := 0 }) h.1.valid (validKey_createInfo env random)
  refine runs_ite (fun _ => ?_) fun _ => ?_
  · exact runs_bind (runs_bind (runs_crypto (runs_asymCrypto (fun _ _ => runs_pure (runs_modify
      ⟨hstored _ _ hloaded _, hid, hkid, rfl⟩)) fun hnone => by cases hnone)))
  refine runs_bind (runs_get (runs_bind (runs_crypto (runs_bind (runs_asymCrypto (fun keys _ => ?_)
    fun hnone => by cases hnone)))))
  refine runs_useInfo.mono ?_ ?_
  · rintro - t ⟨info, hinfo, -, rfl⟩
    obtain rfl := Option.some.inj ((table_of_loaded (loadedChiphers_loads_self _)).symm.trans hinfo)
    exact runs_bind (runs_bind (runs_crypto (runs_asymCrypto (fun _ _ => runs_pure (runs_modify
      ⟨hstored _ _ (Valid.loads hloaded (validKey_createInfo env random)) _, hid, hkid, rfl⟩))
        fun hnone => by cases hnone)))
  · rintro e t ⟨-, hnone, -⟩
    exact absurd (hnone _ (loadedChiphers_loads_self _)) (by simp)

/-- A new account; if its keys are not stored, then neither is the name of the keystore. -/
theorem handled_register {Q : Unit → Device SignKey PrivateKey → Prop} {seed : Seed} (hvalid : Valid d.crypto)
    (hstore : d.crypto.keyStore ≠ some "") (hkid : d.keyDeviceId = nullUuid)
    (hkeystore : d.crypto.settings.keystore = none) (hnext : d.crypto.settings.nextSymKey = none)
    (hb : d.crypto.localCipher.toNat + 5 < UInt32.size) (hid : deviceId ≠ nullUuid)
    (hQ : ∀ t, Inv lib t → t.state = some .idle → t.crypto.asymCrypto ≠ none →
      (t.crypto.loadedChiphers t.crypto.localCipher).isSome → Q () t) :
    Runs (register lib env seed deviceId) d Q fun _ t => Thrown lib d t := by
  refine runs_bind (runs_modify (runs_bind (runs_crypto ((runs_register hvalid hstore hnext hb hid).mono ?_ ?_))))
  · rintro - t ⟨hsafe, hkeys, hloaded⟩
    exact runs_modify (hQ _ (Inv.of_safe hsafe rfl hid fun _ => rfl) rfl hkeys hloaded)
  · intro e t ht
    exact Or.inr ⟨hkid, hid, ht.trans hkeystore⟩

/-- With private keys and the active key in memory nothing fails. -/
theorem runs_sendKeyUpdate {Q : Unit → Device SignKey PrivateKey → Prop} {E : Error → Device SignKey PrivateKey → Prop}
    (h : Inv lib d) (hs : d.state = some .idle) (hkeys : d.crypto.asymCrypto ≠ none)
    (hloaded : (d.crypto.loadedChiphers d.crypto.localCipher).isSome) (hQ : ∀ t, Inv lib t → Q () t) :
    Runs (sendKeyUpdate lib env) d Q E := by
  obtain ⟨hid, hcurrent⟩ := h.2.current (Or.inl hs)
  obtain ⟨info, hinfo⟩ := Option.isSome_iff_exists.mp hloaded
  refine runs_bind (runs_get (runs_bind (runs_crypto (runs_bind (runs_asymCrypto (fun keys _ => ?_)
    fun h => absurd h hkeys)))))
  refine runs_useInfo.mono ?_ ?_
  · rintro - t ⟨info', hinfo', -, rfl⟩
    exact runs_pure (hQ _ (Inv.of_safe (d := { d with crypto := d.crypto.loads _ info' })
      ((h.safe (Or.inl hs)).loads_table hinfo') hs hid hcurrent))
  · rintro e t ⟨-, hnone, -⟩
    exact absurd (hnone info hinfo) (by simp)

theorem handled_onAccount (h : Inv lib d) (seed : Seed) (hid : deviceId ≠ nullUuid) :
    Handled lib (onAccount lib env seed deviceId) d := by
  refine .checkState h fun hs => ?_
  have hphase := h.2
  unfold Phase at hphase
  rw [hs] at hphase
  obtain ⟨-, hkid, hzero⟩ := hphase
  obtain ⟨hkeystore, hnext⟩ := h.1.unregistered hkid
  refine handled_register h.1.valid h.1.keyStore hkid hkeystore hnext ?_ hid fun t ht _ _ _ => ht
  rw [hzero]
  decide

theorem handled_onGrant (h : Inv lib d) (seed : Seed) {index : UInt32} {scheme secret : QByteArray}
    (hid : deviceId ≠ nullUuid) (hfits : Fits lib d.crypto index scheme secret) :
    Handled lib (onGrant lib env seed deviceId index scheme secret) d := by
  refine .checkState h fun hs => ?_
  have hphase := h.2
  unfold Phase at hphase
  rw [hs] at hphase
  obtain ⟨-, hkid, -⟩ := hphase
  obtain ⟨hkeystore, hnext⟩ := h.1.unregistered hkid
  refine runs_bind (runs_crypto (runs_decryptSecretKey_grant.mono ?_ ?_))
  swap
  · rintro e t ⟨rfl, -⟩
    exact Or.inl ⟨h.1, Or.inl rfl⟩
  rintro - t ⟨info, hinfo, rfl⟩
  refine runs_bind ((handled_register
    (d := { d with crypto := { d.crypto.loads index info with localCipher := index } })
    (h.1.valid.loads (hfits.2 info hinfo)) h.1.keyStore hkid hkeystore hnext hfits.1 hid
    fun t ht hs' hkeys hloaded => ?_).mono (fun _ _ ht => ht) fun _ _ ht => ht)
  exact runs_sendKeyUpdate ht hs' hkeys hloaded fun _ hu => hu

theorem handled_resetAccount (h : Inv lib d) (hnext : d.crypto.settings.nextSymKey = none)
    (hdir : env.fails .deleteKeyMaterialDir = false) : Handled lib (resetAccount env) d := by
  refine runs_bind (runs_get (runs_ite (fun _ => runs_modify ⟨h.1, trivial⟩) fun hdev => ?_))
  have hstored : ∀ t, Deleted env d.crypto t → Valid t → Stored lib nullUuid t := by
    rintro t ⟨hstore, -, hsettings⟩ hv
    refine ⟨hv, hstore ▸ h.1.keyStore, fun _ => ?_, fun hne => absurd rfl hne⟩
    rw [hsettings]
    exact ⟨rfl, hnext⟩
  refine runs_bind (runs_modify (runs_bind (runs_crypto (runs_deleteKeyMaterial.mono ?_ ?_))))
  · rintro - t ⟨hdeleted, hcleared⟩
    have hv : Valid t := by
      intro i info hi
      rw [← hcleared] at hi
      cases hi
    refine runs_ite (fun _ => runs_modify ⟨hstored t hdeleted hv, trivial⟩)
      fun hs => runs_pure ⟨hstored t hdeleted hv, ?_⟩
    have hs := not_not.mp hs
    unfold Phase
    rw [show ({ d with keyDeviceId := nullUuid, crypto := t } : Device SignKey PrivateKey).state = some .idle from hs]
    refine Or.inr ⟨(h.2.current (Or.inl hs)).1, rfl, ?_, ?_⟩ <;> rw [← hcleared] <;> rfl
  · rintro e t ⟨⟨-, hf⟩ | ⟨hdeleted, hloaded⟩, -⟩
    · rw [hdir] at hf
      cases hf
    · refine Or.inl ⟨hstored t hdeleted fun i info hi => ?_, Or.inr rfl⟩
      rw [hloaded] at hi
      exact h.1.valid i info hi

/-- The calls of the controller keep the keys safe. -/
theorem calls {a : Step SignKey PrivateKey PublicKey Seed} (ha : Allowed lib d (a, env)) :
    Calls lib env (Safe lib deviceId) d.crypto a := by
  refine ⟨fun c i info h hinfo => h.loads_table hinfo, ?_, ?_, fun i c h => keeps_activateNextKey h⟩
  · rintro seed sendCmac message rfl t ht hkeys
    refine keeps_decryptSecretKey ht ⟨ha.1, fun info hinfo => ha.2 info ?_⟩
    rw [decrypted] at hinfo ⊢
    rwa [← hkeys]
  · rintro random message rfl h
    exact keeps_generateNextKey h ha

theorem handled_keepsKeys (h : Inv lib d) {a : Step SignKey PrivateKey PublicKey Seed} (ha : Allowed lib d (a, env))
    (hkeeps : a.KeepsKeys) : Handled lib (handle lib env a) d := by
  refine (runs_handle hkeeps (calls ha) h.safe).mono ?_ fun _ t ht => Or.inl ⟨?_, Or.inl ht.2.keyDeviceId⟩
  · rintro - t ((rfl | rfl) | ⟨hs, hsafe, hidle, hid, hkid⟩)
    · exact h
    · exact ⟨h.1, trivial⟩
    · obtain ⟨hne, hcurrent⟩ := h.2.current hs
      exact Inv.of_safe (hkid ▸ hsafe) hidle (hid ▸ hne) (by rwa [hid, hkid])
  · rw [ht.2.keyDeviceId]
    exact ht.2.crypto.stored

/-- **Every handler keeps what is stored**, or throws while it stores the keys of a new account. -/
theorem handled (h : Inv lib d) {a : Step SignKey PrivateKey PublicKey Seed × Env} (ha : Allowed lib d a) :
    Handled lib (handle lib a.2 a.1) d := by
  obtain ⟨a, env⟩ := a
  cases a with
  | start => exact runs_modify (Inv.lost h.1)
  | doConnect enabled => exact handled_doConnect h enabled
  | onIdentify random importing => exact handled_onIdentify h random importing
  | onAccount seed deviceId => exact handled_onAccount h seed ha
  | onGrant seed deviceId index scheme secret => exact handled_onGrant h seed ha.1 ha.2
  | resetAccount => exact handled_resetAccount h ha.1 ha.2
  | onRemoveAck deviceId =>
    refine .checkState h fun hs => runs_bind (runs_get (runs_ite (fun _ => ?_) fun _ => runs_pure h))
    exact runs_modify ⟨h.1, trivial⟩
  | _ => exact handled_keepsKeys h ha trivial

end Steps

/-! ### Durability -/

section Durability

variable {SignKey PrivateKey PublicKey Seed : Type} {lib : ClientCrypto SignKey PrivateKey PublicKey Seed}
  {d : Device SignKey PrivateKey} {a : Step SignKey PrivateKey PublicKey Seed × Env}

/-- If the process ends and nothing fails after that, then the keys of the account are loaded again. -/
def Restores (lib : ClientCrypto SignKey PrivateKey PublicKey Seed) (d : Device SignKey PrivateKey) : Prop :=
  d.keyDeviceId ≠ nullUuid → ∀ env : Env, env.Sound → ∃ t, exec (loadIdentity lib env) d.lost = (.ok true, t) ∧
    t.deviceId = d.keyDeviceId ∧ t.crypto.asymCrypto ≠ none ∧ (t.crypto.loadedChiphers t.crypto.localCipher).isSome

/-- A step that stores the id of a new account returns. -/
def StoresKeys (lib : ClientCrypto SignKey PrivateKey PublicKey Seed) (d : Device SignKey PrivateKey)
    (a : Step SignKey PrivateKey PublicKey Seed × Env) : Prop :=
  d.keyDeviceId = nullUuid → (next lib d a).keyDeviceId ≠ nullUuid → (exec (handle lib a.2 a.1) d).1 = .ok ()

theorem Stored.restores (h : Stored lib d.keyDeviceId d.crypto) : Restores lib d := by
  intro hid env hs
  obtain ⟨provider, keys, k, hr⟩ := h.registered hid
  have hkeystore : d.crypto.settings.keystore.getD "" = provider := by rw [hr.keystore, Option.getD_some]
  have hlocal : d.crypto.settings.localSymKey.getD 0 = k := by rw [hr.localSymKey, Option.getD_some]
  have hcleared : Registered lib d.keyDeviceId { d.crypto.cleared with keyStore := some provider } provider keys k :=
    hr.lost _
  have hloads : Runs (loadIdentity lib env) d.lost (fun b t => b = true ∧ t.deviceId = d.keyDeviceId ∧
      t.crypto.asymCrypto ≠ none ∧ (t.crypto.loadedChiphers t.crypto.localCipher).isSome) fun _ _ => False := by
    refine runs_loadIdentity (fun _ => hkeystore.symm) (fun _ heq => absurd heq hid)
      (fun hnull => absurd hnull hid) (fun _ _ _ hfails => ?_) fun _ _ _ => ?_
    · rcases hfails with hempty | hf
      · exact absurd hempty hr.provider_ne
      · rw [hs.fails] at hf
        cases hf
    have htable : (CryptoController.withKeys { d.crypto.cleared with keyStore := some provider } keys).table lib k =
        d.crypto.storedKey lib keys.cryptKey k := table_of_not_loaded rfl
    refine runs_loadKeyMaterial.mono ?_ ?_
    · rintro - t ⟨provider', keys', info, -, -, -, -, -, rfl⟩
      exact ⟨rfl, rfl, Option.some_ne_none keys', Option.isSome_iff_exists.mpr ⟨info, loadedChiphers_loads_self info⟩⟩
    · rintro e t ⟨⟨-, hnone⟩ | ⟨provider', keys', hp', hkeys', -, -, -, hnone⟩, -⟩
      · exact absurd (hcleared.identity.symm.trans (hnone (hs.fails _) (hs.fails _) provider rfl)) (by simp)
      · obtain rfl := Option.some.inj hp'
        obtain rfl := Option.some.inj (hkeys'.symm.trans hcleared.identity)
        have hk : (CryptoController.withKeys { d.crypto.cleared with keyStore := some provider } keys').table lib
            (d.crypto.settings.localSymKey.getD 0) = none := hnone hs
        rw [hlocal, htable] at hk
        have hstored := hr.stored
        rw [hk] at hstored
        cases hstored
  obtain ⟨b, t, hrun, rfl, ht⟩ := hloads.exists_ok
  exact ⟨t, hrun, ht⟩

/-- An environment in which nothing fails. -/
def Env.default : Env := ⟨"plain", .AES_EAX, 0, fun _ => false, fun _ => false⟩

theorem Env.sound_default : Env.default.Sound := ⟨fun _ => rfl, fun _ => rfl⟩

theorem not_restores (hid : d.keyDeviceId ≠ nullUuid) (hkeystore : d.crypto.settings.keystore = none) :
    ¬ Restores lib d := by
  intro h
  obtain ⟨t, hrun, -⟩ := h hid Env.default Env.sound_default
  have hp : "" = d.lost.crypto.settings.keystore.getD "" := by
    show "" = d.crypto.settings.keystore.getD ""
    rw [hkeystore, Option.getD_none]
  have hloads : Runs (loadIdentity lib Env.default) d.lost (fun b _ => b = false) fun _ _ => False :=
    runs_loadIdentity (fun _ => hp) (fun _ heq => absurd heq hid) (fun hnull => absurd hnull hid) (fun _ _ _ _ => rfl)
      fun _ _ hacquired => absurd rfl (hacquired (by simp [Device.lost])).1
  cases hloads.ok hrun

theorem keyDeviceId_caught (fatal : Bool) (d : Device SignKey PrivateKey) :
    (caught fatal d).keyDeviceId = d.keyDeviceId ∧ (caught fatal d).crypto.settings = d.crypto.settings := by
  unfold caught
  split_ifs <;> exact ⟨rfl, rfl⟩

/-- **One step.** -/
theorem restores_next_iff (h : Inv lib d) (ha : Allowed lib d a) :
    (StoresKeys lib d a → Inv lib (next lib d a)) ∧ (Restores lib (next lib d a) ↔ StoresKeys lib d a) := by
  have hhandled := handled h ha
  unfold Handled Runs at hhandled
  rcases hr : exec (handle lib a.2 a.1) d with ⟨e | u, t⟩
  · have hnext : next lib d a = caught (a.1.IsReset || e = .nullPointer) t := by
      unfold next
      rw [hr]
    rw [hr] at hhandled
    obtain ⟨hid, hsettings⟩ := keyDeviceId_caught (a.1.IsReset || e = .nullPointer) t
    have hnot : StoresKeys lib d a → d.keyDeviceId = nullUuid → t.keyDeviceId = nullUuid := by
      intro hstores hd
      by_contra hne
      have hok := hstores hd (by rwa [hnext, hid])
      rw [hr] at hok
      cases hok
    rcases hhandled with ⟨hstored, hkid⟩ | ⟨hd, ht, hkeystore⟩
    · have hinv : Inv lib (next lib d a) := by
        rw [hnext]
        show Inv lib (caught _ t)
        unfold caught
        split_ifs
        · exact Inv.lost hstored
        · exact ⟨hstored, trivial⟩
      refine ⟨fun _ => hinv, iff_of_true hinv.1.restores fun hd hne => ?_⟩
      rw [hnext] at hne
      exact absurd (hkid.elim (fun h => h.trans hd) id) (hid ▸ hne)
    · refine ⟨fun hstores => absurd (hnot hstores hd) ht, iff_of_false ?_ fun hstores => absurd (hnot hstores hd) ht⟩
      rw [hnext]
      exact not_restores (hid.symm ▸ ht) (hsettings.symm ▸ hkeystore)
  · have hnext : next lib d a = t := by
      unfold next
      rw [hr]
    rw [hr] at hhandled
    have hinv : Inv lib (next lib d a) := hnext ▸ hhandled
    refine ⟨fun _ => hinv, iff_of_true hinv.1.restores fun _ _ => ?_⟩
    rw [hr]

theorem inv_init (h : Init d) : Inv lib d := by
  rw [h]
  refine ⟨⟨fun i info hi => ?_, by simp, fun _ => ⟨rfl, rfl⟩, fun h => absurd rfl h⟩, trivial⟩
  cases hi

end Durability

namespace Sample

def id : Uuid := ⟨List.replicate 16 6, rfl⟩

/-- Keys of one byte, with a checksum for the CMAC. -/
def lib : ClientCrypto UInt8 UInt8 UInt8 Unit where
  publicKey privateKey := privateKey
  readKey _ key := key.head?
  writeKey publicKey := [publicKey]
  encrypt publicKey _ plain := some (publicKey :: plain)
  decrypt privateKey cipher := if cipher.head? = some privateKey then some cipher.tail else none
  cmac info data := List.replicate info.scheme.digestSize (data.foldr (· + ·) info.key.head!)
  length_cmac _ _ := List.length_replicate
  signatureScheme _ := []
  encryptionScheme _ := .RSA_OAEP_SHA3_512
  savePrivateSignKey key := [key]
  savePrivateCryptKey key := [key]
  loadSignKey _ data := data.head?
  loadCryptKey _ data := data.head?
  encryptImpl info _ plain := plain.map (· + info.key.head!)
  decryptImpl info _ cipher := some (cipher.map (· - info.key.head!))
  load_signKey _ := rfl
  load_cryptKey _ := rfl
  decrypt_encrypt key _ plain data h := by
    obtain rfl := Option.some.inj h
    simp
  decrypt_encryptImpl info _ plain := by simp [Function.comp_def]

def random : Random UInt8 UInt8 Unit := ⟨5, 6, (), fun size => List.replicate size 3, fun _ => List.length_replicate⟩

def start : Device UInt8 UInt8 :=
  ⟨nullUuid, none, nullUuid, ⟨none, none, fun _ => none, 0, ⟨none, none, none, none, none, fun _ => none⟩,
    fun _ => none, fun _ _ => none⟩⟩

/-- A device is registered and started again. -/
def steps : List (Step UInt8 UInt8 UInt8 Unit × Env) :=
  [(.doConnect true, .default), (.onIdentify random false, .default), (.onAccount () id, .default), (.start, .default),
    (.doConnect true, .default)]

/-- A step of a registration that returns. -/
def ok (d : Device UInt8 UInt8) (a : Step UInt8 UInt8 UInt8 Unit × Env) : Bool :=
  !a.2.fails .createInstance && !a.2.fails .openStore && !a.2.fails .loadKey &&
    (exec (handle lib a.2 a.1) d).1.toBool &&
    match a.1 with
    | .start | .doConnect _ | .onIdentify .. => true
    | .onAccount _ deviceId => deviceId ≠ nullUuid
    | _ => false

theorem allowed_of_ok {d : Device UInt8 UInt8} {a : Step UInt8 UInt8 UInt8 Unit × Env} (h : ok d a = true) :
    Allowed lib d a ∧ StoresKeys lib d a := by
  simp only [ok, Bool.and_eq_true] at h
  obtain ⟨⟨-, hreturns⟩, hstep⟩ := h
  refine ⟨?_, fun _ _ => ?_⟩
  · obtain ⟨a, env⟩ := a
    cases a with
    | onAccount seed deviceId =>
      show deviceId ≠ nullUuid
      exact of_decide_eq_true hstep
    | start => exact trivial
    | doConnect enabled => exact trivial
    | onIdentify random importing => exact trivial
    | _ => cases hstep
  · generalize (exec (handle lib a.2 a.1) d).1 = r at hreturns ⊢
    rcases r with e | u
    · cases hreturns
    · rfl

end Sample

end QtDataSync.KeyMaterial
