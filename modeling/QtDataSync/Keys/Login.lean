import QtDataSync.Keys.Identity

/-!
# Keys.Login — the private keys in memory

`loadIdentity` takes over the id of the device before it loads the keys.  If these cannot be loaded, then the next
connection finds the id loaded, and it logs in without keys.
-/

namespace QtDataSync.KeyMaterial

open QDataStream
open KeyUpdates (CryptoPP CipherInfo ConnectorState)

section Loaded

variable {SignKey PrivateKey PublicKey Seed : Type} {lib : ClientCrypto SignKey PrivateKey PublicKey Seed} {env : Env}
  {c : CryptoController SignKey PrivateKey} {d : Device SignKey PrivateKey}
  {a : Step SignKey PrivateKey PublicKey Seed × Env}

/-- A device that takes itself for registered has its private keys in memory. -/
def HoldsKeys (d : Device SignKey PrivateKey) : Prop :=
  d.deviceId ≠ nullUuid → d.keyDeviceId = d.deviceId → d.crypto.asymCrypto ≠ none

/-- When the keys of an account are loaded, then the keystore can be created, opened and read. -/
def LoadsKeys (d : Device SignKey PrivateKey) (a : Step SignKey PrivateKey PublicKey Seed × Env) : Prop :=
  ∀ enabled, a.1 = .doConnect enabled → d.state = none → d.keyDeviceId ≠ nullUuid → d.keyDeviceId ≠ d.deviceId →
    (d.crypto.keyStore = d.crypto.settings.keystore ∨ a.2.fails .createInstance = false) ∧
      a.2.fails .openStore = false ∧ a.2.fails .loadKey = false

/-- The private keys are those of `c`. -/
def SameKeys (c t : CryptoController SignKey PrivateKey) : Prop := t.asymCrypto = c.asymCrypto

theorem stable_sameKeys : Stable lib (SameKeys c) := fun _ _ _ ht _ => ht

/-- The calls in a connection leave the private keys as they are. -/
theorem calls_sameKeys (a : Step SignKey PrivateKey PublicKey Seed) : Calls lib env (SameKeys c) c a := by
  have himports : ∀ {t u : CryptoController SignKey PrivateKey} {seed : Seed} {i : UInt32} {info : CipherInfo},
      SameKeys c t → Imports lib seed t i info u → SameKeys c u := by
    rintro t u seed i info ht ⟨keys, encData, -, -, rfl⟩
    exact ht
  refine ⟨stable_sameKeys, ?_, ?_, ?_⟩
  · rintro seed sendCmac message - t ht -
    refine runs_decryptSecretKey.mono ?_ ?_
    · rintro - u ⟨info, v, -, hv, rfl⟩
      have hsame : v.asymCrypto = c.asymCrypto := himports ht hv
      split_ifs <;> exact hsame
    · rintro e u ⟨⟨rfl, -⟩ | ⟨info, -, ⟨rfl, -⟩ | ⟨v, hv, -, rfl, -⟩⟩, -⟩
      · exact ht
      · exact ht
      · exact (himports ht hv : v.asymCrypto = c.asymCrypto)
  · rintro random message - -
    refine (runs_generateNextKey rfl).mono ?_ ?_
    · rintro r t ⟨-, ⟨-, info, -, -, rfl⟩ | ⟨-, -, u, ⟨keys, encData, -, -, rfl⟩, rfl⟩⟩ <;> rfl
    · rintro e t ⟨⟨rfl, -⟩ | ⟨-, rfl, -⟩, -⟩ <;> rfl
  · intro i t ht
    refine runs_activateNextKey.mono ?_ ?_
    · rintro - u (⟨rfl, -⟩ | ⟨-, -, info, -, rfl⟩) <;> exact ht
    · rintro e u ⟨-, -, ⟨rfl, -⟩ | ⟨info, -, rfl, -⟩, -⟩ <;> exact ht

theorem holdsKeys_caught {fatal : Bool} (h : HoldsKeys d) : HoldsKeys (caught fatal d) := by
  unfold caught
  split_ifs
  · exact fun hid => absurd rfl hid
  · exact h

/-- A handler keeps a property if it does so however it ends. -/
theorem holdsKeys_next (h : Runs (handle lib a.2 a.1) d (fun _ t => HoldsKeys t) fun _ t => HoldsKeys t) :
    HoldsKeys (next lib d a) := by
  unfold Runs at h
  unfold next
  generalize exec (handle lib a.2 a.1) d = r at h ⊢
  obtain ⟨e | u, t⟩ := r
  · exact holdsKeys_caught h
  · exact h

/-- The id is taken over even if the keys are not loaded. -/
theorem runs_loadIdentity_iff (h : Inv lib d) (hid : d.keyDeviceId ≠ nullUuid) (hne : d.keyDeviceId ≠ d.deviceId) :
    Runs (loadIdentity lib env) d
      (fun _ t => t.deviceId = d.keyDeviceId ∧ t.keyDeviceId = d.keyDeviceId ∧ (t.crypto.asymCrypto ≠ none ↔
        (d.crypto.keyStore = d.crypto.settings.keystore ∨ env.fails .createInstance = false) ∧
          env.fails .openStore = false ∧ env.fails .loadKey = false)) fun _ _ => False := by
  obtain ⟨provider, keys, k, hr⟩ := h.1.registered hid
  have hp : provider = d.crypto.settings.keystore.getD "" := by rw [hr.keystore, Option.getD_some]
  refine runs_loadIdentity (fun _ => hp) (fun _ heq => absurd heq hne) (fun hnull => absurd hnull hid)
    (fun _ _ hstore hfails => ⟨rfl, rfl, iff_of_false (fun hn => hn rfl) ?_⟩) fun _ _ hacquired => ?_
  · rintro ⟨hsame | hcreated, -⟩
    · exact hstore (hsame.trans hr.keystore)
    · rcases hfails with hempty | hfails
      · exact hr.provider_ne hempty
      · rw [hfails] at hcreated
        cases hcreated
  have hcreated : d.crypto.keyStore = d.crypto.settings.keystore ∨ env.fails .createInstance = false := by
    by_cases hsame : d.crypto.keyStore = some provider
    · exact Or.inl (hsame.trans hr.keystore.symm)
    · exact Or.inr (hacquired hsame).2
  have hstored : Stored lib d.keyDeviceId { d.crypto.cleared with keyStore := some provider } :=
    h.1.lost fun hempty => hr.provider_ne (Option.some.inj hempty)
  refine (runs_loads hstored hid rfl (congrArg some hp)).mono ?_ ?_
  · rintro - t ⟨-, hread⟩
    exact ⟨rfl, rfl, hread.trans ⟨fun h => ⟨hcreated, h⟩, fun h => h.2⟩⟩
  · rintro e t ⟨⟨-, hread⟩, he⟩
    exact ⟨⟨rfl, rfl, hread.trans ⟨fun h => ⟨hcreated, h⟩, fun h => h.2⟩⟩, he⟩

theorem holdsKeys_doConnect_iff (h : Inv lib d) (hkeys : HoldsKeys d) (enabled : Bool) :
    HoldsKeys (next lib d (.doConnect enabled, env)) ↔ LoadsKeys d ((.doConnect enabled, env) : Step SignKey PrivateKey
      PublicKey Seed × Env) := by
  have hruns : Runs (doConnect lib env enabled) d (fun _ t => HoldsKeys t ↔ LoadsKeys d ((.doConnect enabled, env) :
      Step SignKey PrivateKey PublicKey Seed × Env)) fun _ _ => False := by
    refine runs_bind (runs_get (runs_ite (fun hs => ?_) fun hs => runs_pure (iff_of_true hkeys ?_)))
    swap
    · exact fun _ _ hnone => absurd hnone hs
    by_cases hload : d.keyDeviceId ≠ nullUuid ∧ d.keyDeviceId ≠ d.deviceId
    · refine runs_bind ((runs_loadIdentity_iff h hload.1 hload.2).mono ?_ fun _ _ => False.elim)
      rintro b t ⟨hid, hkid, hread⟩
      have hiff : HoldsKeys t ↔ LoadsKeys d
        ((.doConnect enabled, env) : Step SignKey PrivateKey PublicKey Seed × Env) := by
        unfold HoldsKeys LoadsKeys
        rw [hid, hkid]
        exact ⟨fun hholds _ _ _ _ _ => hread.mp (hholds hload.1 rfl), fun hloads _ _ =>
          hread.mpr (hloads enabled rfl hs hload.1 hload.2)⟩
      exact runs_ite (fun _ => runs_modify hiff) fun _ => runs_pure hiff
    · have hvacuous : LoadsKeys d ((.doConnect enabled, env) : Step SignKey PrivateKey PublicKey Seed × Env) :=
        fun _ _ _ hid hne => absurd ⟨hid, hne⟩ hload
      have hloaded : Runs (loadIdentity lib env) d (fun _ t => HoldsKeys t) fun _ _ => False := by
        exact runs_loadIdentity (fun _ => rfl) (fun _ _ => hkeys) (fun hnull _ _ _ hid => absurd hnull hid)
          (fun hid hne => absurd ⟨hid, hne⟩ hload) fun hid hne => absurd ⟨hid, hne⟩ hload
      refine runs_bind (hloaded.mono (fun b t ht => ?_) fun _ _ => False.elim)
      exact runs_ite (fun _ => runs_modify (iff_of_true ht hvacuous)) fun _ => runs_pure (iff_of_true ht hvacuous)
  obtain ⟨u, t, hexec, ht⟩ := hruns.exists_ok
  rw [show next lib d (.doConnect enabled, env) = t from by
    unfold next
    rw [show exec (handle lib env (.doConnect enabled)) d = (.ok u, t) from hexec]]
  exact ht

theorem holdsKeys_resetAccount (hkeys : HoldsKeys d) :
    Runs (resetAccount env) d (fun _ t => HoldsKeys t) fun _ t => HoldsKeys t := by
  have hgone : ∀ t : Device SignKey PrivateKey, t.keyDeviceId = nullUuid → HoldsKeys t :=
    fun t ht hid hkid => absurd (hkid.symm.trans ht) hid
  refine runs_bind (runs_get (runs_ite (fun _ => runs_modify hkeys) fun _ => runs_bind (runs_modify (runs_bind ?_))))
  refine runs_crypto (runs_deleteKeyMaterial.mono (fun _ t _ => ?_) fun e t _ => hgone _ rfl)
  exact runs_ite (fun _ => runs_modify (hgone _ rfl)) fun _ => runs_pure (hgone _ rfl)

theorem holdsKeys_onIdentify (hkeys : HoldsKeys d) (random : Random SignKey PrivateKey Seed) (importing : Bool) :
    Runs (onIdentify lib env random importing) d (fun _ t => HoldsKeys t) fun _ t => HoldsKeys t := by
  refine runs_bind (runs_get (runs_ite (fun _ => ?_) fun _ => runs_modify hkeys))
  refine runs_bind (runs_get (runs_ite (fun _ => ?_) fun hid => ?_))
  · exact runs_bind (runs_bind (runs_crypto (runs_asymCrypto (fun _ _ => runs_pure (runs_modify hkeys))
      fun _ => hkeys)))
  -- without an id there is nothing to hold
  have hid := not_not.mp hid
  have hkeep : ∀ {α : Type} {m : CryptoM SignKey PrivateKey α} {t : Device SignKey PrivateKey}
      {Q : α → Device SignKey PrivateKey → Prop}, t.deviceId = nullUuid → (∀ a t, t.deviceId = nullUuid → Q a t) →
      Runs (crypto m) t Q fun _ t => HoldsKeys t := by
    intro α m t Q ht hQ
    unfold Runs
    rw [exec_crypto]
    rcases exec m t.crypto with ⟨e | a, c⟩
    · exact fun h => absurd ht h
    · exact hQ a _ ht
  have hsent : ∀ {t : Device SignKey PrivateKey} (state : ConnectorState), t.deviceId = nullUuid →
      Runs (do sendSignedMessage; setState (some state) : DeviceM SignKey PrivateKey Unit) t (fun _ t => HoldsKeys t)
        fun _ t => HoldsKeys t := fun state ht =>
    runs_bind (runs_bind (hkeep ht fun _ u hu => runs_pure (runs_modify fun h => absurd hu h)))
  refine runs_bind (hkeep hid fun _ t ht => runs_ite (fun _ => hsent _ ht) fun _ => ?_)
  exact runs_bind (runs_get (runs_bind (hkeep ht fun _ u hu => hsent _ hu)))

/-- What a handler of a new account leaves, if it returns. -/
theorem holdsKeys_registers {m : DeviceM SignKey PrivateKey Unit} (hkeys : HoldsKeys d) (h : Inv lib d)
    (hm : d.deviceId = nullUuid → d.keyDeviceId = nullUuid → Runs m d (fun _ t => t.crypto.asymCrypto ≠ none)
      fun _ t => t.keyDeviceId ≠ nullUuid ∨ t.deviceId = nullUuid) {state : ConnectorState}
    (hs : state = .registering ∨ state = .granting) :
    Runs (checkState state m) d (fun _ t => HoldsKeys t)
      fun _ t => d.keyDeviceId = nullUuid ∧ t.keyDeviceId ≠ nullUuid ∨ HoldsKeys t := by
  refine runs_bind (runs_get (runs_ite (fun hst => ?_) fun _ => runs_modify hkeys))
  have hphase := h.2
  unfold Phase at hphase
  rw [hst] at hphase
  obtain ⟨hid, hkid⟩ : d.deviceId = nullUuid ∧ d.keyDeviceId = nullUuid := by
    rcases hs with rfl | rfl <;> exact ⟨hphase.1, hphase.2.1⟩
  exact (hm hid hkid).mono (fun _ t ht _ _ => ht) fun _ t ht => ht.imp (⟨hkid, ·⟩) fun hnull hne => absurd hnull hne

theorem runs_register_keys {Q : Unit → Device SignKey PrivateKey → Prop} {E : Error → Device SignKey PrivateKey → Prop}
    {seed : Seed} {deviceId : Uuid}
    (hQ : ∀ t, t.crypto.asymCrypto ≠ none → t.keyDeviceId = deviceId → t.state = some .idle → Q () t)
    (hE : ∀ e t, t.keyDeviceId = deviceId → E e t) : Runs (register lib env seed deviceId) d Q E := by
  refine runs_bind (runs_modify (runs_bind (runs_crypto (runs_storePrivateKeys.mono ?_ fun e t _ => hE e _ rfl))))
  rintro - t ⟨provider, keys, info, encData, -, hkeys, -, -, rfl⟩
  exact runs_modify (hQ _ (hkeys ▸ Option.some_ne_none keys) rfl rfl)

/-- **One step.** -/
theorem holdsKeys_next_iff (h : Inv lib d) (hkeys : HoldsKeys d) (ha : Allowed lib d a) (hstores : StoresKeys lib d a) :
    HoldsKeys (next lib d a) ↔ LoadsKeys d a := by
  obtain ⟨a, env⟩ := a
  have hother : (∀ enabled, a ≠ .doConnect enabled) → LoadsKeys d (a, env) :=
    fun hne enabled heq => absurd heq (hne enabled)
  have hkeep : a.KeepsKeys → HoldsKeys (next lib d (a, env)) := by
    intro hk
    have hidle : ∀ {t}, Idle (SameKeys d.crypto) d t → HoldsKeys t := by
      rintro t ⟨hsame, -, hid, hkid⟩ hne heq
      rw [show t.crypto.asymCrypto = d.crypto.asymCrypto from hsame]
      exact hkeys (hid ▸ hne) (hkid ▸ hid ▸ heq)
    refine holdsKeys_next ((runs_handle hk (calls_sameKeys a) fun _ => rfl).mono ?_ fun _ t ht => hidle ht.2)
    rintro - t ((rfl | rfl) | ⟨-, ht⟩)
    · exact hkeys
    · exact hkeys
    · exact hidle ht
  -- the handler of a new account has not thrown
  have hregisters : Runs (handle lib env a) d (fun _ t => HoldsKeys t)
      (fun _ t => d.keyDeviceId = nullUuid ∧ t.keyDeviceId ≠ nullUuid ∨ HoldsKeys t) →
      HoldsKeys (next lib d (a, env)) := by
    intro hr
    unfold Runs at hr
    unfold StoresKeys next at hstores
    unfold next
    rcases hexec : exec (handle lib env a) d with ⟨e | u, t⟩
    · rw [hexec] at hr hstores
      rcases hr with ⟨hd, ht⟩ | ht
      · cases hstores hd ((keyDeviceId_caught _ t).1.symm ▸ ht)
      · exact holdsKeys_caught ht
    · rw [hexec] at hr
      exact hr
  cases a with
  | doConnect enabled => exact holdsKeys_doConnect_iff h hkeys enabled
  | start => exact iff_of_true (fun hid => absurd rfl hid) (hother fun _ he => by cases he)
  | onIdentify random importing =>
    exact iff_of_true (holdsKeys_next (holdsKeys_onIdentify hkeys random importing)) (hother fun _ he => by cases he)
  | onAccount seed deviceId =>
    refine iff_of_true (hregisters (holdsKeys_registers hkeys h (fun _ _ => ?_) (Or.inl rfl)))
      (hother fun _ he => by cases he)
    exact runs_register_keys (fun _ ht _ _ => ht) fun _ t ht => Or.inl (ht ▸ ha)
  | onGrant seed deviceId index scheme secret =>
    refine iff_of_true (hregisters (holdsKeys_registers hkeys h (fun hid _ => ?_) (Or.inr rfl)))
      (hother fun _ he => by cases he)
    refine runs_bind (runs_crypto (runs_decryptSecretKey_grant.mono (fun _ c _ => ?_) fun _ _ _ => Or.inr hid))
    refine runs_bind (runs_register_keys (fun t ht hkid hs => ?_) fun _ t ht => Or.inl (ht ▸ ha.1))
    have hidle : Idle (SameKeys t.crypto) t t := ⟨rfl, hs, rfl, rfl⟩
    refine (hidle.sendKeyUpdate stable_sameKeys
      (Q := fun _ u => Idle (SameKeys t.crypto) t u) fun _ hu => hu).mono (fun _ u hu => ?_) fun _ u hu => Or.inl ?_
    · rw [show u.crypto.asymCrypto = t.crypto.asymCrypto from hu.crypto]
      exact ht
    · rw [hu.keyDeviceId, hkid]
      exact ha.1
  | resetAccount => exact iff_of_true (holdsKeys_next (holdsKeys_resetAccount hkeys)) (hother fun _ he => by cases he)
  | onRemoveAck deviceId =>
    refine iff_of_true (holdsKeys_next ?_) (hother fun _ he => by cases he)
    refine runs_bind (runs_get (runs_ite (fun _ => runs_bind (runs_get ?_)) fun _ => runs_modify hkeys))
    exact runs_ite (fun _ => runs_modify fun hid => absurd rfl hid) fun _ => runs_pure hkeys
  | disconnected => exact iff_of_true (hkeep trivial) (hother fun _ he => by cases he)
  | onWelcome => exact iff_of_true (hkeep trivial) (hother fun _ he => by cases he)
  | onDeviceKeys => exact iff_of_true (hkeep trivial) (hother fun _ he => by cases he)
  | onNewKeyAck => exact iff_of_true (hkeep trivial) (hother fun _ he => by cases he)
  | uploadData => exact iff_of_true (hkeep trivial) (hother fun _ he => by cases he)
  | onChanged => exact iff_of_true (hkeep trivial) (hother fun _ he => by cases he)
  | loginReply => exact iff_of_true (hkeep trivial) (hother fun _ he => by cases he)

/-- After a failed load the next connection is used for a login without keys. -/
theorem login_iff (hs : d.state = none) (hid : d.deviceId ≠ nullUuid) (hkid : d.keyDeviceId = d.deviceId)
    {env env' : Env} {random : Random SignKey PrivateKey Seed} {importing : Bool} :
    (exec (handle lib env' (.onIdentify random importing))
      (next lib d (.doConnect true, env))).1 = .error .nullPointer ↔
      ¬ HoldsKeys d := by
  have hconnect : Runs (handle lib env (.doConnect true : Step SignKey PrivateKey PublicKey Seed)) d
      (fun _ t => t = { d with state := some .connected }) fun _ _ => False := by
    refine runs_bind (runs_get (runs_ite (fun _ => ?_) fun h => absurd hs h))
    refine runs_bind ((runs_loadIdentity (Q := fun b t => b = true ∧ t = d) (E := fun _ _ => False) (fun _ => rfl)
      (fun _ _ => ⟨rfl, rfl⟩) (fun hnull => absurd (hkid.symm.trans hnull) hid) (fun _ hne => absurd hkid hne)
      fun _ hne => absurd hkid hne).mono ?_ fun _ _ => False.elim)
    rintro b t ⟨rfl, rfl⟩
    exact runs_modify rfl
  obtain ⟨u, t, hexec, rfl⟩ := hconnect.exists_ok
  have hnext : next lib d (.doConnect true, env) = { d with state := some .connected } := by
    unfold next
    rw [hexec]
  rw [hnext]
  have hlogin : Runs (handle lib env' (.onIdentify random importing)) { d with state := some .connected }
      (fun _ _ => d.crypto.asymCrypto ≠ none) fun e _ => e = .nullPointer ∧ d.crypto.asymCrypto = none := by
    refine runs_bind (runs_get (runs_ite (fun _ => ?_) fun h => absurd rfl h))
    refine runs_bind (runs_get (runs_ite (fun _ => ?_) fun h => absurd hid h))
    exact runs_bind (runs_bind (runs_crypto (runs_asymCrypto (fun keys hkeys => runs_pure (runs_modify
      (hkeys ▸ Option.some_ne_none keys))) fun hnone => ⟨rfl, hnone⟩)))
  have hholds : HoldsKeys d ↔ d.crypto.asymCrypto ≠ none := ⟨fun h => h hid hkid, fun h _ _ => h⟩
  rw [hholds, not_not]
  unfold Runs at hlogin
  generalize exec (handle lib env' (.onIdentify random importing)) { d with state := some .connected } = r at hlogin
  obtain ⟨e | a, t⟩ := r
  · exact iff_of_true (congrArg Except.error hlogin.1) hlogin.2
  · exact iff_of_false (fun h => by cases h) hlogin

/-- **A device that takes itself for registered holds its private keys** after every step of a run if and only if, when
they are loaded, the keystore can always be read; without them every login uses a null pointer. -/
theorem holdsKeys_iff {d₀ : Device SignKey PrivateKey}
    {tr : List (_ × (Step SignKey PrivateKey PublicKey Seed × Env) × _)}
    (hinit : Init d₀) (hr : (lts lib).Run (fun d a => Allowed lib d a ∧ StoresKeys lib d a) d₀ tr d) :
    ((∀ x ∈ tr, HoldsKeys x.2.2) ↔ ∀ x ∈ tr, LoadsKeys x.1 x.2.1) ∧
      ∀ x ∈ tr, x.2.2.state = none → x.2.2.deviceId ≠ nullUuid → x.2.2.keyDeviceId = x.2.2.deviceId →
        ∀ (env env' : Env) (random : Random SignKey PrivateKey Seed) (importing : Bool),
          (exec (handle lib env' (.onIdentify random importing)) (next lib x.2.2 (.doConnect true, env))).1 =
            .error .nullPointer ↔ ¬ HoldsKeys x.2.2 := by
  refine ⟨hr.forall_iff_of_guard (I := fun d => Inv lib d ∧ HoldsKeys d) ⟨inv_init hinit, ?_⟩
    (fun d a t h ha hst hloads => ?_) fun d a t h ha hst => ?_, fun x _ hs hid hkid _ _ _ _ => login_iff hs hid hkid⟩
  · rw [hinit]
    exact fun hid => absurd rfl hid
  · obtain rfl := Option.some.inj hst
    exact ⟨(restores_next_iff h.1 ha.1).1 ha.2, (holdsKeys_next_iff h.1 h.2 ha.1 ha.2).mpr hloads⟩
  · obtain rfl := Option.some.inj hst
    exact holdsKeys_next_iff h.1 h.2 ha.1 ha.2

end Loaded

theorem holdsKeys_registered : ∃ tr d,
    (lts Sample.lib).Run (fun d a => Allowed Sample.lib d a ∧ StoresKeys Sample.lib d a)
    Sample.start tr d ∧ d.keyDeviceId = Sample.id ∧ ∀ x ∈ tr, HoldsKeys x.2.2 := by
  have hexec : ∃ d, LTS.exec (fun d a => some (next Sample.lib d a)) Sample.ok Sample.start Sample.steps = some d ∧
      d.keyDeviceId = Sample.id := ⟨_, rfl, rfl⟩
  obtain ⟨d, hd, hid⟩ := hexec
  have hok : ∀ d a, Sample.ok d a = true → (Allowed Sample.lib d a ∧ StoresKeys Sample.lib d a) ∧ LoadsKeys d a := by
    intro d a h
    refine ⟨Sample.allowed_of_ok h, ?_⟩
    simp only [Sample.ok, Bool.and_eq_true, Bool.not_eq_true'] at h
    exact fun _ _ _ _ _ => ⟨Or.inr h.1.1.1.1, h.1.1.1.2, h.1.1.2⟩
  obtain ⟨tr, hr⟩ := LTS.exec_run Init hok hd
  have hallowed := hr.mono fun _ _ h => h.1
  exact ⟨tr, d, hallowed, hid, (holdsKeys_iff rfl hallowed).1.mpr fun x hx => (hr.guard x hx).2⟩

end QtDataSync.KeyMaterial
