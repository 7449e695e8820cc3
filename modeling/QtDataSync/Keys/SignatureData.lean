import Mathlib.Data.List.Infix
import QtDataSync.Messages.DataStream
import QtDataSync.Store.LocalStore

/-!
# Keys.SignatureData — the data of the MACs under an exchange key

The data of a key update are a decimal number, the name of a cipher scheme, the id of a device and the encrypted key,
one after the other without separators.  A name begins with a letter, no name begins with another one, and an id has
16 bytes: of data with a MAC behind them only the border between the key and the MAC is open
(`signatureData_append_inj`).  The data of a public key begin with a letter as well (`cryptKeyData_append_ne`).
-/

namespace QtDataSync

open QDataStream

namespace QByteArray

/-- `QByteArray::number`. -/
def number (n : UInt32) : QByteArray := (Nat.toDigits 10 n.toNat).map fun c => .ofNat c.toNat

/-- `QByteArray::fromStdString`. -/
def fromStdString (s : String) : QByteArray := s.toList.map fun c => .ofNat c.toNat

def isDigit (b : UInt8) : Bool := 48 ≤ b && b ≤ 57

end QByteArray

open QByteArray

/-- The schemes that `createScheme` knows. -/
inductive CipherScheme where
  | AES_EAX
  | AES_GCM
  | TWOFISH_EAX
  | TWOFISH_GCM
  | SERPENT_EAX
  | SERPENT_GCM
  | IDEA_EAX
deriving DecidableEq, Repr

namespace CipherScheme

/-- `StaticAlgorithmName`. -/
def name : CipherScheme → QByteArray
  | AES_EAX => fromStdString "AES/EAX"
  | AES_GCM => fromStdString "AES/GCM"
  | TWOFISH_EAX => fromStdString "Twofish/EAX"
  | TWOFISH_GCM => fromStdString "Twofish/GCM"
  | SERPENT_EAX => fromStdString "Serpent/EAX"
  | SERPENT_GCM => fromStdString "Serpent/GCM"
  | IDEA_EAX => fromStdString "IDEA/EAX"

/-- The size of a CMAC: the block size of the cipher. -/
def digestSize : CipherScheme → ℕ
  | IDEA_EAX => 8
  | _ => 16

/-- `CryptoController::createScheme`. -/
def createScheme (name : QByteArray) : Option CipherScheme :=
  [AES_EAX, AES_GCM, TWOFISH_EAX, TWOFISH_GCM, SERPENT_EAX, SERPENT_GCM, IDEA_EAX].find? fun s => s.name == name

end CipherScheme

/-- The schemes that `setEncryptionScheme` knows. -/
inductive EncryptionScheme where
  | RSA_OAEP_SHA3_512
  | ECIES_ECP_SHA3_512
deriving DecidableEq, Repr

namespace EncryptionScheme

/-- `StaticAlgorithmName`. -/
def name : EncryptionScheme → QByteArray
  | RSA_OAEP_SHA3_512 => fromStdString "RSA/OAEP-MGF1(SHA3-512)"
  | ECIES_ECP_SHA3_512 => fromStdString "ECIES"

/-- `AsymmetricCrypto::setEncryptionScheme`. -/
def setEncryptionScheme (name : QByteArray) : Option EncryptionScheme :=
  [RSA_OAEP_SHA3_512, ECIES_ECP_SHA3_512].find? fun s => s.name == name

end EncryptionScheme

/-! ### Messages -/

structure WelcomeMessage where
  hasChanges : Bool
  keyIndex : UInt32
  scheme : QByteArray
  key : QByteArray
  cmac : QByteArray
deriving DecidableEq

/-- `(deviceId, scheme, key, cmac)`. -/
structure DeviceKeysMessage where
  keyIndex : UInt32
  duplicated : Bool
  devices : List (Uuid × QByteArray × QByteArray × QByteArray)

/-- A `NewKeyMessage` with `KeyUpdate`s `(deviceId, key, cmac)`. -/
structure NewKeyMessage where
  keyIndex : UInt32
  cmac : QByteArray
  scheme : QByteArray
  deviceKeys : List (Uuid × QByteArray × QByteArray)

/-- The data of a key update. -/
def signatureData (keyIndex : UInt32) (scheme : QByteArray) (deviceId : Uuid) (key : QByteArray) : QByteArray :=
  number keyIndex ++ scheme ++ deviceId.1 ++ key

namespace WelcomeMessage

def hasKeyUpdate (m : WelcomeMessage) : Bool := !m.key.isEmpty

def signatureData (m : WelcomeMessage) (deviceId : Uuid) : QByteArray :=
  QtDataSync.signatureData m.keyIndex m.scheme deviceId m.key

end WelcomeMessage

def NewKeyMessage.signatureData (m : NewKeyMessage) (deviceInfo : Uuid × QByteArray) : QByteArray :=
  QtDataSync.signatureData m.keyIndex m.scheme deviceInfo.1 deviceInfo.2

/-- The data of a public key. -/
def cryptKeyData (scheme : EncryptionScheme) (key : QByteArray) : QByteArray := scheme.name ++ key

/-! ### What begins the data -/

theorem toNat_digit {n : ℕ} {c : Char} (hc : c ∈ Nat.toDigits 10 n) :
    48 ≤ c.toNat ∧ c.toNat ≤ 57 ∧ (UInt8.ofNat c.toNat).toNat = c.toNat := by
  have hdigit := Nat.isDigit_of_mem_toDigits (by decide) le_rfl hc
  simp only [Char.isDigit, Bool.and_eq_true, decide_eq_true_eq, ge_iff_le, UInt32.le_iff_toNat_le] at hdigit
  have hle : 48 ≤ c.toNat ∧ c.toNat ≤ 57 := hdigit
  refine ⟨hle.1, hle.2, UInt8.toNat_ofNat_of_lt' ?_⟩
  exact lt_of_le_of_lt hle.2 (by decide)

theorem isDigit_of_mem_number {n : UInt32} {b : UInt8} (h : b ∈ number n) : isDigit b = true := by
  obtain ⟨c, hc, rfl⟩ := List.mem_map.mp h
  obtain ⟨hge, hle, hc'⟩ := toNat_digit hc
  simp only [isDigit, Bool.and_eq_true, decide_eq_true_eq, UInt8.le_iff_toNat_le, hc']
  exact ⟨hge, hle⟩

theorem number_injective : Function.Injective number := by
  intro n n' h
  have hchars : ∀ n : UInt32, (number n).map (fun b => Char.ofNat b.toNat) = Nat.toDigits 10 n.toNat := by
    intro n
    rw [number, List.map_map]
    refine (List.map_congr_left fun c hc => ?_).trans (List.map_id _)
    rw [Function.comp_apply, (toNat_digit hc).2.2, Char.ofNat_toNat, id]
  have hdigits : Nat.toDigits 10 n.toNat = Nat.toDigits 10 n'.toNat := by rw [← hchars, ← hchars, h]
  have hvalue := congrArg (fun l => Nat.ofDigitChars 10 l 0) hdigits
  simp only [Nat.ofDigitChars_toDigits (by decide : 1 < 10) le_rfl] at hvalue
  exact UInt32.toNat_inj.mp hvalue

/-- A number ends where no digit follows. -/
theorem number_append_inj {n n' : UInt32} {b b' : UInt8} {r r' : QByteArray} (hb : isDigit b = false)
    (hb' : isDigit b' = false) (h : number n ++ b :: r = number n' ++ b' :: r') : n = n' ∧ b :: r = b' :: r' := by
  have hdigits : ∀ {n : UInt32} {b : UInt8} {r : QByteArray}, isDigit b = false →
      (number n ++ b :: r).takeWhile isDigit = number n := by
    intro n b r hb
    rw [List.takeWhile_append_of_pos fun _ => isDigit_of_mem_number, List.takeWhile_cons_of_neg (by simp [hb]),
      List.append_nil]
  have hnumber : number n = number n' := by
    rw [← hdigits hb (r := r), h, hdigits hb']
  refine ⟨number_injective hnumber, ?_⟩
  rw [hnumber] at h
  exact List.append_cancel_left h

theorem CipherScheme.exists_name (s : CipherScheme) : ∃ b r, s.name = b :: r ∧ isDigit b = false := by
  cases s <;> exact ⟨_, _, rfl, by decide⟩

theorem EncryptionScheme.exists_name (s : EncryptionScheme) : ∃ b r, s.name = b :: r ∧ isDigit b = false := by
  cases s <;> exact ⟨_, _, rfl, by decide⟩

/-- No name of a scheme begins with another one. -/
theorem CipherScheme.name_append_inj {s s' : CipherScheme} {r r' : QByteArray} (h : s.name ++ r = s'.name ++ r') :
    s = s' ∧ r = r' := by
  have hbegins : ∀ s s' : CipherScheme, s.name <+: s'.name → s = s' := by
    intro s s'
    cases s <;> cases s' <;> decide
  have hs : s = s' := by
    rcases List.prefix_or_prefix_of_prefix (List.prefix_append s.name r) (h ▸ List.prefix_append s'.name r') with hs | hs
    · exact hbegins s s' hs
    · exact (hbegins s' s hs).symm
  subst hs
  exact ⟨rfl, List.append_cancel_left h⟩

theorem CipherScheme.createScheme_name {name : QByteArray} {s : CipherScheme} (h : createScheme name = some s) :
    s.name = name := by
  simpa using List.find?_some h

/-- **Two key updates that are alike with their MACs** differ at most in the border between the key and the MAC. -/
theorem signatureData_append_inj {keyIndex keyIndex' : UInt32} {s s' : CipherScheme} {deviceId deviceId' : Uuid}
    {key key' mac mac' : QByteArray}
    (h : signatureData keyIndex s.name deviceId key ++ mac = signatureData keyIndex' s'.name deviceId' key' ++ mac') :
    keyIndex = keyIndex' ∧ s = s' ∧ deviceId = deviceId' ∧ key ++ mac = key' ++ mac' := by
  simp only [signatureData, List.append_assoc] at h
  obtain ⟨b, r, hname, hb⟩ := s.exists_name
  obtain ⟨b', r', hname', hb'⟩ := s'.exists_name
  obtain ⟨hindex, hrest⟩ : keyIndex = keyIndex' ∧ s.name ++ (deviceId.1 ++ (key ++ mac)) =
      s'.name ++ (deviceId'.1 ++ (key' ++ mac')) := by
    rw [hname, hname'] at h ⊢
    exact number_append_inj hb hb' h
  obtain ⟨hs, hid⟩ := CipherScheme.name_append_inj hrest
  obtain ⟨hdevice, hkey⟩ := List.append_inj hid (deviceId.2.trans deviceId'.2.symm)
  exact ⟨hindex, hs, Subtype.ext hdevice, hkey⟩

/-- **The data of a public key are no key update**, whatever follows them. -/
theorem cryptKeyData_append_ne {keyIndex : UInt32} {scheme : QByteArray} {deviceId : Uuid} {key mac key' mac' : QByteArray}
    {s : EncryptionScheme} : signatureData keyIndex scheme deviceId key ++ mac ≠ cryptKeyData s key' ++ mac' := by
  intro h
  obtain ⟨b, r, hname, hb⟩ := s.exists_name
  obtain ⟨c, l, hnumber⟩ : ∃ c l, number keyIndex = c :: l :=
    List.exists_cons_of_ne_nil (by simp [number, Nat.toDigits_ne_nil])
  have hc := isDigit_of_mem_number (hnumber ▸ List.mem_cons_self : c ∈ number keyIndex)
  rw [signatureData, cryptKeyData, hnumber, hname] at h
  simp only [List.cons_append, List.cons.injEq] at h
  rw [h.1, hb] at hc
  cases hc

end QtDataSync
