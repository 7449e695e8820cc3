import Mathlib.Data.List.Lex
import QtDataSync.Store.SyncController

/-!
# Store.JsonHash — the checksum of an object

`SyncHelper::jsonHash` feeds the names and the leaves of an object to the hash, one after the other and nothing
between them.  What a device takes for the same data are objects with the same names and leaves when these are written
without quotes, brackets, colons and commas.
-/

namespace QtDataSync

/-- A `QString`: UTF-16 code units, which need not be valid. -/
abbrev QString := List UInt16

def isHighSurrogate (u : UInt16) : Bool := 0xD800 ≤ u && u < 0xDC00

def isLowSurrogate (u : UInt16) : Bool := 0xDC00 ≤ u && u < 0xE000

/-- The UTF-8 form of a code point. -/
def utf8Bytes (c : ℕ) : List UInt8 :=
  if c < 0x80 then [.ofNat c]
  else if c < 0x800 then [.ofNat (0xC0 + c / 64), .ofNat (0x80 + c % 64)]
  else if c < 0x10000 then [.ofNat (0xE0 + c / 4096), .ofNat (0x80 + c / 64 % 64), .ofNat (0x80 + c % 64)]
  else [.ofNat (0xF0 + c / 262144), .ofNat (0x80 + c / 4096 % 64), .ofNat (0x80 + c / 64 % 64), .ofNat (0x80 + c % 64)]

/-- `QUtf8::convertFromUnicode`; an unpaired surrogate becomes a question mark. -/
def QString.toUtf8 : QString → List UInt8
  | [] => []
  | u :: s =>
    if !isHighSurrogate u && !isLowSurrogate u then utf8Bytes u.toNat ++ toUtf8 s
    else match s with
      | [] => [0x3F]
      | low :: rest =>
        if isHighSurrogate u && isLowSurrogate low then
          utf8Bytes (0x10000 + (u.toNat - 0xD800) * 1024 + (low.toNat - 0xDC00)) ++ toUtf8 rest
        else 0x3F :: toUtf8 (low :: rest)

/-- `QJsonValue`, without `Undefined`, which no array and no object contains. -/
inductive QJsonValue (Number : Type*) where
  | Null
  | Bool (b : Bool)
  | Double (x : Number)
  | String (s : QString)
  | Array (elements : List (QJsonValue Number))
  | Object (members : List (QString × QJsonValue Number))

namespace QJsonValue

variable {Number : Type*}

mutual

/-- The members of all objects are in ascending order of their keys. -/
def Sorted : QJsonValue Number → Prop
  | .Array elements => SortedElements elements
  | .Object members => (members.map Prod.fst).Pairwise (· < ·) ∧ SortedMembers members
  | _ => True

def SortedElements : List (QJsonValue Number) → Prop
  | [] => True
  | value :: elements => value.Sorted ∧ SortedElements elements

def SortedMembers : List (QString × QJsonValue Number) → Prop
  | [] => True
  | (_, value) :: members => value.Sorted ∧ SortedMembers members

end

end QJsonValue

/-- `QJsonObject`: the members by ascending keys. -/
structure QJsonObject (Number : Type*) where
  members : List (QString × QJsonValue Number)
  sorted : (QJsonValue.Object members).Sorted

/-- `QCryptographicHash`: what has been added. -/
abbrev QCryptographicHash := List UInt8

def QCryptographicHash.addData (hash : QCryptographicHash) (data : List UInt8) : QCryptographicHash := hash ++ data

namespace SyncHelper

variable {Number : Type*}

mutual

/-- `hashNext`; `number` is `QByteArray::number` with the shortest digits that denote the number. -/
def hashNext (number : Number → List UInt8) (hash : QCryptographicHash) : QJsonValue Number → QCryptographicHash
  | .Null => hash.addData [0x6E, 0x75, 0x6C, 0x6C]
  | .Bool b => hash.addData (if b then [0x74, 0x72, 0x75, 0x65] else [0x66, 0x61, 0x6C, 0x73, 0x65])
  | .Double x => hash.addData (number x)
  | .String s => hash.addData s.toUtf8
  | .Array elements => hashElements number hash elements
  | .Object members => hashMembers number hash members

/-- The loop over an array. -/
def hashElements (number : Number → List UInt8) (hash : QCryptographicHash) :
    List (QJsonValue Number) → QCryptographicHash
  | [] => hash
  | value :: elements => hashElements number (hashNext number hash value) elements

/-- The loop over an object. -/
def hashMembers (number : Number → List UInt8) (hash : QCryptographicHash) :
    List (QString × QJsonValue Number) → QCryptographicHash
  | [] => hash
  | (key, value) :: members => hashMembers number (hashNext number (hash.addData key.toUtf8) value) members

end

/-- `SyncHelper::jsonHash`. -/
def jsonHash {Checksum : Type*} (number : Number → List UInt8) (sha3 : List UInt8 → Checksum)
    (object : QJsonObject Number) : Checksum :=
  sha3 (hashNext number [] (.Object object.members))

/-! ## What an object spells -/

mutual

/-- The names and leaves of a value, in their order. -/
def words (number : Number → List UInt8) : QJsonValue Number → List (List UInt8)
  | .Null => [[0x6E, 0x75, 0x6C, 0x6C]]
  | .Bool true => [[0x74, 0x72, 0x75, 0x65]]
  | .Bool false => [[0x66, 0x61, 0x6C, 0x73, 0x65]]
  | .Double x => [number x]
  | .String s => [s.toUtf8]
  | .Array elements => elementWords number elements
  | .Object members => memberWords number members

def elementWords (number : Number → List UInt8) : List (QJsonValue Number) → List (List UInt8)
  | [] => []
  | value :: elements => words number value ++ elementWords number elements

def memberWords (number : Number → List UInt8) : List (QString × QJsonValue Number) → List (List UInt8)
  | [] => []
  | (key, value) :: members => key.toUtf8 :: (words number value ++ memberWords number members)

end

mutual

/-- The hash gets the words of the value. -/
theorem hashNext_eq (number : Number → List UInt8) (hash : QCryptographicHash) :
    ∀ value : QJsonValue Number, hashNext number hash value = hash ++ (words number value).flatten
  | .Null => by simp [hashNext, words, QCryptographicHash.addData]
  | .Bool true => by simp [hashNext, words, QCryptographicHash.addData]
  | .Bool false => by simp [hashNext, words, QCryptographicHash.addData]
  | .Double x => by simp [hashNext, words, QCryptographicHash.addData]
  | .String s => by simp [hashNext, words, QCryptographicHash.addData]
  | .Array elements => by
    rw [hashNext, words]
    exact hashElements_eq number hash elements
  | .Object members => by
    rw [hashNext, words]
    exact hashMembers_eq number hash members

theorem hashElements_eq (number : Number → List UInt8) (hash : QCryptographicHash) :
    ∀ elements : List (QJsonValue Number),
      hashElements number hash elements = hash ++ (elementWords number elements).flatten
  | [] => by simp [hashElements, elementWords]
  | value :: elements => by
    rw [hashElements, elementWords, hashElements_eq number _ elements, hashNext_eq number hash value,
      List.flatten_append, List.append_assoc]

theorem hashMembers_eq (number : Number → List UInt8) (hash : QCryptographicHash) :
    ∀ members : List (QString × QJsonValue Number),
      hashMembers number hash members = hash ++ (memberWords number members).flatten
  | [] => by simp [hashMembers, memberWords]
  | (key, value) :: members => by
    rw [hashMembers, memberWords, hashMembers_eq number _ members, hashNext_eq number _ value,
      QCryptographicHash.addData, List.flatten_cons, List.flatten_append, List.append_assoc, List.append_assoc]

end

/-- The object without quotes, brackets, colons and commas. -/
def spelling (number : Number → List UInt8) (object : QJsonObject Number) : List UInt8 :=
  (memberWords number object.members).flatten

section

variable {Checksum : Type*} {number : Number → List UInt8} {sha3 : List UInt8 → Checksum}

theorem jsonHash_eq (object : QJsonObject Number) : jsonHash number sha3 object = sha3 (spelling number object) := by
  rw [jsonHash, hashNext_eq, List.nil_append, words, spelling]

theorem jsonHash_eq_iff (hsha : Function.Injective sha3) {a b : QJsonObject Number} :
    jsonHash number sha3 a = jsonHash number sha3 b ↔ spelling number a = spelling number b := by
  rw [jsonHash_eq, jsonHash_eq]
  exact hsha.eq_iff

end

end SyncHelper

/-! ## What a device takes for identical -/

namespace SyncController

open LocalStore

section

variable {Data Checksum : Type*} {jsonHash : Data → Checksum} [LinearOrder Checksum]

/-- Local and remote data of one version are identical for the device: the local change needs no upload any more. -/
def TreatsAsIdentical (d : Defaults Data) (r : Row jsonHash) (c : Change Data) : Prop :=
  syncChange d (some r) c = .ok (some { r with changed := false })

/-- Data of one version are identical for a device exactly if they have the same checksum. -/
theorem treatsAsIdentical_iff {d : Defaults Data} {r : Row jsonHash} {c : Change Data} {a b : Data}
    (ha : r.content = some a) (hb : c.data = some b) (hv : r.version = c.version) :
    TreatsAsIdentical d r c ↔ jsonHash a = jsonHash b := by
  constructor
  · intro h
    -- the version stays, so there was no tie to decide
    rw [TreatsAsIdentical] at h
    generalize he : (some { r with changed := false } : Entry jsonHash) = e' at h
    cases syncChange_outcome h with
    | newer hlt => omega
    | taken hlt => exact absurd (hlt r rfl) (by omega)
    | identical _ _ hsame =>
      rw [ha, hb] at hsame
      exact Option.some.inj hsame
    | echo _ hnone =>
      rw [hb] at hnone
      cases hnone
    | tie _ _ _ hbump =>
      rw [← Option.some.inj he] at hbump
      have hversion : r.version = c.version + 1 := hbump
      omega
    | erased _ hnone =>
      rw [hb] at hnone
      cases hnone
  · intro h
    obtain ⟨version, _ | file, changed⟩ := r
    · cases ha
    · have hdata : file.data = a := Option.some.inj ha
      have hsum : file.checksum = jsonHash b := by rw [file.checksum_eq, hdata, h]
      obtain rfl : version = c.version := hv
      rw [TreatsAsIdentical, syncChange, LocalStore.loadChangeInfo, hb]
      dsimp only
      rw [if_neg (lt_irrefl _), if_pos rfl, if_neg (not_not.mpr hsum), markUnchanged_change]

end

/-- **Conflict detection.**  Checksums, and with them the changes that a device takes for its own data, tell two
objects apart exactly if they are spelled differently. -/
theorem detects_iff {Number Checksum : Type*} [LinearOrder Checksum] (number : Number → List UInt8)
    {sha3 : List UInt8 → Checksum} (hsha : Function.Injective sha3) (a b : QJsonObject Number) :
    ((SyncHelper.jsonHash number sha3 a = SyncHelper.jsonHash number sha3 b ↔ a = b) ∧
      ∀ (d : Defaults (QJsonObject Number)) (r : Row (SyncHelper.jsonHash number sha3))
        (c : Change (QJsonObject Number)), r.content = some a → c.data = some b → r.version = c.version →
        (TreatsAsIdentical d r c ↔ a = b)) ↔
      (a ≠ b → SyncHelper.spelling number a ≠ SyncHelper.spelling number b) := by
  constructor
  · rintro ⟨h, -⟩ hne hsame
    exact hne (h.mp ((SyncHelper.jsonHash_eq_iff hsha).mpr hsame))
  · intro h
    have hiff : SyncHelper.jsonHash number sha3 a = SyncHelper.jsonHash number sha3 b ↔ a = b := by
      rw [SyncHelper.jsonHash_eq_iff hsha]
      constructor
      · intro hsame
        by_contra hne
        exact h hne hsame
      · rintro rfl
        rfl
    exact ⟨hiff, fun d r c ha hb hv => (treatsAsIdentical_iff ha hb hv).trans hiff⟩

/-! ### Data that are spelled alike -/

namespace Sample

/-- The object with one member, of the name `a`. -/
def single (value : QJsonValue ℕ) (h : value.Sorted) : QJsonObject ℕ :=
  ⟨[([0x61], value)], List.pairwise_singleton _ _, h, trivial⟩

theorem single_inj {value value' : QJsonValue ℕ} {h : value.Sorted} {h' : value'.Sorted}
    (he : single value h = single value' h') : value = value' :=
  (Prod.mk.inj (List.cons.inj (congrArg QJsonObject.members he)).1).2

/-- A digest: the bytes as numbers. -/
def sha3 (data : List UInt8) : List ℕ := data.map UInt8.toNat

theorem sha3_injective : Function.Injective sha3 := List.map_injective_iff.mpr fun _ _ h => UInt8.toNat_inj.mp h

def number (x : ℕ) : List UInt8 := (Nat.toDigits 10 x).map fun c => .ofNat c.toNat

def defaults : Defaults (QJsonObject ℕ) := ⟨false, .PreferChanged, none⟩

def one : QJsonObject ℕ := single (.Double 1) trivial

def two : QJsonObject ℕ := single (.Double 2) trivial

/-- `null`, and the text `null`. -/
def null : QJsonObject ℕ := single .Null trivial

def nullText : QJsonObject ℕ := single (.String [0x6E, 0x75, 0x6C, 0x6C]) trivial

/-- `[1, 23]` and `[12, 3]`. -/
def array : QJsonObject ℕ := single (.Array [.Double 1, .Double 23]) ⟨trivial, trivial, trivial⟩

def array' : QJsonObject ℕ := single (.Array [.Double 12, .Double 3]) ⟨trivial, trivial, trivial⟩

/-- A row with changed data of version 1, as the other device has changed data of version 1. -/
def changed (a : QJsonObject ℕ) : Row (SyncHelper.jsonHash number sha3) := ⟨1, some (.write a), true⟩

def received (b : QJsonObject ℕ) : Change (QJsonObject ℕ) := ⟨⟨[1], "a"⟩, 1, some b⟩

theorem identical_of_spelling {a b : QJsonObject ℕ} (h : SyncHelper.spelling number a = SyncHelper.spelling number b) :
    TreatsAsIdentical defaults (changed a) (received b) := by
  have hhash : SyncHelper.jsonHash number sha3 a = SyncHelper.jsonHash number sha3 b :=
    (SyncHelper.jsonHash_eq_iff sha3_injective).mpr h
  exact (treatsAsIdentical_iff (r := changed a) (c := received b) rfl rfl rfl).mpr hhash

end Sample

/-- The numbers 1 and 2 are told apart. -/
theorem detects_numbers : SyncHelper.jsonHash Sample.number Sample.sha3 Sample.one ≠
    SyncHelper.jsonHash Sample.number Sample.sha3 Sample.two ∧
      ¬ TreatsAsIdentical Sample.defaults (Sample.changed Sample.one) (Sample.received Sample.two) := by
  have hne : Sample.one ≠ Sample.two := fun h => nomatch Sample.single_inj h
  have h := (detects_iff Sample.number Sample.sha3_injective Sample.one Sample.two).mpr fun _ => by decide
  refine ⟨fun hsame => hne (h.1.mp hsame), fun hsame => hne ?_⟩
  exact (h.2 Sample.defaults (Sample.changed Sample.one) (Sample.received Sample.two) rfl rfl rfl).mp hsame

/-- Two devices have different data, and take them for identical: neither uploads its data any more. -/
theorem null_not_detected :
    (Sample.null ≠ Sample.nullText ∧
      TreatsAsIdentical Sample.defaults (Sample.changed Sample.null) (Sample.received Sample.nullText)) ∧
    Sample.array ≠ Sample.array' ∧
      TreatsAsIdentical Sample.defaults (Sample.changed Sample.array) (Sample.received Sample.array') := by
  have harray : Sample.array ≠ Sample.array' := by
    intro h
    have hlist := Sample.single_inj h
    simp at hlist
  have hnull : Sample.null ≠ Sample.nullText := fun h => nomatch Sample.single_inj h
  exact ⟨⟨hnull, Sample.identical_of_spelling (by decide)⟩, harray, Sample.identical_of_spelling (by decide)⟩

end SyncController

end QtDataSync
