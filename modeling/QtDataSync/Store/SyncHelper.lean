import QtDataSync.Messages.Message
import QtDataSync.Store.SyncController

/-!
# Store.SyncHelper — the payload of a change

`combine` writes the key of an object, a version, and the JSON text of the object, or a null array for a deletion;
`extract` reads them back in one transaction.  JSON texts are those of `QJsonDocument`, which is taken to read what it
has written.  A payload comes back exactly if the id is a text that `Utf8String` reads back, and whatever else arrives
changes nothing in the store.
-/

namespace QtDataSync.SyncHelper

open QDataStream Messages Messages.Message

/-- `QJsonDocument` for objects: `fromJson` is `none` for a parse error and for a text that is not an object. -/
structure QJsonDocument (Data : Type) where
  empty : Data
  toJson : Data → Bytes
  fromJson : Bytes → Option Data
  fromJson_toJson : ∀ data, fromJson (toJson data) = some data

/-- An `ObjectKey` as it is streamed, with null values. -/
structure StreamedKey where
  typeName : Option Bytes
  id : Option Text
deriving DecidableEq

/-- Null values are equal to empty ones. -/
def StreamedKey.toObjectKey (key : StreamedKey) : ObjectKey :=
  ⟨key.typeName.elim [] (·.1), key.id.elim "" (·.1)⟩

/-- `operator<<(QDataStream &, const ObjectKey &)`. -/
def writeKey (key : StreamedKey) : List UInt8 := byteArray.encode key.typeName ++ utf8String.encode key.id

/-- `operator>>(QDataStream &, ObjectKey &)`. -/
def readKey : Read StreamedKey := do
  let typeName ← readByteArray
  let id ← readUtf8String
  return ⟨typeName, id⟩

section Payload

variable {Data : Type} (json : QJsonDocument Data)

/-- `combine` of an object. -/
def combine (key : StreamedKey) (version : UInt64) (data : Data) : List UInt8 :=
  writeKey key ++ uint64.encode version ++ byteArray.encode (some (json.toJson data))

/-- `combine` of a deletion. -/
def combineDeleted (key : StreamedKey) (version : UInt64) : List UInt8 :=
  writeKey key ++ uint64.encode version ++ byteArray.encode none

/-- The end of the transaction of `extract`, with the object. -/
def parseData (jData : Option Bytes) : Read Data :=
  match jData with
  | none => commitTransaction >>= fun _ => return json.empty
  | some jData =>
    match json.fromJson jData with
    | none => abortTransaction >>= fun _ => return json.empty
    | some obj => commitTransaction >>= fun _ => return obj

/-- The reads of `extract`. -/
def readChange : Read (StreamedKey × UInt64 × Option Bytes) := do
  let key ← readKey
  let version ← readUInt64
  let jData ← readByteArray
  return (key, version, jData)

/-- The stream has not failed, or it throws. -/
def checkStatus {α : Type} (a : α) : Throws α := do
  if (← get).status ≠ .Ok then throwDataStream else return a

/-- `extract`: whether the object has been deleted, its key, the version and the object. -/
def extract (data : List UInt8) : Except MessageException (Bool × StreamedKey × UInt64 × Data) :=
  let op : Throws (Bool × StreamedKey × UInt64 × Data) := do
    startTransaction
    let (key, version, jData) ← readChange
    let obj ← (parseData json jData : Read Data)
    checkStatus (jData.isNone, key, version, obj)
  (Messages.Message.exec op (.ofByteArray data)).1

/-- `SyncController::syncChange` on the data of a change: what is thrown is logged, and leaves the store as it is. -/
def syncChange {Checksum : Type} [LinearOrder Checksum] {jsonHash : Data → Checksum} (enabled : Bool)
    (d : Defaults Data) (index : DataIndex jsonHash) (changeData : List UInt8) : DataIndex jsonHash :=
  if !enabled then index
  else
    match extract json changeData with
    | .error _ => index
    | .ok (remoteDeleted, objKey, remoteVersion, remoteData) =>
      match index.syncChange d
          ⟨objKey.toObjectKey, remoteVersion.toNat, if remoteDeleted then none else some remoteData⟩ with
      | .error _ => index
      | .ok index => index

/-! ## What is read back -/

/-- The key, the version and the JSON text. -/
def changeCodec : Codec UInt8 (StreamedKey × UInt64 × Option Bytes) :=
  (byteArray.prod (utf8String.prod (uint64.prod byteArray))).iso
    (fun x => (⟨x.1, x.2.1⟩, x.2.2.1, x.2.2.2)) (fun x => (x.1.typeName, x.1.id, x.2.1, x.2.2))
    (fun _ => rfl) (fun _ => rfl)

theorem encode_changeCodec (key : StreamedKey) (version : UInt64) (jData : Option Bytes) :
    changeCodec.encode (key, version, jData) = writeKey key ++ uint64.encode version ++ byteArray.encode jData := by
  show byteArray.encode key.typeName ++ (utf8String.encode key.id ++ (uint64.encode version ++ byteArray.encode jData)) = _
  simp only [writeKey, List.append_assoc]

theorem valid_changeCodec (key : StreamedKey) (version : UInt64) (jData : Option Bytes) :
    changeCodec.valid (key, version, jData) = true ↔ ∀ id ∈ key.id, Streamable id.1 := by
  have hv : changeCodec.valid (key, version, jData) = ((byteArray.valid key.typeName &&
      (utf8String.valid key.id && (true && byteArray.valid jData))) && true) := rfl
  rw [hv, valid_byteArray, valid_byteArray, Bool.true_and, Bool.and_true, Bool.and_true, Bool.and_true]
  exact valid_utf8String key.id

theorem reads_readChange : Reads readChange changeCodec.decode := by
  refine Reads.of_eq ((Reads.readByteArray.bind fun typeName => Reads.readUtf8String.bind fun id =>
    Reads.pure (⟨typeName, id⟩ : StreamedKey)).bind fun key => Reads.readUInt64.bind fun version =>
      Reads.readByteArray.bind fun jData => Reads.pure (key, version, jData)) ?_
  simp only [changeCodec, Codec.iso_decode, Codec.prod, bind_assoc, pure_bind]

/-- The object of a JSON text, where there is one. -/
def parsed : Option Bytes → Option Data
  | none => some json.empty
  | some jData => json.fromJson jData

/-- A payload whose JSON text is an object is accepted, whatever follows it. -/
theorem extract_ok {data r : List UInt8} {key : StreamedKey} {version : UInt64} {jData : Option Bytes} {obj : Data}
    (h : changeCodec.decode.run data = some ((key, version, jData), r)) (hobj : parsed json jData = some obj) :
    extract json data = .ok (jData.isNone, key, version, obj) := by
  obtain ⟨w, -, hop⟩ := reads_readChange.run_started (s := .ofByteArray data) h
  have hparse : (parseData json jData).run ((ofByteArray data).started.skip w.length) =
      (obj, (ofByteArray data).committed w.length) := by
    rcases jData with _ | jData
    · rw [← Option.some.inj hobj]
      rfl
    · have hjson : json.fromJson jData = some obj := hobj
      rw [parseData, hjson]
      rfl
  rw [extract, exec_lift_bind, run_startTransaction_outer rfl, exec_lift_bind, hop, exec_lift_bind, hparse]
  rfl

theorem exec_status_ne {α : Type} {a : α} {t : QDataStream} (h : t.status ≠ .Ok) :
    (Messages.Message.exec (checkStatus a) t).1 = .error (.dataStream t.status) := by
  show (Messages.Message.exec (if t.status ≠ .Ok then throwDataStream else pure a) t).1 = _
  rw [if_pos h]
  rfl

theorem status_parseData_ne (jData : Option Bytes) {t : QDataStream} (h : t.status ≠ .Ok) :
    ((parseData json jData).run t).2.status ≠ .Ok := by
  have hcommit : (commitTransaction.run t).2.status ≠ .Ok := by
    rw [status_commitTransaction]
    exact h
  rcases jData with _ | jData
  · exact hcommit
  · rw [parseData]
    rcases json.fromJson jData with _ | obj
    · exact nofun
    · exact hcommit

/-- Everything else ends in an exception. -/
theorem extract_error {data : List UInt8}
    (h : ∀ key version jData r, changeCodec.decode.run data = some ((key, version, jData), r) →
      parsed json jData = none) : ∃ e, extract json data = .error e := by
  rw [extract, exec_lift_bind, run_startTransaction_outer rfl, exec_lift_bind, exec_lift_bind]
  rcases hdec : changeCodec.decode.run data with _ | ⟨⟨key, version, jData⟩, r⟩
  · have hfails := reads_readChange.fails_started (s := .ofByteArray data) hdec
    dsimp only
    exact ⟨_, exec_status_ne (status_parseData_ne json _ hfails.status)⟩
  · obtain ⟨w, -, hop⟩ := reads_readChange.run_started (s := .ofByteArray data) hdec
    have hnone := h key version jData r hdec
    dsimp only
    rw [hop]
    rcases jData with _ | jData
    · exact nomatch hnone
    · have hjson : json.fromJson jData = none := hnone
      have hstatus : ((parseData json (some jData)).run ((ofByteArray data).started.skip w.length)).2.status ≠ .Ok := by
        rw [parseData, hjson]
        exact nofun
      exact ⟨_, exec_status_ne hstatus⟩

/-- What has been accepted, and the payload that it begins with. -/
theorem decode_of_extract {data : List UInt8} {deleted : Bool} {key : StreamedKey} {version : UInt64} {obj : Data}
    (h : extract json data = .ok (deleted, key, version, obj)) :
    ∃ jData r, changeCodec.decode.run data = some ((key, version, jData), r) ∧ parsed json jData = some obj ∧
      deleted = jData.isNone := by
  by_contra hc
  rcases hdec : changeCodec.decode.run data with _ | ⟨⟨key', version', jData⟩, r⟩
  · have hnone : ∃ e, extract json data = .error e := extract_error json (by rw [hdec]; nofun)
    obtain ⟨e, he⟩ := hnone
    rw [he] at h
    exact nomatch h
  · rcases hobj : parsed json jData with _ | obj'
    · have hnone : ∃ e, extract json data = .error e := by
        apply extract_error
        rw [hdec]
        rintro _ _ _ _ ⟨⟩
        exact hobj
      obtain ⟨e, he⟩ := hnone
      rw [he] at h
      exact nomatch h
    · rw [extract_ok json hdec hobj, Except.ok.injEq, Prod.mk.injEq, Prod.mk.injEq, Prod.mk.injEq] at h
      obtain ⟨rfl, rfl, rfl, rfl⟩ := h
      exact hc ⟨jData, r, hdec, hobj, rfl⟩

/-! ## The round trip -/

/-- `combine` with what `extract` returns. -/
def recombine (deleted : Bool) (key : StreamedKey) (version : UInt64) (obj : Data) : List UInt8 :=
  if deleted then combineDeleted key version else combine json key version obj

/-- The payloads of a key come back: those of an object with the object and its hash, those of a deletion as such. -/
structure RoundTrips {Checksum : Type} (jsonHash : Data → Checksum) (key : StreamedKey) : Prop where
  object : ∀ version data, ∃ obj, extract json (combine json key version data) = .ok (false, key, version, obj) ∧
    obj = data ∧ jsonHash obj = jsonHash data
  deletion : ∀ version, extract json (combineDeleted key version) = .ok (true, key, version, json.empty)

/-- What is accepted is accepted again when it is combined, with the same result; anything else changes nothing. -/
structure Sound (data : List UInt8) : Prop where
  recombined : ∀ deleted key version obj, extract json data = .ok (deleted, key, version, obj) →
    extract json (recombine json deleted key version obj) = .ok (deleted, key, version, obj)
  refused : ∀ e, extract json data = .error e →
    ∀ {Checksum : Type} [LinearOrder Checksum] {jsonHash : Data → Checksum} (enabled : Bool) (d : Defaults Data)
      (index : DataIndex jsonHash), syncChange json enabled d index data = index

theorem extract_combine {key : StreamedKey} (hkey : ∀ id ∈ key.id, Streamable id.1) (version : UInt64) (data : Data) :
    extract json (combine json key version data) = .ok (false, key, version, data) := by
  have hdec := changeCodec.decode_append ((valid_changeCodec key version (some (json.toJson data))).mpr hkey) []
  rw [encode_changeCodec, List.append_nil] at hdec
  exact extract_ok json hdec (json.fromJson_toJson data)

theorem extract_combineDeleted {key : StreamedKey} (hkey : ∀ id ∈ key.id, Streamable id.1) (version : UInt64) :
    extract json (combineDeleted key version) = .ok (true, key, version, json.empty) := by
  have hdec := changeCodec.decode_append ((valid_changeCodec key version none).mpr hkey) []
  rw [encode_changeCodec, List.append_nil] at hdec
  exact extract_ok json hdec rfl

/-- The id of what has been accepted is read back. -/
theorem streamable_of_decode {data r : List UInt8} {key : StreamedKey} {version : UInt64} {jData : Option Bytes}
    (h : changeCodec.decode.run data = some ((key, version, jData), r)) : ∀ id ∈ key.id, Streamable id.1 :=
  (valid_changeCodec key version jData).mp (changeCodec.valid_of_decode h)

theorem roundTrips_iff_streamable {Checksum : Type} (jsonHash : Data → Checksum) (key : StreamedKey) :
    RoundTrips json jsonHash key ↔ ∀ id ∈ key.id, Streamable id.1 := by
  constructor
  · intro h
    obtain ⟨jData, r, hdec, -, -⟩ := decode_of_extract json (h.deletion 0)
    exact streamable_of_decode hdec
  · intro h
    exact ⟨fun version data => ⟨data, extract_combine json h version data, rfl, rfl⟩, extract_combineDeleted json h⟩

theorem sound (data : List UInt8) : Sound json data := by
  constructor
  · intro deleted key version obj h
    obtain ⟨jData, r, hdec, hobj, rfl⟩ := decode_of_extract json h
    have hkey := streamable_of_decode hdec
    rcases jData with _ | jData
    · rw [← Option.some.inj hobj]
      exact extract_combineDeleted json hkey version
    · exact extract_combine json hkey version obj
  · intro e he _ _ _ enabled d index
    rw [syncChange, he]
    split <;> rfl

/-- The payloads of a key make the round trip exactly if its id contains no null character and begins with no byte
order mark; whatever arrives is recombined or changes nothing. -/
theorem payload_roundTrips {Checksum : Type} (jsonHash : Data → Checksum) (key : StreamedKey) (data : List UInt8) :
    (RoundTrips json jsonHash key ↔ ∀ id ∈ key.id, Streamable id.1) ∧ Sound json data :=
  ⟨roundTrips_iff_streamable json jsonHash key, sound json data⟩

end Payload

/-- A document of one object, with one text. -/
def emptyDocument : QJsonDocument Unit where
  empty := ()
  toJson _ := ⟨toUtf8 "\x7b\x7d", by decide⟩
  fromJson text := if text.1 = toUtf8 "\x7b\x7d" then some () else none
  fromJson_toJson _ := if_pos rfl

/-- The change of an object whose id contains a null character, or begins with a byte order mark, is refused. -/
theorem extract_combine_refused :
    ¬ RoundTrips emptyDocument id ⟨none, some ⟨"a\x00b", by decide⟩⟩ ∧
      ¬ RoundTrips emptyDocument id ⟨none, some ⟨"\uFEFFa", by decide⟩⟩ := by
  constructor
  · intro h
    exact absurd ((roundTrips_iff_streamable _ _ _).mp h _ rfl) (by decide)
  · intro h
    exact absurd ((roundTrips_iff_streamable _ _ _).mp h _ rfl) (by decide)

end QtDataSync.SyncHelper
