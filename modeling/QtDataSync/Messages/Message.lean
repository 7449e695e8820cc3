import Mathlib.Data.List.Nodup
import QtDataSync.Lib.Tagged
import QtDataSync.Messages.Utf8String

/-!
# Messages.Message — the message classes and how they are streamed

A message is written as its name and then property by property, in the order of its meta object: first those it
inherits.  `deserializeMessageTo` reads the properties in one transaction and then has the message validate itself.
A property of an enumeration is streamed as its integer value.
-/

namespace QtDataSync.Messages

open QDataStream

/-- The types of the properties. -/
inductive MetaType where
  | bool
  | uint
  | qulonglong
  | errorType
  | byteArray
  | utf8String
  | string
  | uuid
  | versionNumber
  | deviceInfos
  | deviceKeys
  | keyUpdates
deriving DecidableEq, Repr

namespace MetaType

/-- The values of a type; the lists are those of `DevicesMessage`, `DeviceKeysMessage` and `NewKeyMessage`. -/
def Value : MetaType → Type
  | bool => Bool
  | uint => UInt32
  | qulonglong => UInt64
  | errorType => Int32
  | byteArray => Option Bytes
  | utf8String => Option Text
  | string => Option Units
  | uuid => Uuid
  | versionNumber => Elements Int32
  | deviceInfos => Elements (Uuid × Option Text × Option Bytes)
  | deviceKeys => Elements (Uuid × Option Bytes × Option Bytes × Option Bytes)
  | keyUpdates => Elements (Uuid × Option Bytes × Option Bytes)

/-- `QMetaType::load`: the operator `>>` of the type. -/
def load : (t : MetaType) → Read t.Value
  | bool => readBool
  | uint => readUInt32
  | qulonglong => readUInt64
  | errorType => readInt32
  | byteArray => readByteArray
  | utf8String => readUtf8String
  | string => readString
  | uuid => readUuid
  | versionNumber => readList readInt32
  | deviceInfos => readList (transaction do
      let deviceId ← readUuid
      let name ← readUtf8String
      let fingerprint ← readByteArray
      return (deviceId, name, fingerprint))
  | deviceKeys => readList (transaction do
      let deviceId ← readUuid
      let scheme ← readByteArray
      let key ← readByteArray
      let mac ← readByteArray
      return (deviceId, scheme, key, mac))
  | keyUpdates => readList (transaction do
      let deviceId ← readUuid
      let key ← readByteArray
      let cmac ← readByteArray
      return (deviceId, key, cmac))

/-- The operators `<<` and `>>` of the type. -/
def codec : (t : MetaType) → Codec UInt8 t.Value
  | bool => QDataStream.bool
  | uint => uint32
  | qulonglong => uint64
  | errorType => int32
  | byteArray => QDataStream.byteArray
  | utf8String => QDataStream.utf8String
  | string => QDataStream.string
  | uuid => QDataStream.uuid
  | versionNumber => list int32
  | deviceInfos => list (QDataStream.uuid.prod (QDataStream.utf8String.prod QDataStream.byteArray))
  | deviceKeys => list (QDataStream.uuid.prod (QDataStream.byteArray.prod
      (QDataStream.byteArray.prod QDataStream.byteArray)))
  | keyUpdates => list (QDataStream.uuid.prod (QDataStream.byteArray.prod QDataStream.byteArray))

/-- `QMetaType::save`: the operator `<<` of the type. -/
def save (t : MetaType) : t.Value → List UInt8 := t.codec.encode

theorem reads_load (t : MetaType) : Reads t.load t.codec.decode := by
  rcases t with _ | _ | _ | _ | _ | _ | _ | _ | _ | _ | _ | _
  · exact Reads.readBool
  · exact Reads.readUInt32
  · exact Reads.readUInt64
  · exact Reads.readInt32
  · exact Reads.readByteArray
  · exact Reads.readUtf8String
  · exact Reads.readString
  · exact Reads.readUuid
  · exact Reads.readInt32.readList
  · refine Reads.readList (Reads.transaction ?_)
    refine Reads.readUuid.bind fun deviceId => ?_
    refine (Reads.readUtf8String.bind fun name => Reads.readByteArray.bind fun fingerprint =>
      Reads.pure (deviceId, name, fingerprint)).of_eq ?_
    simp only [Codec.prod, bind_assoc, pure_bind]
  · refine Reads.readList (Reads.transaction ?_)
    refine Reads.readUuid.bind fun deviceId => ?_
    refine (Reads.readByteArray.bind fun scheme => Reads.readByteArray.bind fun key => Reads.readByteArray.bind fun mac =>
      Reads.pure (deviceId, scheme, key, mac)).of_eq ?_
    simp only [Codec.prod, bind_assoc, pure_bind]
  · refine Reads.readList (Reads.transaction ?_)
    refine Reads.readUuid.bind fun deviceId => ?_
    refine (Reads.readByteArray.bind fun key => Reads.readByteArray.bind fun cmac =>
      Reads.pure (deviceId, key, cmac)).of_eq ?_
    simp only [Codec.prod, bind_assoc, pure_bind]

end MetaType

/-- A `Q_PROPERTY`. -/
structure Property where
  name : String
  type : MetaType
deriving DecidableEq, Repr

/-- The classes that inherit `Message`. -/
inductive MessageType where
  | Init
  | Identify
  | RegisterBase
  | Register
  | Access
  | Login
  | Account
  | Grant
  | Change
  | ChangeAck
  | DeviceChange
  | DeviceChangeAck
  | Changed
  | ChangedInfo
  | LastChanged
  | ChangedAck
  | Welcome
  | DeviceKeys
  | ListDevices
  | Devices
  | Error
  | KeyChange
  | MacUpdate
  | MacUpdateAck
  | NewKey
  | NewKeyAck
  | Proof
  | Deny
  | Accept
  | AcceptAck
  | Remove
  | RemoveAck
  | Sync
deriving DecidableEq, Repr

namespace MessageType

/-- `QMetaObject::className`. -/
def className : MessageType → String
  | Init => "QtDataSync::InitMessage"
  | Identify => "QtDataSync::IdentifyMessage"
  | RegisterBase => "QtDataSync::RegisterBaseMessage"
  | Register => "QtDataSync::RegisterMessage"
  | Access => "QtDataSync::AccessMessage"
  | Login => "QtDataSync::LoginMessage"
  | Account => "QtDataSync::AccountMessage"
  | Grant => "QtDataSync::GrantMessage"
  | Change => "QtDataSync::ChangeMessage"
  | ChangeAck => "QtDataSync::ChangeAckMessage"
  | DeviceChange => "QtDataSync::DeviceChangeMessage"
  | DeviceChangeAck => "QtDataSync::DeviceChangeAckMessage"
  | Changed => "QtDataSync::ChangedMessage"
  | ChangedInfo => "QtDataSync::ChangedInfoMessage"
  | LastChanged => "QtDataSync::LastChangedMessage"
  | ChangedAck => "QtDataSync::ChangedAckMessage"
  | Welcome => "QtDataSync::WelcomeMessage"
  | DeviceKeys => "QtDataSync::DeviceKeysMessage"
  | ListDevices => "QtDataSync::ListDevicesMessage"
  | Devices => "QtDataSync::DevicesMessage"
  | Error => "QtDataSync::ErrorMessage"
  | KeyChange => "QtDataSync::KeyChangeMessage"
  | MacUpdate => "QtDataSync::MacUpdateMessage"
  | MacUpdateAck => "QtDataSync::MacUpdateAckMessage"
  | NewKey => "QtDataSync::NewKeyMessage"
  | NewKeyAck => "QtDataSync::NewKeyAckMessage"
  | Proof => "QtDataSync::ProofMessage"
  | Deny => "QtDataSync::DenyMessage"
  | Accept => "QtDataSync::AcceptMessage"
  | AcceptAck => "QtDataSync::AcceptAckMessage"
  | Remove => "QtDataSync::RemoveMessage"
  | RemoveAck => "QtDataSync::RemoveAckMessage"
  | Sync => "QtDataSync::SyncMessage"

/-- `Message::msgNameImpl`: without the namespace and without `Message`. -/
def msgNameImpl (className : String) : List UInt8 :=
  let name := (toUtf8 className).drop 12
  name.take (name.length - 7)

def messageName (T : MessageType) : Bytes := ⟨msgNameImpl T.className, by cases T <;> decide +kernel⟩

/-- The class that the class is derived from, if it is not `Message`. -/
def superClass : MessageType → Option MessageType
  | Identify | RegisterBase | Login => some Init
  | Register | Access => some RegisterBase
  | Grant => some Account
  | DeviceChange => some Change
  | DeviceChangeAck => some ChangeAck
  | ChangedInfo => some Changed
  | NewKey => some MacUpdate
  | NewKeyAck => some MacUpdateAck
  | _ => none

/-- The properties that the class itself declares. -/
def ownProperties : MessageType → List Property
  | Init => [⟨"protocolVersion", .versionNumber⟩, ⟨"nonce", .byteArray⟩]
  | Identify => [⟨"uploadLimit", .uint⟩]
  | RegisterBase => [⟨"signAlgorithm", .byteArray⟩, ⟨"signKey", .byteArray⟩,
      ⟨"cryptAlgorithm", .byteArray⟩, ⟨"cryptKey", .byteArray⟩, ⟨"deviceName", .utf8String⟩]
  | Register => [⟨"cmac", .byteArray⟩]
  | Access => [⟨"pNonce", .byteArray⟩, ⟨"partnerId", .uuid⟩, ⟨"macscheme", .byteArray⟩,
      ⟨"cmac", .byteArray⟩, ⟨"trustmac", .byteArray⟩]
  | Login => [⟨"deviceId", .uuid⟩, ⟨"deviceName", .utf8String⟩]
  | Account => [⟨"deviceId", .uuid⟩]
  | Grant => [⟨"index", .uint⟩, ⟨"scheme", .byteArray⟩, ⟨"secret", .byteArray⟩]
  | Change => [⟨"dataId", .byteArray⟩, ⟨"keyIndex", .uint⟩, ⟨"salt", .byteArray⟩, ⟨"data", .byteArray⟩]
  | ChangeAck => [⟨"dataId", .byteArray⟩]
  | DeviceChange => [⟨"deviceId", .uuid⟩]
  | DeviceChangeAck => [⟨"deviceId", .uuid⟩]
  | Changed => [⟨"dataIndex", .qulonglong⟩, ⟨"keyIndex", .uint⟩, ⟨"salt", .byteArray⟩, ⟨"data", .byteArray⟩]
  | ChangedInfo => [⟨"changeEstimate", .uint⟩]
  | LastChanged => []
  | ChangedAck => [⟨"dataIndex", .qulonglong⟩]
  | Welcome => [⟨"hasChanges", .bool⟩, ⟨"keyIndex", .uint⟩, ⟨"scheme", .byteArray⟩, ⟨"key", .byteArray⟩,
      ⟨"cmac", .byteArray⟩]
  | DeviceKeys => [⟨"keyIndex", .uint⟩, ⟨"duplicated", .bool⟩, ⟨"devices", .deviceKeys⟩]
  | ListDevices => []
  | Devices => [⟨"devices", .deviceInfos⟩]
  | Error => [⟨"type", .errorType⟩, ⟨"message", .utf8String⟩, ⟨"canRecover", .bool⟩]
  | KeyChange => [⟨"nextIndex", .uint⟩]
  | MacUpdate => [⟨"keyIndex", .uint⟩, ⟨"cmac", .byteArray⟩]
  | MacUpdateAck => []
  | NewKey => [⟨"scheme", .byteArray⟩, ⟨"deviceKeys", .keyUpdates⟩]
  | NewKeyAck => [⟨"keyIndex", .uint⟩]
  | Proof => [⟨"pNonce", .byteArray⟩, ⟨"deviceId", .uuid⟩, ⟨"deviceName", .string⟩, ⟨"signAlgorithm", .byteArray⟩,
      ⟨"signKey", .byteArray⟩, ⟨"cryptAlgorithm", .byteArray⟩, ⟨"cryptKey", .byteArray⟩, ⟨"macscheme", .byteArray⟩,
      ⟨"cmac", .byteArray⟩, ⟨"trustmac", .byteArray⟩]
  | Deny => [⟨"deviceId", .uuid⟩]
  | Accept => [⟨"deviceId", .uuid⟩, ⟨"index", .uint⟩, ⟨"scheme", .byteArray⟩, ⟨"secret", .byteArray⟩]
  | AcceptAck => [⟨"deviceId", .uuid⟩]
  | Remove => [⟨"deviceId", .uuid⟩]
  | RemoveAck => [⟨"deviceId", .uuid⟩]
  | Sync => []

/-- The properties up to `n` classes upwards, those of the upper classes first. -/
def properties : ℕ → MessageType → List Property
  | 0, T => T.ownProperties
  | n + 1, T => (T.superClass.elim [] (properties n)) ++ T.ownProperties

/-- The properties of the meta object: no class is more than two classes below another one. -/
def metaObject (T : MessageType) : List Property := properties 2 T

theorem superClass_depth (T : MessageType) : ((T.superClass.bind superClass).bind superClass) = none := by
  cases T <;> rfl

/-- `Message::isType`. -/
def isType (T : MessageType) (name : Option Bytes) : Bool := T.messageName.1 == name.elim [] (·.1)

/-- All classes. -/
def all : List MessageType :=
  [Init, Identify, RegisterBase, Register, Access, Login, Account, Grant, Change, ChangeAck, DeviceChange,
    DeviceChangeAck, Changed, ChangedInfo, LastChanged, ChangedAck, Welcome, DeviceKeys, ListDevices, Devices, Error,
    KeyChange, MacUpdate, MacUpdateAck, NewKey, NewKeyAck, Proof, Deny, Accept, AcceptAck, Remove, RemoveAck, Sync]

theorem mem_all (T : MessageType) : T ∈ all := by cases T <;> decide

theorem nodup_messageName : (all.map fun T => T.messageName.1).Nodup := by decide +kernel

theorem messageName_injective {T U : MessageType} (h : T.messageName = U.messageName) : T = U :=
  List.inj_on_of_nodup_map nodup_messageName (mem_all T) (mem_all U) (congrArg Subtype.val h)

theorem isType_iff {T : MessageType} {name : Option Bytes} :
    T.isType name = true ↔ name = some T.messageName := by
  rw [isType, beq_iff_eq]
  rcases name with _ | name
  · have hlen : T.messageName.1 ≠ [] := by cases T <;> decide +kernel
    simpa using hlen
  · simp only [Option.elim_some, Option.some.injEq, Subtype.ext_iff]
    exact eq_comm

end MessageType

/-! ## Properties -/

/-- The values of some properties. -/
def Properties : List Property → Type
  | [] => Unit
  | p :: ps => p.type.Value × Properties ps

namespace Properties

/-- The loop of `operator>>(QDataStream &, Message &)`. -/
def load : (ps : List Property) → Read (Properties ps)
  | [] => return ()
  | p :: ps => do
    let data ← p.type.load
    let message ← load ps
    return (data, message)

/-- What the loops of `operator<<` and `operator>>` make of the properties. -/
def codec : (ps : List Property) → Codec UInt8 (Properties ps)
  | [] => Codec.unit
  | p :: ps => p.type.codec.prod (codec ps)

/-- The loop of `operator<<(QDataStream &, const Message &)`. -/
def save : (ps : List Property) → Properties ps → List UInt8
  | [], _ => []
  | p :: ps, (data, message) => p.type.save data ++ save ps message

theorem encode_codec (ps : List Property) (message : Properties ps) :
    (codec ps).encode message = save ps message := by
  induction ps with
  | nil => rfl
  | cons p ps ih =>
    obtain ⟨data, message⟩ := message
    show p.type.codec.encode data ++ (codec ps).encode message = p.type.save data ++ save ps message
    rw [ih]
    rfl

theorem reads_load (ps : List Property) : Reads (load ps) (codec ps).decode := by
  induction ps with
  | nil => exact Reads.pure ()
  | cons p ps ih => exact p.type.reads_load.bind fun data => ih.bind fun message => Reads.pure (data, message)

end Properties

/-! ## Messages -/

/-- What is thrown while a message is read. -/
inductive MessageException where
  | dataStream (status : Status)
  | incompatibleVersion (version : Elements Int32)
  | signatureVerificationFailed

/-- A message with its properties. -/
structure Message where
  type : MessageType
  properties : Properties type.metaObject

namespace Message

/-- `QVersionNumber::compare`. -/
def compareVersions : List Int32 → List Int32 → Int32
  | [], [] => 0
  | v :: _, [] => if v ≠ 0 then v else 1
  | [], w :: _ => if w ≠ 0 then -w else -1
  | v :: vs, w :: ws => if v ≠ w then v - w else compareVersions vs ws

/-- `InitMessage::CompatVersion`. -/
def CompatVersion : List Int32 := [1]

/-- `InitMessage::NonceSize`. -/
def NonceSize : ℕ := 16

/-- `InitMessage::validate`. -/
def validateInit (protocolVersion : Elements Int32) (nonce : Option Bytes) : Except MessageException Bool :=
  if compareVersions protocolVersion.1 CompatVersion < 0 then throw (.incompatibleVersion protocolVersion)
  else return decide (NonceSize ≤ (nonce.elim [] (·.1)).length)

/-- `QMetaEnum::valueToKey` of `ErrorMessage::ErrorType`: whether there is a key. -/
def isErrorType (type : Int32) : Bool := 0 ≤ type && type ≤ 9

/-- `validate`, with the properties that it leaves: an unknown error type becomes `UnknownError`. -/
def validate : (T : MessageType) → Properties T.metaObject →
    Except MessageException (Bool × Properties T.metaObject)
  | .Init, (version, nonce, p) => return (← validateInit version nonce, (version, nonce, p))
  | .Identify, (version, nonce, p) => return (← validateInit version nonce, (version, nonce, p))
  | .RegisterBase, (version, nonce, p) => return (← validateInit version nonce, (version, nonce, p))
  | .Register, (version, nonce, p) => return (← validateInit version nonce, (version, nonce, p))
  | .Access, (version, nonce, p) => return (← validateInit version nonce, (version, nonce, p))
  | .Login, (version, nonce, p) => return (← validateInit version nonce, (version, nonce, p))
  | .Error, (type, p) => return (true, (if isErrorType type then type else (0 : Int32), p))
  | _, p => return (true, p)

/-- `serializeTo` with the name, into an empty array. -/
def serialize (m : Message) : List UInt8 :=
  byteArray.encode (some m.type.messageName) ++ Properties.save m.type.metaObject m.properties

/-- Operators on the stream that may throw. -/
abbrev Throws (α : Type) := ExceptT MessageException Read α

/-- `throw DataStreamException(stream)`. -/
def throwDataStream {α : Type} : Throws α := do
  let s ← get
  set { s with status := .Ok }
  throw (.dataStream s.status)

/-- How the name of a message is read where messages arrive. -/
def readName : Throws (Option Bytes) := do
  startTransaction
  let name ← readByteArray
  if ← commitTransaction then return name else throwDataStream

/-- `deserializeMessageTo` of a message of type `T`. -/
def deserializeMessageTo (T : MessageType) : Throws (Properties T.metaObject) := do
  startTransaction
  let message ← Properties.load T.metaObject
  let (valid, message) ← liftExcept (validate T message)
  if valid then
    if ← commitTransaction then return message else throwDataStream
  else
    abortTransaction
    throwDataStream

/-- `AsymmetricCrypto::verify` under a key that has signed `tags`: the signature is taken from the end. -/
def verify (tags : Tags UInt8) (message signature : List UInt8) : Throws Unit :=
  if tags.accepts (message ++ signature) then return () else throw .signatureVerificationFailed

/-- `verifySignature`: of all bytes that have been read, with the signature that comes next. -/
def verifySignature (tags : Tags UInt8) : Throws Unit := do
  let cPos := (← get).pos
  startTransaction
  let signature ← readByteArray
  if ← commitTransaction then verify tags ((← get).device.take cPos) (signature.elim [] (·.1)) else throwDataStream

/-- The result of an operator, and the stream after it. -/
def exec {α : Type} (op : Throws α) (s : QDataStream) : Except MessageException α × QDataStream := op.run.run s

theorem exec_lift_bind {α γ : Type} (op : Read α) (k : α → Throws γ) (s : QDataStream) :
    exec (liftM op >>= k) s = exec (k (op.run s).1) (op.run s).2 := rfl

theorem exec_throwDataStream {α : Type} (s : QDataStream) :
    exec (throwDataStream : Throws α) s = (.error (.dataStream s.status), { s with status := .Ok }) := rfl

theorem exec_readName {s : QDataStream} (hd : s.transactionDepth = 0) {name : Option Bytes} {r : List UInt8}
    (h : byteArray.decode.run s.rest = some (name, r)) :
    ∃ w, s.rest = w ++ r ∧ exec readName s = (.ok name, s.committed w.length) := by
  obtain ⟨w, hw, hop⟩ := Reads.readByteArray.run_started h
  refine ⟨w, hw, ?_⟩
  rw [readName, exec_lift_bind, run_startTransaction_outer hd, exec_lift_bind, hop, exec_lift_bind,
    run_commitTransaction_outer]
  rfl

theorem exec_readName_error {s : QDataStream} (hd : s.transactionDepth = 0)
    (h : byteArray.decode.run s.rest = none) : ∃ e t, exec readName s = (.error e, t) := by
  have hfails := Reads.readByteArray.fails_started h
  rw [readName, exec_lift_bind, run_startTransaction_outer hd, exec_lift_bind, exec_lift_bind,
    commitTransaction_fails hfails, if_neg Bool.false_ne_true, exec_throwDataStream]
  exact ⟨_, _, rfl⟩

/-- What `deserializeMessageTo` does with properties that have been read. -/
theorem exec_deserializeMessageTo {s : QDataStream} (hd : s.transactionDepth = 0) {T : MessageType}
    {message : Properties T.metaObject} {r : List UInt8}
    (h : (Properties.codec T.metaObject).decode.run s.rest = some (message, r)) :
    ∃ w, s.rest = w ++ r ∧
      match validate T message with
      | .ok (true, message) => exec (deserializeMessageTo T) s = (.ok message, s.committed w.length)
      | _ => ∃ e t, exec (deserializeMessageTo T) s = (.error e, t) := by
  obtain ⟨w, hw, hop⟩ := (Properties.reads_load T.metaObject).run_started h
  refine ⟨w, hw, ?_⟩
  have hexec : exec (deserializeMessageTo T) s = exec (do
      let (valid, message) ← liftExcept (validate T message)
      if valid then
        if ← commitTransaction then return message else throwDataStream
      else
        abortTransaction
        throwDataStream) (s.started.skip w.length) := by
    rw [deserializeMessageTo, exec_lift_bind, run_startTransaction_outer hd, exec_lift_bind, hop]
  rw [hexec]
  rcases validate T message with e | ⟨_ | _, m⟩
  · exact ⟨_, _, rfl⟩
  · exact ⟨_, _, rfl⟩
  · rfl

theorem exec_deserializeMessageTo_error {s : QDataStream} (hd : s.transactionDepth = 0) {T : MessageType}
    (h : (Properties.codec T.metaObject).decode.run s.rest = none) :
    ∃ e t, exec (deserializeMessageTo T) s = (.error e, t) := by
  have hfails := (Properties.reads_load T.metaObject).fails_started h
  rw [deserializeMessageTo, exec_lift_bind, run_startTransaction_outer hd, exec_lift_bind]
  rcases validate T ((Properties.load T.metaObject).run s.started).1 with e | ⟨_ | _, m⟩
  · exact ⟨_, _, rfl⟩
  · exact ⟨_, _, rfl⟩
  · show ∃ e t, exec (liftM commitTransaction >>= fun b => if b = true then pure m else throwDataStream) _ = (.error e, t)
    rw [exec_lift_bind, commitTransaction_fails hfails, if_neg Bool.false_ne_true, exec_throwDataStream]
    exact ⟨_, _, rfl⟩

theorem exec_bind {α γ : Type} (op : Throws α) (k : α → Throws γ) (s : QDataStream) :
    exec (op >>= k) s = match exec op s with
      | (.ok a, u) => exec (k a) u
      | (.error e, u) => (.error e, u) := by
  rw [exec, ExceptT.run_bind, run_bind]
  rcases h : exec op s with ⟨_ | _, t⟩ <;> rw [exec] at h <;> rw [h] <;> rfl

end Message

end QtDataSync.Messages
