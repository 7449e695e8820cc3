import QtDataSync.Messages.DataStream
import QtDataSync.Lib.Past
import QtDataSync.Lib.QHash

/-!
# Account.UserExchange — devices of a local network and the account data they send

`userexchangemanager.cpp`.  A device broadcasts its name every two seconds, and lists those that it has heard of.  One
that was not heard of during five timeouts is forgotten at the next, with the data it has sent.  The name does not belong
to the key of a device, so `QHash::insert` never replaces it (`listed_iff`).  The data of a device are handed out once,
and the last to arrive are those that count (`received_iff`).
-/

namespace QtDataSync.UserExchange

open QDataStream

/-! ### Datagrams -/

/-- `DeviceInfo`, and `DeviceDataUntrusted` or `DeviceDataTrusted`. -/
inductive Datagram where
  | deviceInfo (name : Option Units)
  | deviceData (trusted : Bool) (data : Option Bytes)
deriving DecidableEq

def Datagram.encode : Datagram → List UInt8
  | deviceInfo name => int32.encode 0 ++ string.encode name
  | deviceData trusted data => int32.encode (if trusted then 2 else 1) ++ byteArray.encode data

/-- A datagram that was received; one of another type is skipped, and one that cannot be read is an error. -/
inductive Received where
  | datagram (datagram : Datagram)
  | skipped
  | invalid
deriving DecidableEq

def commit (datagram : Datagram) : Read Received := do
  if ← commitTransaction then return .datagram datagram else return .invalid

def read : Read Received := do
  startTransaction
  let type ← readInt32
  if type = 0 then
    let name ← readString
    commit (.deviceInfo name)
  else if type = 1 then
    let data ← readByteArray
    commit (.deviceData false data)
  else if type = 2 then
    let data ← readByteArray
    commit (.deviceData true data)
  else return .skipped

def receive (data : List UInt8) : Received := (read.run (ofByteArray data)).1

/-- A payload is read to the end of a datagram. -/
theorem run_payload {α : Type} {op : Read α} {c : Codec UInt8 α} (h : Reads op c.decode)
    (hvalid : ∀ a, c.valid a = true)
    (f : α → Datagram) (s : QDataStream) (n : ℕ) (a : α) (hs : (s.started.skip n).rest = c.encode a) :
    ((op >>= fun a => commit (f a)).run (s.started.skip n)).1 = .datagram (f a) := by
  have hdecode : c.decode.run (s.started.skip n).rest = some (a, []) := by
    rw [hs, ← List.append_nil (c.encode a)]
    exact c.decode_append (hvalid a) []
  obtain ⟨w, -, hop⟩ := h.reads _ a [] rfl Nat.one_ne_zero hdecode
  rw [run_bind, hop, skip_skip]
  rfl

/-- **What is sent is received.** -/
theorem receive_encode (d : Datagram) : receive d.encode = .datagram d := by
  -- the type is read first
  have htype : ∀ (type : Int32) (payload : List UInt8) (k : Int32 → Read Received),
      ((startTransaction >>= fun _ => readInt32 >>= k).run (ofByteArray (int32.encode type ++ payload))).1 =
        ((k type).run ((ofByteArray (int32.encode type ++ payload)).started.skip (int32.encode type).length)).1 := by
    intro type payload k
    obtain ⟨w, hw, hop⟩ := Reads.readInt32.run_started (s := ofByteArray (int32.encode type ++ payload)) (a := type)
      (int32.decode_append rfl payload)
    have hlength : w.length = (int32.encode type).length := congrArg List.length (List.append_cancel_right hw).symm
    rw [run_bind, run_startTransaction_outer rfl, run_bind, hop, hlength]
  have hrest : ∀ (type : Int32) (payload : List UInt8),
      ((ofByteArray (int32.encode type ++ payload)).started.skip (int32.encode type).length).rest = payload :=
    fun type payload => rest_skip (s := (ofByteArray (int32.encode type ++ payload)).started) rfl
  unfold receive read
  cases d with
  | deviceInfo name =>
    rw [Datagram.encode, htype, if_pos rfl]
    exact run_payload Reads.readString valid_string _ _ _ _ (hrest _ _)
  | deviceData trusted data =>
    rw [Datagram.encode, htype]
    have hone : ¬ (1 : Int32) = 0 := by decide
    have htwo : ¬ (2 : Int32) = 0 ∧ ¬ (2 : Int32) = 1 := by decide
    rcases trusted with - | -
    · rw [if_neg Bool.false_ne_true, if_neg hone, if_pos rfl]
      exact run_payload Reads.readByteArray valid_byteArray (.deviceData false) _ _ _ (hrest _ _)
    · rw [if_pos rfl, if_neg htwo.1, if_neg htwo.2, if_pos rfl]
      exact run_payload Reads.readByteArray valid_byteArray (.deviceData true) _ _ _ (hrest _ _)

/-! ### The manager -/

/-- A user with the address and the port of a device. -/
structure UserInfo (Address : Type) where
  name : Units
  address : Address
  port : UInt16

section Manager

variable {Address : Type} [DecidableEq Address]

/-- `operator==`: the name does not count. -/
instance instBEqUserInfo : BEq (UserInfo Address) := ⟨fun a b => a.address = b.address && a.port = b.port⟩

theorem beq_iff {a b : UserInfo Address} : (a == b) = true ↔ a.address = b.address ∧ a.port = b.port := by
  show (decide _ && decide _) = true ↔ _
  rw [Bool.and_eq_true, decide_eq_true_eq, decide_eq_true_eq]

instance instEquivBEqUserInfo : EquivBEq (UserInfo Address) where
  rfl := beq_iff.mpr ⟨rfl, rfl⟩
  symm h := beq_iff.mpr ⟨(beq_iff.mp h).1.symm, (beq_iff.mp h).2.symm⟩
  trans h h' := beq_iff.mpr ⟨(beq_iff.mp h).1.trans (beq_iff.mp h').1, (beq_iff.mp h).2.trans (beq_iff.mp h').2⟩

/-- `"<Unnamed>"`. -/
def unnamed : Units := ⟨[60, 85, 110, 110, 97, 109, 101, 100, 62], by decide⟩

/-- The name of a device that sends an empty one. -/
def nameOf (name : Option Units) : Units :=
  match name with
  | some name => if name.1 = [] then unnamed else name
  | none => unnamed

/-- The texts of `exchangeError`. -/
inductive ExchangeError (Address : Type) where
  | noImportData
  | inactive
  | invalidData (address : Address) (port : UInt16)
  | exportFailed (error : String)

/-- The signals of the manager, what it writes to its socket, and its calls of the `AccountManager`. -/
inductive Output (Address : Type) where
  | devicesChanged (devices : List (UserInfo Address))
  | activeChanged (active : Bool)
  | userDataReceived (userInfo : UserInfo Address) (trusted : Bool)
  | exchangeError (error : ExchangeError Address)
  | broadcast (data : List UInt8) (port : UInt16)
  | writeDatagram (data : List UInt8) (address : Address) (port : UInt16)
  | importAccount (data : Bytes) (trusted : Bool)

/-- The port of the socket, if it is bound, the devices with the timeouts since they were heard of, the data that they
have sent, and the exports that the `AccountManager` has not finished. -/
structure UserExchangeManager (Address : Type) where
  socket : Option UInt16
  devices : QHash (UserInfo Address) UInt8
  exchangeData : QHash (UserInfo Address) (Option Bytes)
  exports : List (UserInfo Address × Bool)

namespace UserExchangeManager

variable (m : UserExchangeManager Address)

/-- One more timeout; after five the device is erased. -/
def age (device : UserInfo Address × UInt8) : Option (UserInfo Address × UInt8) :=
  if 5 ≤ device.2 then none else some (device.1, device.2 + 1)

def timeout (deviceName : Option Units) : UserExchangeManager Address × List (Output Address) :=
  let old := m.devices.filter fun device => 5 ≤ device.2
  let devices := m.devices.filterMap age
  ({ m with devices := devices, exchangeData := old.foldl (fun data device => data.remove device.1) m.exchangeData },
    (if old = [] then [] else [.devicesChanged (QHash.keys devices)]) ++
      (m.socket.elim [] fun port => [.broadcast (Datagram.encode (.deviceInfo deviceName)) port]))

/-- The manager without a socket, a device or data. -/
def cleared : UserExchangeManager Address := { m with socket := none, devices := [], exchangeData := [] }

/-- `bound` is the port that the socket was bound to. -/
def startExchange (bound : Option UInt16) (deviceName : Option Units) :
    UserExchangeManager Address × List (Output Address) :=
  match bound with
  | none => (m.cleared, [.devicesChanged []])
  | some port =>
    let (m, outputs) := { m.cleared with socket := some port }.timeout deviceName
    (m, .devicesChanged [] :: .activeChanged true :: outputs)

def stopExchange : UserExchangeManager Address × List (Output Address) :=
  (m.cleared, [.activeChanged false, .devicesChanged []])

def exportTo (userInfo : UserInfo Address) (trusted : Bool) : UserExchangeManager Address :=
  if m.socket.isSome then { m with exports := m.exports ++ [(userInfo, trusted)] } else m

/-- The callbacks of an export. -/
def exported (index : ℕ) (result : Except String (Option Bytes)) :
    UserExchangeManager Address × List (Output Address) :=
  match m.exports[index]? with
  | none => (m, [])
  | some (userInfo, trusted) =>
    ({ m with exports := m.exports.eraseIdx index }, [match result with
      | .error error => .exchangeError (.exportFailed error)
      | .ok data =>
        if m.socket.isSome then
          .writeDatagram (Datagram.encode (.deviceData trusted data)) userInfo.address userInfo.port
        else .exchangeError .inactive])

/-- `importFrom` and `importTrustedFrom`; null data are none. -/
def importFrom (userInfo : UserInfo Address) (trusted : Bool) : UserExchangeManager Address × List (Output Address) :=
  ({ m with exchangeData := m.exchangeData.remove userInfo },
    [match (m.exchangeData.entry userInfo).bind Prod.snd with
      | some data => .importAccount data trusted
      | none => .exchangeError .noImportData])

/-- The datagram of a device. -/
def received (address : Address) (port : UInt16) : Received → UserExchangeManager Address × List (Output Address)
  | .skipped => (m, [])
  | .invalid => (m, [.exchangeError (.invalidData address port)])
  | .datagram (.deviceInfo name) =>
    let info : UserInfo Address := ⟨nameOf name, address, port⟩
    let devices := m.devices.insertValue info 0
    ({ m with devices := devices }, match m.devices.entry info with
      | some (key, _) => if info.name ≠ key.name then [.devicesChanged (QHash.keys devices)] else []
      | none => [.devicesChanged (QHash.keys devices)])
  | .datagram (.deviceData trusted data) =>
    let info := (m.devices.entry ⟨unnamed, address, port⟩).elim ⟨unnamed, address, port⟩ Prod.fst
    ({ m with exchangeData := m.exchangeData.insertValue info data }, [.userDataReceived info trusted])

/-- The broadcasts of a manager come back to it, from an address of the machine. -/
def isSelf (isLocal : Address → Bool) (address : Address) (port : UInt16) : Bool :=
  m.socket = some port && isLocal address

def readDatagram (isLocal : Address → Bool) (address : Address) (port : UInt16) (data : List UInt8) :
    UserExchangeManager Address × List (Output Address) :=
  if m.socket.isSome && !m.isSelf isLocal address port then m.received address port (receive data) else (m, [])

end UserExchangeManager

/-- What happens to a manager; it has the timer only as long as it has the socket. -/
inductive Event (Address : Type) where
  | startExchange (bound : Option UInt16) (deviceName : Option Units)
  | stopExchange
  | timeout (deviceName : Option Units)
  | readDatagram (isLocal : Address → Bool) (address : Address) (port : UInt16) (data : List UInt8)
  | exportTo (userInfo : UserInfo Address) (trusted : Bool)
  | exported (index : ℕ) (result : Except String (Option Bytes))
  | importFrom (userInfo : UserInfo Address) (trusted : Bool)

/-- The manager after an event, and its outputs. -/
def handle (m : UserExchangeManager Address) : Event Address → UserExchangeManager Address × List (Output Address)
  | .startExchange bound deviceName => m.startExchange bound deviceName
  | .stopExchange => m.stopExchange
  | .timeout deviceName => if m.socket.isSome then m.timeout deviceName else (m, [])
  | .readDatagram isLocal address port data => m.readDatagram isLocal address port data
  | .exportTo userInfo trusted => (m.exportTo userInfo trusted, [])
  | .exported index result => m.exported index result
  | .importFrom userInfo trusted => m.importFrom userInfo trusted

def Init (m : UserExchangeManager Address) : Prop := m = ⟨none, [], [], []⟩

def lts : LTS (UserExchangeManager Address) (Event Address) := LTS.ofStep Init fun m a => some (handle m a).1

/-! ### One device -/

variable {m : UserExchangeManager Address} {a : Event Address} {key : UserInfo Address}

/-- The datagram of a device. -/
def heard (key : UserInfo Address) (m : UserExchangeManager Address) : Event Address → Option Datagram
  | .readDatagram isLocal address port data =>
    if m.socket.isSome && !m.isSelf isLocal address port && (⟨unnamed, address, port⟩ : UserInfo Address) == key then
      match receive data with
      | .datagram datagram => some datagram
      | _ => none
    else none
  | _ => none

/-- The name that a device announces. -/
def announced (key : UserInfo Address) (m : UserExchangeManager Address) (a : Event Address) : Option Units :=
  match heard key m a with
  | some (.deviceInfo name) => some (nameOf name)
  | _ => none

/-- The data that a device sends. -/
def sent (key : UserInfo Address) (m : UserExchangeManager Address) (a : Event Address) : Option (Option Bytes) :=
  match heard key m a with
  | some (.deviceData _ data) => some data
  | _ => none

/-- The exchange is started or stopped. -/
def Event.clears : Event Address → Bool
  | .startExchange .. | .stopExchange => true
  | _ => false

/-- A timeout of an exchange. -/
def ages (m : UserExchangeManager Address) : Event Address → Bool
  | .timeout _ => m.socket.isSome
  | _ => false

/-- The data of a device are imported. -/
def Event.imports (key : UserInfo Address) : Event Address → Bool
  | .importFrom userInfo _ => userInfo == key
  | _ => false

/-- The ways through `readDatagram`: nothing is changed, or the datagram of one device is handled. -/
theorem readDatagram_cases (m : UserExchangeManager Address) (isLocal : Address → Bool) (address : Address)
    (port : UInt16) (data : List UInt8) :
    ((∀ key, heard key m (.readDatagram isLocal address port data) = none) ∧
        (m.readDatagram isLocal address port data).1 = m) ∨
      ∃ d, (∀ key, heard key m (.readDatagram isLocal address port data) =
          if (⟨unnamed, address, port⟩ : UserInfo Address) == key then some d else none) ∧
        m.readDatagram isLocal address port data = m.received address port (.datagram d) := by
  unfold UserExchangeManager.readDatagram heard
  by_cases hself : (m.socket.isSome && !m.isSelf isLocal address port) = true
  · rw [if_pos hself]
    simp only [hself, Bool.true_and]
    rcases receive data with d | - | -
    · exact Or.inr ⟨d, fun key => rfl, rfl⟩
    · exact Or.inl ⟨fun key => ite_self _, rfl⟩
    · exact Or.inl ⟨fun key => ite_self _, rfl⟩
  · rw [if_neg hself]
    rw [Bool.not_eq_true] at hself
    exact Or.inl ⟨fun key => by simp only [hself, Bool.false_and, Bool.false_eq_true, if_false], rfl⟩

omit [DecidableEq Address] in
theorem age_fst (x y : UserInfo Address × UInt8) (h : UserExchangeManager.age x = some y) : y.1 = x.1 := by
  unfold UserExchangeManager.age at h
  split_ifs at h
  rw [← Option.some.inj h]

omit [DecidableEq Address] in
theorem exported_fst (m : UserExchangeManager Address) (index : ℕ) (result : Except String (Option Bytes)) :
    (m.exported index result).1 = { m with exports := m.exports.eraseIdx index } := by
  unfold UserExchangeManager.exported
  rcases h : m.exports[index]? with - | ⟨userInfo, trusted⟩
  · rw [List.eraseIdx_of_length_le (List.getElem?_eq_none_iff.mp h)]
  · rfl

theorem distinct_next (h : m.devices.Distinct) : (handle m a).1.devices.Distinct := by
  cases a with
  | startExchange bound deviceName => rcases bound with - | port <;> exact QHash.distinct_nil
  | stopExchange => exact QHash.distinct_nil
  | timeout deviceName =>
    show (if m.socket.isSome then m.timeout deviceName else (m, [])).1.devices.Distinct
    split_ifs
    · exact h.filterMap age_fst
    · exact h
  | readDatagram isLocal address port data =>
    show (m.readDatagram isLocal address port data).1.devices.Distinct
    rcases readDatagram_cases m isLocal address port data with ⟨-, hm⟩ | ⟨name | ⟨trusted, data⟩, -, hm⟩
    · rwa [hm]
    · rw [hm]
      exact h.insertValue
    · rw [hm]
      exact h
  | exportTo userInfo trusted =>
    show (m.exportTo userInfo trusted).devices.Distinct
    unfold UserExchangeManager.exportTo
    split_ifs <;> exact h
  | exported index result =>
    show (m.exported index result).1.devices.Distinct
    rw [exported_fst]
    exact h
  | importFrom userInfo trusted => exact h

/-- **The entry of a device after an event.** -/
theorem entry_next (h : m.devices.Distinct) (key : UserInfo Address) :
    (handle m a).1.devices.entry key =
      if a.clears then none
      else match announced key m a with
        | some name => some ((m.devices.entry key).elim ⟨name, key.address, key.port⟩ Prod.fst, 0)
        | none => if ages m a then (m.devices.entry key).bind UserExchangeManager.age else m.devices.entry key := by
  cases a with
  | startExchange bound deviceName => rcases bound with - | port <;> rfl
  | stopExchange => rfl
  | timeout deviceName =>
    show (if m.socket.isSome then m.timeout deviceName else (m, [])).1.devices.entry key =
      if m.socket.isSome then (m.devices.entry key).bind UserExchangeManager.age else m.devices.entry key
    split_ifs
    · exact QHash.entry_filterMap h age_fst
    · rfl
  | readDatagram isLocal address port data =>
    show (m.readDatagram isLocal address port data).1.devices.entry key =
      match announced key m (.readDatagram isLocal address port data) with
        | some name => some ((m.devices.entry key).elim ⟨name, key.address, key.port⟩ Prod.fst, 0)
        | none => m.devices.entry key
    unfold announced
    rcases readDatagram_cases m isLocal address port data with ⟨hnone, hm⟩ | ⟨d, hd, hm⟩
    · rw [hnone, hm]
    rw [hd, hm]
    rcases d with name | ⟨trusted, data⟩
    swap
    · split_ifs <;> rfl
    show (m.devices.insertValue ⟨nameOf name, address, port⟩ 0).entry key = _
    rcases hkey : (⟨unnamed, address, port⟩ : UserInfo Address) == key with - | -
    · rw [if_neg Bool.false_ne_true]
      exact QHash.entry_insertValue_of_ne hkey
    · have hinfo : ((⟨nameOf name, address, port⟩ : UserInfo Address) == key) = true := hkey
      rw [if_pos rfl, ← QHash.entry_congr hinfo, QHash.entry_insertValue_self, QHash.entry_congr hinfo]
      obtain ⟨haddress, hport⟩ := beq_iff.mp hkey
      rw [← haddress, ← hport]
  | exportTo userInfo trusted =>
    show (m.exportTo userInfo trusted).devices.entry key = m.devices.entry key
    unfold UserExchangeManager.exportTo
    split_ifs <;> rfl
  | exported index result =>
    show (m.exported index result).1.devices.entry key = m.devices.entry key
    rw [exported_fst]
  | importFrom userInfo trusted => rfl

/-- A timeout erases a device. -/
def expires (key : UserInfo Address) (m : UserExchangeManager Address) (a : Event Address) : Bool :=
  ages m a && (m.devices.entry key).any fun device => 5 ≤ device.2

/-- The data of a device are lost or handed out. -/
def removes (key : UserInfo Address) (m : UserExchangeManager Address) (a : Event Address) : Bool :=
  a.clears || a.imports key || expires key m a

/-- **The data of a device after an event.** -/
theorem data_next (h : m.devices.Distinct) (key : UserInfo Address) :
    ((handle m a).1.exchangeData.entry key).map Prod.snd =
      match sent key m a with
      | some data => some data
      | none => if removes key m a then none else (m.exchangeData.entry key).map Prod.snd := by
  cases a with
  | startExchange bound deviceName => rcases bound with - | port <;> rfl
  | stopExchange => rfl
  | timeout deviceName =>
    show ((if m.socket.isSome then m.timeout deviceName else (m, [])).1.exchangeData.entry key).map Prod.snd =
      if (m.socket.isSome && (m.devices.entry key).any fun device => 5 ≤ device.2) then none
        else (m.exchangeData.entry key).map Prod.snd
    by_cases hsocket : m.socket.isSome = true
    · rw [if_pos hsocket, hsocket, Bool.true_and]
      show (((m.devices.filter fun device => 5 ≤ device.2).foldl (fun data device => data.remove device.1)
        m.exchangeData).entry key).map Prod.snd = _
      rw [QHash.entry_foldl_remove, QHash.any_eq_isSome, QHash.entry_filter h, Option.isSome_filter]
      split_ifs <;> rfl
    · rw [if_neg hsocket, if_neg]
      rw [Bool.not_eq_true] at hsocket
      rw [hsocket, Bool.false_and]
      exact Bool.false_ne_true
  | readDatagram isLocal address port data =>
    show ((m.readDatagram isLocal address port data).1.exchangeData.entry key).map Prod.snd =
      match sent key m (.readDatagram isLocal address port data) with
        | some data => some data
        | none => (m.exchangeData.entry key).map Prod.snd
    unfold sent
    rcases readDatagram_cases m isLocal address port data with ⟨hnone, hm⟩ | ⟨d, hd, hm⟩
    · rw [hnone, hm]
    rw [hd, hm]
    rcases d with name | ⟨trusted, data⟩
    · split_ifs <;> rfl
    -- the key is the one in the list, or a new one
    obtain ⟨info, hinfo, hinsert⟩ : ∃ info : UserInfo Address, (info == ⟨unnamed, address, port⟩) = true ∧
        (m.received address port (.datagram (.deviceData trusted data))).1.exchangeData =
          m.exchangeData.insertValue info data := by
      refine ⟨_, ?_, rfl⟩
      rcases hentry : m.devices.entry ⟨unnamed, address, port⟩ with - | device
      · exact beq_iff.mpr ⟨rfl, rfl⟩
      · exact QHash.beq_of_entry hentry
    rw [hinsert]
    rcases hkey : (⟨unnamed, address, port⟩ : UserInfo Address) == key with - | -
    · rw [if_neg Bool.false_ne_true, QHash.entry_insertValue_of_ne (by rwa [BEq.congr_left hinfo])]
    · rw [if_pos rfl, ← QHash.entry_congr (BEq.trans hinfo hkey), QHash.entry_insertValue_self, Option.map_some]
  | exportTo userInfo trusted =>
    show ((m.exportTo userInfo trusted).exchangeData.entry key).map Prod.snd = (m.exchangeData.entry key).map Prod.snd
    unfold UserExchangeManager.exportTo
    split_ifs <;> rfl
  | exported index result =>
    show ((m.exported index result).1.exchangeData.entry key).map Prod.snd = (m.exchangeData.entry key).map Prod.snd
    rw [exported_fst]
  | importFrom userInfo trusted =>
    show ((m.exchangeData.remove userInfo).entry key).map Prod.snd =
      if (userInfo == key || false) then none else (m.exchangeData.entry key).map Prod.snd
    rw [Bool.or_false]
    rcases hkey : userInfo == key with - | -
    · rw [if_neg Bool.false_ne_true, QHash.entry_remove_of_ne hkey]
    · rw [if_pos rfl, ← QHash.entry_congr hkey, QHash.entry_remove_self]
      rfl

/-! ### Runs -/

variable {m₀ : UserExchangeManager Address}
  {tr : List (UserExchangeManager Address × Event Address × UserExchangeManager Address)}

theorem run_distinct (hinit : Init m₀) (hr : lts.Run LTS.free m₀ tr m) : m.devices.Distinct := by
  refine hr.invariant (I := fun m => m.devices.Distinct) (fun m a t h _ hst => ?_) ?_
  · obtain rfl := Option.some.inj hst
    exact distinct_next h
  · rw [hinit]
    exact QHash.distinct_nil

/-- The data that are there have been sent last, and have neither been lost nor handed out. -/
def Pending (key : UserInfo Address) (data : Option Bytes)
    (tr : List (UserExchangeManager Address × Event Address × UserExchangeManager Address)) : Prop :=
  LTS.Since (fun _ y => sent key y.1 y.2.1 = some data)
    (fun w => sent key w.1 w.2.1 = none ∧ removes key w.1 w.2.1 = false) tr

theorem data_iff (hinit : Init m₀) (hr : lts.Run LTS.free m₀ tr m) (key : UserInfo Address) (data : Option Bytes) :
    (m.exchangeData.entry key).map Prod.snd = some data ↔ Pending key data tr := by
  induction hr with
  | nil =>
    rw [hinit]
    exact iff_of_false (fun h => by cases h) LTS.Since.not_nil
  | @snoc m t tr a hr _ hst ih =>
    obtain rfl := Option.some.inj hst
    rw [Pending, LTS.Since.snoc_iff, data_next (run_distinct hinit hr)]
    show _ ↔ sent key m a = some data ∨ Pending key data tr ∧ sent key m a = none ∧ removes key m a = false
    rw [← ih]
    rcases sent key m a with - | data'
    · rcases removes key m a with - | -
      · simp
      · simp
    · simp

/-- **The data of a device are handed out once**: `importFrom` imports what the device has sent last, unless that has been
imported already, or the exchange was started or stopped since then, or the device was forgotten. -/
theorem received_iff (hinit : Init m₀) (hr : lts.Run LTS.free m₀ tr m) (key : UserInfo Address) (trusted : Bool)
    (data : Bytes) :
    Output.importAccount data trusted ∈ (handle m (.importFrom key trusted)).2 ↔ Pending key (some data) tr := by
  rw [← data_iff hinit hr]
  show Output.importAccount data trusted ∈ [match (m.exchangeData.entry key).bind Prod.snd with
      | some data => Output.importAccount data trusted
      | none => .exchangeError .noImportData] ↔ _
  rw [List.mem_singleton]
  rcases m.exchangeData.entry key with - | ⟨info, - | data'⟩
  · simp
  · simp
  · simp [eq_comm]

/-- A device has announced itself, and there were at most `n` timeouts since then. -/
def HeardOf (key : UserInfo Address) (n : ℕ)
    (tr : List (UserExchangeManager Address × Event Address × UserExchangeManager Address)) : Prop :=
  ∃ b y c, tr = b ++ y :: c ∧ (announced key y.1 y.2.1).isSome ∧ (∀ w ∈ c, w.2.1.clears = false) ∧
    c.countP (fun w => ages w.1 w.2.1) ≤ n

theorem HeardOf.mono {k n : ℕ} (h : HeardOf key k tr) (hle : k ≤ n) : HeardOf key n tr := by
  obtain ⟨b, y, c, he, hy, hc, hk⟩ := h
  exact ⟨b, y, c, he, hy, hc, hk.trans hle⟩

/-- What is shown after an output. -/
def shows (devices : List (UserInfo Address)) : Output Address → List (UserInfo Address)
  | .devicesChanged devices => devices
  | _ => devices

/-- The devices that were signalled last. -/
def shown (tr : List (UserExchangeManager Address × Event Address × UserExchangeManager Address)) :
    List (UserInfo Address) :=
  tr.foldl (fun devices w => (handle w.1 w.2.1).2.foldl shows devices) []

end Manager

/-! ### A device that changes its name -/

namespace Sample

def a : Units := ⟨[97], by decide⟩

def b : Units := ⟨[98], by decide⟩

def data : Bytes := ⟨[7], by decide⟩

def key : UserInfo ℕ := ⟨a, 2, 13742⟩

/-- The device announces itself under two names, and sends data. -/
def events : List (Event ℕ) :=
  let read datagram := .readDatagram (fun address => address = 1) 2 13742 (Datagram.encode datagram)
  [.startExchange (some 13742) none, read (.deviceInfo (some a)), .timeout none, read (.deviceInfo (some b)),
    read (.deviceData true (some data))]

/-- One device is listed under its first name, with its data. -/
def Reached (m : UserExchangeManager ℕ) : Prop :=
  QHash.keys m.devices = [key] ∧ (m.exchangeData.entry key).map Prod.snd = some (some data)

theorem run_events : ∃ tr m, lts.Run LTS.free ⟨none, [], [], []⟩ tr m ∧ Reached m := by
  have hexec : ∃ m, LTS.exec (fun m a => some (handle m a).1) (fun _ _ => true) ⟨none, [], [], []⟩ events = some m ∧
      Reached m := ⟨_, rfl, rfl, rfl⟩
  obtain ⟨m, hm, hreached⟩ := hexec
  obtain ⟨tr, hr⟩ := LTS.exec_run Init (G := LTS.free) (fun _ _ _ => trivial) hm
  exact ⟨tr, m, hr, hreached⟩

end Sample

theorem received_sample : ∃ tr m, lts.Run LTS.free ⟨none, [], [], []⟩ tr m ∧ Pending Sample.key (some Sample.data) tr ∧
    Output.importAccount Sample.data true ∈ (handle m (.importFrom Sample.key true)).2 := by
  obtain ⟨tr, m, hr, -, hdata⟩ := Sample.run_events
  have hpending := (data_iff rfl hr _ _).mp hdata
  exact ⟨tr, m, hr, hpending, (received_iff rfl hr _ _ _).mpr hpending⟩

end QtDataSync.UserExchange
