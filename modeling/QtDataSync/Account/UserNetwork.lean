import QtDataSync.Account.UserExchange
import Mathlib.Logic.Function.Basic

/-!
# Account.UserNetwork — the devices of a local network

Every device has an address of its own, and a manager.  The datagrams are those that the managers write; one may get lost,
arrive late, more than once or in another order, and it bears the address and the port of the socket that has sent it.
Then a manager lists only other devices that have announced themselves at its port (`listed_announced`), and what it
imports has been exported to it by the device whose entry the user has chosen, on demand of the user there
(`imported_exported`).
-/

namespace QtDataSync.UserExchange

open QDataStream

section Network

variable {Device Address : Type} [DecidableEq Device] [DecidableEq Address]

/-- A datagram on its way to an address, or to all of them. -/
structure Packet (Address : Type) where
  source : Address
  sourcePort : UInt16
  destination : Option Address
  port : UInt16
  data : List UInt8

/-- What a socket sends. -/
def Output.packet (source : Address) (sourcePort : UInt16) : Output Address → Option (Packet Address)
  | .broadcast data port => some ⟨source, sourcePort, none, port, data⟩
  | .writeDatagram data address port => some ⟨source, sourcePort, some address, port, data⟩
  | _ => none

def Packet.reaches (p : Packet Address) (address : Address) (socket : Option UInt16) : Bool :=
  p.destination.all (· = address) && socket = some p.port

structure Network (Device Address : Type) where
  managers : Device → UserExchangeManager Address
  packets : List (Packet Address)

/-- A device does something, or receives the `n`th datagram. -/
inductive Network.Event (Device Address : Type) where
  | act (device : Device) (event : UserExchange.Event Address)
  | deliver (device : Device) (n : ℕ)

def Event.reads : Event Address → Bool
  | .readDatagram .. => true
  | _ => false

/-- A manager after the datagram, with the address of its own device as the only one of the machine. -/
def Packet.event (p : Packet Address) (address : Address) : Event Address :=
  .readDatagram (fun other => other = address) p.source p.sourcePort p.data

section Steps

variable (address : Device → Address)

def Network.act (s : Network Device Address) (device : Device) (event : UserExchange.Event Address) :
    Network Device Address :=
  let (m, outputs) := handle (s.managers device) event
  ⟨Function.update s.managers device m,
    s.packets ++ m.socket.elim [] fun port => outputs.filterMap (Output.packet (address device) port)⟩

def Network.deliver (s : Network Device Address) (device : Device) (p : Packet Address) : Network Device Address :=
  { s with managers := Function.update s.managers device (handle (s.managers device) (p.event (address device))).1 }

def Network.step (s : Network Device Address) : Network.Event Device Address → Option (Network Device Address)
  | .act device event => if event.reads then none else some (s.act address device event)
  | .deliver device n => s.packets[n]?.bind fun p =>
    if p.reaches (address device) (s.managers device).socket then some (s.deliver address device p) else none

def Network.Init (s : Network Device Address) : Prop := s = ⟨fun _ => ⟨none, [], [], []⟩, []⟩

def Network.lts : LTS (Network Device Address) (Network.Event Device Address) :=
  LTS.ofStep Network.Init (Network.step address)

end Steps

/-! ### What a device has done -/

/-- A history of the network. -/
abbrev History (Device Address : Type) : Type :=
  List (Network Device Address × Network.Event Device Address × Network Device Address)

variable {tr : History Device Address} {s s' : Network Device Address} {address : Device → Address}
  {m : UserExchangeManager Address} {a : Event Address}

/-- The device has done something with an output. -/
def Wrote (tr : History Device Address) (device : Device) (output : Output Address) : Prop :=
  ∃ x ∈ tr, ∃ event, x.2.1 = .act device event ∧ output ∈ (handle (x.1.managers device) event).2

/-- The user of the device has asked for an export. -/
def Asked (tr : History Device Address) (device : Device) (userInfo : UserInfo Address) (trusted : Bool) : Prop :=
  ∃ x ∈ tr, x.2.1 = .act device (.exportTo userInfo trusted)

/-- An export that the user of the device has asked for was finished, with the socket at a port. -/
def Exported (tr : History Device Address) (device : Device) (port : UInt16) (userInfo : UserInfo Address)
    (trusted : Bool) (data : Option Bytes) : Prop :=
  Asked tr device userInfo trusted ∧ ∃ x ∈ tr, ∃ index, x.2.1 = .act device (.exported index (.ok data)) ∧
    (x.1.managers device).exports[index]? = some (userInfo, trusted) ∧ (x.1.managers device).socket = some port

/-- The device has announced a name at a port. -/
def Announced (tr : History Device Address) (device : Device) (port : UInt16) (name : Units) : Prop :=
  ∃ deviceName, nameOf deviceName = name ∧
    Wrote tr device (.broadcast (Datagram.encode (.deviceInfo deviceName)) port)

variable {output : Output Address} {source : Address} {sourcePort : UInt16} {p : Packet Address}

theorem packet_received {r : Received} {other : Address} {port : UInt16} (h : output ∈ (m.received other port r).2) :
    output.packet source sourcePort = none := by
  rcases r with (name | ⟨trusted, data⟩) | - | -
  · have hchanged : ∃ devices, output = .devicesChanged devices := by
      simp only [UserExchangeManager.received] at h
      rcases hentry : m.devices.entry ⟨nameOf name, other, port⟩ with - | ⟨key, age⟩
      · rw [hentry] at h
        exact ⟨_, List.mem_singleton.mp h⟩
      · rw [hentry] at h
        dsimp only at h
        split_ifs at h
        · exact ⟨_, List.mem_singleton.mp h⟩
        · cases h
    obtain ⟨devices, rfl⟩ := hchanged
    rfl
  · rw [List.mem_singleton.mp h]
    rfl
  · cases h
  · rw [List.mem_singleton.mp h]
    rfl

theorem packet_timeout {deviceName : Option Units} (h : output ∈ (m.timeout deviceName).2)
    (hp : output.packet source sourcePort = some p) :
    ∃ port, output = .broadcast (Datagram.encode (.deviceInfo deviceName)) port ∧ m.socket = some port := by
  rcases List.mem_append.mp h with h | h
  · split_ifs at h
    · cases h
    · rw [List.mem_singleton.mp h] at hp
      cases hp
  · rcases hsocket : m.socket with - | port
    · rw [hsocket] at h
      cases h
    · rw [hsocket] at h
      exact ⟨port, List.mem_singleton.mp h, rfl⟩

/-- The datagrams of a manager: a broadcast with its name to the port of its socket, or the data of an export. -/
theorem packet_cases (h : output ∈ (handle m a).2) (hp : output.packet source sourcePort = some p) :
    (∃ deviceName port, output = .broadcast (Datagram.encode (.deviceInfo deviceName)) port ∧
      (handle m a).1.socket = some port) ∨
    ∃ index trusted payload userInfo, a = .exported index (.ok payload) ∧
      m.exports[index]? = some (userInfo, trusted) ∧ (handle m a).1.socket = m.socket ∧
      output = .writeDatagram (Datagram.encode (.deviceData trusted payload)) userInfo.address userInfo.port := by
  cases a with
  | startExchange bound deviceName =>
    rcases bound with - | bound
    · rw [List.mem_singleton.mp h] at hp
      cases hp
    · rcases List.mem_cons.mp h with rfl | h
      · cases hp
      rcases List.mem_cons.mp h with rfl | h
      · cases hp
      obtain ⟨port, houtput, hport⟩ := packet_timeout h hp
      exact Or.inl ⟨deviceName, port, houtput, hport⟩
  | stopExchange =>
    rcases List.mem_cons.mp h with rfl | h
    · cases hp
    · rw [List.mem_singleton.mp h] at hp
      cases hp
  | timeout deviceName =>
    left
    simp only [handle] at h ⊢
    split_ifs at h ⊢
    · obtain ⟨port, houtput, hport⟩ := packet_timeout h hp
      exact ⟨deviceName, port, houtput, hport⟩
    · cases h
  | readDatagram isLocal address port data =>
    simp only [handle, UserExchangeManager.readDatagram] at h
    split_ifs at h
    · rw [packet_received h] at hp
      cases hp
    · cases h
  | exportTo userInfo trusted => cases h
  | exported index result =>
    right
    refine ⟨index, ?_⟩
    have hsocket : (handle m (.exported index result)).1.socket = m.socket := by
      show (m.exported index result).1.socket = m.socket
      rw [exported_fst]
    simp only [handle, UserExchangeManager.exported] at h
    rcases hexport : m.exports[index]? with - | ⟨userInfo, trusted⟩
    · rw [hexport] at h
      cases h
    rw [hexport] at h
    have houtput := List.mem_singleton.mp h
    rcases result with error | payload
    · rw [houtput] at hp
      cases hp
    · dsimp only at houtput
      split_ifs at houtput
      · exact ⟨trusted, payload, userInfo, rfl, rfl, hsocket, houtput⟩
      · rw [houtput] at hp
        cases hp
  | importFrom userInfo trusted =>
    have houtput := List.mem_singleton.mp h
    rcases hdata : (m.exchangeData.entry userInfo).bind Prod.snd with - | data
    · rw [houtput, hdata] at hp
      cases hp
    · rw [houtput, hdata] at hp
      cases hp

/-! ### Safety -/

/-- What holds after a history. -/
structure Safe (address : Device → Address) (tr : History Device Address) (s : Network Device Address) : Prop where
  packets : ∀ p ∈ s.packets, ∃ device, address device = p.source ∧
    ((p.port = p.sourcePort ∧ ∃ deviceName, p.data = Datagram.encode (.deviceInfo deviceName) ∧
        Announced tr device p.sourcePort (nameOf deviceName)) ∨
      ∃ userInfo trusted data, p.data = Datagram.encode (.deviceData trusted data) ∧
        p.destination = some userInfo.address ∧ Exported tr device p.sourcePort userInfo trusted data)
  distinct : ∀ device, (s.managers device).devices.Distinct
  exports : ∀ device, ∀ x ∈ (s.managers device).exports, Asked tr device x.1 x.2
  devices : ∀ device key x, (s.managers device).devices.entry key = some x →
    (s.managers device).socket = some key.port ∧ key.address ≠ address device ∧
      ∃ other, address other = key.address ∧ Announced tr other key.port x.1.name
  data : ∀ device key data, ((s.managers device).exchangeData.entry key).map Prod.snd = some data →
    ∃ other userInfo trusted, address other = key.address ∧ userInfo.address = address device ∧
      Exported tr other key.port userInfo trusted data

variable {tr' : History Device Address} {device : Device}

omit [DecidableEq Device] [DecidableEq Address] in
theorem Asked.mono {userInfo : UserInfo Address} {trusted : Bool} (htr : tr ⊆ tr')
    (h : Asked tr device userInfo trusted) : Asked tr' device userInfo trusted := by
  obtain ⟨y, hy, he⟩ := h
  exact ⟨y, htr hy, he⟩

omit [DecidableEq Device] [DecidableEq Address] in
theorem Exported.mono {port : UInt16} {userInfo : UserInfo Address} {trusted : Bool} {data : Option Bytes}
    (htr : tr ⊆ tr') (h : Exported tr device port userInfo trusted data) :
    Exported tr' device port userInfo trusted data := by
  obtain ⟨hasked, y, hy, he⟩ := h
  exact ⟨hasked.mono htr, y, htr hy, he⟩

omit [DecidableEq Device] in
theorem Announced.mono {port : UInt16} {name : Units} (htr : tr ⊆ tr') (h : Announced tr device port name) :
    Announced tr' device port name := by
  obtain ⟨deviceName, hname, y, hy, he⟩ := h
  exact ⟨deviceName, hname, y, htr hy, he⟩

omit [DecidableEq Device] in
theorem Safe.mono (htr : tr ⊆ tr') (h : Safe address tr s) : Safe address tr' s where
  packets p hp := by
    obtain ⟨device, hdevice, ⟨hport, deviceName, hdata, hann⟩ | ⟨userInfo, trusted, data, hdata, hdest, hexp⟩⟩ :=
      h.packets p hp
    · exact ⟨device, hdevice, Or.inl ⟨hport, deviceName, hdata, hann.mono htr⟩⟩
    · exact ⟨device, hdevice, Or.inr ⟨userInfo, trusted, data, hdata, hdest, hexp.mono htr⟩⟩
  distinct := h.distinct
  exports device x hx := (h.exports device x hx).mono htr
  devices device key x hx := by
    obtain ⟨hsocket, hother, other, haddress, hann⟩ := h.devices device key x hx
    exact ⟨hsocket, hother, other, haddress, hann.mono htr⟩
  data device key data hx := by
    obtain ⟨other, userInfo, trusted, haddress, hto, hexp⟩ := h.data device key data hx
    exact ⟨other, userInfo, trusted, haddress, hto, hexp.mono htr⟩

theorem socket_next (h : a.clears = false) : (handle m a).1.socket = m.socket := by
  cases a with
  | startExchange bound deviceName => cases h
  | stopExchange => cases h
  | timeout deviceName =>
    simp only [handle]
    split_ifs <;> rfl
  | readDatagram isLocal other port data =>
    simp only [handle]
    rcases readDatagram_cases m isLocal other port data with ⟨-, hm⟩ | ⟨name | ⟨trusted, data⟩, -, hm⟩
    · rw [hm]
    · rw [hm]
      rfl
    · rw [hm]
      rfl
  | exportTo userInfo trusted =>
    simp only [handle, UserExchangeManager.exportTo]
    split_ifs <;> rfl
  | exported index result =>
    simp only [handle]
    rw [exported_fst]
  | importFrom userInfo trusted => rfl

theorem exports_next {x : UserInfo Address × Bool} (h : x ∈ (handle m a).1.exports) :
    x ∈ m.exports ∨ a = .exportTo x.1 x.2 := by
  cases a with
  | startExchange bound deviceName =>
    rcases bound with - | bound
    · exact Or.inl h
    · exact Or.inl h
  | stopExchange => exact Or.inl h
  | timeout deviceName =>
    simp only [handle] at h
    split_ifs at h
    · exact Or.inl h
    · exact Or.inl h
  | readDatagram isLocal other port data =>
    simp only [handle] at h
    rcases readDatagram_cases m isLocal other port data with ⟨-, hm⟩ | ⟨name | ⟨trusted, data⟩, -, hm⟩
    · rw [hm] at h
      exact Or.inl h
    · rw [hm] at h
      exact Or.inl h
    · rw [hm] at h
      exact Or.inl h
  | exportTo userInfo trusted =>
    simp only [handle, UserExchangeManager.exportTo] at h
    split_ifs at h
    · rcases List.mem_append.mp h with h | h
      · exact Or.inl h
      · rw [List.mem_singleton.mp h]
        exact Or.inr rfl
    · exact Or.inl h
  | exported index result =>
    simp only [handle] at h
    rw [exported_fst] at h
    exact Or.inl (List.mem_of_mem_eraseIdx h)
  | importFrom userInfo trusted => exact Or.inl h

/-- Without a datagram, no device comes into the list. -/
theorem entry_of_not_reads (hd : m.devices.Distinct) (hread : a.reads = false) {key : UserInfo Address}
    {x : UserInfo Address × UInt8} (h : (handle m a).1.devices.entry key = some x) :
    (∃ age, m.devices.entry key = some (x.1, age)) ∧ (handle m a).1.socket = m.socket := by
  have hann : announced key m a = none := by
    cases a with
    | readDatagram isLocal other port data => cases hread
    | _ => rfl
  rw [entry_next hd, hann] at h
  rcases hclears : a.clears with - | -
  · refine ⟨?_, socket_next hclears⟩
    rw [hclears, if_neg Bool.false_ne_true] at h
    rcases hages : ages m a with - | -
    · rw [hages] at h
      exact ⟨x.2, h⟩
    · rw [hages] at h
      obtain ⟨device, hdevice, hage⟩ := Option.bind_eq_some_iff.mp h
      exact ⟨device.2, by rw [hdevice, age_fst _ _ hage]⟩
  · rw [hclears, if_pos rfl] at h
    cases h

theorem data_of_not_reads (hd : m.devices.Distinct) (hread : a.reads = false) {key : UserInfo Address}
    {data : Option Bytes} (h : ((handle m a).1.exchangeData.entry key).map Prod.snd = some data) :
    (m.exchangeData.entry key).map Prod.snd = some data := by
  have hsent : sent key m a = none := by
    cases a with
    | readDatagram isLocal other port data => cases hread
    | _ => rfl
  rw [data_next hd, hsent] at h
  rcases hremoves : removes key m a with - | -
  · rw [hremoves] at h
    exact h
  · rw [hremoves] at h
    cases h

/-- What a manager does with a datagram of the network. -/
theorem heard_event {key : UserInfo Address} {own : Address} {d : Datagram}
    (h : heard key m (p.event own) = some d) :
    p.source = key.address ∧ p.sourcePort = key.port ∧ receive p.data = .datagram d ∧
      ¬ (m.socket = some p.sourcePort ∧ p.source = own) := by
  unfold heard Packet.event at h
  dsimp only at h
  split_ifs at h with hif
  rw [Bool.and_eq_true, Bool.and_eq_true] at hif
  obtain ⟨⟨-, hself⟩, hkey⟩ := hif
  obtain ⟨haddress, hport⟩ := beq_iff.mp hkey
  refine ⟨haddress, hport, ?_, ?_⟩
  · rcases hreceive : receive p.data with d' | - | -
    · rw [hreceive] at h
      rw [Option.some.inj h]
    · rw [hreceive] at h
      cases h
    · rw [hreceive] at h
      cases h
  · rintro ⟨hsocket, hown⟩
    simp [UserExchangeManager.isSelf, hsocket, hown] at hself

theorem heard_of_announced {key : UserInfo Address} {name : Units} (h : announced key m a = some name) :
    ∃ deviceName, heard key m a = some (.deviceInfo deviceName) ∧ nameOf deviceName = name := by
  unfold announced at h
  rcases hheard : heard key m a with - | (deviceName | ⟨trusted, data⟩)
  · rw [hheard] at h
    cases h
  · rw [hheard] at h
    exact ⟨deviceName, rfl, Option.some.inj h⟩
  · rw [hheard] at h
    cases h

theorem heard_of_sent {key : UserInfo Address} {data : Option Bytes} (h : sent key m a = some data) :
    ∃ trusted, heard key m a = some (.deviceData trusted data) := by
  unfold sent at h
  rcases hheard : heard key m a with - | (deviceName | ⟨trusted, data'⟩)
  · rw [hheard] at h
    cases h
  · rw [hheard] at h
    cases h
  · rw [hheard] at h
    exact ⟨trusted, by rw [Option.some.inj h]⟩

theorem Safe.act {event : Event Address} {t : Network Device Address} (h : Safe address tr s)
    (hread : event.reads = false) :
    Safe address (tr ++ [(s, .act device event, t)]) (s.act address device event) := by
  have hmono : Safe address (tr ++ [(s, .act device event, t)]) s := h.mono (List.subset_append_left tr _)
  have hlast : (s, Network.Event.act device event, t) ∈ tr ++ [(s, .act device event, t)] :=
    List.mem_append_right tr (List.mem_singleton_self _)
  -- every field is about one device
  have hmanagers : ∀ other, other ≠ device → (s.act address device event).managers other = s.managers other :=
    fun other hne => Function.update_of_ne hne _ _
  have hself : (s.act address device event).managers device = (handle (s.managers device) event).1 :=
    Function.update_self _ _ _
  have hpackets : (s.act address device event).packets = s.packets ++
      (handle (s.managers device) event).1.socket.elim [] fun port =>
        (handle (s.managers device) event).2.filterMap (Output.packet (address device) port) := rfl
  constructor
  · intro p hp
    rw [hpackets] at hp
    rcases List.mem_append.mp hp with hp | hp
    · exact hmono.packets p hp
    rcases hsocket : (handle (s.managers device) event).1.socket with - | port
    · rw [hsocket] at hp
      cases hp
    rw [hsocket] at hp
    obtain ⟨output, houtput, hpacket⟩ := List.mem_filterMap.mp hp
    rcases packet_cases houtput hpacket with ⟨deviceName, port', rfl, hport⟩ |
      ⟨index, trusted, payload, userInfo, rfl, hexport, hsame, rfl⟩
    · obtain rfl := Option.some.inj hpacket
      obtain rfl := Option.some.inj (hsocket.symm.trans hport)
      exact ⟨device, rfl, Or.inl ⟨rfl, deviceName, rfl, deviceName, rfl, _, hlast, event, rfl, houtput⟩⟩
    · obtain rfl := Option.some.inj hpacket
      refine ⟨device, rfl, Or.inr ⟨userInfo, trusted, payload, rfl, rfl, ?_, _, hlast, index, rfl, hexport, ?_⟩⟩
      · exact hmono.exports device _ (List.mem_of_getElem? hexport)
      · exact hsame.symm.trans hsocket
  · intro other
    rcases eq_or_ne other device with rfl | hne
    · rw [hself]
      exact distinct_next (h.distinct other)
    · rw [hmanagers other hne]
      exact h.distinct other
  · intro other x hx
    rcases eq_or_ne other device with rfl | hne
    · rw [hself] at hx
      rcases exports_next hx with hx | rfl
      · exact hmono.exports other x hx
      · exact ⟨_, hlast, rfl⟩
    · rw [hmanagers other hne] at hx
      exact hmono.exports other x hx
  · intro other key x hx
    rcases eq_or_ne other device with rfl | hne
    · rw [hself] at hx ⊢
      obtain ⟨⟨age, hold⟩, hsocket⟩ := entry_of_not_reads (h.distinct other) hread hx
      rw [hsocket]
      exact hmono.devices other key (x.1, age) hold
    · rw [hmanagers other hne] at hx ⊢
      exact hmono.devices other key x hx
  · intro other key data hx
    rcases eq_or_ne other device with rfl | hne
    · rw [hself] at hx
      exact hmono.data other key data (data_of_not_reads (h.distinct other) hread hx)
    · rw [hmanagers other hne] at hx
      exact hmono.data other key data hx

theorem Safe.deliver {p : Packet Address} (h : Safe address tr s) (hp : p ∈ s.packets)
    (hreaches : p.reaches (address device) (s.managers device).socket = true) :
    Safe address tr (s.deliver address device p) := by
  have hmanagers : ∀ other, other ≠ device → (s.deliver address device p).managers other = s.managers other :=
    fun other hne => Function.update_of_ne hne _ _
  have hself : (s.deliver address device p).managers device =
      (handle (s.managers device) (p.event (address device))).1 := Function.update_self _ _ _
  rw [Packet.reaches, Bool.and_eq_true, decide_eq_true_eq] at hreaches
  have hclears : (p.event (address device)).clears = false := rfl
  constructor
  · exact h.packets
  · intro other
    rcases eq_or_ne other device with rfl | hne
    · rw [hself]
      exact distinct_next (h.distinct other)
    · rw [hmanagers other hne]
      exact h.distinct other
  · intro other x hx
    rcases eq_or_ne other device with rfl | hne
    · rw [hself] at hx
      rcases exports_next hx with hx | hexport
      · exact h.exports other x hx
      · cases hexport
    · rw [hmanagers other hne] at hx
      exact h.exports other x hx
  · intro other key x hx
    rcases eq_or_ne other device with rfl | hne
    · rw [hself] at hx ⊢
      rw [socket_next hclears]
      rw [entry_next (h.distinct other), hclears, if_neg Bool.false_ne_true] at hx
      rcases hname : announced key (s.managers other) (p.event (address other)) with - | name
      · rw [hname] at hx
        exact h.devices other key x hx
      rw [hname] at hx
      -- the device is there already, or has announced itself now
      rcases hold : (s.managers other).devices.entry key with - | old
      · rw [hold] at hx
        obtain rfl := Option.some.inj hx
        obtain ⟨name', hheard, rfl⟩ := heard_of_announced hname
        obtain ⟨hsource, hport, hreceive, hnotself⟩ := heard_event hheard
        obtain ⟨sender, hsender, ⟨hsame, deviceName, hdata, hann⟩ | ⟨userInfo, trusted, data, hdata, -, -⟩⟩ :=
          h.packets p hp
        · rw [hdata, receive_encode] at hreceive
          obtain rfl : deviceName = name' := by injection (Received.datagram.inj hreceive)
          have hsocket : (s.managers other).socket = some p.sourcePort := hsame ▸ hreaches.2
          refine ⟨hport ▸ hsocket,
            fun hown => hnotself ⟨hsocket, hsource.trans hown⟩, sender, hsender.trans hsource, ?_⟩
          exact hport ▸ hann
        · rw [hdata, receive_encode] at hreceive
          cases hreceive
      · rw [hold] at hx
        obtain rfl := Option.some.inj hx
        exact h.devices other key old hold
    · rw [hmanagers other hne] at hx ⊢
      exact h.devices other key x hx
  · intro other key data hx
    rcases eq_or_ne other device with rfl | hne
    · rw [hself] at hx
      rw [data_next (h.distinct other)] at hx
      rcases hsent : sent key (s.managers other) (p.event (address other)) with - | payload
      · rw [hsent] at hx
        exact h.data other key data hx
      rw [hsent] at hx
      obtain rfl := Option.some.inj hx
      obtain ⟨trusted, hheard⟩ := heard_of_sent hsent
      obtain ⟨hsource, hport, hreceive, -⟩ := heard_event hheard
      obtain ⟨sender, hsender, ⟨-, deviceName, hdata, -⟩ | ⟨userInfo, trusted', data, hdata, hdest, hexp⟩⟩ :=
        h.packets p hp
      · rw [hdata, receive_encode] at hreceive
        cases hreceive
      · rw [hdata, receive_encode] at hreceive
        obtain ⟨rfl, rfl⟩ : trusted' = trusted ∧ data = payload := by
          injection (Received.datagram.inj hreceive) with ht hd
          exact ⟨ht, hd⟩
        refine ⟨sender, userInfo, trusted', hsender.trans hsource, ?_, hport ▸ hexp⟩
        simpa [hdest] using hreaches.1
    · rw [hmanagers other hne] at hx
      exact h.data other key data hx

theorem run_safe {s₀ : Network Device Address} (hinit : Network.Init s₀)
    (hr : (Network.lts address).Run LTS.free s₀ tr s) : Safe address tr s := by
  induction hr with
  | nil =>
    rw [hinit]
    constructor
    · intro p hp
      cases hp
    · exact fun device => QHash.distinct_nil
    · intro device x hx
      cases hx
    · intro device key x hx
      cases hx
    · intro device key data hx
      cases hx
  | @snoc t t' tr a hr _ hst ih =>
    cases a with
    | act device event =>
      obtain ⟨hread, ht⟩ := Option.ite_none_left_eq_some.mp hst
      obtain rfl := Option.some.inj ht
      exact ih.act (by simpa using hread)
    | deliver device n =>
      obtain ⟨p, hp, hdeliver⟩ := Option.bind_eq_some_iff.mp hst
      obtain ⟨hreaches, ht⟩ := Option.ite_none_right_eq_some.mp hdeliver
      obtain rfl := Option.some.inj ht
      exact (ih.deliver (List.mem_of_getElem? hp) hreaches).mono (List.subset_append_left tr _)

/-- **A device lists only other devices** that have announced themselves, at the port of its own socket and under the
name that it shows. -/
theorem listed_announced {s₀ : Network Device Address} (hinit : Network.Init s₀)
    (hr : (Network.lts address).Run LTS.free s₀ tr s) (device : Device) (info : UserInfo Address)
    (hlisted : info ∈ QHash.keys (s.managers device).devices) :
    (s.managers device).socket = some info.port ∧ info.address ≠ address device ∧
      ∃ other, address other = info.address ∧ Announced tr other info.port info.name := by
  have hsafe := run_safe hinit hr
  obtain ⟨x, hx, rfl⟩ := List.mem_map.mp hlisted
  exact hsafe.devices device x.1 x ((QHash.mem_iff_entry (hsafe.distinct device)).mp hx)

/-- **What is imported was exported**: the data come from the device whose entry was chosen, and the user there has asked
for their export to the device that imports them. -/
theorem imported_exported {s₀ : Network Device Address} (hinit : Network.Init s₀)
    (hr : (Network.lts address).Run LTS.free s₀ tr s) (device : Device) (info : UserInfo Address) (trusted : Bool)
    (data : Bytes)
    (himport : Output.importAccount data trusted ∈ (handle (s.managers device) (.importFrom info trusted)).2) :
    ∃ other userInfo trusted', address other = info.address ∧ userInfo.address = address device ∧
      Exported tr other info.port userInfo trusted' (some data) := by
  have hsafe := run_safe hinit hr
  refine hsafe.data device info (some data) ?_
  have houtput := List.mem_singleton.mp himport
  rcases hentry : ((s.managers device).exchangeData.entry info).bind Prod.snd with - | data'
  · rw [hentry] at houtput
    cases houtput
  · rw [hentry] at houtput
    obtain ⟨x, hx, hdata⟩ := Option.bind_eq_some_iff.mp hentry
    rw [hx, Option.map_some, hdata]
    injection houtput with h
    rw [h]

end Network

/-! ### An export from one device to another -/

namespace Sample

/-- The address of a device. -/
def address (device : Bool) : ℕ := if device then 2 else 1

/-- `true` announces itself, and sends its data to `false`. -/
def exchange : List (Network.Event Bool ℕ) :=
  [.act false (.startExchange (some 13742) (some b)), .act true (.startExchange (some 13742) (some a)), .deliver false 1,
    .deliver true 0, .act true (.exportTo ⟨b, 1, 13742⟩ true), .act true (.exported 0 (.ok (some data))),
    .deliver false 2]

theorem run_exchange : ∃ tr s, (Network.lts address).Run LTS.free ⟨fun _ => ⟨none, [], [], []⟩, []⟩ tr s ∧
    key ∈ QHash.keys (s.managers false).devices ∧
    Output.importAccount data true ∈ (handle (s.managers false) (.importFrom key true)).2 := by
  have hexec : ∃ s, LTS.exec (Network.step address) (fun _ _ => true)
    ⟨fun _ => ⟨none, [], [], []⟩, []⟩ exchange = some s ∧
      key ∈ QHash.keys (s.managers false).devices ∧
      Output.importAccount data true ∈ (handle (s.managers false) (.importFrom key true)).2 :=
    ⟨_, rfl, List.mem_singleton_self _, List.mem_singleton_self _⟩
  obtain ⟨s, hs, hlisted, himport⟩ := hexec
  obtain ⟨tr, hr⟩ := LTS.exec_run Network.Init (G := LTS.free) (fun _ _ _ => trivial) hs
  exact ⟨tr, s, hr, hlisted, himport⟩

end Sample

theorem listed_announced_exchange : ∃ tr s other,
    (Network.lts Sample.address).Run LTS.free ⟨fun _ => ⟨none, [], [], []⟩, []⟩ tr s ∧
      Sample.address other = 2 ∧ Announced tr other 13742 Sample.a := by
  obtain ⟨tr, s, hr, hlisted, -⟩ := Sample.run_exchange
  obtain ⟨-, -, other, hother, hann⟩ := listed_announced rfl hr false Sample.key hlisted
  exact ⟨tr, s, other, hr, hother, hann⟩

theorem imported_exported_exchange : ∃ tr s other userInfo trusted,
    (Network.lts Sample.address).Run LTS.free ⟨fun _ => ⟨none, [], [], []⟩, []⟩ tr s ∧
      Sample.address other = 2 ∧ userInfo.address = 1 ∧
        Exported tr other 13742 userInfo trusted (some Sample.data) := by
  obtain ⟨tr, s, hr, -, himport⟩ := Sample.run_exchange
  obtain ⟨other, userInfo, trusted, hother, huser, hexp⟩ := imported_exported rfl hr false Sample.key true _ himport
  exact ⟨tr, s, other, userInfo, trusted, hr, hother, huser, hexp⟩

end QtDataSync.UserExchange
