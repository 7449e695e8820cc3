import Mathlib.Order.Lattice
import Mathlib.Tactic.Common
import QtDataSync.Lib.Transition
import QtDataSync.Store.LocalStore

/-!
# Threaded.ExchangeBuffer — the byte stream between two threads

The chunks that have been received and not been read, with a cursor into the first one and their number of bytes.  What
has been received is what has been read, followed by the rest of the chunks (`Consistent.contents`).  Closing deletes
the chunks, but neither the cursor nor the number of bytes: they stay behind for the next connection, if there was
something left to read.
-/

namespace QtDataSync

/-- The members; `partner` may be deleted at any time. -/
structure ExchangeBuffer (ι : Type) where
  partner : Option ι
  isOpen : Bool
  buffers : List QByteArray
  index : ℤ
  size : ℤ
deriving DecidableEq, Repr

namespace ExchangeBuffer

variable {ι : Type}

/-- `ExchangeBuffer{parent}`. -/
def new : ExchangeBuffer ι := ⟨none, false, [], 0, 0⟩

/-- `QIODevice::open` succeeds, and an open device is opened again. -/
def openInteral (b : ExchangeBuffer ι) (partner : ι) : ExchangeBuffer ι :=
  { b with partner := some partner, isOpen := true }

/-- `ok` is the result of the call of `openInteral` for the partner. -/
def connectTo (b : ExchangeBuffer ι) (partner : ι) (ok : Bool) : ExchangeBuffer ι × Bool :=
  if b.partner.isSome || b.isOpen then (b, false)
  else if ok then (b.openInteral partner, true)
  else (b, false)

def close (b : ExchangeBuffer ι) : ExchangeBuffer ι := { b with buffers := [], partner := none, isOpen := false }

def bytesAvailable (b : ExchangeBuffer ι) : ℤ := b.size

/-- `memcpy` of a part of a chunk; `none` stands for a copy that is not within the chunk. -/
def memcpy (buffer : QByteArray) (index length : ℤ) : Option QByteArray :=
  if 0 ≤ index ∧ 0 ≤ length ∧ index + length ≤ buffer.length then
    some ((buffer.drop index.toNat).take length.toNat)
  else none

/-- The loop of `readData`, with `_buffers`, `_index` and `written`. -/
def readLoop (maxlen : ℤ) : List QByteArray → ℤ → ℤ → Option (QByteArray × List QByteArray × ℤ × ℤ)
  | [], index, written => some ([], [], index, written)
  | buffer :: buffers, index, written =>
    if written < maxlen then
      let delta := min (buffer.length - index) (maxlen - written)
      (memcpy buffer index delta).bind fun data =>
        if index + delta ≥ buffer.length then
          (readLoop maxlen buffers 0 (written + delta)).map fun x => (data ++ x.1, x.2)
        else
          -- `delta` was the rest of `maxlen`, and the loop ends
          some (data, buffer :: buffers, index + delta, written + delta)
    else some ([], buffer :: buffers, index, written)

/-- The device and what is read. -/
def readData (b : ExchangeBuffer ι) (maxlen : ℤ) : Option (ExchangeBuffer ι × QByteArray) :=
  (readLoop maxlen b.buffers b.index 0).map fun (data, buffers, index, written) =>
    ({ b with buffers := buffers, index := index, size := b.size - written }, data)

/-- `QIODevice::read`: nothing is read from a closed device. -/
def read (b : ExchangeBuffer ι) (maxlen : ℤ) : Option (ExchangeBuffer ι × QByteArray) :=
  if b.isOpen then b.readData maxlen else some (b, [])

/-- What the partner is sent; the own chunks stay as they are. -/
def writeData (b : ExchangeBuffer ι) (data : QByteArray) : Option (ι × QByteArray) :=
  if data.isEmpty then none else b.partner.map fun partner => (partner, data)

def receiveData (b : ExchangeBuffer ι) (data : QByteArray) : ExchangeBuffer ι :=
  if b.isOpen then { b with buffers := b.buffers ++ [data], size := b.size + data.length } else b

def partnerClosed (b : ExchangeBuffer ι) : ExchangeBuffer ι :=
  let b := { b with partner := none }
  if b.isOpen then { b with buffers := [], isOpen := false } else b

/-- What is called on the device, by its owner or as a queued call of the partner. -/
inductive Step (ι : Type) where
  | connectTo (partner : ι) (ok : Bool)
  | openInteral (partner : ι)
  | close
  | partnerClosed
  | partnerDestroyed
  | receiveData (data : QByteArray)
  | read (maxlen : ℤ)

def next (b : ExchangeBuffer ι) : Step ι → Option (ExchangeBuffer ι)
  | .connectTo partner ok => some (b.connectTo partner ok).1
  | .openInteral partner => some (b.openInteral partner)
  | .close => some b.close
  | .partnerClosed => some b.partnerClosed
  | .partnerDestroyed => some { b with partner := none }
  | .receiveData data => some (b.receiveData data)
  | .read maxlen => (b.read maxlen).map (·.1)

/-- What has been received and read since the device was opened. -/
structure Connection where
  received : QByteArray
  read : QByteArray
deriving DecidableEq, Repr

def Connection.new : Connection := ⟨[], []⟩

def record (h : Connection) (b : ExchangeBuffer ι) (a : Step ι) (_ : ExchangeBuffer ι) : Connection :=
  match a with
  | .connectTo partner ok => if (b.connectTo partner ok).2 then .new else h
  | .openInteral _ => .new
  | .close => .new
  | .partnerClosed => if b.isOpen then .new else h
  | .partnerDestroyed => h
  | .receiveData data => if b.isOpen then { h with received := h.received ++ data } else h
  | .read maxlen => { h with read := h.read ++ ((b.read maxlen).map (·.2)).getD [] }

/-- A device with the history of its connection. -/
def lts : LTS (ExchangeBuffer ι × Connection) (Step ι) :=
  (LTS.ofStep (fun b => b = new) next).withHistory .new record

/-- The device is a byte stream. -/
structure Stream (x : ExchangeBuffer ι × Connection) : Prop where
  ordered : x.2.read <+: x.2.received
  available : x.1.bytesAvailable = x.2.received.length - x.2.read.length
  copies : ∀ maxlen, (x.1.readData maxlen).isSome

/-- Everything has been read when the device is closed or opened again. -/
def Drained (x : ExchangeBuffer ι × Connection) : Step ι → Prop
  | .close => x.2.read = x.2.received
  | .partnerClosed => x.2.read = x.2.received
  | .openInteral _ => x.2.read = x.2.received
  | _ => True

/-! ### The representation -/

/-- The cursor is in the first chunk. -/
def InHead (buffers : List QByteArray) (index : ℤ) : Prop :=
  0 ≤ index ∧ (index = 0 ∨ ∃ head, buffers.head? = some head ∧ index < head.length)

/-- The bytes that have not been read. -/
def unread (buffers : List QByteArray) (index : ℤ) : QByteArray := buffers.flatten.drop index.toNat

structure Consistent (x : ExchangeBuffer ι × Connection) : Prop where
  contents : x.2.received = x.2.read ++ unread x.1.buffers x.1.index
  size : x.1.size = (unread x.1.buffers x.1.index).length
  inHead : InHead x.1.buffers x.1.index
  closed : x.1.isOpen = false → x.1.buffers = []

theorem unread_cons {buffer : QByteArray} {buffers : List QByteArray} {index : ℤ} (h : index ≤ buffer.length) :
    unread (buffer :: buffers) index = buffer.drop index.toNat ++ buffers.flatten := by
  rw [unread, List.flatten_cons, List.drop_append_of_le_length (by omega)]

theorem InHead.le_length {buffer : QByteArray} {buffers : List QByteArray} {index : ℤ}
    (h : InHead (buffer :: buffers) index) : 0 ≤ index ∧ index ≤ buffer.length := by
  obtain ⟨hpos, rfl | ⟨head, hhead, hlt⟩⟩ := h
  · exact ⟨le_rfl, Int.natCast_nonneg _⟩
  · cases hhead
    exact ⟨hpos, hlt.le⟩

theorem inHead_zero (buffers : List QByteArray) : InHead buffers 0 := ⟨le_rfl, Or.inl rfl⟩

/-- **The loop** reads the first of the unread bytes, and every copy is within its chunk. -/
theorem readLoop_eq (maxlen : ℤ) {buffers : List QByteArray} {index : ℤ} (written : ℤ) (h : InHead buffers index) :
    ∃ data buffers' index', readLoop maxlen buffers index written = some (data, buffers', index', written + data.length) ∧
      InHead buffers' index' ∧ unread buffers index = data ++ unread buffers' index' := by
  induction buffers generalizing index written with
  | nil => exact ⟨[], [], index, by simp [readLoop], h, rfl⟩
  | cons buffer buffers ih =>
    obtain ⟨hpos, hle⟩ := h.le_length
    rw [readLoop]
    split_ifs with hmore
    · obtain ⟨delta, hdelta⟩ : ∃ delta, delta = min ((buffer.length : ℤ) - index) (maxlen - written) := ⟨_, rfl⟩
      have hdata : memcpy buffer index delta = some ((buffer.drop index.toNat).take delta.toNat) :=
        if_pos ⟨hpos, by omega, by omega⟩
      have hlength : ((buffer.drop index.toNat).take delta.toNat).length = delta.toNat := by
        rw [List.length_take, List.length_drop]
        omega
      simp only [← hdelta, hdata, Option.bind_some]
      split_ifs with hend
      · obtain ⟨data, buffers', index', hloop, hinHead, hunread⟩ := ih (written + delta) (inHead_zero buffers)
        have hwhole : (buffer.drop index.toNat).take delta.toNat = buffer.drop index.toNat :=
          List.take_of_length_le (by rw [List.length_drop]; omega)
        refine ⟨buffer.drop index.toNat ++ data, buffers', index', ?_, hinHead, ?_⟩
        · rw [hwhole] at hlength
          have hsum : written + delta + data.length = written + (delta.toNat + data.length : ℕ) := by omega
          rw [hloop, hwhole, Option.map_some, List.length_append, hlength, hsum]
        · rw [unread_cons hle, List.append_assoc, ← hunread]
          rfl
      · refine ⟨(buffer.drop index.toNat).take delta.toNat, buffer :: buffers, index + delta, ?_,
          ⟨by omega, Or.inr ⟨buffer, rfl, by omega⟩⟩, ?_⟩
        · rw [hlength]
          congr 4
          omega
        · have hsum : (index + delta).toNat = index.toNat + delta.toNat := by omega
          rw [unread_cons hle, unread_cons (by omega), hsum, ← List.append_assoc, ← List.drop_drop,
            List.take_append_drop]
    · exact ⟨[], buffer :: buffers, index, by simp, h, rfl⟩

variable {b t : ExchangeBuffer ι} {h : Connection} {x y : ExchangeBuffer ι × Connection}

/-- **Reading** returns the first of the unread bytes. -/
theorem Consistent.readData (hc : Consistent (b, h)) (maxlen : ℤ) : ∃ t data, b.readData maxlen = some (t, data) ∧
    Consistent (t, { h with read := h.read ++ data }) := by
  obtain ⟨data, buffers, index, hloop, hinHead, hunread⟩ := readLoop_eq maxlen 0 hc.inHead
  refine ⟨_, data, by rw [ExchangeBuffer.readData, hloop]; rfl, ?_, ?_, hinHead, fun hclosed => ?_⟩
  · show h.received = h.read ++ data ++ unread buffers index
    rw [List.append_assoc, ← hunread]
    exact hc.contents
  · show b.size - (0 + data.length) = (unread buffers index).length
    have hsize : b.size = (unread b.buffers b.index).length := hc.size
    rw [hunread, List.length_append] at hsize
    push_cast at hsize
    omega
  · have hnone : b.buffers = [] := hc.closed hclosed
    rw [hnone, readLoop] at hloop
    cases hloop
    rfl

theorem Consistent.stream (hc : Consistent x) : Stream x where
  ordered := ⟨_, hc.contents.symm⟩
  available := by
    rw [bytesAvailable, hc.size, hc.contents, List.length_append]
    push_cast
    omega
  copies := by
    intro maxlen
    obtain ⟨t, data, hread, -⟩ := hc.readData maxlen
    rw [hread]
    rfl

/-- Nothing is unread: the cursor and the number of bytes are 0. -/
theorem Consistent.of_drained (hc : Consistent x) (hdrained : x.2.read = x.2.received) :
    unread x.1.buffers x.1.index = [] ∧ x.1.size = 0 := by
  have hcontents := hc.contents
  rw [← hdrained] at hcontents
  have hnone : unread x.1.buffers x.1.index = [] := List.self_eq_append_right.mp hcontents
  exact ⟨hnone, by rw [hc.size, hnone]; rfl⟩

theorem index_eq_zero {buffers : List QByteArray} {index : ℤ} (h : InHead buffers index)
    (hnone : unread buffers index = []) : index = 0 := by
  obtain ⟨hpos, hzero | ⟨head, hhead, hlt⟩⟩ := h
  · exact hzero
  · obtain ⟨rest, rfl⟩ := List.head?_eq_some_iff.mp hhead
    rw [unread_cons hlt.le, List.append_eq_nil_iff, List.drop_eq_nil_iff] at hnone
    omega

/-! ### Steps -/

theorem Consistent.receiveData (hc : Consistent (b, h)) (data : QByteArray) :
    Consistent (b.receiveData data, record h b (.receiveData data) t) := by
  unfold ExchangeBuffer.receiveData record
  split_ifs with hopen
  · have hunread : unread (b.buffers ++ [data]) b.index = unread b.buffers b.index ++ data := by
      have hle : b.index.toNat ≤ b.buffers.flatten.length := by
        obtain ⟨hpos, hzero | ⟨head, hhead, hlt⟩⟩ := hc.inHead
        · simp only [show b.index = 0 from hzero, Int.toNat_zero, Nat.zero_le]
        · obtain ⟨rest, hbuffers⟩ := List.head?_eq_some_iff.mp hhead
          have hlt' : b.index < head.length := hlt
          have hbuffers' : b.buffers = head :: rest := hbuffers
          rw [hbuffers', List.flatten_cons, List.length_append]
          omega
      rw [unread, unread, List.flatten_append, List.drop_append_of_le_length hle, List.flatten_singleton]
    refine ⟨?_, ?_, ?_, fun hclosed => ?_⟩
    · show h.received ++ data = h.read ++ unread (b.buffers ++ [data]) b.index
      rw [hunread, ← List.append_assoc]
      exact congrArg (· ++ data) hc.contents
    · show b.size + data.length = (unread (b.buffers ++ [data]) b.index).length
      rw [hunread, List.length_append, show b.size = _ from hc.size]
      push_cast
      rfl
    · obtain ⟨hpos, hzero | ⟨head, hhead, hlt⟩⟩ := hc.inHead
      · exact ⟨hpos, Or.inl hzero⟩
      · refine ⟨hpos, Or.inr ⟨head, ?_, hlt⟩⟩
        obtain ⟨rest, hbuffers⟩ := List.head?_eq_some_iff.mp hhead
        show (b.buffers ++ [data]).head? = some head
        rw [show b.buffers = head :: rest from hbuffers]
        rfl
    · exact absurd (hopen.symm.trans (show b.isOpen = false from hclosed)) (by decide)
  · exact hc

/-- The chunks are deleted, and nothing had been left in them. -/
theorem Consistent.cleared (hc : Consistent x) (hdrained : x.2.read = x.2.received) (partner : Option ι) (isOpen : Bool) :
    Consistent ({ x.1 with buffers := [], partner := partner, isOpen := isOpen }, .new) := by
  obtain ⟨hnone, hsize⟩ := hc.of_drained hdrained
  have hindex := index_eq_zero hc.inHead hnone
  refine ⟨?_, ?_, ?_, fun _ => rfl⟩
  · show [] = [] ++ unread [] x.1.index
    rw [unread, List.flatten_nil, List.drop_nil, List.append_nil]
  · show x.1.size = (unread [] x.1.index).length
    rw [hsize, unread, List.flatten_nil, List.drop_nil]
    rfl
  · show InHead [] x.1.index
    rw [hindex]
    exact inHead_zero []

/-- The device is opened, and nothing had been left to read. -/
theorem Consistent.opened (hc : Consistent x) (hdrained : x.2.read = x.2.received) (partner : ι) :
    Consistent (x.1.openInteral partner, .new) := by
  obtain ⟨hnone, hsize⟩ := hc.of_drained hdrained
  exact ⟨hnone.symm, hc.size, hc.inHead, fun hclosed => absurd hclosed (by simp [openInteral])⟩

theorem Consistent.drained_of_closed (hc : Consistent x) (hclosed : x.1.isOpen = false) : x.2.read = x.2.received := by
  have hcontents := hc.contents
  rw [hc.closed hclosed, unread, List.flatten_nil, List.drop_nil, List.append_nil] at hcontents
  exact hcontents.symm

theorem connectTo_cases (b : ExchangeBuffer ι) (partner : ι) (ok : Bool) : b.connectTo partner ok = (b, false) ∨
    b.isOpen = false ∧ b.connectTo partner ok = (b.openInteral partner, true) := by
  unfold connectTo
  split_ifs with hbusy hok
  · exact Or.inl rfl
  · rw [Bool.or_eq_true, not_or, Bool.not_eq_true, Bool.not_eq_true] at hbusy
    exact Or.inr ⟨hbusy.2, rfl⟩
  · exact Or.inl rfl

/-- **One step** that deletes no unread bytes. -/
theorem Consistent.next (hc : Consistent (b, h)) {a : Step ι} (hnext : b.next a = some t) (hdrained : Drained (b, h) a) :
    Consistent (t, record h b a t) := by
  cases a with
  | connectTo partner ok =>
    cases hnext
    rcases b.connectTo_cases partner ok with hstays | ⟨hclosed, hopened⟩
    · simp only [record, hstays]
      exact hc
    · simp only [record, hopened, if_true]
      exact hc.opened (hc.drained_of_closed hclosed) partner
  | openInteral partner =>
    cases hnext
    exact hc.opened hdrained partner
  | close =>
    cases hnext
    exact hc.cleared hdrained none false
  | partnerClosed =>
    cases hnext
    simp only [partnerClosed, record]
    split_ifs
    · exact hc.cleared hdrained none false
    · exact ⟨hc.contents, hc.size, hc.inHead, hc.closed⟩
  | partnerDestroyed =>
    cases hnext
    exact ⟨hc.contents, hc.size, hc.inHead, hc.closed⟩
  | receiveData data =>
    cases hnext
    exact hc.receiveData data
  | read maxlen =>
    obtain ⟨⟨t', data⟩, hread, rfl⟩ := Option.map_eq_some_iff.mp hnext
    have hrecord : record h b (.read maxlen) t' = { h with read := h.read ++ data } := by
      rw [record, hread]
      rfl
    rw [hrecord]
    rw [read] at hread
    split_ifs at hread with hopen
    · obtain ⟨u, data', hdata, hu⟩ := hc.readData maxlen
      rw [hdata] at hread
      cases hread
      exact hu
    · cases hread
      rw [List.append_nil]
      exact hc

/-- Bytes that are lost are counted on. -/
theorem drained_of_stream (hc : Consistent (b, h)) {a : Step ι} (hnext : b.next a = some t)
    (hstream : Stream (t, record h b a t)) : Drained (b, h) a := by
  have hzero : b.size = 0 → h.read = h.received := by
    intro hsize
    have hlength : b.size = (unread b.buffers b.index).length := hc.size
    have hnone : unread b.buffers b.index = [] := List.length_eq_zero_iff.mp (by omega)
    have hcontents : h.received = h.read ++ unread b.buffers b.index := hc.contents
    rw [hnone, List.append_nil] at hcontents
    exact hcontents.symm
  have havailable := hstream.available
  cases a with
  | close =>
    cases hnext
    exact hzero havailable
  | openInteral partner =>
    cases hnext
    exact hzero havailable
  | partnerClosed =>
    cases hnext
    rcases hopen : b.isOpen with - | -
    · exact hc.drained_of_closed hopen
    · refine hzero ?_
      have hsize : b.partnerClosed.size = b.size := by simp only [ExchangeBuffer.partnerClosed, hopen, if_true]
      rw [← hsize]
      simpa [record, hopen, bytesAvailable, Connection.new] using havailable
  | _ => trivial

/-- **When the device is a byte stream**, in all states of a run: if everything has been read whenever it is closed or
opened again. -/
theorem stream_iff {tr : List ((ExchangeBuffer ι × Connection) × Step ι × (ExchangeBuffer ι × Connection))}
    (h0 : lts.init x) (hr : LTS.Run lts LTS.free x tr y) :
    (∀ z ∈ tr, Stream z.2.2) ↔ ∀ z ∈ tr, Drained z.1 z.2.1 := by
  have hstart : Consistent x := by
    obtain ⟨hb, hh⟩ := h0
    obtain ⟨b, h⟩ := x
    cases hb
    cases hh
    exact ⟨rfl, rfl, inHead_zero [], fun _ => rfl⟩
  have hrecord : ∀ {s : ExchangeBuffer ι × Connection} {a t}, lts.step s a t →
      s.1.next a = some t.1 ∧ t = (t.1, record s.2 s.1 a t.1) := by
    rintro s a ⟨t, h'⟩ ⟨hst, hh⟩
    exact ⟨hst, congrArg (Prod.mk t) hh⟩
  refine hr.forall_iff_of_keeps (I := Consistent) hstart (fun s a t hc hst hdrained => ?_) fun s a t hc hst => ⟨?_, ?_⟩
  · obtain ⟨hnext, ht⟩ := hrecord hst
    rw [ht]
    exact hc.next hnext hdrained
  · obtain ⟨hnext, ht⟩ := hrecord hst
    rw [ht]
    exact drained_of_stream hc hnext
  · intro hdrained
    obtain ⟨hnext, ht⟩ := hrecord hst
    rw [ht]
    exact (hc.next hnext hdrained).stream

theorem init_new : (lts (ι := ι)).init (new, .new) := ⟨rfl, rfl⟩

theorem run_snoc {tr : List ((ExchangeBuffer ι × Connection) × Step ι × (ExchangeBuffer ι × Connection))}
    (hr : LTS.Run lts LTS.free x tr (b, h)) (a : Step ι) (hnext : b.next a = some t) :
    LTS.Run lts LTS.free x (tr ++ [((b, h), a, (t, record h b a t))]) (t, record h b a t) :=
  .snoc hr trivial ⟨hnext, rfl⟩

/-- A chunk is read in two parts, and the device is closed after it. -/
theorem stream_read : ∃ tr, LTS.Run lts LTS.free ((new : ExchangeBuffer Unit), .new) tr (new, .new) ∧ tr.length = 5 ∧
    ∀ z ∈ tr, Stream z.2.2 := by
  have h1 := run_snoc (.nil ((new : ExchangeBuffer Unit), Connection.new)) (.connectTo () true) rfl
  have h2 := run_snoc (run_snoc h1 (.receiveData [1, 2, 3]) rfl) (.read 2) rfl
  have h3 := run_snoc (run_snoc h2 (.read 2) rfl) .close rfl
  exact ⟨_, h3, rfl, (stream_iff init_new h3).2 (by simp [Drained, record, Connection.new]; decide)⟩

/-- Closed after two of three bytes: the next connection of the device starts with a cursor of 2 and 1 byte too many,
and its first chunk of one byte is copied from behind its end, with a length of -1. -/
theorem not_stream : ¬∀ x, (lts (ι := Unit)).Reachable LTS.free x → Stream x := by
  intro h
  have h1 := run_snoc (.nil ((new : ExchangeBuffer Unit), Connection.new)) (.connectTo () true) rfl
  have h2 := run_snoc (run_snoc h1 (.receiveData [1, 2, 3]) rfl) (.read 2) rfl
  have h3 := run_snoc (run_snoc h2 .close rfl) (.connectTo () true) rfl
  have h4 := run_snoc h3 (.receiveData [4]) rfl
  exact absurd ((h _ ⟨_, _, init_new, h4⟩).copies 1) (by decide)

end ExchangeBuffer

end QtDataSync
