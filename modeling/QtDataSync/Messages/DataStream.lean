import Mathlib.Data.List.Basic
import Mathlib.Algebra.Order.Ring.Nat
import QtDataSync.Lib.Codec

/-!
# Messages.DataStream — `QDataStream` and its transactions

The stream of `setupStream` on a byte array, with its status and its nested transactions: a read that fails sets the
status, after which nothing is read until the outermost transaction ends.  An operator `<<` is the encoder of a codec;
`Reads op p` says that the operator `>>` called `op` does inside a transaction what the parser `p` does.
-/

namespace QtDataSync

/-- `QDataStream::Status`. -/
inductive Status where
  | Ok
  | ReadPastEnd
  | ReadCorruptData
deriving DecidableEq, Repr

/-- A stream on the bytes of its device; `transactionPos` is where the outermost transaction began. -/
structure QDataStream where
  device : List UInt8
  pos : ℕ
  status : Status
  transactionDepth : ℕ
  transactionPos : ℕ
deriving DecidableEq, Repr

/-- An operator that reads from a stream. -/
abbrev Read (α : Type) := StateM QDataStream α

/-- What a `QByteArray` that is not null holds. -/
abbrev Bytes := {l : List UInt8 // l.length < 0xFFFFFFFF}

namespace QDataStream

/-- The stream of `QDataStream(data)` after `setupStream`. -/
def ofByteArray (data : List UInt8) : QDataStream := ⟨data, 0, .Ok, 0, 0⟩

/-- What has not been read. -/
def rest (s : QDataStream) : List UInt8 := s.device.drop s.pos

/-- The first status that is not `Ok` stays. -/
def setStatus (status : Status) : Read Unit :=
  modify fun s => if s.status = .Ok then { s with status } else s

def startTransaction : Read Unit :=
  modify fun s =>
    if s.transactionDepth = 0 then { s with transactionDepth := 1, transactionPos := s.pos, status := .Ok }
    else { s with transactionDepth := s.transactionDepth + 1 }

def commitTransaction : Read Bool := do
  modify fun s =>
    if s.transactionDepth = 1 ∧ s.status = .ReadPastEnd then { s with transactionDepth := 0, pos := s.transactionPos }
    else { s with transactionDepth := s.transactionDepth - 1 }
  return (← get).status = .Ok

def abortTransaction : Read Unit :=
  modify fun s => { s with status := .ReadCorruptData, transactionDepth := s.transactionDepth - 1 }

/-- `readRawData`; `none` if there are too few bytes, or if the transaction has failed. -/
def readRawData (len : ℕ) : Read (Option {l : List UInt8 // l.length = len}) := fun s =>
  if s.status ≠ .Ok ∧ s.transactionDepth ≠ 0 then (none, s)
  else
    let data := s.rest.take len
    let s := { s with pos := s.pos + data.length }
    if h : data.length = len then (some ⟨data, h⟩, s) else (none, ((setStatus .ReadPastEnd).run s).2)

/-- Most significant byte first. -/
def toBigEndian : ℕ → ℕ → List UInt8
  | 0, _ => []
  | n + 1, v => toBigEndian n (v / 256) ++ [UInt8.ofNat v]

def ofBigEndian (l : List UInt8) : ℕ := l.foldl (fun v b => v * 256 + b.toNat) 0

/-- An integer of `n` bytes, or 0. -/
def readInteger {α : Type} (n : ℕ) (ofNat : ℕ → α) : Read α := do
  match ← readRawData n with
  | some l => return ofNat (ofBigEndian l.1)
  | none => return ofNat 0

def readUInt16 : Read UInt16 := readInteger 2 UInt16.ofNat
def readUInt32 : Read UInt32 := readInteger 4 UInt32.ofNat
def readUInt64 : Read UInt64 := readInteger 8 UInt64.ofNat
def readInt32 : Read Int32 := readInteger 4 fun v => (UInt32.ofNat v).toInt32

/-- Any byte but 0 is `true`. -/
def readBool : Read Bool := readInteger 1 fun v => v != 0

/-- `operator>>(QDataStream &, QByteArray &)`; the length `0xFFFFFFFF` is a null array. -/
def readByteArray : Read (Option Bytes) := do
  let len ← readUInt32
  if h : len = 0xFFFFFFFF then return none
  else
    match ← readRawData len.toNat with
    | some data => return some ⟨data.1, by
        rw [data.2]
        have hne : len.toNat ≠ 0xFFFFFFFF := fun hlen => h (UInt32.toNat_inj.mp hlen)
        have hlt := len.toNat_lt
        omega⟩
    | none =>
      setStatus .ReadPastEnd
      return none

/-- The 16 bytes of a `QUuid`. -/
abbrev Uuid := {l : List UInt8 // l.length = 16}

def nullUuid : Uuid := ⟨List.replicate 16 0, rfl⟩

/-- `operator>>(QDataStream &, QUuid &)`. -/
def readUuid : Read Uuid := do
  match ← readRawData 16 with
  | some id => return id
  | none =>
    setStatus .ReadPastEnd
    return nullUuid

/-- `operator>>(QDataStream &, std::tuple &)`: the elements are read in a transaction. -/
def transaction {α : Type} (op : Read α) : Read α := do
  startTransaction
  let a ← op
  let _ ← commitTransaction
  return a

/-- The loop of `readArrayBasedContainer`; `none` is the cleared container. -/
def readElements {α : Type} (op : Read α) : (n : ℕ) → Read (Option {l : List α // l.length = n})
  | 0 => return some ⟨[], rfl⟩
  | n + 1 => do
    let t ← op
    if (← get).status ≠ .Ok then return none
    else
      let l ← readElements op n
      return l.map fun l => ⟨t :: l.1, by rw [List.length_cons, l.2]⟩

/-- A container with fewer than `2 ^ 32` elements. -/
abbrev Elements (α : Type) := {l : List α // l.length < 2 ^ 32}

/-- `operator>>` of `QList` and `QVector`: a count, and so many elements. -/
def readList {α : Type} (op : Read α) : Read (Elements α) := do
  let n ← readUInt32
  match ← readElements op n.toNat with
  | some l => return ⟨l.1, by rw [l.2]; exact n.toNat_lt⟩
  | none => return ⟨[], Nat.two_pow_pos 32⟩

/-- The UTF-16 code units of a `QString` that is not null. -/
abbrev Units := {l : List UInt16 // 2 * l.length < 0xFFFFFFFF}

/-- `operator>>(QDataStream &, QString &)`: the number of bytes, and the code units. -/
def readString : Read (Option Units) := do
  let bytes ← readUInt32
  if h : bytes = 0xFFFFFFFF then return none
  else if bytes.toNat % 2 = 1 then
    setStatus .ReadCorruptData
    return none
  else
    match ← readElements readUInt16 (bytes.toNat / 2) with
    | some l => return some ⟨l.1, by
        rw [l.2]
        have hne : bytes.toNat ≠ 0xFFFFFFFF := fun hbytes => h (UInt32.toNat_inj.mp hbytes)
        have hlt := bytes.toNat_lt
        omega⟩
    | none =>
      setStatus .ReadPastEnd
      return none

/-! ## Reading inside a transaction -/

/-- A failed transaction goes on. -/
structure Fails (s t : QDataStream) : Prop where
  status : t.status ≠ .Ok
  device : t.device = s.device
  transactionDepth : t.transactionDepth = s.transactionDepth
  transactionPos : t.transactionPos = s.transactionPos

theorem Fails.trans {s t u : QDataStream} (h : Fails s t) (h' : Fails t u) : Fails s u :=
  ⟨h'.status, h'.device.trans h.device, h'.transactionDepth.trans h.transactionDepth,
    h'.transactionPos.trans h.transactionPos⟩

variable {α γ : Type}

/-- Nothing repairs a failed transaction. -/
def Stuck (op : Read α) : Prop :=
  ∀ s, s.status ≠ .Ok → s.transactionDepth ≠ 0 → Fails s (op.run s).2

/-- The stream after so many more bytes. -/
def skip (s : QDataStream) (n : ℕ) : QDataStream := { s with pos := s.pos + n }

@[simp] theorem skip_status (s : QDataStream) (n : ℕ) : (s.skip n).status = s.status := rfl
@[simp] theorem skip_device (s : QDataStream) (n : ℕ) : (s.skip n).device = s.device := rfl
@[simp] theorem skip_transactionDepth (s : QDataStream) (n : ℕ) :
    (s.skip n).transactionDepth = s.transactionDepth := rfl
@[simp] theorem skip_transactionPos (s : QDataStream) (n : ℕ) : (s.skip n).transactionPos = s.transactionPos := rfl

theorem skip_skip (s : QDataStream) (m n : ℕ) : (s.skip m).skip n = s.skip (m + n) := by
  simp only [skip, Nat.add_assoc]

theorem rest_skip {s : QDataStream} {w r : List UInt8} (h : s.rest = w ++ r) : (s.skip w.length).rest = r := by
  have hd : (s.skip w.length).rest = s.rest.drop w.length := by rw [rest, rest, List.drop_drop]; rfl
  rw [hd, h, List.drop_left]

theorem Fails.of_skip {s t : QDataStream} {n : ℕ} (h : Fails (s.skip n) t) : Fails s t :=
  ⟨h.status, h.device, h.transactionDepth, h.transactionPos⟩

/-- In a transaction that has not failed, `op` reads what `p` parses. -/
structure Reads (op : Read α) (p : Parser UInt8 α) : Prop where
  stuck : Stuck op
  reads : ∀ s a r, s.status = .Ok → s.transactionDepth ≠ 0 → p.run s.rest = some (a, r) →
    ∃ w, s.rest = w ++ r ∧ op.run s = (a, s.skip w.length)
  refuses : ∀ s, s.status = .Ok → s.transactionDepth ≠ 0 → p.run s.rest = none → Fails s (op.run s).2

theorem run_bind (op : Read α) (k : α → Read γ) (s : QDataStream) :
    (op >>= k).run s = (k (op.run s).1).run (op.run s).2 := rfl

protected theorem Stuck.pure (a : α) : Stuck (pure a) := fun _ h _ => ⟨h, rfl, rfl, rfl⟩

protected theorem Stuck.bind {op : Read α} {k : α → Read γ} (h : Stuck op) (hk : ∀ a, Stuck (k a)) : Stuck (op >>= k) := by
  intro s hs hd
  have h1 := h s hs hd
  rw [run_bind]
  exact h1.trans (hk _ _ h1.status (by rw [h1.transactionDepth]; exact hd))

protected theorem Stuck.setStatus (status : Status) : Stuck (setStatus status) := by
  intro s hs _
  have h : ((QDataStream.setStatus status).run s).2 = s := if_neg hs
  rw [h]
  exact ⟨hs, rfl, rfl, rfl⟩

protected theorem Reads.pure (a : α) : Reads (pure a) (pure a) where
  stuck := Stuck.pure a
  reads s b r _ _ h := by
    obtain ⟨rfl, rfl⟩ := Parser.run_pure_eq_some.mp h
    exact ⟨[], rfl, rfl⟩
  refuses s _ _ h := nomatch h

protected theorem Reads.bind {op : Read α} {k : α → Read γ} {p : Parser UInt8 α} {q : α → Parser UInt8 γ} (h : Reads op p)
    (hk : ∀ a, Reads (k a) (q a)) : Reads (op >>= k) (p >>= q) where
  stuck := h.stuck.bind fun a => (hk a).stuck
  reads s c t hs hd hc := by
    obtain ⟨a, r, ha, hc⟩ := Parser.run_bind_eq_some.mp hc
    obtain ⟨w, hw, hop⟩ := h.reads s a r hs hd ha
    have hr := rest_skip hw
    obtain ⟨w', hw', hop'⟩ := (hk a).reads (s.skip w.length) c t hs hd (by rw [hr]; exact hc)
    refine ⟨w ++ w', ?_, ?_⟩
    · rw [hw, List.append_assoc, ← hw', hr]
    · rw [run_bind, hop, hop', skip_skip, List.length_append]
  refuses s hs hd hn := by
    rw [run_bind]
    rcases ha : p.run s.rest with _ | ⟨a, r⟩
    · have h1 := h.refuses s hs hd ha
      exact h1.trans ((hk _).stuck _ h1.status (by rw [h1.transactionDepth]; exact hd))
    · obtain ⟨w, hw, hop⟩ := h.reads s a r hs hd ha
      rw [Parser.run_bind_some ha] at hn
      rw [hop]
      exact ((hk a).refuses (s.skip w.length) hs hd (by rw [rest_skip hw]; exact hn)).of_skip

/-- For an operator that has read nothing (`none`) only if it has failed. -/
theorem Reads.bind_some {op : Read (Option α)} {k : Option α → Read γ} {p : Parser UInt8 α}
    {q : α → Parser UInt8 γ} (h : Reads op (p >>= fun a => pure (some a))) (hk : ∀ a, Reads (k (some a)) (q a))
    (hn : Stuck (k none)) : Reads (op >>= k) (p >>= q) where
  stuck := h.stuck.bind fun a => by
    rcases a with _ | a
    · exact hn
    · exact (hk a).stuck
  reads s c t hs hd hc := by
    obtain ⟨a, r, ha, hc⟩ := Parser.run_bind_eq_some.mp hc
    obtain ⟨w, hw, hop⟩ := h.reads s (some a) r hs hd (by rw [Parser.run_bind_some ha]; rfl)
    have hr := rest_skip hw
    obtain ⟨w', hw', hop'⟩ := (hk a).reads (s.skip w.length) c t hs hd (by rw [hr]; exact hc)
    refine ⟨w ++ w', ?_, ?_⟩
    · rw [hw, List.append_assoc, ← hw', hr]
    · rw [run_bind, hop, hop', skip_skip, List.length_append]
  refuses s hs hd hc := by
    rw [run_bind]
    rcases ha : p.run s.rest with _ | ⟨a, r⟩
    · have h1 := h.refuses s hs hd (Parser.run_bind_none ha)
      have hd1 : (op.run s).2.transactionDepth ≠ 0 := by rw [h1.transactionDepth]; exact hd
      rcases (op.run s).1 with _ | a
      · exact h1.trans (hn _ h1.status hd1)
      · exact h1.trans ((hk a).stuck _ h1.status hd1)
    · obtain ⟨w, hw, hop⟩ := h.reads s (some a) r hs hd (by rw [Parser.run_bind_some ha]; rfl)
      rw [Parser.run_bind_some ha] at hc
      rw [hop]
      exact ((hk a).refuses (s.skip w.length) hs hd (by rw [rest_skip hw]; exact hc)).of_skip

protected theorem Reads.readRawData (n : ℕ) : Reads (readRawData n) ((Codec.block n).decode >>= fun l => pure (some l)) where
  stuck s hs hd := by
    have h : (QDataStream.readRawData n).run s = (none, s) := if_pos ⟨hs, hd⟩
    rw [h]
    exact ⟨hs, rfl, rfl, rfl⟩
  reads s o r hs hd h := by
    obtain ⟨l, t, hl, h⟩ := Parser.run_bind_eq_some.mp h
    obtain ⟨rfl, rfl⟩ := Parser.run_pure_eq_some.mp h
    have hrest := Codec.run_block_eq_some.mp hl
    refine ⟨l.1, hrest, ?_⟩
    have hdata : s.rest.take n = l.1 := by
      rw [hrest]
      exact List.take_left' l.2
    show (if s.status ≠ .Ok ∧ s.transactionDepth ≠ 0 then _ else _) = _
    rw [if_neg (fun hc => hc.1 hs)]
    obtain ⟨w, hw⟩ := l
    subst hdata
    exact dif_pos hw
  refuses s hs hd h := by
    have hlen : s.rest.length < n := by
      rcases hl : (Codec.block n).decode.run s.rest with _ | ⟨l, r⟩
      · exact Codec.run_block_eq_none.mp hl
      · rw [Parser.run_bind_some hl] at h
        exact absurd h (by simp)
    have hdata : (s.rest.take n).length ≠ n := by
      rw [List.length_take]
      omega
    have hrun : (QDataStream.readRawData n).run s =
        (none, ((QDataStream.setStatus .ReadPastEnd).run (s.skip (s.rest.take n).length)).2) := by
      show (if s.status ≠ .Ok ∧ s.transactionDepth ≠ 0 then _ else _) = _
      rw [if_neg (fun hc => hc.1 hs)]
      exact dif_neg hdata
    have hset : ((QDataStream.setStatus .ReadPastEnd).run (s.skip (s.rest.take n).length)).2 =
        { s.skip (s.rest.take n).length with status := .ReadPastEnd } := if_pos hs
    rw [hrun, hset]
    exact ⟨by simp, rfl, rfl, rfl⟩

theorem Reads.of_eq {op : Read α} {p q : Parser UInt8 α} (h : Reads op p) (hq : p = q) : Reads op q := hq ▸ h

/-- A loop that stops when the stream has failed. -/
theorem Reads.whileOk {op : Read α} {p : Parser UInt8 α} (h : Reads op p) (a : α) :
    Reads (do if (← get).status ≠ .Ok then return a else op) p where
  stuck s hs hd := by
    show Fails s (StateT.run (if s.status ≠ .Ok then pure a else op) s).2
    rw [if_pos hs]
    exact Stuck.pure a s hs hd
  reads s b r hs hd hp := by
    obtain ⟨w, hw, hop⟩ := h.reads s b r hs hd hp
    refine ⟨w, hw, ?_⟩
    show StateT.run (if s.status ≠ .Ok then pure a else op) s = _
    rw [if_neg (not_not.mpr hs), hop]
  refuses s hs hd hp := by
    show Fails s (StateT.run (if s.status ≠ .Ok then pure a else op) s).2
    rw [if_neg (not_not.mpr hs)]
    exact h.refuses s hs hd hp

theorem run_startTransaction {s : QDataStream} (hd : s.transactionDepth ≠ 0) :
    startTransaction.run s = ((), { s with transactionDepth := s.transactionDepth + 1 }) := by
  show ((), if s.transactionDepth = 0 then _ else _) = _
  rw [if_neg hd]

theorem run_commitTransaction {s : QDataStream} (hd : s.transactionDepth ≠ 1) :
    commitTransaction.run s =
      (decide (s.status = .Ok), { s with transactionDepth := s.transactionDepth - 1 }) := by
  show (decide ((if _ then _ else _ : QDataStream).status = .Ok), if _ then _ else _) = _
  rw [if_neg fun hc => hd hc.1]

/-- A transaction within a transaction, which is aborted where `f` refuses what has been read. -/
theorem Reads.checked {op : Read α} {p : Parser UInt8 α} {k : α → Read γ} {f : α → Option γ} (h : Reads op p)
    (hcommit : ∀ a b, f a = some b → k a = commitTransaction >>= fun _ => pure b)
    (habort : ∀ a, f a = none → ∃ b, k a = abortTransaction >>= fun _ => pure b) :
    Reads (startTransaction >>= fun _ => op >>= k) (p >>= fun a => Parser.ofOption (f a)) := by
  have hfails : ∀ (s t : QDataStream) (a : α), s.transactionDepth ≠ 0 →
      Fails { s with transactionDepth := s.transactionDepth + 1 } t → Fails s ((k a).run t).2 := by
    intro s t a hd ht
    have hdepth : t.transactionDepth = s.transactionDepth + 1 := ht.transactionDepth
    rcases ha : f a with _ | b
    · obtain ⟨b, hb⟩ := habort a ha
      rw [hb]
      exact ⟨nofun, ht.device, by show t.transactionDepth - 1 = _; omega, ht.transactionPos⟩
    · rw [hcommit a b ha, run_bind, run_commitTransaction (by omega)]
      exact ⟨ht.status, ht.device, by show t.transactionDepth - 1 = _; omega, ht.transactionPos⟩
  constructor
  · intro s hs hd
    rw [run_bind, run_startTransaction hd, run_bind]
    exact hfails s _ _ hd (h.stuck _ hs (Nat.succ_ne_zero _))
  · intro s b r hs hd hb
    obtain ⟨a, t, ha, hb⟩ := Parser.run_bind_eq_some.mp hb
    obtain ⟨hc, rfl⟩ := Parser.run_ofOption_eq_some.mp hb
    obtain ⟨w, hw, hop⟩ := h.reads { s with transactionDepth := s.transactionDepth + 1 } a t hs (Nat.succ_ne_zero _) ha
    refine ⟨w, hw, ?_⟩
    rw [run_bind, run_startTransaction hd, run_bind, hop, hcommit a b hc, run_bind,
      run_commitTransaction (by simp; omega)]
    rfl
  · intro s hs hd hn
    rw [run_bind, run_startTransaction hd, run_bind]
    rcases ha : p.run s.rest with _ | ⟨a, t⟩
    · exact hfails s _ _ hd (h.refuses _ hs (Nat.succ_ne_zero _) ha)
    · obtain ⟨w, -, hop⟩ := h.reads { s with transactionDepth := s.transactionDepth + 1 } a t hs (Nat.succ_ne_zero _) ha
      rw [Parser.run_bind_some ha] at hn
      have hf : f a = none := by
        rcases hc : f a with _ | b
        · rfl
        · rw [hc] at hn
          exact nomatch hn
      obtain ⟨b, hb⟩ := habort a hf
      rw [hop, hb]
      exact ⟨nofun, rfl, rfl, rfl⟩

theorem Reads.transaction {op : Read α} {p : Parser UInt8 α} (h : Reads op p) : Reads (transaction op) p :=
  (h.checked (k := fun a => commitTransaction >>= fun _ => Pure.pure a) (f := some)
    (fun a b hb => by rw [Option.some.inj hb]) (fun a ha => nomatch ha)).of_eq (bind_pure p)

/-! ## The outermost transaction -/

/-- The stream in a transaction that has just begun. -/
def started (s : QDataStream) : QDataStream :=
  { s with transactionDepth := 1, transactionPos := s.pos, status := .Ok }

/-- The stream after a transaction that has read `n` bytes. -/
def committed (s : QDataStream) (n : ℕ) : QDataStream := { s.started.skip n with transactionDepth := 0 }

theorem rest_committed {s : QDataStream} {w r : List UInt8} (h : s.rest = w ++ r) : (s.committed w.length).rest = r :=
  rest_skip (s := s.started) h

theorem run_startTransaction_outer {s : QDataStream} (hd : s.transactionDepth = 0) :
    startTransaction.run s = ((), s.started) := by
  show ((), if s.transactionDepth = 0 then _ else _) = _
  rw [if_pos hd]
  rfl

theorem run_commitTransaction_outer (s : QDataStream) (n : ℕ) :
    commitTransaction.run (s.started.skip n) = (true, s.committed n) := rfl

theorem status_commitTransaction (s : QDataStream) : (commitTransaction.run s).2.status = s.status := by
  show (if _ then _ else _ : QDataStream).status = _
  split <;> rfl

theorem commitTransaction_fails {s t : QDataStream} (h : Fails s t) : (commitTransaction.run t).1 = false := by
  show decide ((if _ then _ else _ : QDataStream).status = .Ok) = false
  rw [decide_eq_false_iff_not]
  split
  · exact h.status
  · exact h.status

theorem Reads.run_started {op : Read α} {p : Parser UInt8 α} (h : Reads op p) {s : QDataStream} {a : α}
    {r : List UInt8} (hp : p.run s.rest = some (a, r)) :
    ∃ w, s.rest = w ++ r ∧ op.run s.started = (a, s.started.skip w.length) :=
  h.reads s.started a r rfl Nat.one_ne_zero hp

theorem Reads.fails_started {op : Read α} {p : Parser UInt8 α} (h : Reads op p) {s : QDataStream}
    (hp : p.run s.rest = none) : Fails s.started (op.run s.started).2 :=
  h.refuses s.started rfl Nat.one_ne_zero hp

/-! ## The encodings of integers, byte arrays and lists -/

theorem length_toBigEndian (n v : ℕ) : (toBigEndian n v).length = n := by
  induction n generalizing v with
  | zero => rfl
  | succ n ih => rw [toBigEndian, List.length_append, ih, List.length_singleton]

theorem ofBigEndian_append (l : List UInt8) (b : UInt8) : ofBigEndian (l ++ [b]) = ofBigEndian l * 256 + b.toNat := by
  simp [ofBigEndian]

theorem ofBigEndian_toBigEndian {n v : ℕ} (h : v < 256 ^ n) : ofBigEndian (toBigEndian n v) = v := by
  induction n generalizing v with
  | zero =>
    rw [pow_zero] at h
    have hv : v = 0 := by omega
    rw [hv]
    rfl
  | succ n ih =>
    have hdiv : v / 256 < 256 ^ n := by
      rw [pow_succ] at h
      exact Nat.div_lt_of_lt_mul (by omega)
    have hbyte : (UInt8.ofNat v).toNat = v % 256 := UInt8.toNat_ofNat'
    rw [toBigEndian, ofBigEndian_append, ih hdiv, hbyte]
    omega

/-- Integers of `n` bytes. -/
def integer (n : ℕ) (ofNat : ℕ → α) (toNat : α → ℕ) (hlt : ∀ a, toNat a < 256 ^ n) (hof : ∀ a, ofNat (toNat a) = a) :
    Codec UInt8 α :=
  (Codec.block n).pmap (fun l => some (ofNat (ofBigEndian l.1))) (fun a => ⟨toBigEndian n (toNat a), length_toBigEndian n _⟩)
    (fun a b h => by rw [← Option.some.inj h, ofBigEndian_toBigEndian (hlt a), hof])
    (fun l a h _ => by rw [ofBigEndian_toBigEndian (hlt a), hof]; exact ⟨rfl, rfl⟩)

theorem Reads.readInteger {n : ℕ} {ofNat : ℕ → α} {toNat : α → ℕ} (hlt : ∀ a, toNat a < 256 ^ n)
    (hof : ∀ a, ofNat (toNat a) = a) : Reads (readInteger n ofNat) (integer n ofNat toNat hlt hof).decode :=
  (Reads.readRawData n).bind_some (fun _ => Reads.pure _) (Stuck.pure _)

def uint16 : Codec UInt8 UInt16 :=
  integer 2 UInt16.ofNat UInt16.toNat (fun a => a.toNat_lt) fun _ => UInt16.ofNat_toNat

def uint32 : Codec UInt8 UInt32 :=
  integer 4 UInt32.ofNat UInt32.toNat (fun a => a.toNat_lt) fun _ => UInt32.ofNat_toNat

def uint64 : Codec UInt8 UInt64 :=
  integer 8 UInt64.ofNat UInt64.toNat (fun a => a.toNat_lt) fun _ => UInt64.ofNat_toNat

def int32 : Codec UInt8 Int32 :=
  integer 4 (fun v => (UInt32.ofNat v).toInt32) (fun a => a.toUInt32.toNat) (fun a => a.toUInt32.toNat_lt)
    fun a => by rw [UInt32.ofNat_toNat, Int32.toInt32_toUInt32]

def bool : Codec UInt8 Bool :=
  integer 1 (fun v => v != 0) Bool.toNat (fun a => lt_of_lt_of_le a.toNat_lt (by decide)) fun a => by cases a <;> rfl

theorem Reads.readUInt16 : Reads readUInt16 uint16.decode := Reads.readInteger _ _
theorem Reads.readUInt32 : Reads readUInt32 uint32.decode := Reads.readInteger _ _
theorem Reads.readUInt64 : Reads readUInt64 uint64.decode := Reads.readInteger _ _
theorem Reads.readInt32 : Reads readInt32 int32.decode := Reads.readInteger _ _
theorem Reads.readBool : Reads readBool bool.decode := Reads.readInteger _ _

/-- The length that `operator<<` writes before a byte array. -/
def byteArrayLength : Option Bytes → UInt32
  | none => 0xFFFFFFFF
  | some l => UInt32.ofNat l.1.length

theorem toNat_byteArrayLength (l : Bytes) : (byteArrayLength (some l)).toNat = l.1.length :=
  UInt32.toNat_ofNat_of_lt' (lt_trans l.2 (by decide))

theorem byteArrayLength_some_ne (l : Bytes) : byteArrayLength (some l) ≠ 0xFFFFFFFF := by
  intro h
  have hl := toNat_byteArrayLength l
  have hlt := l.2
  rw [h] at hl
  rw [← hl] at hlt
  exact absurd hlt (by decide)

/-- The bytes after the length. -/
def byteArrayData (len : UInt32) : Codec UInt8 {a : Option Bytes // byteArrayLength a = len} :=
  if h : len = 0xFFFFFFFF then
    Codec.unit.iso (fun _ => ⟨none, h.symm⟩) (fun _ => ⟨⟩)
      (fun a => by
        obtain ⟨_ | l, ha⟩ := a
        · rfl
        · exact absurd (ha.trans h) (byteArrayLength_some_ne l))
      (fun _ => rfl)
  else
    (Codec.block len.toNat).iso
      (fun l => ⟨some ⟨l.1, by
        rw [l.2]
        have hne : len.toNat ≠ 0xFFFFFFFF := fun hlen => h (UInt32.toNat_inj.mp hlen)
        have hlt := len.toNat_lt
        omega⟩, by
        rw [← UInt32.toNat_inj, toNat_byteArrayLength, l.2]⟩)
      (fun a => match a with
        | ⟨some l, ha⟩ => ⟨l.1, by rw [← ha, toNat_byteArrayLength]⟩
        | ⟨none, ha⟩ => absurd ha.symm h)
      (fun a => by
        obtain ⟨_ | l, ha⟩ := a
        · exact absurd ha.symm h
        · rfl)
      (fun _ => rfl)

/-- `QByteArray`: a length and the bytes, or the length of a null array. -/
def byteArray : Codec UInt8 (Option Bytes) := uint32.tagged byteArrayLength byteArrayData

theorem Reads.readByteArray : Reads readByteArray byteArray.decode := by
  refine Reads.readUInt32.bind fun len => ?_
  rcases Classical.em (len = 0xFFFFFFFF) with h | h
  · rw [dif_pos h, byteArrayData, dif_pos h]
    exact Reads.pure none
  · rw [dif_neg h, byteArrayData, dif_neg h, Codec.iso_decode, bind_assoc]
    refine (Reads.readRawData len.toNat).bind_some (fun l => ?_) ((Stuck.setStatus _).bind fun _ => Stuck.pure _)
    exact Reads.pure _

theorem Reads.readElements {op : Read α} {c : Codec UInt8 α} (h : Reads op c.decode) (n : ℕ) :
    Reads (readElements op n) ((c.vector n).decode >>= fun l => pure (some l)) := by
  induction n with
  | zero => exact Reads.pure _
  | succ n ih =>
    have hloop := h.bind fun t => (ih.bind fun l => Reads.pure
      (l.map fun l => (⟨t :: l.1, by rw [List.length_cons, l.2]⟩ : {l : List α // l.length = n + 1}))).whileOk none
    refine hloop.of_eq ?_
    rw [Codec.vector_succ_decode]
    simp only [bind_assoc, pure_bind, Option.map_some]

def count (l : Elements α) : UInt32 := UInt32.ofNat l.1.length

theorem toNat_count (l : Elements α) : (count l).toNat = l.1.length := UInt32.toNat_ofNat_of_lt' l.2

/-- `QList` and `QVector`: a count and the elements. -/
def list (c : Codec UInt8 α) : Codec UInt8 (Elements α) :=
  uint32.tagged count fun n => (c.vector n.toNat).iso
    (fun l => ⟨⟨l.1, by rw [l.2]; exact n.toNat_lt⟩, by rw [← UInt32.toNat_inj, toNat_count, l.2]⟩)
    (fun l => ⟨l.1.1, (toNat_count l.1).symm.trans (congrArg UInt32.toNat l.2)⟩) (fun _ => rfl) (fun _ => rfl)

theorem Reads.readList {op : Read α} {c : Codec UInt8 α} (h : Reads op c.decode) :
    Reads (readList op) (list c).decode := by
  refine Reads.readUInt32.bind fun n => ?_
  rw [Codec.iso_decode, bind_assoc]
  exact (h.readElements n.toNat).bind_some (fun _ => Reads.pure _) (Stuck.pure _)

def uuid : Codec UInt8 Uuid := Codec.block 16

theorem Reads.readUuid : Reads readUuid uuid.decode := by
  refine Reads.of_eq ?_ (bind_pure uuid.decode)
  refine (Reads.readRawData 16).bind_some (fun id => ?_) ?_
  · exact Reads.pure id
  · exact (Stuck.setStatus .ReadPastEnd).bind fun _ => Stuck.pure nullUuid

/-- The number of bytes that `operator<<` writes before a string. -/
def stringLength : Option Units → UInt32
  | none => 0xFFFFFFFF
  | some l => UInt32.ofNat (2 * l.1.length)

theorem toNat_stringLength (l : Units) : (stringLength (some l)).toNat = 2 * l.1.length :=
  UInt32.toNat_ofNat_of_lt' (lt_trans l.2 (by decide))

theorem stringLength_some_ne (l : Units) : stringLength (some l) ≠ 0xFFFFFFFF := by
  intro h
  have hl := toNat_stringLength l
  have hlt := l.2
  rw [h] at hl
  rw [← hl] at hlt
  exact absurd hlt (by decide)

/-- The code units after the number of bytes. -/
def stringData (bytes : UInt32) : Codec UInt8 {a : Option Units // stringLength a = bytes} :=
  if h : bytes = 0xFFFFFFFF then
    Codec.unit.iso (fun _ => ⟨none, h.symm⟩) (fun _ => ⟨⟩)
      (fun a => by
        obtain ⟨_ | l, ha⟩ := a
        · rfl
        · exact absurd (ha.trans h) (stringLength_some_ne l))
      (fun _ => rfl)
  else if hodd : bytes.toNat % 2 = 1 then
    Codec.never fun a => by
      obtain ⟨_ | l, ha⟩ := a
      · exact h ha.symm
      · rw [← ha, toNat_stringLength] at hodd
        omega
  else
    (uint16.vector (bytes.toNat / 2)).iso
      (fun l => ⟨some ⟨l.1, by
        rw [l.2]
        have hne : bytes.toNat ≠ 0xFFFFFFFF := fun hbytes => h (UInt32.toNat_inj.mp hbytes)
        have hlt := bytes.toNat_lt
        omega⟩, by
        rw [← UInt32.toNat_inj, toNat_stringLength, l.2]
        omega⟩)
      (fun a => match a with
        | ⟨some l, ha⟩ => ⟨l.1, by
          rw [← ha, toNat_stringLength]
          omega⟩
        | ⟨none, ha⟩ => absurd ha.symm h)
      (fun a => by
        obtain ⟨_ | l, ha⟩ := a
        · exact absurd ha.symm h
        · rfl)
      (fun _ => rfl)

/-- `QString`: the number of bytes and the code units, or the number of a null string. -/
def string : Codec UInt8 (Option Units) := uint32.tagged stringLength stringData

theorem Reads.failed {status : Status} (h : status ≠ .Ok) (a : α) :
    Reads (setStatus status >>= fun _ => pure a) (Parser.ofOption none : Parser UInt8 α) where
  stuck := (Stuck.setStatus status).bind fun _ => Stuck.pure a
  reads s b r _ _ hb := nomatch hb
  refuses s hs _ _ := by
    have hset : (QDataStream.setStatus status).run s = ((), { s with status }) := by
      show ((), if s.status = .Ok then _ else _) = _
      rw [if_pos hs]
    rw [run_bind, hset]
    exact ⟨h, rfl, rfl, rfl⟩

theorem Reads.readString : Reads readString string.decode := by
  refine Reads.readUInt32.bind fun bytes => ?_
  rcases Classical.em (bytes = 0xFFFFFFFF) with h | h
  · rw [dif_pos h, stringData, dif_pos h]
    exact Reads.pure none
  · rw [dif_neg h, stringData, dif_neg h]
    rcases Classical.em (bytes.toNat % 2 = 1) with hodd | hodd
    · rw [if_pos hodd, dif_pos hodd]
      have hcorrupt : Status.ReadCorruptData ≠ .Ok := by decide
      exact Reads.failed hcorrupt none
    · rw [if_neg hodd, dif_neg hodd, Codec.iso_decode, bind_assoc]
      exact (Reads.readUInt16.readElements _).bind_some (fun _ => Reads.pure _)
        ((Stuck.setStatus _).bind fun _ => Stuck.pure _)

/-! ## Values that are read back -/

theorem valid_byteArray (a : Option Bytes) : byteArray.valid a = true := by
  show (true && (byteArrayData (byteArrayLength a)).valid ⟨a, rfl⟩) = true
  rw [byteArrayData, Bool.true_and]
  split <;> rfl

theorem valid_vector {c : Codec UInt8 α} {n : ℕ} (l : {l : List α // l.length = n}) :
    (c.vector n).valid l = true ↔ ∀ a ∈ l.1, c.valid a = true := by
  induction n with
  | zero =>
    have hl := List.length_eq_zero_iff.mp l.2
    simp [hl, Codec.vector, Codec.iso, Codec.pmap, Codec.unit]
  | succ n ih =>
    obtain ⟨_ | ⟨a, l⟩, hl⟩ := l
    · exact absurd hl (by simp)
    · rw [List.length_cons, Nat.add_right_cancel_iff] at hl
      have hv : (c.vector (n + 1)).valid ⟨a :: l, by rw [List.length_cons, hl]⟩ =
          ((c.valid a && (c.vector n).valid ⟨l, hl⟩) && true) := rfl
      rw [hv, Bool.and_true, Bool.and_eq_true, ih ⟨l, hl⟩, List.forall_mem_cons]

theorem valid_list {c : Codec UInt8 α} (l : Elements α) :
    (list c).valid l = true ↔ ∀ a ∈ l.1, c.valid a = true := by
  have hv : (list c).valid l = (true && ((c.vector (count l).toNat).valid ⟨l.1, (toNat_count l).symm⟩ && true)) := rfl
  rw [hv, Bool.true_and, Bool.and_true, valid_vector]

theorem valid_string (a : Option Units) : string.valid a = true := by
  show (true && (stringData (stringLength a)).valid ⟨a, rfl⟩) = true
  rw [stringData, Bool.true_and]
  split
  · rfl
  · split
    · rfl
    · show ((uint16.vector _).valid _ && true) = true
      rw [Bool.and_true, valid_vector]
      intro _ _
      rfl

end QDataStream

end QtDataSync
