import QtDataSync.Lib.Numbered
import QtDataSync.Messages.DataStream
import QtDataSync.Store.EventLog

/-!
# Store.EventCursor — cursors on the event log

A cursor holds the event that it has read last, and reads the next one by its `SeqId`.  The log is always a part of the
numbers without gaps that ends with the last one: events are appended by transactions, and only a first part of them is
ever deleted.  So a cursor that is loaded after its event was deleted, and starts over, misses and repeats nothing.
-/

namespace QtDataSync

variable {Data Checksum : Type*} {jsonHash : Data → Checksum}

/-- The members of a cursor; one without an event has the index 0. -/
structure EventCursor where
  index : ℕ
  key : ObjectKey
  wasRemoved : Bool
  timestamp : Option ℕ
  skipObsolete : Bool
deriving DecidableEq, Repr

structure EventCursorException where
  index : ℕ
  context : String
  message : String
deriving DecidableEq, Repr

namespace EventCursor

/-- `EventCursor{setupName, parent}`. -/
def new : EventCursor := ⟨0, ⟨[], ""⟩, false, none, true⟩

def isValid (c : EventCursor) : Bool := c.index != 0

def readQuery (c : EventCursor) (e : Event) : EventCursor :=
  { c with index := e.seqId, key := e.key, wasRemoved := e.removed, timestamp := some e.timestamp }

/-- A new cursor on the event that a query has found. -/
def found : Option Event → EventCursor
  | some e => new.readQuery e
  | none => new

def first (db : LoggedStore jsonHash) : EventCursor := found db.eventLog.head?

def last (db : LoggedStore jsonHash) : EventCursor := found db.eventLog.getLast?

def create (db : LoggedStore jsonHash) (index : ℕ) : EventCursor := found (db.eventLog.find? (·.seqId == index))

def save (c : EventCursor) : QByteArray :=
  QDataStream.toBigEndian 8 c.index ++ QDataStream.toBigEndian 1 c.skipObsolete.toNat

/-- `stream >> index >> skipObsolete`. -/
def readCursor : Read (UInt64 × Bool) := do
  let index ← QDataStream.readUInt64
  let skipObsolete ← QDataStream.readBool
  return (index, skipObsolete)

def load (db : LoggedStore jsonHash) (data : QByteArray) : EventCursor :=
  let x := (readCursor.run (QDataStream.ofByteArray data)).1
  { create db x.1.toNat with skipObsolete := x.2 }

def setSkipObsolete (c : EventCursor) (skipObsolete : Bool) : EventCursor := { c with skipObsolete }

/-- The events that the query of `prepareNextQuery` selects: `EventLog.Version` is never NULL, and `DataIndex.Version` is
if the object has no row. -/
def selects (db : LoggedStore jsonHash) (c : EventCursor) (e : Event) : Bool :=
  decide (c.index < e.seqId) &&
    (!c.skipObsolete || ((db.dataIndex e.key).map (·.version)).any (e.version == ·))

/-- The cursor after a call of `next` that returns true. -/
def next (db : LoggedStore jsonHash) (c : EventCursor) : Option EventCursor :=
  (db.eventLog.find? (selects db c)).map c.readQuery

def clearEventLog (db : LoggedStore jsonHash) (c : EventCursor) (offset : ℕ) :
    Except EventCursorException (LoggedStore jsonHash) :=
  if c.index < offset then
    .error ⟨c.index, "Offset: " ++ toString offset,
      "offset is bigger than the index - can't clear negative data indexes"⟩
  else .ok { db with eventLog := db.eventLog.filter fun e => !decide (e.seqId < c.index - offset) }

/-- The store after `clearEventLog`; nothing has changed if it has thrown. -/
def afterClear (db : LoggedStore jsonHash) (c : EventCursor) (offset : ℕ) : LoggedStore jsonHash :=
  match clearEventLog db c offset with
  | .ok db' => db'
  | .error _ => db

/-- `next` is called until it returns false, and these are the cursors in between. -/
inductive Scans (db : LoggedStore jsonHash) : EventCursor → List EventCursor → Prop
  | done {c : EventCursor} : next db c = none → Scans db c []
  | more {c c' : EventCursor} {l : List EventCursor} : next db c = some c' → Scans db c' l → Scans db c (c' :: l)

/-! ### Scans -/

section

variable {db : LoggedStore jsonHash} {c : EventCursor}

/-- The events after the one that was read are those that are selected from there on. -/
theorem filter_selects (hordered : db.eventLog.Pairwise fun e e' => e.seqId < e'.seqId) {e : Event} {l : List Event}
    (h : db.eventLog.filter (selects db c) = e :: l) : db.eventLog.filter (selects db (c.readQuery e)) = l := by
  have hfind : db.eventLog.find? (selects db c) = some e := by
    rw [← List.head?_filter, h]
    rfl
  obtain ⟨he, before, after, hlog, hbefore⟩ := List.find?_eq_some_iff_append.mp hfind
  have hindex : c.index < e.seqId := by
    rw [selects, Bool.and_eq_true, decide_eq_true_eq] at he
    exact he.1
  rw [hlog] at hordered h ⊢
  obtain ⟨-, hafter, hcross⟩ := List.pairwise_append.mp hordered
  have hskipped : before.filter (selects db c) = [] := by
    refine List.filter_eq_nil_iff.mpr fun x hx => ?_
    simpa using hbefore x hx
  have hpassed : ∀ x ∈ before ++ [e], ¬ selects db (c.readQuery e) x = true := by
    intro x hx
    have hle : x.seqId ≤ e.seqId := by
      rcases List.mem_append.mp hx with hx | hx
      · exact (hcross x hx e List.mem_cons_self).le
      · rw [List.mem_singleton.mp hx]
    rw [selects, Bool.and_eq_true, decide_eq_true_eq]
    exact fun hsel => absurd hle (not_le.mpr hsel.1)
  have hsame : ∀ x ∈ after, selects db (c.readQuery e) x = selects db c x := by
    intro x hx
    have hlt := (List.pairwise_cons.mp hafter).1 x hx
    have hlt' : c.index < x.seqId := hindex.trans hlt
    simp only [selects, readQuery, hlt, hlt', decide_true]
  rw [List.filter_append, hskipped, List.nil_append, List.filter_cons_of_pos he] at h
  have htail : l = after.filter (selects db c) := (List.cons.inj h).2.symm
  have hsplit : before ++ e :: after = (before ++ [e]) ++ after := by rw [List.append_assoc, List.singleton_append]
  rw [hsplit, List.filter_append, List.filter_eq_nil_iff.mpr hpassed, List.nil_append, htail]
  exact List.filter_congr hsame

/-- **Repeated calls of `next`** read the events that are selected. -/
theorem scans_iff (hordered : db.eventLog.Pairwise fun e e' => e.seqId < e'.seqId) {l : List EventCursor} :
    Scans db c l ↔ l = (db.eventLog.filter (selects db c)).map c.readQuery := by
  have hnext : next db c = ((db.eventLog.filter (selects db c)).head?).map c.readQuery := by
    rw [next, List.head?_filter]
  generalize hevents : db.eventLog.filter (selects db c) = events at hnext ⊢
  induction events generalizing c l with
  | nil =>
    constructor
    · rintro (hdone | ⟨hmore, -⟩)
      · rfl
      · rw [hnext] at hmore
        cases hmore
    · rintro rfl
      exact .done hnext
  | cons e events ih =>
    have hrest := filter_selects hordered hevents
    have hnext' : next db (c.readQuery e) = events.head?.map (c.readQuery e).readQuery := by
      rw [next, ← List.head?_filter, hrest]
    constructor
    · rintro (hdone | ⟨hmore, hscans⟩)
      · rw [hnext] at hdone
        cases hdone
      · rw [hnext] at hmore
        cases hmore
        rw [(ih hrest hnext').mp hscans]
        rfl
    · rintro rfl
      exact .more hnext ((ih hrest hnext').mpr rfl)

end

/-! ### The system -/

/-- A store and any cursors on its log. -/
structure System (ι : Type*) (jsonHash : Data → Checksum) where
  store : LoggedStore jsonHash
  cursors : ι → EventCursor

/-- What happens: transactions, and calls on cursors. -/
inductive Step (ι Data : Type*) where
  | transaction (a : LoggedStore.Transaction Data)
  | first (i : ι)
  | last (i : ι)
  | create (i : ι) (index : ℕ)
  | load (i : ι) (data : QByteArray)
  | setSkipObsolete (i : ι) (skipObsolete : Bool)
  | next (i : ι)
  | clearEventLog (i : ι) (offset : ℕ)

section

variable {ι : Type*} [DecidableEq ι] [LinearOrder Checksum] (d : Defaults Data)

def System.set (s : System ι jsonHash) (i : ι) (c : EventCursor) : System ι jsonHash :=
  { s with cursors := Function.update s.cursors i c }

inductive Takes (s : System ι jsonHash) : Step ι Data → System ι jsonHash → Prop
  | transaction {a : LoggedStore.Transaction Data} {db : LoggedStore jsonHash} :
      LoggedStore.Transacts d s.store a db → Takes s (.transaction a) { s with store := db }
  | first {i : ι} : Takes s (.first i) (s.set i (first s.store))
  | last {i : ι} : Takes s (.last i) (s.set i (last s.store))
  | create {i : ι} {index : ℕ} : Takes s (.create i index) (s.set i (create s.store index))
  | load {i : ι} {data : QByteArray} : Takes s (.load i data) (s.set i (load s.store data))
  | setSkipObsolete {i : ι} {skipObsolete : Bool} :
      Takes s (.setSkipObsolete i skipObsolete) (s.set i ((s.cursors i).setSkipObsolete skipObsolete))
  | next {i : ι} : Takes s (.next i) (s.set i ((next s.store (s.cursors i)).getD (s.cursors i)))
  | clearEventLog {i : ι} {offset : ℕ} :
      Takes s (.clearEventLog i offset) { s with store := afterClear s.store (s.cursors i) offset }

def lts (initial : DataIndex jsonHash) : LTS (System ι jsonHash) (Step ι Data) where
  init s := s.store = ⟨initial, [], 0⟩ ∧ ∀ i, s.cursors i = new
  step := Takes d

end

/-! ### Saved cursors -/

/-- The loaded cursor reads what comes after the saved one. -/
structure Resumes (db : LoggedStore jsonHash) (saved : EventCursor) : Prop where
  ordered : (db.eventLog.map (·.seqId)).Pairwise (· < ·)
  reads : ∀ l, Scans db { load db saved.save with skipObsolete := false } l ↔
    l = (db.eventLog.filter fun e => decide (saved.index < e.seqId)).map { saved with skipObsolete := false }.readQuery

/-- `clearEventLog` leaves the events from the one of the cursor on, and so many before it. -/
def ClearsTo (db : LoggedStore jsonHash) (c : EventCursor) (offset : ℕ) : Prop :=
  let before := db.eventLog.filter fun e => decide (e.seqId < c.index)
  (afterClear db c offset).eventLog = before.drop (before.length - offset) ++
    db.eventLog.filter fun e => decide (c.index ≤ e.seqId)

theorem run_readInteger {α : Type} {ofNat : ℕ → α} {s : QDataStream} {n : ℕ} {w r : List UInt8}
    (hstatus : s.status = .Ok) (hrest : s.rest = w ++ r) (hlength : w.length = n) :
    (QDataStream.readInteger n ofNat).run s = (ofNat (QDataStream.ofBigEndian w), s.skip w.length) := by
  have hdata : s.rest.take n = w := by
    rw [hrest]
    exact List.take_left' hlength
  have hrun : (QDataStream.readRawData n).run s = (some ⟨w, hlength⟩, s.skip w.length) := by
    show (if s.status ≠ .Ok ∧ s.transactionDepth ≠ 0 then _ else _) = _
    rw [if_neg fun hc => hc.1 hstatus]
    subst hdata
    exact dif_pos hlength
  rw [QDataStream.readInteger, QDataStream.run_bind, hrun]
  rfl

/-- What `save` has written is what `load` reads. -/
theorem load_save (db : LoggedStore jsonHash) {c : EventCursor} (h : c.index < 2 ^ 64) :
    load db c.save = { create db c.index with skipObsolete := c.skipObsolete } := by
  have hindex : (QDataStream.readInteger 8 UInt64.ofNat).run (QDataStream.ofByteArray c.save) = _ :=
    run_readInteger rfl rfl (QDataStream.length_toBigEndian 8 c.index)
  have hrest : ((QDataStream.ofByteArray c.save).skip (QDataStream.toBigEndian 8 c.index).length).rest =
      QDataStream.toBigEndian 1 c.skipObsolete.toNat ++ [] := by
    rw [QDataStream.rest_skip (s := QDataStream.ofByteArray c.save) rfl, List.append_nil]
  have hskip : (QDataStream.readInteger 1 fun v => v != 0).run
      ((QDataStream.ofByteArray c.save).skip (QDataStream.toBigEndian 8 c.index).length) = _ :=
    run_readInteger rfl hrest (QDataStream.length_toBigEndian 1 c.skipObsolete.toNat)
  have hread : (readCursor.run (QDataStream.ofByteArray c.save)).1 = (UInt64.ofNat c.index, c.skipObsolete) := by
    rw [readCursor, QDataStream.run_bind, QDataStream.readUInt64, hindex, QDataStream.run_bind, QDataStream.readBool,
      hskip, QDataStream.ofBigEndian_toBigEndian (by simpa using h)]
    cases c.skipObsolete <;> rfl
  rw [load, hread]
  simp only
  rw [UInt64.toNat_ofNat_of_lt' h]

/-- The events have the last numbers that were given, without gaps. -/
def Sequenced (db : LoggedStore jsonHash) : Prop :=
  ∃ s, Numbered Event.seqId (s + 1) db.eventLog ∧ s + db.eventLog.length = db.sequence

section

variable {db : LoggedStore jsonHash} {c : EventCursor}

theorem Sequenced.ordered (h : Sequenced db) : db.eventLog.Pairwise fun e e' => e.seqId < e'.seqId := by
  obtain ⟨s, hs, -⟩ := h
  exact hs.pairwise

theorem Sequenced.write (h : Sequenced db) (now : ℕ) (key : ObjectKey) (e : Entry jsonHash) :
    Sequenced (db.write now key e) := by
  obtain ⟨s, hs, hlast⟩ := h
  unfold LoggedStore.write
  split
  · refine ⟨s, hs.append ?_, ?_⟩
    · show db.sequence + 1 = s + 1 + db.eventLog.length
      omega
    · show s + (db.eventLog ++ [_]).length = db.sequence + 1
      rw [List.length_append, List.length_singleton]
      omega
  · exact ⟨s, hs, hlast⟩

theorem Sequenced.afterClear (h : Sequenced db) (c : EventCursor) (offset : ℕ) : Sequenced (afterClear db c offset) := by
  have hsame := h
  obtain ⟨s, hs, hlast⟩ := h
  unfold EventCursor.afterClear clearEventLog
  split_ifs with hoffset
  · exact hsame
  · have hfilter : (db.eventLog.filter fun e => !decide (e.seqId < c.index - offset)) =
        db.eventLog.drop (c.index - offset - (s + 1)) := by
      rw [← hs.filter_le]
      exact List.filter_congr fun e _ => by rw [← decide_not, decide_eq_decide, not_lt]
    simp only [Sequenced, hfilter]
    by_cases hn : c.index - offset - (s + 1) ≤ db.eventLog.length
    · refine ⟨s + (c.index - offset - (s + 1)), ?_, ?_⟩
      · rw [Nat.add_right_comm]
        exact hs.drop _
      · rw [List.length_drop]
        omega
    · refine ⟨db.sequence, ?_, ?_⟩
      · rw [List.drop_of_length_le (by omega)]
        trivial
      · rw [List.length_drop]
        omega

theorem clearsTo (h : Sequenced db) (hindex : c.index ≤ db.sequence) (offset : ℕ) : ClearsTo db c offset := by
  obtain ⟨s, hs, hlast⟩ := h
  have hsplit : ∀ {n m : ℕ}, n ≤ (db.eventLog.take m).length →
      (db.eventLog.take m).drop n ++ db.eventLog.drop m = db.eventLog.drop n := by
    intro n m hn
    rw [← List.drop_append_of_le_length hn, List.take_append_drop]
  unfold ClearsTo EventCursor.afterClear clearEventLog
  simp only
  rw [hs.filter_lt, hs.filter_le, hsplit (Nat.sub_le _ _), List.length_take]
  split_ifs with hoffset
  · have hzero : min (c.index - (s + 1)) db.eventLog.length - offset = 0 := by omega
    rw [hzero]
    rfl
  · have hfilter : (db.eventLog.filter fun e => !decide (e.seqId < c.index - offset)) =
        db.eventLog.drop (c.index - offset - (s + 1)) := by
      rw [← hs.filter_le]
      exact List.filter_congr fun e _ => by rw [← decide_not, decide_eq_decide, not_lt]
    have hcount : min (c.index - (s + 1)) db.eventLog.length - offset = c.index - offset - (s + 1) := by omega
    rw [hcount]
    exact hfilter

theorem resumes (h : Sequenced db) (hsmall : db.sequence < 2 ^ 63) (hindex : c.index ≤ db.sequence) : Resumes db c := by
  have hordered := h.ordered
  refine ⟨List.pairwise_map.mpr hordered, fun l => ?_⟩
  obtain ⟨s, hs, hlast⟩ := h
  have hsmall' : c.index < 2 ^ 64 := by omega
  have hselects : ∀ e ∈ db.eventLog, selects db { load db c.save with skipObsolete := false } e =
      decide (c.index < e.seqId) := by
    intro e he
    have hbounds := hs.bounds e he
    rw [load_save db hsmall', selects, Bool.not_false, Bool.true_or, Bool.and_true]
    congr 1
    show ((create db c.index).index < e.seqId) = (c.index < e.seqId)
    rw [create, eq_iff_iff]
    rcases hfind : db.eventLog.find? (·.seqId == c.index) with - | e'
    · have hgone : ¬ s + 1 ≤ c.index := by
        intro hle
        obtain ⟨x, hx, hxc⟩ := hs.exists_mem hle (by omega)
        exact absurd (List.find?_eq_none.mp hfind x hx) (by simp [hxc])
      rw [hfind]
      show 0 < e.seqId ↔ _
      omega
    · have hindex' : e'.seqId = c.index := by simpa using List.find?_some hfind
      rw [hfind]
      show e'.seqId < e.seqId ↔ _
      rw [hindex']
  rw [scans_iff hordered, List.filter_congr hselects]
  rfl

end

/-! ### Runs -/

section

variable {ι : Type*} [DecidableEq ι] [LinearOrder Checksum] {d : Defaults Data} {s t : System ι jsonHash}

/-- A transaction numbers its events, or deletes all. -/
theorem Sequenced.transact {db : LoggedStore jsonHash} (h : Sequenced db) (a : LoggedStore.Transaction Data) :
    Sequenced (db.transact d a) ∧ db.sequence ≤ (db.transact d a).sequence := by
  have hrows : ∀ (op : LogOp Data) (now : ℕ) (rows : List ObjectKey) (db : LoggedStore jsonHash), Sequenced db →
      Sequenced (rows.foldl (fun db key => db.write now key (op.entry d (db.dataIndex key))) db) ∧ db.sequence ≤
        (rows.foldl (fun db key => db.write now key (op.entry d (db.dataIndex key))) db).sequence := by
    intro op now rows
    induction rows with
    | nil => exact fun db h => ⟨h, le_rfl⟩
    | cons key rows ih =>
      intro db h
      have hwrite := ih _ (h.write now key (op.entry d (db.dataIndex key)))
      have hle : db.sequence ≤ (db.write now key (op.entry d (db.dataIndex key))).sequence := by
        unfold LoggedStore.write
        split
        · exact Nat.le_succ _
        · exact le_rfl
      exact ⟨hwrite.1, hle.trans hwrite.2⟩
  obtain ⟨op, rows, now, commits⟩ := a
  cases commits with
  | false => exact ⟨h, le_rfl⟩
  | true =>
    cases op with
    | store op => exact hrows (.store op) now rows db h
    | migrate key data overwrite changed => exact hrows (.migrate key data overwrite changed) now rows db h
    | reset keepData =>
      cases keepData with
      | false => exact ⟨⟨db.sequence, trivial, rfl⟩, le_rfl⟩
      | true => exact ⟨h, le_rfl⟩

/-- The invariant of the runs: a cursor has the number of an event that was logged. -/
structure Placed (s : System ι jsonHash) : Prop where
  sequenced : Sequenced s.store
  small : s.store.sequence < 2 ^ 63
  cursors : ∀ i, (s.cursors i).index ≤ s.store.sequence

omit [LinearOrder Checksum] in
theorem Placed.set (h : Placed s) {i : ι} {c : EventCursor} (hc : c.index ≤ s.store.sequence) : Placed (s.set i c) := by
  refine ⟨h.sequenced, h.small, fun j => ?_⟩
  show (Function.update s.cursors i c j).index ≤ s.store.sequence
  by_cases hj : j = i
  · rw [hj, Function.update_self]
    exact hc
  · rw [Function.update_of_ne hj]
    exact h.cursors j

omit [DecidableEq ι] [LinearOrder Checksum] in
theorem Placed.event (h : Placed s) {e : Event} (he : e ∈ s.store.eventLog) : e.seqId ≤ s.store.sequence := by
  obtain ⟨n, hn, hlast⟩ := h.sequenced
  have hbounds := hn.bounds e he
  omega

omit [DecidableEq ι] [LinearOrder Checksum] in
theorem Placed.found (h : Placed s) {o : Option Event} (ho : ∀ e, o = some e → e ∈ s.store.eventLog) :
    (found o).index ≤ s.store.sequence := by
  rcases o with - | e
  · exact Nat.zero_le _
  · exact h.event (ho e rfl)

/-- **One step**. -/
theorem Placed.takes {a : Step ι Data} (h : Placed s) (hst : Takes d s a t) :
    Placed t ∧ s.store.sequence ≤ t.store.sequence := by
  cases hst with
  | @transaction a db htransacts =>
    obtain ⟨-, hdb, hsmall⟩ := htransacts
    obtain ⟨hsequenced, hle⟩ := h.sequenced.transact (d := d) a
    rw [← hdb] at hsequenced hle
    exact ⟨⟨hsequenced, hsmall, fun i => (h.cursors i).trans hle⟩, hle⟩
  | first => exact ⟨h.set (h.found fun e he => List.mem_of_head? he), le_rfl⟩
  | last => exact ⟨h.set (h.found fun e he => List.mem_of_getLast? he), le_rfl⟩
  | create => exact ⟨h.set (h.found fun e he => List.mem_of_find?_eq_some he), le_rfl⟩
  | load => exact ⟨h.set (h.found fun e he => List.mem_of_find?_eq_some he), le_rfl⟩
  | @setSkipObsolete i _ => exact ⟨h.set (h.cursors i), le_rfl⟩
  | @next i =>
    refine ⟨h.set ?_, le_rfl⟩
    rw [next]
    rcases hfind : s.store.eventLog.find? (selects s.store (s.cursors i)) with - | e
    · exact h.cursors i
    · exact h.event (List.mem_of_find?_eq_some hfind)
  | @clearEventLog i offset =>
    have hsequence : (afterClear s.store (s.cursors i) offset).sequence = s.store.sequence := by
      unfold afterClear clearEventLog
      split_ifs <;> rfl
    refine ⟨⟨h.sequenced.afterClear _ _, ?_, fun j => ?_⟩, hsequence.ge⟩
    · show (afterClear s.store (s.cursors i) offset).sequence < 2 ^ 63
      rw [hsequence]
      exact h.small
    · show (s.cursors j).index ≤ (afterClear s.store (s.cursors i) offset).sequence
      rw [hsequence]
      exact h.cursors j

theorem placed_of_reachable {initial : DataIndex jsonHash} (h : (lts d initial).Reachable LTS.free s) : Placed s := by
  refine LTS.Reachable.invariant (I := Placed) ?_ (fun s a t _ hs _ hst => (hs.takes hst).1) h
  rintro s ⟨hstore, hcursors⟩
  refine ⟨?_, ?_, fun i => ?_⟩
  · rw [hstore]
    exact ⟨0, trivial, rfl⟩
  · rw [hstore]
    exact Nat.two_pow_pos 63
  · rw [hcursors i]
    exact Nat.zero_le _

/-- **A saved cursor resumes exactly**, whatever happens until it is loaded, and clearing the log leaves what it says. -/
theorem resumes_of_run {initial : DataIndex jsonHash} {tr : List (System ι jsonHash × Step ι Data × System ι jsonHash)}
    (hs : (lts d initial).Reachable LTS.free s) (hr : LTS.Run (lts d initial) LTS.free s tr t) (i : ι) :
    Resumes t.store (s.cursors i) ∧ ∀ j offset, ClearsTo t.store (t.cursors j) offset := by
  have hplaced := placed_of_reachable hs
  have ht := hr.invariant (I := Placed) (fun s a t h _ hst => (h.takes hst).1) hplaced
  have hsequence : s.store.sequence ≤ t.store.sequence :=
    hr.rel (I := Placed) (R := fun s t => s.store.sequence ≤ t.store.sequence) (fun _ => le_rfl)
      (fun _ _ _ => le_trans) (fun s a t h _ hst => (h.takes hst).1) (fun s a t h _ hst => (h.takes hst).2) hplaced
  exact ⟨resumes ht.sequenced ht.small ((hplaced.cursors i).trans hsequence),
    fun j offset => clearsTo ht.sequenced (ht.cursors j) offset⟩

end

namespace Sample

def key : ObjectKey := ⟨[1], "a"⟩

def defaults : Defaults ℕ := ⟨false, .PreferChanged, none⟩

def saves (data now : ℕ) : LoggedStore.Transaction ℕ := ⟨.store (.save key data), [key], now, true⟩

/-- The object is saved. -/
def saved (s : System Bool fun n : ℕ => n) (data now : ℕ) : System Bool fun n : ℕ => n :=
  { s with store := s.store.transact defaults (saves data now) }

/-- A cursor on the first event. -/
def placed : System Bool fun n : ℕ => n :=
  let s := saved ⟨⟨fun _ => none, [], 0⟩, fun _ => new⟩ 5 7
  s.set false (first s.store)

/-- Two more events, and another cursor on the last one. -/
def appended : System Bool fun n : ℕ => n :=
  let s := saved (saved placed 6 8) 7 9
  s.set true (last s.store)

def cleared : System Bool fun n : ℕ => n :=
  { appended with store := afterClear appended.store (appended.cursors true) 0 }

theorem takes_saved (s : System Bool fun n : ℕ => n) {data now : ℕ}
    (hsequence : (s.store.transact defaults (saves data now)).sequence < 2 ^ 63) :
    (lts defaults fun _ => none).step s (.transaction (saves data now)) (saved s data now) :=
  .transaction ⟨rfl, rfl, hsequence⟩

theorem placed_reachable : (lts (ι := Bool) defaults fun _ => none).Reachable LTS.free placed := by
  have hstart : (lts (ι := Bool) defaults fun _ => (none : Entry fun n : ℕ => n)).Reachable LTS.free
      ⟨⟨fun _ => none, [], 0⟩, fun _ => new⟩ := .init ⟨rfl, fun _ => rfl⟩
  have hsaved := hstart.step (a := .transaction (saves 5 7)) trivial (takes_saved _ (by decide +kernel))
  exact hsaved.step (a := .first false) trivial .first

theorem cleared_run : ∃ tr, LTS.Run (lts (ι := Bool) defaults fun _ => none) LTS.free placed tr cleared := by
  have hrun : LTS.Run (lts (ι := Bool) defaults fun _ => none) LTS.free placed [] placed := .nil _
  have hagain := hrun.snoc (a := .transaction (saves 6 8)) trivial (takes_saved placed (by decide +kernel))
  have hthird := hagain.snoc (a := .transaction (saves 7 9)) trivial (takes_saved _ (by decide +kernel))
  have hlast : (lts (ι := Bool) defaults fun _ => none).step (saved (saved placed 6 8) 7 9) (.last true) appended := .last
  have hcleared : (lts (ι := Bool) defaults fun _ => none).step appended (.clearEventLog true 0) cleared :=
    .clearEventLog
  exact ⟨_, (hthird.snoc trivial hlast).snoc trivial hcleared⟩

end Sample

/-- A cursor is saved on the first event, and all events but the last one are deleted when it is loaded. -/
theorem resumes_cleared : (Resumes Sample.cleared.store (Sample.placed.cursors false) ∧
    ∀ j offset, ClearsTo Sample.cleared.store (Sample.cleared.cursors j) offset) ∧
      (Sample.placed.cursors false).index = 1 ∧ Sample.cleared.store.eventLog.map (·.seqId) = [3] := by
  obtain ⟨tr, hrun⟩ := Sample.cleared_run
  exact ⟨resumes_of_run Sample.placed_reachable hrun false, by decide +kernel, by decide +kernel⟩

end EventCursor

end QtDataSync
