import Mathlib.Algebra.Order.Ring.Nat
import QtDataSync.Lib.Replay
import QtDataSync.Lib.Transition
import QtDataSync.Store.Redelivery
import QtDataSync.Store.VersionColumn

/-!
# Store.EventLog — the events that the triggers log, and what they replay to

Every write path changes a row by one statement: an `INSERT`, an `UPDATE` or a `DELETE`.  Two triggers on `DataIndex`
log the first, and the second if it changes the version.  As long as versions are integers in the table, an object never
changes without its version and only the rows of deleted objects are erased (`live_eq_of_triggers`), so the objects at any
position of the log and the events after it give the objects that the store has.  From `2 ^ 63` on a removal does not
change the version and is not logged (`not_replays_removed`).
-/

namespace QtDataSync

variable {Data Checksum : Type*} {jsonHash : Data → Checksum}

/-- A row of `EventLog`. -/
structure Event where
  seqId : ℕ
  key : ObjectKey
  version : ℕ
  removed : Bool
  timestamp : ℕ
deriving DecidableEq, Repr

/-- `DataIndex`, `EventLog` in the order of `SeqId`, and the last `SeqId` in `sqlite_sequence`. -/
structure LoggedStore (jsonHash : Data → Checksum) where
  dataIndex : DataIndex jsonHash
  eventLog : List Event
  sequence : ℕ

/-- The version of the object that a row holds. -/
def Entry.live (e : Entry jsonHash) : Option ℕ := e.bind fun r => r.file.map fun _ => r.version

/-- The existing objects with their versions. -/
def DataIndex.live (index : DataIndex jsonHash) (key : ObjectKey) : Option ℕ := Entry.live (index key)

/-- What an event says about its object. -/
def Event.assignment (e : Event) : ObjectKey × Option ℕ := (e.key, if e.removed then none else some e.version)

/-! ### Migration -/

namespace MigrationHelper

open LocalStore

/-- `storeChanged` or `storeDeleted`, for an object of the old store and for a deleted one. -/
def store (e : Entry jsonHash) (version : ℕ) (data : Option Data) (changed : Bool) (type : ChangeType) :
    Except QException (Entry jsonHash) :=
  match data with
  | some data => LocalStore.storeChanged e version data changed type
  | none => LocalStore.storeDeleted e version true type

/-- What a migration does with an entry of the old store; without `MigrateOverwriteData` a known key is skipped. -/
def migrate (overwrite : Bool) (e : Entry jsonHash) (data : Option Data) (changed : Bool) :
    Except QException (Entry jsonHash) :=
  match LocalStore.loadChangeInfo e with
  | .Exists version _ => if overwrite then store e (version + 1) data changed .Exists else .ok e
  | .ExistsDeleted version => if overwrite then store e (version + 1) data changed .ExistsDeleted else .ok e
  | .NoExists => store e (0 + 1) data changed .NoExists

end MigrationHelper

/-! ### Triggers -/

/-- What the triggers log when a statement turns the row of a key: `eventlog_INSERT` always, `eventlog_UPDATE` if the
version is a new one.  There is none for `DELETE`. -/
def triggers : Entry jsonHash → Entry jsonHash → Option (ℕ × Bool)
  | none, some r => some (r.version, r.file.isNone)
  | some old, some new => if new.version ≠ old.version then some (new.version, new.file.isNone) else none
  | _, none => none

namespace LoggedStore

/-- The statement writes the row, and `AUTOINCREMENT` numbers the event. -/
def write (now : ℕ) (db : LoggedStore jsonHash) (key : ObjectKey) (e : Entry jsonHash) : LoggedStore jsonHash :=
  match triggers (db.dataIndex key) e with
  | some (version, removed) => {
      dataIndex := Function.update db.dataIndex key e
      eventLog := db.eventLog ++ [⟨db.sequence + 1, key, version, removed, now⟩]
      sequence := db.sequence + 1 }
  | none => { db with dataIndex := Function.update db.dataIndex key e }

end LoggedStore

/-! ### Operations -/

/-- The operations that write `DataIndex`. -/
inductive LogOp (Data : Type*) where
  | store (op : StoreOp Data)
  | migrate (key : ObjectKey) (data : Option Data) (overwrite changed : Bool)
  | reset (keepData : Bool)

namespace LogOp

/-- The rows that the statement of the operation writes, in the order in which it does. -/
def Selects (index : DataIndex jsonHash) : LogOp Data → List ObjectKey → Prop
  | .store (.save key _), rows => rows = [key]
  | .store (.remove key), rows => rows = [key]
  | .store (.clear typeName), rows => rows.Nodup ∧
      ∀ key, key ∈ rows ↔ key.typeName = typeName ∧ ∃ r, index key = some r ∧ r.file.isSome
  | .store (.markUnchanged key _ _), rows => rows = [key]
  | .store (.syncChange c), rows => rows = [c.key]
  | .migrate key _ _ _, rows => rows = [key]
  | .reset _, rows => rows = []

/-- The operation with the version that its statement compares. -/
def compared : StoreOp Data → StoreOp Data
  | .markUnchanged key version isDelete => .markUnchanged key (column version) isDelete
  | op => op

variable [LinearOrder Checksum] (d : Defaults Data)

/-- What the operation makes of a row, with the version that the column holds. -/
def entry (e : Entry jsonHash) (op : LogOp Data) : Entry jsonHash :=
  (match op with
  | .store op => DataIndex.runEntry d e (compared op)
  | .migrate _ data overwrite changed => (MigrationHelper.migrate overwrite e data changed).toOption.getD e
  | .reset keepData => LocalStore.reset keepData e).map Row.stored

end LogOp

namespace LoggedStore

variable [LinearOrder Checksum] (d : Defaults Data)

/-- The operation; a reset that deletes the data clears the log as well. -/
def run (now : ℕ) (db : LoggedStore jsonHash) (op : LogOp Data) (rows : List ObjectKey) : LoggedStore jsonHash :=
  match op with
  | .reset keepData => { db with
      dataIndex := DataIndex.reset keepData db.dataIndex
      eventLog := if keepData then db.eventLog else [] }
  | op => rows.foldl (fun db key => db.write now key (op.entry d (db.dataIndex key))) db

/-- An operation that commits, or is rolled back with what the triggers have logged. -/
structure Transaction (Data : Type*) where
  op : LogOp Data
  rows : List ObjectKey
  now : ℕ
  commits : Bool

def transact (db : LoggedStore jsonHash) (a : Transaction Data) : LoggedStore jsonHash :=
  if a.commits then db.run d a.now a.op a.rows else db

/-- A transaction changes the rows that it selects, and cannot commit without a `SeqId` for each of its events. -/
def Transacts (db : LoggedStore jsonHash) (a : Transaction Data) (t : LoggedStore jsonHash) : Prop :=
  a.op.Selects db.dataIndex a.rows ∧ t = db.transact d a ∧ t.sequence < 2 ^ 63

/-- The store from the creation of the log on, with any objects in it. -/
def lts (initial : DataIndex jsonHash) : LTS (LoggedStore jsonHash) (Transaction Data) where
  init db := db = ⟨initial, [], 0⟩
  step := Transacts d

/-! ### Positions of the log -/

/-- The tables after each event that a statement logs. -/
def positions (now : ℕ) (op : LogOp Data) : LoggedStore jsonHash → List ObjectKey → List (DataIndex jsonHash)
  | _, [] => []
  | db, key :: rows =>
    let e := op.entry d (db.dataIndex key)
    let db' := db.write now key e
    if (triggers (db.dataIndex key) e).isSome then db'.dataIndex :: positions now op db' rows
    else positions now op db' rows

/-- The tables at the positions of the log, from its first event on. -/
def record (past : List (DataIndex jsonHash)) (db : LoggedStore jsonHash) (a : Transaction Data)
    (t : LoggedStore jsonHash) : List (DataIndex jsonHash) :=
  if a.commits then
    match a.op with
    | .reset false => [t.dataIndex]
    | .reset true => past
    | op => past ++ positions d a.now op db a.rows
  else past

/-- The objects at any position of the log with the events after it are those of the store. -/
structure Replays (db : LoggedStore jsonHash) (past : List (DataIndex jsonHash)) : Prop where
  ordered : (db.eventLog.map (·.seqId)).Pairwise (· < ·)
  positions : past.length = db.eventLog.length + 1
  replay : ∀ n index, past[n]? = some index →
    Replay.replay index.live ((db.eventLog.drop n).map Event.assignment) = db.dataIndex.live
  removed : ∀ n index key, past[n]? = some index → index.live key ≠ none → db.dataIndex.live key = none →
    ∃ e, ((db.eventLog.drop n).filter (·.key = key)).getLast? = some e ∧ e.removed = true

variable {d}

/-! ### The table -/

omit [LinearOrder Checksum] in
theorem write_dataIndex (now : ℕ) (db : LoggedStore jsonHash) (key : ObjectKey) (e : Entry jsonHash) :
    (db.write now key e).dataIndex = Function.update db.dataIndex key e := by
  unfold write
  split <;> rfl

theorem rows_dataIndex (op : LogOp Data) (now : ℕ) {rows : List ObjectKey} (hrows : rows.Nodup)
    (db : LoggedStore jsonHash) (key : ObjectKey) :
    (rows.foldl (fun db key => db.write now key (op.entry d (db.dataIndex key))) db).dataIndex key =
      if key ∈ rows then op.entry d (db.dataIndex key) else db.dataIndex key := by
  induction rows generalizing db with
  | nil => simp
  | cons k rows ih =>
    obtain ⟨hk, hrows⟩ := List.nodup_cons.mp hrows
    rw [List.foldl_cons, ih hrows, write_dataIndex]
    by_cases hkey : key = k
    · subst hkey
      rw [if_neg hk, Function.update_self, if_pos List.mem_cons_self]
    · rw [Function.update_of_ne hkey]
      simp [hkey]

omit [LinearOrder Checksum] in
theorem nodup_of_selects {index : DataIndex jsonHash} {op : LogOp Data} {rows : List ObjectKey}
    (h : op.Selects index rows) : rows.Nodup := by
  have hone : ∀ {k : ObjectKey}, rows = [k] → rows.Nodup := by
    rintro k rfl
    exact List.nodup_singleton k
  cases op with
  | store op =>
    cases op with
    | clear typeName => exact h.1
    | save key data => exact hone h
    | remove key => exact hone h
    | markUnchanged key version isDelete => exact hone h
    | syncChange c => exact hone h
  | migrate key data overwrite changed => exact hone h
  | reset keepData =>
    have hrows : rows = [] := h
    rw [hrows]
    exact List.nodup_nil

/-- A row that is cleared has a file. -/
theorem rows_of_selects {index : DataIndex jsonHash} {op : StoreOp Data} {rows : List ObjectKey}
    (h : (LogOp.store op).Selects index rows) : (∀ key ∈ rows, DataIndex.Touches key (LogOp.compared op)) ∧
      ∀ key, DataIndex.Touches key (LogOp.compared op) → key ∉ rows →
        DataIndex.runEntry d (index key) (LogOp.compared op) = index key := by
  have hone : ∀ {k}, rows = [k] → (∀ key, DataIndex.Touches key (LogOp.compared op) ↔ key = k) →
      (∀ key ∈ rows, DataIndex.Touches key (LogOp.compared op)) ∧
        ∀ key, DataIndex.Touches key (LogOp.compared op) → key ∉ rows →
          DataIndex.runEntry d (index key) (LogOp.compared op) = index key := by
    rintro k rfl ht
    refine ⟨fun key hkey => (ht key).mpr (List.mem_singleton.mp hkey), fun key htouch hkey => ?_⟩
    exact absurd (List.mem_singleton.mpr ((ht key).mp htouch)) hkey
  cases op with
  | save key data => exact hone h fun _ => Iff.rfl
  | remove key => exact hone h fun _ => Iff.rfl
  | markUnchanged key version isDelete => exact hone h fun _ => Iff.rfl
  | syncChange c => exact hone h fun _ => Iff.rfl
  | clear typeName =>
    obtain ⟨-, hall⟩ := h
    refine ⟨fun key hkey => ((hall key).mp hkey).1, fun key htouch hkey => ?_⟩
    show LocalStore.clear (index key) = index key
    rcases hr : index key with - | ⟨v, - | f, ch⟩
    · rfl
    · rfl
    · exact absurd ((hall key).mpr ⟨htouch, _, hr, rfl⟩) hkey

/-- **The triggers change nothing but the log**: the table is that of `Store.Redelivery`, as its columns hold it. -/
theorem run_dataIndex (now : ℕ) {db : LoggedStore jsonHash} {op : StoreOp Data} {rows : List ObjectKey}
    (h : (LogOp.store op).Selects db.dataIndex rows) (hstored : db.dataIndex.Stored) :
    (db.run d now (.store op) rows).dataIndex = (DataIndex.run d db.dataIndex (LogOp.compared op)).stored := by
  have hkeep : ∀ key, db.dataIndex key = (db.dataIndex key).map Row.stored := by
    intro key
    rcases hr : db.dataIndex key with - | r
    · rfl
    · rw [Option.map_some, Row.stored, hstored key r hr]
  obtain ⟨htouches, hrest⟩ := rows_of_selects (d := d) h
  funext key
  have hrun := rows_dataIndex (d := d) (.store op) now (nodup_of_selects h) db key
  refine hrun.trans ?_
  rw [DataIndex.stored]
  rcases DataIndex.run_apply d db.dataIndex (LogOp.compared op) key with ⟨ht, hentry⟩ | ⟨ht, hentry⟩
  · rw [hentry]
    split_ifs with hkey
    · rfl
    · rw [hrest key ht hkey]
      exact hkeep key
  · rw [hentry, if_neg fun hkey => ht (htouches key hkey)]
    exact hkeep key

/-! ### What the triggers miss -/

section

open LocalStore

omit [LinearOrder Checksum]

/-- What is not logged does not change an object. -/
def Tracked (e e' : Entry jsonHash) : Prop := triggers e e' = none → Entry.live e' = Entry.live e

theorem tracked_of_moves {e e' : Entry jsonHash} (hinteger : IsInteger e) (h : SyncController.Moves e e') :
    Tracked e (e'.map Row.stored) := by
  rintro htriggers
  rcases h with rfl | ⟨r, rfl, rfl⟩ | ⟨r', rfl, hv⟩
  · rw [hinteger.stored]
  · rw [Option.map_some, Row.stored_of_lt (r := { r with changed := false }) (hinteger r rfl)]
    rfl
  · rcases e with - | r
    · exact absurd htriggers (by simp [triggers])
    · have hne : column r'.version ≠ r.version := (lt_column (hinteger r rfl) (hv r rfl)).ne'
      exact absurd htriggers (by simp [triggers, hne])

/-- Only the row of a deleted object is erased. -/
theorem tracked_erased {e : Entry jsonHash} (h : ∀ r, e = some r → r.file = none) : Tracked e none := by
  intro
  rcases e with - | r
  · rfl
  · simp [Entry.live, h r rfl]

/-- A reset that keeps the data keeps the objects. -/
theorem live_reset (e : Entry jsonHash) : Entry.live (LocalStore.reset true e) = Entry.live e := by
  rcases e with - | r
  · rfl
  · rfl

theorem moves_migrate (overwrite : Bool) (e : Entry jsonHash) (data : Option Data) (changed : Bool) :
    SyncController.Moves e ((MigrationHelper.migrate overwrite e data changed).toOption.getD e) := by
  have hstore : ∀ (r : Row jsonHash) (type : ChangeType), type ≠ .NoExists → ∃ r', r'.version = r.version + 1 ∧
      MigrationHelper.store (some r) (r.version + 1) data changed type = .ok (some r') := by
    intro r type htype
    rcases data with - | data
    · exact ⟨⟨r.version + 1, none, true⟩, rfl, by simp [MigrationHelper.store, LocalStore.storeDeleted, htype]⟩
    · exact ⟨⟨r.version + 1, some (.write data), changed⟩, rfl, by
        simp [MigrationHelper.store, LocalStore.storeChanged, LocalStore.storeChangedImpl, htype]⟩
  have hraise : ∀ (r : Row jsonHash) (type : ChangeType), type ≠ .NoExists → SyncController.Moves (some r)
      ((if overwrite then MigrationHelper.store (some r) (r.version + 1) data changed type
        else .ok (some r)).toOption.getD (some r)) := by
    intro r type htype
    cases overwrite with
    | false => exact Or.inl rfl
    | true =>
      obtain ⟨r', hv, hr'⟩ := hstore r type htype
      rw [if_pos rfl, hr']
      refine Or.inr (Or.inr ⟨r', rfl, fun r₀ hr₀ => ?_⟩)
      cases hr₀
      omega
  rcases e with - | ⟨v, - | f, ch⟩
  · rcases data with - | data
    · exact Or.inr (Or.inr ⟨_, rfl, fun r hr => by cases hr⟩)
    · exact Or.inr (Or.inr ⟨_, rfl, fun r hr => by cases hr⟩)
  · exact hraise ⟨v, none, ch⟩ .ExistsDeleted (by decide)
  · exact hraise ⟨v, some f, ch⟩ .Exists (by decide)

end

/-- An operation erases only the rows of deleted objects. -/
theorem file_of_erased {op : StoreOp Data} {r : Row jsonHash} (h : DataIndex.runEntry d (some r) op = none) :
    r.file = none := by
  cases op with
  | save _ data => cases h
  | remove _ =>
    rw [DataIndex.runEntry, LocalStore.remove_fst_some] at h
    split_ifs at h
  | clear _ => cases h
  | markUnchanged _ version isDelete =>
    simp only [DataIndex.runEntry, LocalStore.markUnchangedImpl] at h
    split_ifs at h
    · rw [Option.filter_some] at h
      simp only [ite_eq_right_iff, reduceCtorEq, imp_false] at h
      simp only [Bool.not_eq_true, Bool.not_eq_false', Bool.and_eq_true, Option.isNone_iff_eq_none] at h
      exact h.2
    · rw [Option.map_some] at h
      cases h
  | syncChange c =>
    rw [DataIndex.runEntry] at h
    rcases hsync : SyncController.syncChange d (some r) c with ex | e'
    · rw [SyncController.applyChange_of_error hsync] at h
      cases h
    · rw [SyncController.applyChange_of_ok hsync] at h
      subst h
      generalize he : (some r : Entry jsonHash) = e at hsync
      cases SyncController.syncChange_outcome hsync with
      | ignored _ _ => cases he
      | erased _ _ hcontent _ =>
        cases he
        exact Option.map_eq_none_iff.mp hcontent

/-- **No write path changes an object behind the triggers**, as long as versions are integers. -/
theorem live_eq_of_triggers {op : LogOp Data} (hop : ∀ keepData, op ≠ .reset keepData) {e : Entry jsonHash}
    (hinteger : IsInteger e) : Tracked e (op.entry d e) := by
  cases op with
  | store op =>
    rcases DataIndex.evolves_runEntry d e (LogOp.compared op) with hmoves | ⟨-, hnone⟩
    · exact tracked_of_moves hinteger hmoves
    · have hentry : (LogOp.store op).entry d e = none := congrArg (Option.map Row.stored) hnone
      rw [hentry]
      refine tracked_erased fun r hr => ?_
      subst hr
      exact file_of_erased hnone
  | migrate key data overwrite changed => exact tracked_of_moves hinteger (moves_migrate overwrite e data changed)
  | reset keepData => exact absurd rfl (hop keepData)

/-! ### Runs -/

section

omit [LinearOrder Checksum]

/-- What is logged says what the object becomes. -/
theorem live_of_triggers {e e' : Entry jsonHash} {version : ℕ} {removed : Bool}
    (h : triggers e e' = some (version, removed)) : Entry.live e' = if removed then none else some version := by
  have hnew : ∀ r : Row jsonHash, r.version = version → r.file.isNone = removed →
      Entry.live (some r) = if removed then none else some version := by
    rintro ⟨v, - | f, ch⟩ rfl rfl
    · rfl
    · rfl
  rcases e with - | r <;> rcases e' with - | r'
  · cases h
  · cases h
    exact hnew r' rfl rfl
  · cases h
  · simp only [triggers, Option.ite_none_right_eq_some, Option.some.injEq, Prod.mk.injEq] at h
    exact hnew r' h.2.1 h.2.2

theorem live_update (index : DataIndex jsonHash) (key : ObjectKey) (e : Entry jsonHash) :
    DataIndex.live (Function.update index key e) = Function.update index.live key (Entry.live e) := by
  funext k
  unfold DataIndex.live
  by_cases hk : k = key
  · subst hk
    rw [Function.update_self, Function.update_self]
  · rw [Function.update_of_ne hk, Function.update_of_ne hk]

end

/-- The rows that the transaction writes have integers as their versions. -/
def Integers (db : LoggedStore jsonHash) (a : Transaction Data) : Prop := ∀ key ∈ a.rows, IsInteger (db.dataIndex key)

/-- The invariant of the runs. -/
structure Consistent (db : LoggedStore jsonHash) (past : List (DataIndex jsonHash)) : Prop where
  bounded : ∀ e ∈ db.eventLog, e.seqId ≤ db.sequence
  ordered : (db.eventLog.map (·.seqId)).Pairwise (· < ·)
  traced : Replay.Traced (past.map DataIndex.live) (db.eventLog.map Event.assignment) db.dataIndex.live

variable {db : LoggedStore jsonHash} {past : List (DataIndex jsonHash)}

omit [LinearOrder Checksum] in
/-- **One statement** writes a row, and is logged if it changes the object. -/
theorem Consistent.write (h : Consistent db past) {key : ObjectKey} {e : Entry jsonHash}
    (htracked : Tracked (db.dataIndex key) e) (now : ℕ) :
    Consistent (db.write now key e)
      (past ++ if (triggers (db.dataIndex key) e).isSome then [(db.write now key e).dataIndex] else []) := by
  unfold LoggedStore.write
  rcases htriggers : triggers (db.dataIndex key) e with - | ⟨version, removed⟩
  · have hsame : DataIndex.live (Function.update db.dataIndex key e) = db.dataIndex.live := by
      rw [live_update, htracked htriggers]
      exact Function.update_eq_self key _
    refine ⟨h.bounded, h.ordered, ?_⟩
    simp only [Option.isSome_none, Bool.false_eq_true, if_false, List.append_nil]
    rw [hsame]
    exact h.traced
  · have hlive : DataIndex.live (Function.update db.dataIndex key e) = Replay.assign db.dataIndex.live
        (Event.assignment ⟨db.sequence + 1, key, version, removed, now⟩) := by
      rw [live_update, live_of_triggers htriggers]
      rfl
    refine ⟨fun ev hev => ?_, ?_, ?_⟩
    · rcases List.mem_append.mp hev with hev | hev
      · exact (h.bounded ev hev).trans (Nat.le_succ _)
      · rw [List.mem_singleton.mp hev]
    · simp only [List.map_append, List.map_cons, List.map_nil]
      refine List.pairwise_append.mpr ⟨h.ordered, List.pairwise_singleton _ _, fun i hi j hj => ?_⟩
      obtain ⟨ev, hev, rfl⟩ := List.mem_map.mp hi
      rw [List.mem_singleton.mp hj]
      exact Nat.lt_succ_of_le (h.bounded ev hev)
    · simp only [Option.isSome_some, if_true, List.map_append, List.map_cons, List.map_nil]
      rw [hlive]
      exact h.traced.snoc _

/-- The rows of an operation, one after the other. -/
theorem Consistent.rows (h : Consistent db past) (op : LogOp Data) (hop : ∀ keepData, op ≠ .reset keepData) (now : ℕ)
    {rows : List ObjectKey} (hnodup : rows.Nodup) (hintegers : ∀ key ∈ rows, IsInteger (db.dataIndex key)) :
    Consistent (rows.foldl (fun db key => db.write now key (op.entry d (db.dataIndex key))) db)
      (past ++ LoggedStore.positions d now op db rows) := by
  induction rows generalizing db past with
  | nil =>
    rw [LoggedStore.positions, List.append_nil]
    exact h
  | cons key rows ih =>
    obtain ⟨hkey, hnodup⟩ := List.nodup_cons.mp hnodup
    have htracked : Tracked (db.dataIndex key) (op.entry d (db.dataIndex key)) :=
      live_eq_of_triggers hop (hintegers key List.mem_cons_self)
    have hwrite := ih (h.write htracked now) hnodup fun k hk => by
      have hne : k ≠ key := fun heq => hkey (heq ▸ hk)
      rw [write_dataIndex, Function.update_of_ne hne]
      exact hintegers k (List.mem_cons_of_mem _ hk)
    rw [List.append_assoc] at hwrite
    rw [List.foldl_cons, LoggedStore.positions]
    split_ifs at hwrite ⊢ with hlogged
    · exact hwrite
    · exact hwrite

/-- **One transaction**. -/
theorem Consistent.transact (h : Consistent db past) (a : Transaction Data) (hselects : a.op.Selects db.dataIndex a.rows)
    (hintegers : Integers db a) : Consistent (db.transact d a) (record d past db a (db.transact d a)) := by
  have hnodup := nodup_of_selects hselects
  obtain ⟨op, rows, now, commits⟩ := a
  cases commits with
  | false => exact h
  | true =>
    cases op with
    | store op => exact h.rows (.store op) (fun _ he => by cases he) now hnodup hintegers
    | migrate key data overwrite changed =>
      exact h.rows (.migrate key data overwrite changed) (fun _ he => by cases he) now hnodup hintegers
    | reset keepData =>
      cases keepData with
      | false => exact ⟨nofun, List.Pairwise.nil, Replay.Traced.start _⟩
      | true =>
        have hlive : DataIndex.live (DataIndex.reset true db.dataIndex) = db.dataIndex.live :=
          funext fun key => live_reset (db.dataIndex key)
        refine ⟨h.bounded, h.ordered, ?_⟩
        have htraced := h.traced
        rw [← hlive] at htraced
        exact htraced

/-- The last event of a key, as an assignment. -/
theorem last_assignment (l : List Event) (key : ObjectKey) : Replay.last (l.map Event.assignment) key =
    ((l.filter fun e => e.key = key).getLast?).map Event.assignment := by
  unfold Replay.last
  rw [List.filter_map, List.getLast?_map]
  rfl

omit [LinearOrder Checksum] in
theorem Consistent.replays (h : Consistent db past) : Replays db past := by
  have hpast : ∀ {n : ℕ} {index : DataIndex jsonHash}, past[n]? = some index →
      (past.map DataIndex.live)[n]? = some index.live := by
    intro n index hn
    rw [List.getElem?_map, hn]
    rfl
  have hreplay : ∀ n index, past[n]? = some index →
      Replay.replay index.live ((db.eventLog.drop n).map Event.assignment) = db.dataIndex.live := by
    intro n index hn
    rw [List.map_drop]
    exact h.traced.replay n _ (hpast hn)
  refine ⟨h.ordered, ?_, hreplay, fun n index key hn hlive hnone => ?_⟩
  · have hlength := h.traced.length
    rwa [List.length_map, List.length_map] at hlength
  · have hlast := Replay.last_of_removed hlive ((congrFun (hreplay n index hn) key).trans hnone)
    rw [last_assignment, Option.map_eq_some_iff] at hlast
    obtain ⟨e, he, hassignment⟩ := hlast
    refine ⟨e, he, ?_⟩
    by_contra hremoved
    have hversion : (if e.removed then none else some e.version) = none := congrArg Prod.snd hassignment
    rw [if_neg hremoved] at hversion
    cases hversion

/-- **The event log replays to the store** in every run that writes no row whose version has reached `2 ^ 63`, whatever
the operations do and whether they commit or not. -/
theorem replays_of_reachable {initial : DataIndex jsonHash} {x : LoggedStore jsonHash × List (DataIndex jsonHash)}
    (h : ((lts d initial).withHistory [initial] (record d)).Reachable (fun x a => Integers x.1 a) x) :
    Replays x.1 x.2 := by
  refine Consistent.replays (LTS.Reachable.invariant (I := fun x => Consistent x.1 x.2) ?_ ?_ h)
  · rintro ⟨db, past⟩ ⟨rfl, rfl⟩
    exact ⟨nofun, List.Pairwise.nil, Replay.Traced.start _⟩
  · rintro ⟨db, past⟩ a ⟨t, past'⟩ - hI hintegers ⟨⟨hselects, ht, -⟩, hpast⟩
    have hrecord : past' = record d past db a t := hpast
    have htransact : t = db.transact d a := ht
    subst htransact hrecord
    exact hI.transact a hselects hintegers

namespace Sample

def key : ObjectKey := ⟨[1], "a"⟩

def defaults : Defaults ℕ := ⟨false, .PreferChanged, none⟩

theorem next {G : LoggedStore (fun n : ℕ => n) × List (DataIndex fun n : ℕ => n) → Transaction ℕ → Prop}
    {x : LoggedStore (fun n : ℕ => n) × List (DataIndex fun n : ℕ => n)}
    (h : ((lts defaults fun _ => none).withHistory [fun _ => none] (record defaults)).Reachable G x) {a : Transaction ℕ}
    (hG : G x a) (hrows : a.op.Selects x.1.dataIndex a.rows)
    (hsequence : (x.1.transact defaults a).sequence < 2 ^ 63) :
    ((lts defaults fun _ => none).withHistory [fun _ => none] (record defaults)).Reachable G
      (x.1.transact defaults a, record defaults x.2 x.1 a (x.1.transact defaults a)) :=
  h.step hG ⟨⟨hrows, rfl, hsequence⟩, rfl⟩

/-- The row of the object has a small version. -/
theorem integers {db : LoggedStore fun n : ℕ => n} {op : LogOp ℕ} {now v : ℕ} {commits : Bool}
    (hversion : ∀ r, db.dataIndex key = some r → r.version = v) (hv : v < 2 ^ 63) :
    Integers db ⟨op, [key], now, commits⟩ := by
  intro k hk r hr
  rw [List.mem_singleton.mp hk] at hr
  rw [hversion r hr]
  exact hv

end Sample

/-- An object is saved, saved again in vain and removed, and its tombstone is acknowledged. -/
theorem replays_removed : ∃ x : LoggedStore (fun n : ℕ => n) × List (DataIndex fun n : ℕ => n), Replays x.1 x.2 ∧
    x.1.eventLog = [⟨1, Sample.key, 1, false, 7⟩, ⟨2, Sample.key, 2, true, 9⟩] ∧ x.1.dataIndex Sample.key = none := by
  have hstart : ((lts Sample.defaults fun _ => (none : Entry fun n : ℕ => n)).withHistory [fun _ => none]
      (record Sample.defaults)).Reachable (fun x a => Integers x.1 a) (⟨fun _ => none, [], 0⟩, [fun _ => none]) :=
    .init ⟨rfl, rfl⟩
  have hsaved := Sample.next hstart (a := ⟨.store (.save Sample.key 5), [Sample.key], 7, true⟩)
    (Sample.integers (v := 0) (fun r hr => by cases hr) (by decide)) rfl (by decide +kernel)
  have hfailed := Sample.next hsaved (a := ⟨.store (.save Sample.key 6), [Sample.key], 8, false⟩)
    (Sample.integers (v := 1) (fun r hr => by cases hr; rfl) (by decide)) rfl (by decide +kernel)
  have hremoved := Sample.next hfailed (a := ⟨.store (.remove Sample.key), [Sample.key], 9, true⟩)
    (Sample.integers (v := 1) (fun r hr => by cases hr; rfl) (by decide)) rfl (by decide +kernel)
  have hacked := Sample.next hremoved (a := ⟨.store (.markUnchanged Sample.key 2 true), [Sample.key], 10, true⟩)
    (Sample.integers (v := 2) (fun r hr => by cases hr; rfl) (by decide)) rfl (by decide +kernel)
  exact ⟨_, replays_of_reachable hacked, by decide +kernel, rfl⟩

/-- A change of version `2 ^ 63` is received and the object is removed, which is not logged. -/
theorem not_replays_removed : ¬ ∀ x : LoggedStore (fun n : ℕ => n) × List (DataIndex fun n : ℕ => n),
    ((lts Sample.defaults fun _ => none).withHistory [fun _ => none] (record Sample.defaults)).Reachable LTS.free x →
      Replays x.1 x.2 := by
  intro h
  have hstart : ((lts Sample.defaults fun _ => (none : Entry fun n : ℕ => n)).withHistory [fun _ => none]
      (record Sample.defaults)).Reachable LTS.free (⟨fun _ => none, [], 0⟩, [fun _ => none]) := .init ⟨rfl, rfl⟩
  have hreceived := Sample.next hstart
    (a := ⟨.store (.syncChange ⟨Sample.key, 2 ^ 63, some 5⟩), [Sample.key], 7, true⟩) trivial rfl (by decide +kernel)
  have hremoved := Sample.next hreceived (a := ⟨.store (.remove Sample.key), [Sample.key], 8, true⟩) trivial rfl
    (by decide +kernel)
  have hreplay := congrFun ((h _ hremoved).replay 0 _ rfl) Sample.key
  revert hreplay
  decide +kernel

end LoggedStore

end QtDataSync
