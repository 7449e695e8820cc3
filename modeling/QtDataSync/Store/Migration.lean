import Mathlib.Algebra.Order.Ring.Nat
import Mathlib.Data.List.Sort
import Mathlib.Data.Prod.Lex
import Mathlib.Data.String.Basic
import QtDataSync.Lib.LeftJoin
import QtDataSync.Store.EventLog

/-!
# Store.Migration — the objects of an old store

The old store has the files of its objects in `DataIndex` and their states in `SyncState`, and an object can be in one of
the tables only.  A migration counts the keys of both with one query, and walks through the rows of both with another
one, in pages of 100.  What it writes for a key has the next version of the new store, which is a higher one as long as
that is below `2 ^ 63`.
-/

namespace QtDataSync

open LeftJoin

variable {Data Checksum : Type*} {jsonHash : Data → Checksum}

/-- The flags, bit by bit. -/
structure MigrationFlags where
  migrateData : Bool
  migrateChanged : Bool
  migrateRemoteConfig : Bool
  migrateWithCleanup : Bool
  migrateOverwriteConfig : Bool
  migrateOverwriteData : Bool
deriving DecidableEq, Repr

/-- `MigrateChanged` has the bit of `MigrateData`, too. -/
def MigrationFlags.testMigrateChanged (flags : MigrationFlags) : Bool := flags.migrateChanged && flags.migrateData

/-- What there is to read of a data file. -/
inductive OldFile (Data : Type*) where
  | missing
  | locked
  | json (data : Data)

/-- The columns `Type` and `Key`. -/
abbrev OldKey := String × String

/-- The tables, in which `Type` and `Key` are the primary key, and the directories below `store`. -/
structure OldStore (Data : Type*) where
  dataIndex : List (OldKey × String)
  syncState : List (OldKey × ℕ)
  dataIndex_nodup : (dataIndex.map Prod.fst).Nodup
  syncState_nodup : (syncState.map Prod.fst).Nodup
  syncState_check : ∀ row ∈ syncState, row.2 ≤ 2
  storageDir : QByteArray → Option (String → OldFile Data)

namespace MigrationRunnable

def objectKey (key : OldKey) : ObjectKey := ⟨key.1.toUTF8.data.toList, key.2⟩

/-- The query that counts: the keys of both tables. -/
def countQuery (old : OldStore Data) : ℕ :=
  (((leftJoin old.dataIndex old.syncState).map fun row => row.1) ++
    ((leftJoin old.syncState old.dataIndex).filter fun row => row.2.2.isNone).map fun row => row.1).dedup.length

/-- A row of the other query: `Type` and `Key`, `File` and `Changed`. -/
abbrev EntryRow := OldKey × Option String × Option ℕ

def rows (old : OldStore Data) : List EntryRow := (outerJoin old.dataIndex old.syncState).dedup

/-- `ORDER BY Type, Key`. -/
def OrderBy (row row' : EntryRow) : Prop := toLex row.1 ≤ toLex row'.1

instance : DecidableRel OrderBy := fun row row' => inferInstanceAs (Decidable (toLex row.1 ≤ toLex row'.1))

/-- `LIMIT 100 OFFSET ?`. -/
def entryQuery (old : OldStore Data) (offset : ℕ) : List EntryRow :=
  (((rows old).insertionSort OrderBy).drop offset).take 100

/-- The rows of the new store, the number of calls of `migrationProgress` and the keys that have been handled. -/
structure State (jsonHash : Data → Checksum) where
  dataIndex : DataIndex jsonHash
  progress : ℕ
  handled : List OldKey

/-- The JSON of a data file; broken data is read as an empty object. -/
def readFile (isEmpty : Data → Bool) (old : OldStore Data) (key : OldKey) (file : String) : Option Data :=
  match old.storageDir (objectKey key).typeName with
  | none => none
  | some dir => match dir file with
    | .missing => none
    | .locked => none
    | .json data => if isEmpty data then none else some data

/-- The rest of the body of the loop: the operations on the new store, and `migrationProgress`. -/
def store (overwrite : Bool) (s : State jsonHash) (key : OldKey) (data : Option Data) (changed : Bool) :
    Except QException (State jsonHash) :=
  (MigrationHelper.migrate overwrite (s.dataIndex (objectKey key)) data changed).map fun e =>
    { s with dataIndex := Function.update s.dataIndex (objectKey key) (e.map Row.stored), progress := s.progress + 1 }

/-- `case 1`, with the state that it has been given. -/
def migrateObject (isEmpty : Data → Bool) (flags : MigrationFlags) (old : OldStore Data) (s : State jsonHash)
    (key : OldKey) (file : String) (state : ℕ) : Except QException (State jsonHash) :=
  match readFile isEmpty old key file with
  | none => .ok { s with progress := s.progress + 1 }
  | some data => store flags.migrateOverwriteData s key (some data) (state == 1)

/-- The body of the loop. -/
def migrateEntry (isEmpty : Data → Bool) (flags : MigrationFlags) (old : OldStore Data) (s : State jsonHash)
    (row : EntryRow) : Except QException (State jsonHash) :=
  let key := row.1
  let file := row.2.1.getD "" ++ ".dat"
  let s := { s with handled := s.handled ++ [key] }
  match row.2.2.getD 0 with
  | 0 => -- when not migrating changes assume changed
    migrateObject isEmpty flags old s key file (if flags.testMigrateChanged then 0 else 1)
  | 1 => migrateObject isEmpty flags old s key file 1
  | 2 =>
    if flags.testMigrateChanged then store flags.migrateOverwriteData s key none true
    else .ok { s with progress := s.progress + 1 }
  | _ => .ok s -- not reachable

/-- The loop over the pages. -/
def entryLoop (isEmpty : Data → Bool) (flags : MigrationFlags) (old : OldStore Data) (s : State jsonHash) (offset : ℕ) :
    Except QException (State jsonHash) :=
  if h : entryQuery old offset = [] then .ok s
  else do
    let s ← (entryQuery old offset).foldlM (migrateEntry isEmpty flags old) s
    entryLoop isEmpty flags old s (offset + 100)
termination_by (rows old).length - offset
decreasing_by
  have hlt : offset < ((rows old).insertionSort OrderBy).length := by
    by_contra hle
    exact h (by rw [entryQuery, List.drop_eq_nil_of_le (Nat.not_lt.mp hle), List.take_nil])
  rw [List.length_insertionSort] at hlt
  omega

/-- What a migration does, once the old store has been opened: the argument of `migrationPrepared`, and the state. -/
def run (isEmpty : Data → Bool) (flags : MigrationFlags) (old : OldStore Data) (dataIndex : DataIndex jsonHash) :
    Except QException (Option ℕ × State jsonHash) := do
  let s : State jsonHash := ⟨dataIndex, 0, []⟩
  let migrationCount := (if flags.migrateData then countQuery old else 0) + if flags.migrateRemoteConfig then 1 else 0
  if migrationCount = 0 then return (none, s)
  let s := if flags.migrateRemoteConfig then { s with progress := s.progress + 1 } else s
  let s ← if flags.migrateData then entryLoop isEmpty flags old s 0 else .ok s
  return (some migrationCount, s)

/-! ### The queries -/

section

variable (old : OldStore Data)

theorem objectKey_injective : Function.Injective objectKey := by
  rintro ⟨type, key⟩ ⟨type', key'⟩ h
  obtain ⟨htype, rfl⟩ := ObjectKey.mk.inj h
  have hdata : type.toUTF8.data = type'.toUTF8.data := Array.toList_inj.mp htype
  have hbytes : type.toByteArray = type'.toByteArray := ByteArray.ext hdata
  rw [String.toByteArray_inj.mp hbytes]

theorem rows_eq : rows old = outerJoin old.dataIndex old.syncState :=
  List.Nodup.dedup (nodup_outerJoin old.dataIndex_nodup old.syncState_nodup).of_map

theorem nodup_rows : ((rows old).map Prod.fst).Nodup := by
  rw [rows_eq]
  exact nodup_outerJoin old.dataIndex_nodup old.syncState_nodup

/-- Both queries find the same keys. -/
theorem countQuery_eq : countQuery old = (rows old).length := by
  have hkeys : ((leftJoin old.dataIndex old.syncState).map fun row => row.1) ++
      ((leftJoin old.syncState old.dataIndex).filter fun row => row.2.2.isNone).map (fun row => row.1) =
      (outerJoin old.dataIndex old.syncState).map Prod.fst := by
    rw [outerJoin, List.map_append, List.map_map, List.map_map]
    rfl
  rw [countQuery, hkeys, ← rows_eq, (nodup_rows old).dedup, List.length_map]

/-- The rows in their order. -/
def entries : List EntryRow := (rows old).insertionSort OrderBy

theorem entries_perm : (entries old).Perm (rows old) := List.perm_insertionSort OrderBy _

theorem nodup_entries : ((entries old).map Prod.fst).Nodup :=
  ((entries_perm old).map Prod.fst).nodup_iff.mpr (nodup_rows old)

instance : Std.Total OrderBy := ⟨fun row row' => le_total (toLex row.1) (toLex row'.1)⟩

instance : IsTrans EntryRow OrderBy := ⟨fun _ _ _ => le_trans⟩

/-- There is only one order of the rows. -/
theorem eq_entries {l : List EntryRow} (hperm : l.Perm (rows old)) (hsorted : l.Pairwise OrderBy) : l = entries old :=
  eq_of_sorted (fun k k' : OldKey => toLex k ≤ toLex k') (fun _ _ hle hle' => toLex.injective (le_antisymm hle hle'))
    (hperm.trans (entries_perm old).symm) (nodup_entries old) hsorted (List.pairwise_insertionSort OrderBy _)

theorem mem_entries {row : EntryRow} : row ∈ entries old ↔
    (row.1 ∈ old.dataIndex.map Prod.fst ∨ row.1 ∈ old.syncState.map Prod.fst) ∧
      row.2 = (old.dataIndex.lookup row.1, old.syncState.lookup row.1) := by
  rw [(entries_perm old).mem_iff, rows_eq]
  exact mem_outerJoin old.dataIndex_nodup old.syncState_nodup

end

/-! ### One entry -/

variable {isEmpty : Data → Bool} {flags : MigrationFlags} {old : OldStore Data}

/-- What a key is to get: an object and whether it is changed, or a deletion. -/
def wanted (isEmpty : Data → Bool) (flags : MigrationFlags) (old : OldStore Data) (row : EntryRow) :
    Option (Option Data × Bool) :=
  if row.2.2.getD 0 = 2 then if flags.testMigrateChanged then some (none, true) else none
  else (readFile isEmpty old row.1 (row.2.1.getD "" ++ ".dat")).map fun data =>
    (some data, decide (row.2.2.getD 0 = 1) || !flags.testMigrateChanged)

/-- The row that a key gets, unless it has one that is not to be overwritten. -/
def written (overwrite : Bool) (e : Entry jsonHash) : Option (Option Data × Bool) → Entry jsonHash
  | none => e
  | some (data, changed) =>
    if e.isSome && !overwrite then e
    else some ⟨column (((e.map Row.version).getD 0) + 1), data.map .write, changed⟩

theorem migrate_eq (overwrite : Bool) {e : Entry jsonHash} (hstored : ∀ r, e = some r → column r.version = r.version)
    {data : Option Data} {changed : Bool} (hchanged : data = none → changed = true) :
    (MigrationHelper.migrate overwrite e data changed).map (Option.map Row.stored) =
      .ok (written overwrite e (some (data, changed))) := by
  have hkept : ∀ r, e = some r → r.stored = r := fun r hr => by rw [Row.stored, hstored r hr]
  rcases e with - | ⟨version, file, c⟩
  · rcases data with - | data
    · rw [hchanged rfl]
      rfl
    · rfl
  · cases overwrite with
    | false => rcases file with - | file <;> exact congrArg (Except.ok ∘ some) (hkept _ rfl)
    | true =>
      rcases data with - | data
      · rw [hchanged rfl]
        rcases file with - | file <;> rfl
      · rcases file with - | file <;> rfl

theorem written_stored (overwrite : Bool) {e : Entry jsonHash} (hstored : ∀ r, e = some r → column r.version = r.version)
    {what : Option (Option Data × Bool)} {r : Row jsonHash} (h : written overwrite e what = some r) :
    column r.version = r.version := by
  rcases what with - | ⟨data, changed⟩
  · exact hstored r h
  · rw [written] at h
    split_ifs at h
    · exact hstored r h
    · cases h
      exact column_column _

/-- What is left by an entry. -/
def after (overwrite : Bool) (s : State jsonHash) (key : OldKey) (what : Option (Option Data × Bool)) : State jsonHash :=
  ⟨Function.update s.dataIndex (objectKey key) (written overwrite (s.dataIndex (objectKey key)) what), s.progress + 1,
    s.handled⟩

theorem after_of_ne (overwrite : Bool) (s : State jsonHash) (key : OldKey) (what : Option (Option Data × Bool))
    {k : ObjectKey} (hk : k ≠ objectKey key) : (after overwrite s key what).dataIndex k = s.dataIndex k :=
  Function.update_of_ne hk _ _

theorem after_self (overwrite : Bool) (s : State jsonHash) (key : OldKey) (what : Option (Option Data × Bool)) :
    (after overwrite s key what).dataIndex (objectKey key) = written overwrite (s.dataIndex (objectKey key)) what :=
  Function.update_self _ _ _

theorem after_none (overwrite : Bool) (s : State jsonHash) (key : OldKey) :
    after overwrite s key none = { s with progress := s.progress + 1 } := by
  rw [after, written, Function.update_eq_self]

theorem after_stored (overwrite : Bool) {s : State jsonHash} (hs : s.dataIndex.Stored) (key : OldKey)
    (what : Option (Option Data × Bool)) : (after overwrite s key what).dataIndex.Stored := by
  intro k r hr
  by_cases hk : k = objectKey key
  · rw [hk, after_self] at hr
    exact written_stored overwrite (hs _) hr
  · rw [after_of_ne _ _ _ _ hk] at hr
    exact hs k r hr

theorem store_eq (overwrite : Bool) {s : State jsonHash} (hs : s.dataIndex.Stored) (key : OldKey) {data : Option Data}
    {changed : Bool} (hchanged : data = none → changed = true) :
    store overwrite s key data changed = .ok (after overwrite s key (some (data, changed))) := by
  have hmigrate := migrate_eq overwrite (hs (objectKey key)) hchanged
  rw [store]
  rcases hresult : MigrationHelper.migrate overwrite (s.dataIndex (objectKey key)) data changed with ex | e
  · rw [hresult] at hmigrate
    cases hmigrate
  · rw [hresult, Except.map, Except.ok.injEq] at hmigrate
    rw [Except.map, hmigrate]
    rfl

theorem migrateObject_eq {s : State jsonHash} (hs : s.dataIndex.Stored) (key : OldKey) (file : String) (state : ℕ) :
    migrateObject isEmpty flags old s key file state = .ok (after flags.migrateOverwriteData s key
      ((readFile isEmpty old key file).map fun data => (some data, state == 1))) := by
  rw [migrateObject]
  rcases readFile isEmpty old key file with - | data
  · rw [Option.map_none, after_none]
  · exact store_eq _ hs _ nofun

/-- **One entry** is counted once, and only the row of its key is written. -/
theorem migrateEntry_eq {s : State jsonHash} (hs : s.dataIndex.Stored) {row : EntryRow} (hstate : row.2.2.getD 0 ≤ 2) :
    migrateEntry isEmpty flags old s row = .ok (after flags.migrateOverwriteData
      { s with handled := s.handled ++ [row.1] } row.1 (wanted isEmpty flags old row)) := by
  have hs' : ({ s with handled := s.handled ++ [row.1] } : State jsonHash).dataIndex.Stored := hs
  unfold migrateEntry wanted
  obtain hzero | hone | htwo : row.2.2.getD 0 = 0 ∨ row.2.2.getD 0 = 1 ∨ row.2.2.getD 0 = 2 := by omega
  · simp only [hzero, migrateObject_eq hs']
    rcases flags.testMigrateChanged with - | - <;> rfl
  · simp only [hone, migrateObject_eq hs']
    rfl
  · simp only [htwo, if_true]
    split_ifs
    · exact store_eq _ hs' _ fun _ => rfl
    · rw [after_none]

/-! ### The loop -/

theorem state_le (old : OldStore Data) {row : EntryRow} (hrow : row ∈ entries old) : row.2.2.getD 0 ≤ 2 := by
  obtain ⟨-, hcolumns⟩ := (mem_entries old).mp hrow
  rw [hcolumns]
  rcases hstate : old.syncState.lookup row.1 with - | state
  · exact Nat.zero_le 2
  · obtain ⟨l, r, happend, -⟩ := List.lookup_eq_some_iff.mp hstate
    exact old.syncState_check (row.1, state) (by rw [happend]; simp)

/-- The pages of 100 rows are all rows. -/
theorem entryLoop_eq (s : State jsonHash) (offset : ℕ) : entryLoop isEmpty flags old s offset =
    ((entries old).drop offset).foldlM (migrateEntry isEmpty flags old) s := by
  induction hn : (entries old).length - offset using Nat.strong_induction_on generalizing s offset with
  | _ n ih =>
    subst hn
    rw [entryLoop]
    have hpage : entryQuery old offset = ((entries old).drop offset).take 100 := rfl
    split_ifs with hempty
    · have hnil : (entries old).drop offset = [] := by
        rw [hpage, List.take_eq_nil_iff] at hempty
        exact hempty.resolve_left (by decide)
      rw [hnil]
      rfl
    · have hlt : offset < (entries old).length := by
        by_contra hle
        exact hempty (by rw [hpage, List.drop_eq_nil_of_le (Nat.not_lt.mp hle), List.take_nil])
      have hsplit : (entries old).drop offset = entryQuery old offset ++ (entries old).drop (offset + 100) := by
        rw [hpage, ← List.drop_drop, List.take_append_drop]
      rw [hsplit, List.foldlM_append]
      exact congrArg _ (funext fun t => ih _ (by omega) t (offset + 100) rfl)

/-- What a loop over entries with different keys leaves. -/
structure Handles (isEmpty : Data → Bool) (flags : MigrationFlags) (old : OldStore Data) (l : List EntryRow)
    (s s' : State jsonHash) : Prop where
  progress : s'.progress = s.progress + l.length
  handled : s'.handled = s.handled ++ l.map Prod.fst
  rows : ∀ row ∈ l, s'.dataIndex (objectKey row.1) =
    written flags.migrateOverwriteData (s.dataIndex (objectKey row.1)) (wanted isEmpty flags old row)
  others : ∀ key, key ∉ l.map (fun row => objectKey row.1) → s'.dataIndex key = s.dataIndex key
  stored : s'.dataIndex.Stored

theorem exists_handles (isEmpty : Data → Bool) (flags : MigrationFlags) (old : OldStore Data) {l : List EntryRow}
    (hnodup : (l.map Prod.fst).Nodup) (hstate : ∀ row ∈ l, row.2.2.getD 0 ≤ 2) {s : State jsonHash}
    (hs : s.dataIndex.Stored) : ∃ s', l.foldlM (migrateEntry isEmpty flags old) s = .ok s' ∧
      Handles isEmpty flags old l s s' := by
  induction l using List.reverseRecOn with
  | nil => exact ⟨s, rfl, rfl, (List.append_nil _).symm, nofun, fun _ _ => rfl, hs⟩
  | append_singleton l row ih =>
    rw [List.map_append, List.nodup_append] at hnodup
    obtain ⟨t, hfold, ht⟩ := ih hnodup.1 fun x hx => hstate x (List.mem_append_left _ hx)
    have hnew : objectKey row.1 ∉ l.map fun x => objectKey x.1 := by
      intro hmem
      obtain ⟨x, hx, hkey⟩ := List.mem_map.mp hmem
      exact hnodup.2.2 x.1 (List.mem_map_of_mem hx) row.1 (List.mem_singleton.mpr rfl) (objectKey_injective hkey)
    have hstep : migrateEntry isEmpty flags old t row = _ :=
      migrateEntry_eq ht.stored (hstate row (List.mem_append_right _ (List.mem_singleton.mpr rfl)))
    refine ⟨_, by rw [List.foldlM_append, hfold]; exact (congrArg (· >>= pure) hstep).trans rfl, ?_, ?_, ?_, ?_, ?_⟩
    · rw [List.length_append]
      exact congrArg (· + 1) ht.progress
    · rw [List.map_append, ← List.append_assoc]
      exact congrArg (· ++ [row.1]) ht.handled
    · intro x hx
      rcases List.mem_append.mp hx with hx | hx
      · have hne : objectKey x.1 ≠ objectKey row.1 := fun hkey => hnew (List.mem_map.mpr ⟨x, hx, hkey⟩)
        rw [after_of_ne _ _ _ _ hne]
        exact ht.rows x hx
      · rw [List.mem_singleton.mp hx, after_self]
        exact congrArg (written _ · _) (ht.others _ hnew)
    · intro key hkey
      rw [List.map_append, List.mem_append, not_or] at hkey
      rw [after_of_ne _ _ _ _ fun h => hkey.2 (by simp [h])]
      exact ht.others key hkey.1
    · exact after_stored _ ht.stored _ _

/-! ### The migration -/

/-- The rows that a migration walks through. -/
def migrated (flags : MigrationFlags) (old : OldStore Data) : List EntryRow :=
  if flags.migrateData then entries old else []

theorem length_migrated (flags : MigrationFlags) (old : OldStore Data) :
    (migrated flags old).length = if flags.migrateData then countQuery old else 0 := by
  rw [migrated, countQuery_eq, ← (entries_perm old).length_eq]
  split_ifs
  · rfl
  · rfl

theorem nodup_migrated (flags : MigrationFlags) (old : OldStore Data) : ((migrated flags old).map Prod.fst).Nodup := by
  unfold migrated
  split_ifs
  · exact nodup_entries old
  · exact List.nodup_nil

theorem mem_migrated {row : EntryRow} : row ∈ migrated flags old ↔ flags.migrateData = true ∧ row ∈ entries old := by
  unfold migrated
  split_ifs with h
  · simp [h]
  · simp [h]

/-- A migration counts what it handles. -/
theorem exists_run (isEmpty : Data → Bool) (flags : MigrationFlags) (old : OldStore Data) {dataIndex : DataIndex jsonHash}
    (hstored : dataIndex.Stored) :
    ∃ count s config, run isEmpty flags old dataIndex = .ok (count, s) ∧ s.progress = count.getD 0 ∧
      Handles isEmpty flags old (migrated flags old) ⟨dataIndex, config, []⟩ s := by
  obtain ⟨config, hconfig⟩ : ∃ config, config = if flags.migrateRemoteConfig then 1 else 0 := ⟨_, rfl⟩
  have hstart : (if flags.migrateRemoteConfig then (⟨dataIndex, 0 + 1, []⟩ : State jsonHash) else ⟨dataIndex, 0, []⟩) =
      ⟨dataIndex, config, []⟩ := by
    rw [hconfig]
    split_ifs
    · rfl
    · rfl
  have hloop : ∀ s : State jsonHash, (if flags.migrateData then entryLoop isEmpty flags old s 0 else .ok s) =
      (migrated flags old).foldlM (migrateEntry isEmpty flags old) s := by
    intro s
    rw [entryLoop_eq, List.drop_zero, migrated]
    split_ifs
    · rfl
    · rfl
  obtain ⟨s, hfold, hs⟩ := exists_handles isEmpty flags old (nodup_migrated flags old)
    (fun row hrow => state_le old (mem_migrated.mp hrow).2) (s := (⟨dataIndex, config, []⟩ : State jsonHash)) hstored
  have hprogress := hs.progress
  have hresult := (hloop _).trans hfold
  rw [run]
  simp only [hstart, ← length_migrated flags old, ← hconfig]
  by_cases hnothing : (migrated flags old).length + config = 0
  · have hnil : migrated flags old = [] := List.length_eq_zero_iff.mp (by omega)
    rw [if_pos hnothing, hnil]
    exact ⟨none, _, 0, rfl, rfl, rfl, rfl, nofun, fun _ _ => rfl, hstored⟩
  · refine ⟨some ((migrated flags old).length + config), s, config, ?_, hprogress.trans (Nat.add_comm _ _), hs⟩
    rw [if_neg hnothing]
    split_ifs at hresult ⊢
    · rw [hresult]
      rfl
    · rw [hresult]
      rfl

/-- The state of a key in the old store; a key without a state is unchanged. -/
def oldState (old : OldStore Data) (key : OldKey) : ℕ := (old.syncState.lookup key).getD 0

/-- The old store has the object: the directory of its type is there, and the file in its row is the JSON of an object
that is not empty. -/
def HasJson (isEmpty : Data → Bool) (old : OldStore Data) (key : OldKey) (data : Data) : Prop :=
  ∃ dir, old.storageDir (objectKey key).typeName = some dir ∧
    dir ((old.dataIndex.lookup key).getD "" ++ ".dat") = .json data ∧ isEmpty data = false

/-- The version of a key in the new store. -/
def version (dataIndex : DataIndex jsonHash) (key : OldKey) : ℕ := ((dataIndex (objectKey key)).map Row.version).getD 0

/-- The new store may be written for a key. -/
def Allowed (flags : MigrationFlags) (dataIndex : DataIndex jsonHash) (key : OldKey) : Prop :=
  flags.migrateOverwriteData = true ∨ dataIndex (objectKey key) = none

/-- What there is for a key: an object and whether it is changed, or a deletion. -/
def Comes (isEmpty : Data → Bool) (flags : MigrationFlags) (old : OldStore Data) (key : OldKey) :
    Option Data → Bool → Prop
  | some data, changed => oldState old key ≤ 1 ∧ HasJson isEmpty old key data ∧
      (changed = true ↔ oldState old key = 1 ∨ flags.testMigrateChanged = false)
  | none, changed => oldState old key = 2 ∧ flags.testMigrateChanged = true ∧ changed = true

/-- **What a migration has done**: `count` is the argument of `migrationPrepared`. -/
structure Migrated (isEmpty : Data → Bool) (flags : MigrationFlags) (old : OldStore Data) (dataIndex : DataIndex jsonHash)
    (count : Option ℕ) (s : State jsonHash) : Prop where
  handled_nodup : s.handled.Nodup
  handled : ∀ key, key ∈ s.handled ↔
    flags.migrateData = true ∧ (key ∈ old.dataIndex.map Prod.fst ∨ key ∈ old.syncState.map Prod.fst)
  progress : s.progress = count.getD 0
  kept : flags.migrateOverwriteData = false → ∀ key r, dataIndex key = some r → s.dataIndex key = some r
  written : ∀ key ∈ s.handled, Allowed flags dataIndex key → ∀ data changed, Comes isEmpty flags old key data changed →
    s.dataIndex (objectKey key) = some ⟨column (version dataIndex key + 1), data.map .write, changed⟩
  others : ∀ k, (∀ key ∈ s.handled, k = objectKey key → Allowed flags dataIndex key →
    ∀ data changed, ¬ Comes isEmpty flags old key data changed) → s.dataIndex k = dataIndex k

/-- Each key that is written has a higher version than before. -/
def Raised (isEmpty : Data → Bool) (flags : MigrationFlags) (old : OldStore Data) (dataIndex : DataIndex jsonHash)
    (s : State jsonHash) : Prop :=
  ∀ key ∈ s.handled, Allowed flags dataIndex key → ∀ data changed, Comes isEmpty flags old key data changed →
    version dataIndex key < version s.dataIndex key

/-- The version before is an integer in the table of the new store, for each key of the old one that is written. -/
def Fits (isEmpty : Data → Bool) (flags : MigrationFlags) (old : OldStore Data) (dataIndex : DataIndex jsonHash) : Prop :=
  flags.migrateData = true → ∀ key, key ∈ old.dataIndex.map Prod.fst ∨ key ∈ old.syncState.map Prod.fst →
    Allowed flags dataIndex key → ∀ data changed, Comes isEmpty flags old key data changed →
      version dataIndex key < 2 ^ 63

/-- The file that is read is what the old store has. -/
theorem readFile_eq_some {key : OldKey} {data : Data} :
    readFile isEmpty old key ((old.dataIndex.lookup key).getD "" ++ ".dat") = some data ↔ HasJson isEmpty old key data := by
  unfold readFile HasJson
  rcases old.storageDir (objectKey key).typeName with - | dir
  · simp
  · simp only [Option.some.injEq, exists_eq_left']
    rcases hfile : dir ((old.dataIndex.lookup key).getD "" ++ ".dat") with - | - | data'
    · simp
    · simp
    · rcases hempty : isEmpty data' with - | -
      · simp only [hempty, Bool.false_eq_true, if_false, Option.some.injEq, OldFile.json.injEq]
        exact ⟨fun h => ⟨h, h ▸ hempty⟩, fun h => h.1⟩
      · simp only [hempty, if_true, OldFile.json.injEq, reduceCtorEq, false_iff, not_and]
        rintro rfl
        simp [hempty]

/-- What is wanted for a row is what there is for its key. -/
theorem wanted_eq_some {row : EntryRow} (hrow : row ∈ entries old) {data : Option Data} {changed : Bool} :
    wanted isEmpty flags old row = some (data, changed) ↔ Comes isEmpty flags old row.1 data changed := by
  obtain ⟨-, hcolumns⟩ := (mem_entries old).mp hrow
  have hle := state_le old hrow
  have hstate : row.2.2.getD 0 = oldState old row.1 := by rw [hcolumns, oldState]
  have hfile : row.2.1 = old.dataIndex.lookup row.1 := by rw [hcolumns]
  rw [hstate] at hle
  rw [wanted, hstate, hfile]
  split_ifs with htwo hflag
  · rcases data with - | data
    · simp [Comes, htwo, hflag, eq_comm]
    · simp [Comes, htwo]
  · rcases data with - | data
    · simp [Comes, hflag]
    · simp [Comes, htwo]
  · rw [Option.map_eq_some_iff]
    rcases data with - | data
    · simp [Comes, htwo]
    · constructor
      · rintro ⟨data', hread, heq⟩
        obtain ⟨hdata, rfl⟩ := Prod.mk.inj heq
        obtain rfl := Option.some.inj hdata
        refine ⟨by omega, readFile_eq_some.mp hread, ?_⟩
        rw [Bool.or_eq_true, decide_eq_true_eq, Bool.not_eq_true']
      · rintro ⟨-, hjson, hchanged⟩
        refine ⟨data, readFile_eq_some.mpr hjson, Prod.ext rfl (Bool.eq_iff_iff.mpr ?_)⟩
        rw [hchanged, Bool.or_eq_true, decide_eq_true_eq, Bool.not_eq_true']

theorem written_allowed {dataIndex : DataIndex jsonHash} {key : OldKey} (h : Allowed flags dataIndex key)
    (data : Option Data) (changed : Bool) :
    written flags.migrateOverwriteData (dataIndex (objectKey key)) (some (data, changed)) =
      some ⟨column (version dataIndex key + 1), data.map .write, changed⟩ := by
  rw [written, version]
  rcases h with hoverwrite | hnone
  · rw [hoverwrite, Bool.not_true, Bool.and_false]
    rfl
  · rw [hnone]
    rfl

theorem written_kept {r : Row jsonHash} (what : Option (Option Data × Bool)) :
    written false (some r) what = some r := by
  rcases what with - | ⟨data, changed⟩
  · rfl
  · rfl

theorem Handles.toMigrated {dataIndex : DataIndex jsonHash} {count : Option ℕ} {s : State jsonHash} {config : ℕ}
    (hprogress : s.progress = count.getD 0)
    (h : Handles isEmpty flags old (migrated flags old) ⟨dataIndex, config, []⟩ s) :
    Migrated isEmpty flags old dataIndex count s := by
  have hhandled : s.handled = (migrated flags old).map Prod.fst := h.handled
  have hrow : ∀ key ∈ s.handled, ∃ row ∈ entries old, row.1 = key ∧
      s.dataIndex (objectKey key) =
        written flags.migrateOverwriteData (dataIndex (objectKey key)) (wanted isEmpty flags old row) := by
    intro key hkey
    rw [hhandled] at hkey
    obtain ⟨row, hrow, rfl⟩ := List.mem_map.mp hkey
    exact ⟨row, (mem_migrated.mp hrow).2, rfl, h.rows row hrow⟩
  have hothers : ∀ k, (∀ key ∈ s.handled, k ≠ objectKey key) → s.dataIndex k = dataIndex k := by
    intro k hk
    refine h.others k fun hmem => ?_
    obtain ⟨row, hrow, rfl⟩ := List.mem_map.mp hmem
    exact hk row.1 (hhandled ▸ List.mem_map_of_mem hrow) rfl
  refine ⟨hhandled ▸ nodup_migrated flags old, ?_, hprogress, ?_, ?_, ?_⟩
  · intro key
    rw [hhandled, List.mem_map]
    constructor
    · rintro ⟨row, hmem, rfl⟩
      obtain ⟨hdata, hentry⟩ := mem_migrated.mp hmem
      exact ⟨hdata, ((mem_entries old).mp hentry).1⟩
    · rintro ⟨hdata, hkey⟩
      exact ⟨(key, old.dataIndex.lookup key, old.syncState.lookup key),
        mem_migrated.mpr ⟨hdata, (mem_entries old).mpr ⟨hkey, rfl⟩⟩, rfl⟩
  · intro hkeep k r hr
    by_cases hk : ∃ key ∈ s.handled, k = objectKey key
    · obtain ⟨key, hkey, rfl⟩ := hk
      obtain ⟨row, -, -, hwritten⟩ := hrow key hkey
      rw [hwritten, hkeep, hr, written_kept]
    · push Not at hk
      rw [hothers k hk, hr]
  · intro key hkey hallowed data changed hcomes
    obtain ⟨row, hentry, rfl, hwritten⟩ := hrow key hkey
    rw [hwritten, (wanted_eq_some hentry).mpr hcomes, written_allowed hallowed]
  · intro k hk
    by_cases hkey : ∃ key ∈ s.handled, k = objectKey key
    · obtain ⟨key, hkey, rfl⟩ := hkey
      obtain ⟨row, hentry, rfl, hwritten⟩ := hrow key hkey
      rw [hwritten]
      by_cases hallowed : Allowed flags dataIndex row.1
      · rcases hwanted : wanted isEmpty flags old row with - | ⟨data, changed⟩
        · rfl
        · exact absurd ((wanted_eq_some hentry).mp hwanted) (hk row.1 hkey rfl hallowed data changed)
      · rw [Allowed, not_or, Bool.not_eq_true] at hallowed
        obtain ⟨r, hr⟩ := Option.ne_none_iff_exists'.mp hallowed.2
        rw [hallowed.1, hr, written_kept]
    · push Not at hkey
      exact hothers k hkey

/-- **When a version is higher than before**. -/
theorem Migrated.raised_iff {dataIndex : DataIndex jsonHash} {count : Option ℕ} {s : State jsonHash}
    (h : Migrated isEmpty flags old dataIndex count s) (hstored : dataIndex.Stored) :
    Raised isEmpty flags old dataIndex s ↔ Fits isEmpty flags old dataIndex := by
  have hcolumn : ∀ key, column (version dataIndex key) = version dataIndex key := by
    intro key
    rw [version]
    rcases hr : dataIndex (objectKey key) with - | r
    · rfl
    · exact hstored _ r hr
  have hversion : ∀ key ∈ s.handled, Allowed flags dataIndex key → ∀ data changed,
      Comes isEmpty flags old key data changed → (version dataIndex key < version s.dataIndex key ↔
        version dataIndex key < 2 ^ 63) := by
    intro key hkey hallowed data changed hcomes
    have hwritten : version s.dataIndex key = column (version dataIndex key + 1) := by
      rw [version, h.written key hkey hallowed data changed hcomes]
      rfl
    rw [hwritten]
    exact lt_column_succ_iff (hcolumn key)
  constructor
  · intro hraised hdata key hold hallowed data changed hcomes
    have hkey := (h.handled key).mpr ⟨hdata, hold⟩
    exact (hversion key hkey hallowed data changed hcomes).mp (hraised key hkey hallowed data changed hcomes)
  · intro hfits key hkey hallowed data changed hcomes
    obtain ⟨hdata, hold⟩ := (h.handled key).mp hkey
    exact (hversion key hkey hallowed data changed hcomes).mpr (hfits hdata key hold hallowed data changed hcomes)

/-- The flags of the next migration. -/
def keepData (flags : MigrationFlags) : MigrationFlags := { flags with migrateOverwriteData := false }

/-- What has been written for a key is not written again. -/
theorem written_written (overwrite : Bool) (e : Entry jsonHash) (what : Option (Option Data × Bool)) :
    written false (written overwrite e what) what = written overwrite e what := by
  rcases what with - | ⟨data, changed⟩
  · rfl
  · rcases e with - | r
    · rfl
    · rcases overwrite with - | -
      · rfl
      · rfl

/-- **Migrating again** changes no row. -/
theorem Handles.again {dataIndex : DataIndex jsonHash} {config config' : ℕ} {s s' : State jsonHash}
    (h : Handles isEmpty flags old (migrated flags old) ⟨dataIndex, config, []⟩ s)
    (h' : Handles isEmpty (keepData flags) old (migrated (keepData flags) old) ⟨s.dataIndex, config', []⟩ s') :
    s'.dataIndex = s.dataIndex := by
  funext k
  by_cases hk : k ∈ (migrated flags old).map fun row => objectKey row.1
  · obtain ⟨row, hrow, rfl⟩ := List.mem_map.mp hk
    have hnext : s'.dataIndex (objectKey row.1) =
        written false (s.dataIndex (objectKey row.1)) (wanted isEmpty flags old row) := h'.rows row hrow
    rw [hnext, h.rows row hrow]
    exact written_written _ _ _
  · exact h'.others k hk

/-- **The migration**: each key of the old store is handled once, in the only order that its rows have, and migrating
again changes no row.  The versions are higher than before if and only if those before are below `2 ^ 63`. -/
theorem migrates (isEmpty : Data → Bool) (flags : MigrationFlags) (old : OldStore Data) {dataIndex : DataIndex jsonHash}
    (hstored : dataIndex.Stored) :
    (∀ l : List EntryRow, l.Perm (rows old) → l.Pairwise OrderBy →
      ∀ offset, entryQuery old offset = (l.drop offset).take 100) ∧
    ∃ count s, run isEmpty flags old dataIndex = .ok (count, s) ∧ Migrated isEmpty flags old dataIndex count s ∧
      (Raised isEmpty flags old dataIndex s ↔ Fits isEmpty flags old dataIndex) ∧
      ∃ count' s', run isEmpty (keepData flags) old s.dataIndex = .ok (count', s') ∧ s'.dataIndex = s.dataIndex := by
  refine ⟨fun l hperm hsorted offset => by rw [eq_entries old hperm hsorted]; rfl, ?_⟩
  obtain ⟨count, s, config, hrun, hprogress, hs⟩ := exists_run isEmpty flags old hstored
  obtain ⟨count', s', config', hrun', -, hs'⟩ := exists_run isEmpty (keepData flags) old hs.stored
  have hmigrated := hs.toMigrated hprogress
  exact ⟨count, s, hrun, hmigrated, hmigrated.raised_iff hstored, count', s', hrun', hs.again hs'⟩

namespace Sample

/-- An object with a changed state. -/
def oldStore : OldStore ℕ where
  dataIndex := [(("T", "a"), "file")]
  syncState := [(("T", "a"), 1)]
  dataIndex_nodup := List.nodup_singleton _
  syncState_nodup := List.nodup_singleton _
  syncState_check := by decide
  storageDir _ := some fun _ => .json 5

def overwriting : MigrationFlags := ⟨true, true, false, false, false, true⟩

def isZero (data : ℕ) : Bool := data == 0

/-- A new store with a row of that object. -/
def newStore (version : ℕ) : DataIndex fun n : ℕ => n :=
  Function.update (fun _ => none) (objectKey ("T", "a")) (some ⟨version, some (.write 4), false⟩)

theorem newStore_stored {v : ℕ} (hv : column v = v) : (newStore v).Stored := by
  intro k r hr
  by_cases hk : k = objectKey ("T", "a")
  · rw [hk, newStore, Function.update_self] at hr
    cases hr
    exact hv
  · rw [newStore, Function.update_of_ne hk] at hr
    cases hr

theorem comes : Comes isZero overwriting oldStore ("T", "a") (some 5) true :=
  ⟨by decide, ⟨_, rfl, rfl, rfl⟩, ⟨fun _ => Or.inl rfl, fun _ => rfl⟩⟩

end Sample

/-- The object is migrated over the one of the new store. -/
theorem migrates_object :
    ∃ count s, run Sample.isZero Sample.overwriting Sample.oldStore (Sample.newStore 3) = .ok (count, s) ∧
    s.dataIndex (objectKey ("T", "a")) = some ⟨4, some (.write 5), true⟩ ∧
    Raised Sample.isZero Sample.overwriting Sample.oldStore (Sample.newStore 3) s := by
  obtain ⟨-, count, s, hrun, hs, hraised, -⟩ :=
    migrates Sample.isZero Sample.overwriting Sample.oldStore (Sample.newStore_stored (v := 3) (column_of_lt (by decide)))
  have hkey : (("T", "a") : OldKey) ∈ s.handled := (hs.handled _).mpr ⟨rfl, Or.inl (List.mem_singleton_self _)⟩
  refine ⟨count, s, hrun, hs.written _ hkey (Or.inl rfl) _ _ Sample.comes, hraised.mpr ?_⟩
  rintro - key hkey' - - - -
  have hold : key = ("T", "a") := hkey'.elim List.mem_singleton.mp List.mem_singleton.mp
  subst hold
  decide

/-- The object of the new store has the version `2 ^ 63`, and is written with that version again. -/
theorem not_migrates : ¬ ∀ (old : OldStore ℕ) (dataIndex : DataIndex fun n : ℕ => n), dataIndex.Stored → ∀ count s,
    run Sample.isZero Sample.overwriting old dataIndex = .ok (count, s) →
      Raised Sample.isZero Sample.overwriting old dataIndex s := by
  intro h
  have hcolumn : column (2 ^ 63) = 2 ^ 63 := by decide
  have hstored := Sample.newStore_stored hcolumn
  obtain ⟨count, s, config, hrun, hprogress, hs⟩ := exists_run Sample.isZero Sample.overwriting Sample.oldStore hstored
  have hmigrated := hs.toMigrated hprogress
  have hfits := (hmigrated.raised_iff hstored).mp (h _ _ hstored count s hrun)
  have hlt := hfits rfl ("T", "a") (Or.inl (List.mem_singleton_self _)) (Or.inl rfl) _ _ Sample.comes
  revert hlt
  decide

end MigrationRunnable

end QtDataSync
