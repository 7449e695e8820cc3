import Mathlib.Logic.Function.Basic
import Mathlib.Order.Basic

/-!
# Store.LocalStore — `DataIndex` rows and the atomic operations of `LocalStore` on them

A `DataIndex` row as the transactions of `localstore.cpp` see it.  The file named in the `File` column is part
of the row (`DataFile`): a row with a file carries the JSON of the file and the checksum stored beside it, and
the two belong together.  Versions are `quint64` counters, modelled by `ℕ`; the `INTEGER` column holds them as they are
below `2 ^ 63` only, and `Store.VersionColumn` says what it holds from there on.  The operations are those of the source
on the row of one key (`Entry`), with an SQL constraint error as `QException.constraint`; `DataIndex` lifts them to all
keys.  How the files themselves are written, replaced and removed is in `Store.Files`.
-/

namespace QtDataSync

abbrev QByteArray := List UInt8

/-- `QtDataSync::ObjectKey`. -/
structure ObjectKey where
  typeName : QByteArray
  id : String
deriving DecidableEq, Repr

/-- What the operations throw: a failed SQL statement, or whatever a conflict resolver throws. -/
inductive QException where
  | constraint
  | conflictResolver (what : String)
deriving DecidableEq, Repr

section Rows

variable {Data Checksum : Type*}

/-- The data file of a row with the `Checksum` column stored for it. -/
structure DataFile (jsonHash : Data → Checksum) where
  data : Data
  checksum : Checksum
  checksum_eq : checksum = jsonHash data

variable {jsonHash : Data → Checksum}

/-- The file written for `data`, with its hash. -/
def DataFile.write (data : Data) : DataFile jsonHash := ⟨data, jsonHash data, rfl⟩

@[simp] theorem DataFile.write_data (data : Data) :
    (DataFile.write data : DataFile jsonHash).data = data := rfl

theorem DataFile.ext_data {f g : DataFile jsonHash} (h : f.data = g.data) : f = g := by
  obtain ⟨d, c, hc⟩ := f
  obtain ⟨d', c', hc'⟩ := g
  simp only at h
  subst h hc hc'
  rfl

/-- A row of `DataIndex`; `file = none` is a NULL `File` column, and the version is one below `2 ^ 63`, unless the row is
`Row.stored`. -/
structure Row (jsonHash : Data → Checksum) where
  version : ℕ
  file : Option (DataFile jsonHash)
  changed : Bool

/-- The object a row holds, `none` for a deletion. -/
def Row.content (r : Row jsonHash) : Option Data := r.file.map (·.data)

@[simp] theorem Row.content_mk (v : ℕ) (f : Option (DataFile jsonHash)) (ch : Bool) :
    (Row.mk v f ch).content = f.map (·.data) := rfl

/-- A row is its version, its content and its `Changed` flag. -/
theorem Row.ext_content {r r' : Row jsonHash} (hv : r.version = r'.version)
    (hc : r.content = r'.content) (hch : r.changed = r'.changed) : r = r' := by
  obtain ⟨v, f, ch⟩ := r
  obtain ⟨v', f', ch'⟩ := r'
  simp only [Row.content_mk] at hv hc hch
  subst hv hch
  have hf : f = f' := by
    cases f <;> cases f' <;> simp only [Option.map_none, Option.map_some, reduceCtorEq,
      Option.some.injEq] at hc
    · rfl
    · rw [DataFile.ext_data hc]
  rw [hf]

/-- The row of one key, if there is one. -/
abbrev Entry (jsonHash : Data → Checksum) := Option (Row jsonHash)

/-- `LocalStore::ChangeType`. -/
inductive ChangeType where
  | Exists
  | ExistsDeleted
  | NoExists
deriving DecidableEq, Repr

/-- What `loadChangeInfo` returns: the state of the key with the columns that are set in it. -/
inductive ChangeInfo (jsonHash : Data → Checksum) where
  | Exists (version : ℕ) (file : DataFile jsonHash)
  | ExistsDeleted (version : ℕ)
  | NoExists

namespace LocalStore

/-! ### The operations on the row of one key -/

/-- The `UPDATE` or `INSERT` of `storeChangedImpl`. -/
def storeChangedImpl (e : Entry jsonHash) (version : ℕ) (data : Data) (changed existing : Bool) :
    Except QException (Entry jsonHash) :=
  if existing then .ok (e.map fun _ => ⟨version, some (.write data), changed⟩)
  else match e with
    | none => .ok (some ⟨version, some (.write data), changed⟩)
    | some _ => .error .constraint

/-- `LocalStore::save`. -/
def save (e : Entry jsonHash) (data : Data) : Except QException (Entry jsonHash) :=
  match e with
  | some r => storeChangedImpl e (r.version + 1) data true true
  | none => storeChangedImpl e 1 data true false

/-- `LocalStore::remove`, with its return value. -/
def remove (e : Entry jsonHash) : Entry jsonHash × Bool :=
  match e with
  | some ⟨version, some _, _⟩ => (some ⟨version + 1, none, true⟩, true)
  | _ => (e, false)

/-- The `UPDATE` of `LocalStore::clear` on one row of the type. -/
def clear (e : Entry jsonHash) : Entry jsonHash :=
  e.map fun r => if r.file.isSome then ⟨r.version + 1, none, true⟩ else r

/-- `LocalStore::reset` on one row. -/
def reset (keepData : Bool) (e : Entry jsonHash) : Entry jsonHash :=
  if keepData then e.map fun r => { r with changed := true } else none

/-- `LocalStore::markUnchangedImpl`. -/
def markUnchangedImpl (persistDeleted : Bool) (e : Entry jsonHash) (version : ℕ) (isDelete : Bool) :
    Entry jsonHash :=
  if isDelete && !persistDeleted then
    e.filter fun r => !(r.version == version && r.file.isNone)
  else e.map fun r => if r.version = version then { r with changed := false } else r

/-- `LocalStore::loadChangeInfo`. -/
def loadChangeInfo (e : Entry jsonHash) : ChangeInfo jsonHash :=
  match e with
  | some ⟨version, none, _⟩ => .ExistsDeleted version
  | some ⟨version, some file, _⟩ => .Exists version file
  | none => .NoExists

/-- `LocalStore::updateVersion`. -/
def updateVersion (e : Entry jsonHash) (oldVersion newVersion : ℕ) (changed : Bool) : Entry jsonHash :=
  e.map fun r => if r.version = oldVersion then { r with version := newVersion, changed } else r

/-- `LocalStore::storeChanged`. -/
def storeChanged (e : Entry jsonHash) (version : ℕ) (data : Data) (changed : Bool)
    (localState : ChangeType) : Except QException (Entry jsonHash) :=
  storeChangedImpl e version data changed (localState != .NoExists)

/-- `LocalStore::storeDeleted`. -/
def storeDeleted (e : Entry jsonHash) (version : ℕ) (changed : Bool) (localState : ChangeType) :
    Except QException (Entry jsonHash) :=
  if localState != .NoExists then .ok (e.map fun _ => ⟨version, none, changed⟩)
  else match e with
    | none => .ok (some ⟨version, none, changed⟩)
    | some _ => .error .constraint

/-- `LocalStore::markUnchanged` of a sync scope. -/
def markUnchanged (persistDeleted : Bool) (e : Entry jsonHash) (oldVersion : ℕ) (isDelete : Bool) :
    Entry jsonHash :=
  markUnchangedImpl persistDeleted e oldVersion isDelete

/-! ### What they do -/

@[simp] theorem save_none (data : Data) :
    save (none : Entry jsonHash) data = .ok (some ⟨1, some (.write data), true⟩) := rfl

@[simp] theorem save_some (r : Row jsonHash) (data : Data) :
    save (some r) data = .ok (some ⟨r.version + 1, some (.write data), true⟩) := rfl

@[simp] theorem remove_fst_none : (remove (none : Entry jsonHash)).1 = none := rfl

@[simp] theorem remove_fst_some (r : Row jsonHash) :
    (remove (some r)).1 = if r.file.isSome then some ⟨r.version + 1, none, true⟩ else some r := by
  obtain ⟨v, f, ch⟩ := r
  cases f <;> rfl

/-- Clearing a type does to each of its rows what removing the key does. -/
theorem clear_eq_remove (e : Entry jsonHash) : clear e = (remove e).1 := by
  cases e with
  | none => rfl
  | some r =>
    rw [remove_fst_some]
    simp only [clear, Option.map_some]
    split <;> rfl

theorem markUnchangedImpl_persist (e : Entry jsonHash) (version : ℕ) (isDelete : Bool) :
    markUnchangedImpl true e version isDelete =
      e.map fun r => if r.version = version then { r with changed := false } else r := by
  simp [markUnchangedImpl]

theorem markUnchangedImpl_none (p : Bool) (version : ℕ) (isDelete : Bool) :
    markUnchangedImpl p (none : Entry jsonHash) version isDelete = none := by
  unfold markUnchangedImpl
  split <;> rfl

/-- A statement whose version does not match leaves the row alone. -/
theorem markUnchangedImpl_ne (p : Bool) {r : Row jsonHash} {version : ℕ} (h : r.version ≠ version)
    (isDelete : Bool) : markUnchangedImpl p (some r) version isDelete = some r := by
  unfold markUnchangedImpl
  split
  · simp [Option.filter, h]
  · simp [h]

theorem markUnchangedImpl_change (p : Bool) (e : Entry jsonHash) (version : ℕ) :
    markUnchangedImpl p e version false =
      e.map fun r => if r.version = version then { r with changed := false } else r := by
  simp [markUnchangedImpl]

theorem markUnchangedImpl_delete {r : Row jsonHash} {version : ℕ} (hv : r.version = version)
    (hf : r.file = none) : markUnchangedImpl false (some r) version true = none := by
  simp [markUnchangedImpl, Option.filter, hv, hf]

/-- The acknowledgement of a deletion leaves an object alone. -/
theorem markUnchangedImpl_object {r : Row jsonHash} (hc : r.content ≠ none) (version : ℕ) :
    markUnchangedImpl false (some r) version true = some r := by
  have hf : r.file.isNone = false := by
    rw [Option.isNone_eq_false_iff, Option.isSome_iff_ne_none]
    exact fun hf => hc (Option.map_eq_none_iff.mpr hf)
  unfold markUnchangedImpl
  rw [if_pos (by rfl), Option.filter_some, hf, Bool.and_false]
  rfl

/-- What the statement leaves of a row has its version and content. -/
theorem content_markUnchangedImpl {p : Bool} {r r' : Row jsonHash} {version : ℕ} {isDelete : Bool}
    (h : markUnchangedImpl p (some r) version isDelete = some r') :
    r'.version = r.version ∧ r'.content = r.content := by
  unfold markUnchangedImpl at h
  split at h
  · rw [Option.filter_eq_some_iff] at h
    cases h.1
    exact ⟨rfl, rfl⟩
  · rw [Option.map_some, Option.some.injEq] at h
    subst h
    split <;> exact ⟨rfl, rfl⟩

end LocalStore

/-! ### The table -/

/-- The table `DataIndex`. -/
abbrev DataIndex (jsonHash : Data → Checksum) := ObjectKey → Entry jsonHash

namespace DataIndex

def save (index : DataIndex jsonHash) (key : ObjectKey) (data : Data) :
    Except QException (DataIndex jsonHash) :=
  (LocalStore.save (index key) data).map fun e => Function.update index key e

def remove (index : DataIndex jsonHash) (key : ObjectKey) : DataIndex jsonHash × Bool :=
  let (e, res) := LocalStore.remove (index key)
  (Function.update index key e, res)

def clear (index : DataIndex jsonHash) (typeName : QByteArray) : DataIndex jsonHash :=
  fun key => if key.typeName = typeName then LocalStore.clear (index key) else index key

def markUnchanged (persistDeleted : Bool) (index : DataIndex jsonHash) (key : ObjectKey) (version : ℕ)
    (isDelete : Bool) : DataIndex jsonHash :=
  Function.update index key (LocalStore.markUnchangedImpl persistDeleted (index key) version isDelete)

def reset (keepData : Bool) (index : DataIndex jsonHash) : DataIndex jsonHash :=
  fun key => LocalStore.reset keepData (index key)

end DataIndex

end Rows

end QtDataSync
