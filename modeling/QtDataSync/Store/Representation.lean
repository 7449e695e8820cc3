import QtDataSync.Lib.Transition
import QtDataSync.Store.Outcomes

/-!
# Store.Representation — rows, data files and cache belong together

`Represents s index` says that the store holds the table `index` of `Store.LocalStore`: every row has the file that
belongs to it, no two rows share one, and what is cached is what is stored.  Every operation that returns does to the
table what the operation of `Store.LocalStore` does, and one that throws before its commit leaves it alone.  This needs
one thing that the code does not check: `clear` removes a whole directory, and two types can have the same one.
-/

namespace QtDataSync

variable {Data Checksum : Type} {jsonHash : Data → Checksum} {size : Data → ℕ} {env : Env}

/-! ### What the store holds -/

/-- The columns of a row, with the content of its file. -/
def FileRow.view (files : FilePath → Option (Option Data)) (key : ObjectKey) (r : FileRow Checksum) :
    ℕ × Bool × Option Checksum × Option (Option (Option Data)) :=
  (r.version, r.changed, r.checksum, r.file.map fun name => files (filePath key name))

def Row.view (r : Row jsonHash) : ℕ × Bool × Option Checksum × Option (Option (Option Data)) :=
  (r.version, r.changed, r.file.map (·.checksum), r.file.map fun f => some (some f.data))

/-- The file of a key, if its row has one. -/
def FileStore.fileOf (s : FileStore Data Checksum) (key : ObjectKey) : Option String := (s.dataIndex key).bind (·.file)

/-- The store between two operations holds the table `index`. -/
structure Represents (s : FileStore Data Checksum) (index : DataIndex jsonHash) : Prop where
  idle : s.transaction = none
  row : ∀ k, (s.dataIndex k).map (·.view s.files k) = (index k).map Row.view
  distinct : ∀ k k' name, s.fileOf k = some name → s.fileOf k' = some name →
    dataDirectory k.typeName = dataDirectory k'.typeName → k = k'
  cached : ∀ c k data, s.cache = some c → c.Holds k data → (index k).bind (·.content) = some data

/-- A row that is seen as `e` has the object of `e` in its file. -/
theorem content_of_view {files : FilePath → Option (Option Data)} {key : ObjectKey} {fr : Option (FileRow Checksum)}
    {e : Entry jsonHash} (h : fr.map (·.view files key) = e.map Row.view) :
    (fr.bind (·.file)).map (fun name => files (filePath key name)) =
      (e.bind (·.content)).map fun data => some (some data) := by
  cases fr with
  | none =>
    rw [Option.map_none] at h
    rw [Option.map_eq_none_iff.mp h.symm]
    rfl
  | some fr =>
    rw [Option.map_some] at h
    obtain ⟨r, hr, hv⟩ := Option.map_eq_some_iff.mp h.symm
    rw [hr]
    show fr.file.map _ = (r.file.map _).map _
    rw [Option.map_map]
    exact (congrArg (·.2.2.2) hv).symm

namespace Represents

variable {s : FileStore Data Checksum} {index : DataIndex jsonHash}

theorem file_eq (R : Represents s index) (k : ObjectKey) :
    (s.fileOf k).map (fun name => s.files (filePath k name)) =
      ((index k).bind (·.content)).map fun data => some (some data) := content_of_view (R.row k)

/-- The file of a row is there, with the object of the row. -/
theorem file_of_row (R : Represents s index) {k : ObjectKey} {name : String} (h : s.fileOf k = some name) :
    ∃ data, (index k).bind (·.content) = some data ∧ s.files (filePath k name) = some (some data) := by
  have he := R.file_eq k
  rw [h, Option.map_some] at he
  obtain ⟨data, hc, hd⟩ := Option.map_eq_some_iff.mp he.symm
  exact ⟨data, hc, hd.symm⟩

theorem content_of_none (R : Represents s index) {k : ObjectKey} (h : s.fileOf k = none) :
    (index k).bind (·.content) = none := by
  have he := R.file_eq k
  rw [h, Option.map_none] at he
  exact Option.map_eq_none_iff.mp he.symm

/-- The checksum of a row is the hash of its file. -/
theorem checksum_of_row (R : Represents s index) {k : ObjectKey} {fr : FileRow Checksum} {name : String}
    (hr : s.dataIndex k = some fr) (hf : fr.file = some name) :
    ∃ data, s.files (filePath k name) = some (some data) ∧ fr.checksum = some (jsonHash data) := by
  have h := R.row k
  rw [hr, Option.map_some] at h
  obtain ⟨r, -, hv⟩ := Option.map_eq_some_iff.mp h.symm
  have hfile : fr.file.map (fun name => s.files (filePath k name)) = r.file.map fun f => some (some f.data) :=
    (congrArg (·.2.2.2) hv).symm
  rw [hf, Option.map_some] at hfile
  obtain ⟨f, hrf, hd⟩ := Option.map_eq_some_iff.mp hfile.symm
  have hsum : fr.checksum = r.file.map (·.checksum) := (congrArg (·.2.2.1) hv).symm
  rw [hrf, Option.map_some, f.checksum_eq] at hsum
  exact ⟨f.data, hd.symm, hsum⟩

/-- Only the files of the rows matter, and a cache may forget. -/
theorem frame (R : Represents s index) {t : FileStore Data Checksum} (hindex : t.dataIndex = s.dataIndex)
    (hidle : t.transaction = none)
    (hfiles : ∀ k name, s.fileOf k = some name → t.files (filePath k name) = s.files (filePath k name))
    (hcache : ∀ c k data, t.cache = some c → c.Holds k data → (index k).bind (·.content) = some data) :
    Represents t index := by
  refine ⟨hidle, fun k => ?_, fun k k' name h h' => ?_, hcache⟩
  · rw [← R.row k, hindex]
    cases hr : s.dataIndex k with
    | none => rfl
    | some fr =>
      have hf : fr.file.map (fun name => t.files (filePath k name)) =
          fr.file.map fun name => s.files (filePath k name) := by
        cases hn : fr.file with
        | none => rfl
        | some name =>
          rw [Option.map_some, Option.map_some, hfiles k name (by rw [FileStore.fileOf, hr]; exact hn)]
      rw [Option.map_some, Option.map_some, FileRow.view, hf]
      rfl
  · rw [FileStore.fileOf, hindex] at h h'
    exact R.distinct k k' name h h'

/-- One row is written, with its file. -/
theorem update (R : Represents s index) {key : ObjectKey} {fr : Option (FileRow Checksum)}
    {e : Entry jsonHash} {files : FilePath → Option (Option Data)} {cache : Option (Cache ObjectKey Data)}
    {emitted : List Signal} (hview : fr.map (·.view files key) = e.map Row.view)
    (hfiles : ∀ k name, k ≠ key → s.fileOf k = some name → files (filePath k name) = s.files (filePath k name))
    (hname : ∀ k name, k ≠ key → s.fileOf k = some name → fr.bind (·.file) = some name →
      dataDirectory k.typeName ≠ dataDirectory key.typeName)
    (hcache : ∀ c k data, cache = some c → c.Holds k data →
      k = key ∧ e.bind (·.content) = some data ∨ k ≠ key ∧ (index k).bind (·.content) = some data) :
    Represents ⟨Function.update s.dataIndex key fr, none, files, cache, emitted⟩ (Function.update index key e) := by
  have hrow : ∀ k, k ≠ key → (s.dataIndex k).map (·.view files k) = (index k).map Row.view := by
    intro k hk
    rw [← R.row k]
    cases hr : s.dataIndex k with
    | none => rfl
    | some r =>
      have hf : r.file.map (fun name => files (filePath k name)) =
          r.file.map fun name => s.files (filePath k name) := by
        cases hn : r.file with
        | none => rfl
        | some name =>
          rw [Option.map_some, Option.map_some, hfiles k name hk (by rw [FileStore.fileOf, hr]; exact hn)]
      rw [Option.map_some, Option.map_some, FileRow.view, hf]
      rfl
  have hself : FileStore.fileOf ⟨Function.update s.dataIndex key fr, none, files, cache, emitted⟩ key =
      fr.bind (·.file) := by
    show (Function.update s.dataIndex key fr key).bind _ = _
    rw [Function.update_self]
  have hother : ∀ k, k ≠ key → FileStore.fileOf ⟨Function.update s.dataIndex key fr, none, files, cache, emitted⟩ k =
      s.fileOf k := by
    intro k hk
    show (Function.update s.dataIndex key fr k).bind _ = _
    rw [Function.update_of_ne hk]
    rfl
  refine ⟨rfl, fun k => ?_, fun k k' name h h' hd => ?_, fun c k data hc h => ?_⟩
  · rcases eq_or_ne k key with rfl | hk
    · show (Function.update s.dataIndex k fr k).map _ = _
      rw [Function.update_self, Function.update_self]
      exact hview
    · show (Function.update s.dataIndex key fr k).map _ = _
      rw [Function.update_of_ne hk, Function.update_of_ne hk]
      exact hrow k hk
  · rcases eq_or_ne k key with rfl | hk
    · rcases eq_or_ne k' k with rfl | hk'
      · rfl
      · rw [hself] at h
        rw [hother k' hk'] at h'
        exact absurd hd.symm (hname k' name hk' h' h)
    · rcases eq_or_ne k' key with rfl | hk'
      · rw [hself] at h'
        rw [hother k hk] at h
        exact absurd hd (hname k name hk h h')
      · rw [hother k hk] at h
        rw [hother k' hk'] at h'
        exact R.distinct k k' name h h' hd
  · rcases hcache c k data hc h with ⟨rfl, hd⟩ | ⟨hk, hd⟩
    · rw [Function.update_self]
      exact hd
    · rw [Function.update_of_ne hk]
      exact hd

/-- A row is rewritten that keeps its file. -/
theorem update_row (R : Represents s index) {key : ObjectKey} {fr : Option (FileRow Checksum)}
    {e : Entry jsonHash} {emitted : List Signal} (hview : fr.map (·.view s.files key) = e.map Row.view)
    (hfile : fr.bind (·.file) = s.fileOf key) :
    Represents { s with dataIndex := Function.update s.dataIndex key fr, emitted := emitted }
      (Function.update index key e) := by
  have hs : s.transaction = none := R.idle
  have hcontent : e.bind (·.content) = (index key).bind (·.content) := by
    have hinj : Function.Injective fun data : Data => some (some data) :=
      (Option.some_injective _).comp (Option.some_injective _)
    apply Option.map_injective hinj
    rw [← content_of_view hview, ← R.file_eq key, hfile]
  obtain ⟨rows, tx, files, cache, em⟩ := s
  subst hs
  refine R.update hview (fun _ _ _ _ => rfl) (fun k name hk h h' hd => hk ?_) fun c k data hc h => ?_
  · exact R.distinct k key name h (hfile ▸ h') hd
  · rcases eq_or_ne k key with rfl | hk
    · exact Or.inl ⟨rfl, hcontent.trans (R.cached c k data hc h)⟩
    · exact Or.inr ⟨hk, R.cached c k data hc h⟩

end Represents

/-! ### What is read -/

section Reads

variable {s : FileStore Data Checksum} {index : DataIndex jsonHash}

variable (size) in
/-- What `load` answers when nothing fails. -/
def loaded (s : FileStore Data Checksum) (k : ObjectKey) : Except StoreException Data := (exec (load Env.sound size k) s).1

/-- `load` answers what the table holds, from the cache or from the file. -/
theorem loaded_eq_of_file {k : ObjectKey} {content : Option Data} (hidle : s.transaction = none)
    (hfile : (s.fileOf k).map (fun name => s.files (filePath k name)) = content.map fun data => some (some data))
    (hcached : ∀ c data, s.cache = some c → c.Holds k data → content = some data) :
    loaded size s k = content.elim (.error (.noData k)) .ok := by
  have hread : ∀ name, s.fileOf k = some name →
      ∃ data, content = some data ∧ s.files (filePath k name) = some (some data) := by
    intro name hf
    rw [hf, Option.map_some] at hfile
    obtain ⟨data, hc, hd⟩ := Option.map_eq_some_iff.mp hfile.symm
    exact ⟨data, hc, hd.symm⟩
  have h : Runs (load Env.sound size k) s (fun data _ => content = some data)
      fun e _ => content = none ∧ e = .noData k := by
    refine runs_load hidle ?_ ?_ ?_ ?_ ?_
    · exact fun c json hc ho => hcached c json hc (Cache.holds_of_object ho)
    · intro name json hf hjson
      obtain ⟨data, hc, hd⟩ := hread name hf
      rw [hjson, Option.some.injEq, Option.some.injEq] at hd
      rw [hd]
      exact hc
    · intro _ hf
      have hf' : s.fileOf k = none := hf
      rw [hf', Option.map_none] at hfile
      exact ⟨Option.map_eq_none_iff.mp hfile.symm, rfl⟩
    · rintro step name (h | ⟨hf, hno⟩)
      · cases h
      · obtain ⟨data, -, hd⟩ := hread name hf
        exact absurd hd (hno data)
    · intro _ _ h
      cases h
  unfold loaded
  rcases hx : exec (load Env.sound size k) s with ⟨e | data, t⟩
  · obtain ⟨hc, rfl⟩ := h.error hx
    rw [hc]
    rfl
  · rw [show content = some data from h.ok hx]
    rfl

theorem Represents.loaded_eq (R : Represents s index) (k : ObjectKey) :
    loaded size s k = ((index k).bind (·.content)).elim (.error (.noData k)) .ok :=
  loaded_eq_of_file R.idle (R.file_eq k) fun c data hc h => R.cached c k data hc h

/-- The row of the key and its file belong together. -/
def Intact (jsonHash : Data → Checksum) (s : FileStore Data Checksum) (k : ObjectKey) : Prop :=
  ∀ row, s.dataIndex k = some row → match row.file with
    | none => row.checksum = none
    | some name => ∃ data, s.files (filePath k name) = some (some data) ∧ row.checksum = some (jsonHash data)

theorem Represents.intact (R : Represents s index) (k : ObjectKey) : Intact jsonHash s k := by
  intro row hr
  cases hf : row.file with
  | none =>
    have h := R.row k
    rw [hr, Option.map_some] at h
    obtain ⟨r, -, hv⟩ := Option.map_eq_some_iff.mp h.symm
    have hsum : row.checksum = r.file.map (·.checksum) := (congrArg (·.2.2.1) hv).symm
    have hfile : r.file.map (fun f => some (some f.data)) = row.file.map fun name => s.files (filePath k name) :=
      congrArg (·.2.2.2) hv
    rw [hf, Option.map_none, Option.map_eq_none_iff] at hfile
    show row.checksum = none
    rw [hsum, hfile]
    rfl
  | some name => exact R.checksum_of_row hr hf

end Reads

/-! ### The operations as steps -/

/-- A call of `LocalStore`; the last ones but the very last are scopes of their own. -/
inductive FileOp (Data : Type) where
  | load (key : ObjectKey)
  | save (key : ObjectKey) (data : Data)
  | remove (key : ObjectKey)
  | clear (typeName : QByteArray)
  | reset (keepData : Bool)
  | storeChanged (key : ObjectKey) (version : ℕ) (data : Data) (changed : Bool)
  | storeDeleted (key : ObjectKey) (version : ℕ) (changed : Bool)
  | updateVersion (key : ObjectKey) (oldVersion newVersion : ℕ) (changed : Bool)
  | markUnchangedScope (key : ObjectKey) (oldVersion : ℕ) (isDelete : Bool)
  | markUnchanged (key : ObjectKey) (version : ℕ) (isDelete : Bool)

namespace FileOp

/-- The keys that the operation is about. -/
def Touches (op : FileOp Data) (k : ObjectKey) : Prop :=
  match op with
  | .load key | .save key _ | .remove key | .storeChanged key _ _ _ | .storeDeleted key _ _
  | .updateVersion key _ _ _ | .markUnchangedScope key _ _ | .markUnchanged key _ _ => k = key
  | .clear typeName => k.typeName = typeName
  | .reset _ => True

variable (env : Env) (jsonHash : Data → Checksum) (size : Data → ℕ) (persistDeleted : Bool)

/-- The program of the operation. -/
def program : FileOp Data → StoreM Data Checksum Unit
  | .load key => discard (QtDataSync.load env size key)
  | .save key data => QtDataSync.save env jsonHash size key data
  | .remove key => discard (QtDataSync.remove env key)
  | .clear typeName => QtDataSync.clear env typeName
  | .reset keepData => QtDataSync.reset env keepData
  | .storeChanged key version data changed => syncScope env key fun info =>
      QtDataSync.storeChanged env jsonHash size key version info.fileName data changed info.state
  | .storeDeleted key version changed => syncScope env key fun info =>
      QtDataSync.storeDeleted env key version changed info.state
  | .updateVersion key oldVersion newVersion changed => syncScope env key fun _ =>
      QtDataSync.updateVersion env key oldVersion newVersion changed
  | .markUnchangedScope key oldVersion isDelete => syncScope env key fun _ =>
      QtDataSync.markUnchangedScope env persistDeleted key oldVersion isDelete
  | .markUnchanged key version isDelete => QtDataSync.markUnchanged env persistDeleted key version isDelete

/-- What the environment cannot do: a new file has a name that is not in use, and the query of `clear` returns the ids of
the rows with a file. -/
def Admissible (s : FileStore Data Checksum) : FileOp Data → Prop
  | .save key _ | .storeChanged key _ _ _ => s.files (filePath key env.newName) = none
  | .clear typeName => ∀ id, id ∈ env.clearKeys ↔ s.fileOf ⟨typeName, id⟩ ≠ none
  | _ => True

/-- The directory that `clear` removes has no file of another type. -/
def Keeps (s : FileStore Data Checksum) : FileOp Data → Prop
  | .clear typeName => ∀ k : ObjectKey, k.typeName ≠ typeName → dataDirectory k.typeName = dataDirectory typeName →
      s.fileOf k = none
  | _ => True

variable {jsonHash}

/-- The state of a row in a scope. -/
def changeType (e : Entry jsonHash) : ChangeType :=
  match LocalStore.loadChangeInfo e with
  | .Exists _ _ => .Exists
  | .ExistsDeleted _ => .ExistsDeleted
  | .NoExists => .NoExists

/-- The operation of `Store.LocalStore` on the table. -/
def run (index : DataIndex jsonHash) : FileOp Data → Except QException (DataIndex jsonHash)
  | .load _ => .ok index
  | .save key data => DataIndex.save index key data
  | .remove key => .ok (DataIndex.remove index key).1
  | .clear typeName => .ok (DataIndex.clear index typeName)
  | .reset keepData => .ok (DataIndex.reset keepData index)
  | .storeChanged key version data changed =>
      (LocalStore.storeChanged (index key) version data changed (changeType (index key))).map
        (Function.update index key)
  | .storeDeleted key version changed =>
      (LocalStore.storeDeleted (index key) version changed (changeType (index key))).map (Function.update index key)
  | .updateVersion key oldVersion newVersion changed =>
      .ok (Function.update index key (LocalStore.updateVersion (index key) oldVersion newVersion changed))
  | .markUnchangedScope key oldVersion isDelete =>
      .ok (Function.update index key (LocalStore.markUnchanged persistDeleted (index key) oldVersion isDelete))
  | .markUnchanged key version isDelete => .ok (DataIndex.markUnchanged persistDeleted index key version isDelete)

end FileOp

/-! ### What is written -/

section Steps

open FileOp

variable {persistDeleted : Bool} {s t : FileStore Data Checksum} {index : DataIndex jsonHash} {key : ObjectKey}

theorem FileStore.rows_of_idle (hs : s.transaction = none) : s.rows = s.dataIndex := by
  unfold FileStore.rows
  rw [hs]
  rfl

/-- A new file is not the one of another row. -/
theorem Represents.target_fresh (R : Represents s index) (hnew : s.files (filePath key env.newName) = none)
    {k : ObjectKey} {name : String} (hk : k ≠ key) (h : s.fileOf k = some name) (ht : s.target env key = name) :
    dataDirectory k.typeName ≠ dataDirectory key.typeName := by
  intro hd
  have htarget : s.target env key = (s.fileOf key).getD env.newName := by
    rw [FileStore.target, FileStore.rows_of_idle R.idle]
    rfl
  cases hf : s.fileOf key with
  | some name' =>
    rw [htarget, hf, Option.getD_some] at ht
    subst ht
    exact hk (R.distinct k key name' h hf hd)
  | none =>
    rw [htarget, hf, Option.getD_none] at ht
    subst ht
    obtain ⟨data, -, hfile⟩ := R.file_of_row h
    rw [filePath, hd] at hfile
    rw [filePath] at hnew
    rw [hnew] at hfile
    cases hfile

theorem Represents.filePath_ne (R : Represents s index) (hnew : s.files (filePath key env.newName) = none)
    {k : ObjectKey} {name : String} (hk : k ≠ key) (h : s.fileOf k = some name) :
    filePath k name ≠ filePath key (s.target env key) := by
  intro he
  rw [filePath, filePath, Prod.mk.injEq] at he
  exact R.target_fresh hnew hk h he.2.symm he.1

/-- The data of a key is written to its file, or to a new one. -/
theorem Represents.written (R : Represents s index) (hnew : s.files (filePath key env.newName) = none)
    {version : ℕ} {data : Data} {changed : Bool} {emitted : List Signal} :
    Represents { s.put size key (s.target env key) data with
        dataIndex := s.written env jsonHash key version data changed
        emitted := emitted }
      (Function.update index key (some ⟨version, some (.write data), changed⟩)) := by
  have hs : s.transaction = none := R.idle
  obtain ⟨rows, tx, files, cache, em⟩ := s
  subst hs
  refine R.update ?_ (fun k name hk h => ?_) (fun k name hk h h' => ?_) fun c k d hc h => ?_
  · show some (_, _, _, some (Function.update files _ _ _)) = _
    rw [Function.update_self]
    rfl
  · exact Function.update_of_ne (R.filePath_ne hnew hk h) ..
  · exact R.target_fresh hnew hk h (Option.some.inj h')
  · obtain ⟨c', hc', rfl⟩ := Option.map_eq_some_iff.mp hc
    rcases Cache.holds_insert h with ⟨rfl, rfl⟩ | ⟨hold, hk⟩
    · exact Or.inl ⟨rfl, rfl⟩
    · exact Or.inr ⟨hk, R.cached c' k d hc' hold⟩

/-- The file of a key is removed, and its row is a deletion from then on. -/
theorem Represents.deleted (R : Represents s index) {version : ℕ} {changed : Bool} {name : String}
    {emitted : List Signal} (hf : s.fileOf key = some name) :
    Represents { s with
        dataIndex := Function.update s.dataIndex key (some ⟨version, none, none, changed⟩)
        files := Function.update s.files (filePath key name) none
        cache := s.cache.map (·.remove key)
        emitted := emitted }
      (Function.update index key (some ⟨version, none, changed⟩)) := by
  have hs : s.transaction = none := R.idle
  obtain ⟨rows, tx, files, cache, em⟩ := s
  subst hs
  refine R.update rfl (fun k name' hk h => ?_) (fun k name' hk h h' => (nomatch h')) fun c k d hc h => ?_
  · refine Function.update_of_ne (fun he => hk ?_) ..
    rw [filePath, filePath, Prod.mk.injEq] at he
    rw [he.2] at h
    exact R.distinct k key name h hf he.1
  · obtain ⟨c', hc', rfl⟩ := Option.map_eq_some_iff.mp hc
    obtain ⟨hold, hk⟩ := Cache.holds_remove.mp h
    exact Or.inr ⟨hk, R.cached c' k d hc' hold⟩

/-- The statement of `clear` and what becomes of the directory. -/
theorem Represents.cleared (R : Represents s index) {typeName : QByteArray}
    (hkeys : ∀ id, id ∈ env.clearKeys ↔ s.fileOf ⟨typeName, id⟩ ≠ none) (hk : Keeps s (.clear typeName))
    {emitted : List Signal} :
    Represents { s with
        dataIndex := s.cleared typeName
        files := s.removed env fun path => path.1 == dataDirectory typeName
        cache := s.cache.map fun c => env.clearKeys.foldl (fun c id => c.remove ⟨typeName, id⟩) c
        emitted := emitted }
      (DataIndex.clear index typeName) := by
  have hfile : ∀ k, ((s.cleared typeName k).bind (·.file)) = if k.typeName = typeName then none else s.fileOf k := by
    intro k
    unfold FileStore.cleared FileStore.fileOf
    rcases s.dataIndex k with _ | ⟨version, _ | name, checksum, changed⟩ <;>
      by_cases hT : k.typeName = typeName <;> simp [hT]
  refine ⟨R.idle, fun k => ?_, fun k k' name h h' hd => ?_, fun c k d hc h => ?_⟩
  · have hrow := R.row k
    by_cases hT : k.typeName = typeName
    · -- a row with a file becomes a deletion, and the others have none
      show (FileStore.cleared s typeName k).map _ = (DataIndex.clear index typeName k).map _
      unfold FileStore.cleared DataIndex.clear LocalStore.clear
      rw [if_pos hT]
      cases hr : s.dataIndex k with
      | none =>
        rw [hr, Option.map_none] at hrow
        rw [Option.map_eq_none_iff.mp hrow.symm]
        rfl
      | some fr =>
        rw [hr, Option.map_some] at hrow
        obtain ⟨r, hr', hv⟩ := Option.map_eq_some_iff.mp hrow.symm
        rw [hr']
        have hversion : r.version = fr.version := congrArg (·.1) hv
        have hchanged : r.changed = fr.changed := congrArg (·.2.1) hv
        have hsum : r.file.map (·.checksum) = fr.checksum := congrArg (·.2.2.1) hv
        have hnone : fr.file.map (fun name => s.files (filePath k name)) =
          r.file.map fun f => some (some f.data) := (congrArg (·.2.2.2) hv).symm
        obtain ⟨version, file, checksum, changed⟩ := fr
        obtain ⟨version', file', changed'⟩ := r
        cases file with
        | none =>
          cases file' with
          | some f => cases hnone
          | none => simp_all [FileRow.view, Row.view]
        | some name =>
          cases file' with
          | none => cases hnone
          | some f => simp_all [FileRow.view, Row.view]
    · show (FileStore.cleared s typeName k).map _ = (DataIndex.clear index typeName k).map _
      unfold DataIndex.clear
      rw [if_neg hT, ← hrow]
      unfold FileStore.cleared
      cases hr : s.dataIndex k with
      | none => rfl
      | some fr =>
        have hview : fr.file.map (fun name => s.removed env (fun path => path.1 == dataDirectory typeName)
            (filePath k name)) = fr.file.map fun name => s.files (filePath k name) := by
          cases hn : fr.file with
          | none => rfl
          | some name =>
            have hdir : dataDirectory k.typeName ≠ dataDirectory typeName := by
              intro hd
              have hf := hk k hT hd
              rw [FileStore.fileOf, hr] at hf
              rw [show fr.file = none from hf] at hn
              cases hn
            simp [FileStore.removed, filePath, hdir]
        simp [hT, FileRow.view, hview]
  · have h1 : (s.cleared typeName k).bind (·.file) = some name := h
    have h2 : (s.cleared typeName k').bind (·.file) = some name := h'
    rw [hfile] at h1 h2
    split_ifs at h1
    split_ifs at h2
    exact R.distinct k k' name h1 h2 hd
  · obtain ⟨c', hc', rfl⟩ := Option.map_eq_some_iff.mp hc
    have hdrop : ∀ (ids : List String) (c : Cache ObjectKey Data),
        (ids.foldl (fun c id => c.remove ⟨typeName, id⟩) c).Holds k d →
          c.Holds k d ∧ ∀ id ∈ ids, k ≠ ⟨typeName, id⟩ := by
      intro ids
      induction ids with
      | nil => exact fun c h => ⟨h, fun id hid => nomatch hid⟩
      | cons id ids ih =>
        intro c h
        obtain ⟨h1, h2⟩ := ih _ h
        obtain ⟨h3, h4⟩ := Cache.holds_remove.mp h1
        exact ⟨h3, List.forall_mem_cons.mpr ⟨h4, h2⟩⟩
    obtain ⟨hold, hids⟩ := hdrop _ _ h
    have hcached := R.cached c' k d hc' hold
    have hT : k.typeName ≠ typeName := by
      rintro rfl
      have hnone : s.fileOf k = none := by
        by_contra hne
        exact hids k.id ((hkeys k.id).mpr hne) rfl
      rw [R.content_of_none hnone] at hcached
      cases hcached
    unfold DataIndex.clear
    rw [if_neg hT]
    exact hcached

theorem Represents.reset (R : Represents s index) (keepData : Bool) :
    Represents (s.resetTo env keepData) (DataIndex.reset keepData index) := by
  cases keepData with
  | true =>
    refine ⟨R.idle, fun k => ?_, fun k k' name h h' => R.distinct k k' name ?_ ?_, fun c k d hc h => ?_⟩
    · have hrow := R.row k
      show ((s.dataIndex k).map _).map _ = ((index k).map _).map _
      cases hr : s.dataIndex k with
      | none =>
        rw [hr, Option.map_none] at hrow
        rw [Option.map_eq_none_iff.mp hrow.symm]
        rfl
      | some fr =>
        rw [hr, Option.map_some] at hrow
        obtain ⟨r, hr', hv⟩ := Option.map_eq_some_iff.mp hrow.symm
        rw [hr']
        exact congrArg some (Prod.ext (congrArg (·.1) hv).symm
          (Prod.ext rfl (congrArg (·.2.2) hv).symm))
    · rw [← h]
      show _ = ((s.dataIndex k).map _).bind _
      rw [FileStore.fileOf]
      cases s.dataIndex k <;> rfl
    · rw [← h']
      show _ = ((s.dataIndex k').map _).bind _
      rw [FileStore.fileOf]
      cases s.dataIndex k' <;> rfl
    · have hcached := R.cached c k d hc h
      show ((index k).map _).bind _ = some d
      cases hr : index k with
      | none =>
        rw [hr] at hcached
        cases hcached
      | some r =>
        rw [hr] at hcached
        exact hcached
  | false =>
    refine ⟨R.idle, fun k => rfl, fun k k' name h _ _ => (nomatch h), fun c k d hc h => ?_⟩
    obtain ⟨c', -, rfl⟩ := Option.map_eq_some_iff.mp hc
    exact absurd h Cache.not_holds_clear

end Steps

end QtDataSync
