import QtDataSync.Lib.Runs
import QtDataSync.Store.Files

/-!
# Store.Outcomes — what the operations of the store can do

One rule for every step and every operation of `Store.Files`: from the state before, the states in which it can return
or throw.  A failing operation throws before it has changed a file, or at its commit.
-/

namespace QtDataSync

variable {Data Checksum α : Type} {env : Env} {key : ObjectKey} {s : FileStore Data Checksum}
  {E : StoreException → FileStore Data Checksum → Prop}

section Steps

variable {Q : Unit → FileStore Data Checksum → Prop}

theorem runs_check {step : FailurePoint} (hQ : Q () s) (hE : env.fails step = true → E (.localStore key step) s) :
    Runs (check env key step) s Q E :=
  runs_ite (fun h => runs_throw (hE h)) fun _ => runs_pure hQ

theorem runs_beginTransaction (hQ : Q () { s with transaction := some s.dataIndex })
    (hE : env.fails .transaction = true → E (.localStore key .transaction) s) :
    Runs (beginTransaction env key) s Q E := by
  apply runs_bind
  apply runs_check _ hE
  exact runs_modify hQ

theorem runs_select {step : FailurePoint} {Q : Option (FileRow Checksum) → FileStore Data Checksum → Prop}
    (hQ : Q (s.rows key) s) (hE : env.fails step = true → E (.localStore key step) s) :
    Runs (select env key step) s Q E := by
  apply runs_bind
  apply runs_check _ hE
  exact runs_bind (runs_get (runs_pure hQ))

theorem runs_execute {f : FileTable Checksum → FileTable Checksum}
    (hQ : Q () { s with transaction := some (f s.rows) })
    (hE : env.fails .statement = true → E (.localStore key .statement) s) : Runs (execute env key f) s Q E := by
  apply runs_bind
  apply runs_check _ hE
  exact runs_modify hQ

theorem runs_insertRow {row : FileRow Checksum} (h : s.rows key = none)
    (hQ : Q () { s with transaction := some (Function.update s.rows key (some row)) })
    (hE : E (.localStore key .statement) s) : Runs (insertRow env key row) s Q E := by
  apply runs_bind
  apply runs_get
  apply runs_ite
  · intro hs
    rw [h] at hs
    cases hs
  · exact fun _ => runs_execute hQ fun _ => hE

theorem runs_updateRow {row : FileRow Checksum} (h : s.rows key ≠ none)
    (hQ : Q () { s with transaction := some (Function.update s.rows key (some row)) })
    (hE : env.fails .statement = true → E (.localStore key .statement) s) : Runs (updateRow env key row) s Q E := by
  apply runs_execute _ hE
  obtain ⟨r, hr⟩ := Option.ne_none_iff_exists'.mp h
  rw [hr]
  exact hQ

theorem runs_commit (hQ : Q () { s with dataIndex := s.rows, transaction := none })
    (hE : env.fails .commit = true → E (.localStore key .commit) s) : Runs (commit env key) s Q E := by
  apply runs_bind
  apply runs_check _ hE
  exact runs_modify hQ

theorem runs_typeDirectory {Q : QByteArray → FileStore Data Checksum → Prop}
    (hQ : Q (dataDirectory key.typeName) s) (hE : env.fails .directory = true → E (.localStore key .directory) s) :
    Runs (typeDirectory env key) s Q E := by
  apply runs_bind
  exact runs_check (runs_pure hQ) hE

/-- A `QSaveFile` changes nothing unless it is committed. -/
theorem runs_saveFile {path : FilePath} {data : Data} {body : StoreM Data Checksum Unit}
    (hE : ∀ step, step ≠ .commit → E (.localStore key step) s)
    (hbody : Runs body s (fun _ t => Q () { t with files := Function.update t.files path (some (some data)) } ∧
      E (.localStore key .commitFile) t) E) :
    Runs (saveFile env key path data body) s Q E := by
  apply runs_bind
  apply runs_check _ fun _ => hE _ (by decide)
  apply runs_bind
  apply runs_check _ fun _ => hE _ (by decide)
  apply runs_bind
  apply hbody.mono _ fun _ _ h => h
  rintro - t ⟨hQ, hE⟩
  apply runs_bind
  exact runs_check (runs_modify hQ) fun _ => hE

/-- A `QTemporaryFile` is gone unless it is committed. -/
theorem runs_temporaryFile {path : FilePath} {data : Data} {body : StoreM Data Checksum Unit}
    (hpath : s.files path = none) (hE : ∀ step, step ≠ .commit → E (.localStore key step) s)
    (hbody : Runs body { s with files := Function.update s.files path (some (some data)) }
      (fun _ t => Q () t ∧ E (.localStore key .commitFile) { t with files := Function.update t.files path none })
      fun e t => E e { t with files := Function.update t.files path none }) :
    Runs (temporaryFile env key path data body) s Q E := by
  have hgone : ∀ content, { s with
      files := Function.update (Function.update s.files path content) path none } = s := by
    intro content
    rw [Function.update_idem, ← hpath, Function.update_eq_self]
  apply runs_bind
  apply runs_check _ fun _ => hE _ (by decide)
  apply runs_bind
  apply runs_modify
  apply runs_tryCatch
  apply runs_bind
  apply runs_check
  · apply runs_bind
    apply runs_modify
    apply runs_bind
    dsimp only
    rw [Function.update_idem]
    apply hbody.mono
    · rintro - t ⟨hQ, hE⟩
      exact runs_check hQ fun _ => runs_bind (runs_modify (runs_throw hE))
    · exact fun e t h => runs_bind (runs_modify (runs_throw h))
  · intro _
    apply runs_bind
    apply runs_modify
    apply runs_throw
    dsimp only
    rw [hgone]
    exact hE _ (by decide)

end Steps

/-! ### `storeChangedImpl` -/

section Store

variable {jsonHash : Data → Checksum} {size : Data → ℕ}

/-- The file that the data of a key is written to: the one of its row, or a new one. -/
def FileStore.target (s : FileStore Data Checksum) (env : Env) (key : ObjectKey) : String :=
  ((s.rows key).bind (·.file)).getD env.newName

/-- The data of a key is in the file, and in the cache. -/
def FileStore.put (s : FileStore Data Checksum) (size : Data → ℕ) (key : ObjectKey) (name : String) (data : Data) :
    FileStore Data Checksum :=
  { s with
    files := Function.update s.files (filePath key name) (some (some data))
    cache := s.cache.map (·.insert key data (size data)) }

theorem runs_storeRow {existing : Bool} {row : FileRow Checksum} {Q : Unit → FileStore Data Checksum → Prop}
    (hex : existing = (s.rows key).isSome)
    (hQ : Q () { s with transaction := some (Function.update s.rows key (some row)) })
    (hE : E (.localStore key .statement) s) :
    Runs (if existing then updateRow env key row else insertRow env key row) s Q E := by
  apply runs_ite
  · intro h
    apply runs_updateRow _ hQ fun _ => hE
    rw [hex] at h
    exact Option.isSome_iff_ne_none.mp h
  · intro h
    apply runs_insertRow _ hQ hE
    rw [hex] at h
    exact Option.not_isSome_iff_eq_none.mp h

/-- The data is stored in the file of the row or in a new one; a failure before that leaves all files as they were. -/
theorem runs_storeChangedImpl {version : ℕ} {fileName : Option String} {data : Data} {changed existing : Bool}
    {Q : StoreM Data Checksum Unit → FileStore Data Checksum → Prop}
    (hname : fileName = (s.rows key).bind (·.file)) (hex : existing = (s.rows key).isSome)
    (hnew : s.files (filePath key env.newName) = none)
    (hQ : Q (emit (.triggerChange key false changed)) ({ s with
      transaction := some (Function.update s.rows key
        (some ⟨version, some (s.target env key), some (jsonHash data), changed⟩)) }.put size key (s.target env key) data))
    (hE : ∀ step tx, step ≠ .commit → E (.localStore key step) { s with transaction := tx }) :
    Runs (storeChangedImpl env jsonHash size key version fileName data changed existing) s Q E := by
  apply runs_bind
  apply runs_typeDirectory _ fun _ => hE _ _ (by decide)
  cases hf : (s.rows key).bind (·.file) with
  | some name =>
    have hex' : existing = true := by
      rw [hex]
      cases hr : s.rows key with
      | none =>
        rw [hr] at hf
        cases hf
      | some r => rfl
    have htarget : s.target env key = name := by rw [FileStore.target, hf, Option.getD_some]
    rw [htarget] at hQ
    rw [hname, hf, hex']
    apply runs_bind
    apply runs_saveFile fun step hs => hE step _ hs
    apply runs_storeRow (hex'.symm.trans hex)
    · exact ⟨runs_bind (runs_modify (runs_pure hQ)), hE _ _ (by decide)⟩
    · exact hE _ _ (by decide)
  | none =>
    have htarget : s.target env key = env.newName := by rw [FileStore.target, hf, Option.getD_none]
    have hgone : ∀ tx, { s with
        transaction := tx
        files := Function.update (Function.update s.files (filePath key env.newName) (some (some data)))
          (filePath key env.newName) none } = { s with transaction := tx } := by
      intro tx
      rw [Function.update_idem, ← hnew, Function.update_eq_self]
    rw [htarget] at hQ
    rw [hname, hf]
    have htemp : Runs (temporaryFile env key (dataDirectory key.typeName, env.newName) data
        (if existing then updateRow env key ⟨version, some env.newName, some (jsonHash data), changed⟩
          else insertRow env key ⟨version, some env.newName, some (jsonHash data), changed⟩)) s
        (fun _ t => Runs (putCached size key data >>= fun _ => pure (emit (.triggerChange key false changed))) t Q E)
        E := by
      apply runs_temporaryFile hnew fun step hs => hE step _ hs
      refine runs_storeRow ?_ ⟨runs_bind (runs_modify (runs_pure ?_)), ?_⟩ ?_
      · exact hex
      · exact hQ
      · show E _ { s with transaction := _, files := _ }
        rw [hgone]
        exact hE _ _ (by decide)
      · show E _ { s with transaction := _, files := _ }
        rw [hgone]
        exact hE _ _ (by decide)
    cases existing <;> exact runs_bind htemp

/-! ### The operations -/

/-- The rows with the one that `save` and `storeChanged` write. -/
def FileStore.written (s : FileStore Data Checksum) (env : Env) (jsonHash : Data → Checksum) (key : ObjectKey)
    (version : ℕ) (data : Data) (changed : Bool) : FileTable Checksum :=
  Function.update s.dataIndex key (some ⟨version, some (s.target env key), some (jsonHash data), changed⟩)

/-- A failure of `remove`, `clear` and the scopes rolls back and leaves the cache alone. -/
theorem runs_orRollback {m : StoreM Data Checksum α} {Q : α → FileStore Data Checksum → Prop}
    (h : Runs m s Q fun e t => E e { t with transaction := none }) :
    Runs (tryCatch m fun e => rollback >>= fun _ => throw e) s Q E := by
  apply runs_tryCatch
  apply h.mono fun _ _ hQ => hQ
  intro e t hE
  exact runs_bind (runs_modify (runs_throw hE))

/-- A failure of `save` drops the cached object, too. -/
theorem runs_orDropCached {m : StoreM Data Checksum α} {Q : α → FileStore Data Checksum → Prop}
    (h : Runs m s Q fun e t => E e { t with transaction := none, cache := t.cache.map (·.remove key) }) :
    Runs (tryCatch m fun e => dropCached key >>= fun _ => rollback >>= fun _ => throw e) s Q E := by
  apply runs_tryCatch
  apply h.mono fun _ _ hQ => hQ
  intro e t hE
  exact runs_bind (runs_modify (runs_bind (runs_modify (runs_throw hE))))

/-- The version that `save` writes. -/
theorem nextVersion_eq (row : Option (FileRow Checksum)) : (match row with
    | some r => r.version + 1
    | none => 1) = row.elim 1 (·.version + 1) := by
  cases row <;> rfl

theorem runs_save {data : Data} {Q : Unit → FileStore Data Checksum → Prop} (hs : s.transaction = none)
    (hnew : s.files (filePath key env.newName) = none)
    (hQ : Q () { s.put size key (s.target env key) data with
      dataIndex := s.written env jsonHash key ((s.dataIndex key).elim 1 (·.version + 1)) data true
      emitted := s.emitted ++ [.triggerChange key false true] })
    (hE : ∀ step c, step ≠ .commit → c = s.cache ∨ c = s.cache.map (·.remove key) →
      E (.localStore key step) { s with cache := c })
    (hC : E (.localStore key .commit) { s.put size key (s.target env key) data with
      cache := (s.cache.map (·.insert key data (size data))).map (·.remove key) }) :
    Runs (save env jsonHash size key data) s Q E := by
  obtain ⟨index, tx, files, cache, emitted⟩ := s
  subst hs
  apply runs_bind
  apply runs_beginTransaction _ fun _ => hE _ _ (by decide) (Or.inl rfl)
  apply runs_orDropCached
  apply runs_bind
  refine runs_select ?_ fun _ => hE _ _ (by decide) (Or.inr rfl)
  show Runs (storeChangedImpl env jsonHash size key (match index key with
    | some r => r.version + 1
    | none => 1) _ data true _ >>= _) _ _ _
  rw [nextVersion_eq]
  apply runs_bind
  refine runs_storeChangedImpl rfl rfl hnew ?_ fun step tx h => hE step _ h (Or.inr rfl)
  apply runs_bind
  refine runs_commit ?_ fun _ => hC
  exact runs_modify hQ

theorem runs_removeFile {path : FilePath} {Q : Unit → FileStore Data Checksum → Prop} (hpath : s.files path ≠ none)
    (hQ : Q () { s with files := Function.update s.files path none })
    (hE : env.fails .removeFile = true → E (.localStore key .removeFile) s) :
    Runs (removeFile env key path) s Q E := by
  apply runs_bind
  apply runs_get
  apply runs_ite
  · intro h
    exact absurd (Option.isNone_iff_eq_none.mp h) hpath
  · intro _
    apply runs_bind
    apply runs_check _ hE
    exact runs_modify hQ

/-- Without a file nothing is removed. -/
theorem runs_remove_of_none {Q : Bool → FileStore Data Checksum → Prop} (hs : s.transaction = none)
    (hf : (s.dataIndex key).bind (·.file) = none) (hQ : Q false s)
    (hE : ∀ step, env.fails step = true → E (.localStore key step) s) : Runs (remove env key) s Q E := by
  obtain ⟨index, tx, files, cache, emitted⟩ := s
  subst hs
  apply runs_bind
  apply runs_beginTransaction _ (hE _)
  apply runs_orRollback
  apply runs_bind
  refine runs_select ?_ (hE _)
  have hcommit : Runs (commit env key >>= fun _ => pure false)
      ⟨index, some index, files, cache, emitted⟩ Q fun e t => E e { t with transaction := none } := by
    apply runs_bind
    exact runs_commit (runs_pure hQ) (hE _)
  dsimp only
  generalize hr : FileStore.rows _ key = row
  have hr' : index key = row := hr
  have hf' : (index key).bind (·.file) = none := hf
  rw [hr'] at hf'
  rcases row with _ | ⟨version, file, checksum, changed⟩
  · exact hcommit
  · have hfile : file = none := hf'
    subst hfile
    exact hcommit

theorem runs_remove_of_some {row : FileRow Checksum} {name : String} {Q : Bool → FileStore Data Checksum → Prop}
    (hs : s.transaction = none) (hr : s.dataIndex key = some row) (hf : row.file = some name)
    (hpath : s.files (filePath key name) ≠ none)
    (hQ : Q true { s with
      dataIndex := Function.update s.dataIndex key (some ⟨row.version + 1, none, none, true⟩)
      files := Function.update s.files (filePath key name) none
      cache := s.cache.map (·.remove key)
      emitted := s.emitted ++ [.triggerChange key true true] })
    (hE : ∀ step, step ≠ .commit → env.fails step = true → E (.localStore key step) s)
    (hC : env.fails .commit = true →
      E (.localStore key .commit) { s with files := Function.update s.files (filePath key name) none }) :
    Runs (remove env key) s Q E := by
  obtain ⟨index, tx, files, cache, emitted⟩ := s
  obtain ⟨version, file, checksum, changed⟩ := row
  subst hs
  have hf' : file = some name := hf
  subst hf'
  apply runs_bind
  apply runs_beginTransaction _ (hE _ (by decide))
  apply runs_orRollback
  apply runs_bind
  refine runs_select ?_ (hE _ (by decide))
  dsimp only
  have hr' : index key = some ⟨version, some name, checksum, changed⟩ := hr
  generalize hrow : FileStore.rows _ key = row
  obtain rfl : row = some ⟨version, some name, checksum, changed⟩ := hrow.symm.trans hr'
  apply runs_bind
  refine runs_updateRow (fun h => by cases hr'.symm.trans h) ?_ (hE _ (by decide))
  apply runs_bind
  refine runs_typeDirectory ?_ (hE _ (by decide))
  apply runs_bind
  refine runs_removeFile hpath ?_ (hE _ (by decide))
  apply runs_bind
  refine runs_commit ?_ hC
  apply runs_bind
  apply runs_modify
  apply runs_bind
  apply runs_modify
  exact runs_pure hQ

/-- The rows after `clear`. -/
def FileStore.cleared (s : FileStore Data Checksum) (typeName : QByteArray) : FileTable Checksum := fun key =>
  (s.dataIndex key).map fun r =>
    if key.typeName = typeName && r.file.isSome then ⟨r.version + 1, none, none, true⟩ else r

/-- The files after `removeRecursively`. -/
def FileStore.removed (s : FileStore Data Checksum) (env : Env) (inside : FilePath → Bool) :
    FilePath → Option (Option Data) := fun path =>
  if inside path && !(env.fails .removeFile && env.remains path) then none else s.files path

theorem runs_clear {typeName : QByteArray} {Q : Unit → FileStore Data Checksum → Prop} (hs : s.transaction = none)
    (hQ : Q () { s with
      dataIndex := s.cleared typeName
      files := s.removed env fun path => path.1 == dataDirectory typeName
      cache := s.cache.map fun c => env.clearKeys.foldl (fun c id => c.remove ⟨typeName, id⟩) c
      emitted := s.emitted ++ [.triggerClear typeName env.clearKeys] })
    (hE : ∀ step, step ≠ .commit → E (.localStore (typeKey typeName) step) s)
    (hC : E (.localStore (typeKey typeName) .commit)
      { s with files := s.removed env fun path => path.1 == dataDirectory typeName }) :
    Runs (clear env typeName) s Q E := by
  obtain ⟨index, tx, files, cache, emitted⟩ := s
  subst hs
  apply runs_bind
  apply runs_beginTransaction _ fun _ => hE _ (by decide)
  apply runs_orRollback
  apply runs_bind
  refine runs_check ?_ fun _ => hE _ (by decide)
  apply runs_bind
  refine runs_execute ?_ fun _ => hE _ (by decide)
  apply runs_bind
  refine runs_typeDirectory ?_ fun _ => hE _ (by decide)
  apply runs_bind
  apply runs_modify
  apply runs_bind
  refine runs_commit ?_ fun _ => hC
  apply runs_bind
  apply runs_modify
  exact runs_modify hQ

/-- The store after `reset`: every row is marked changed, or there is none, and no file unless the directory cannot be
removed. -/
def FileStore.resetTo (s : FileStore Data Checksum) (env : Env) (keepData : Bool) : FileStore Data Checksum :=
  if keepData then { s with dataIndex := fun key => (s.dataIndex key).map fun r => { r with changed := true } }
  else { s with
    dataIndex := fun _ => none
    files := s.removed env fun _ => true
    cache := s.cache.map (·.clear)
    emitted := s.emitted ++ [.triggerReset] }

theorem runs_reset {keepData : Bool} {Q : Unit → FileStore Data Checksum → Prop} (hs : s.transaction = none)
    (hQ : Q () (s.resetTo env keepData)) (hE : ∀ key step, step ≠ .commit → E (.localStore key step) s)
    (hC : ∀ key, E (.localStore key .commit)
      { s with files := if keepData then s.files else s.removed env fun _ => true }) :
    Runs (reset env keepData) s Q E := by
  obtain ⟨index, tx, files, cache, emitted⟩ := s
  subst hs
  apply runs_bind
  apply runs_beginTransaction _ fun _ => hE _ _ (by decide)
  apply runs_orRollback
  cases keepData with
  | true =>
    apply runs_bind
    refine runs_execute ?_ fun _ => hE _ _ (by decide)
    apply runs_bind
    refine runs_commit ?_ fun _ => hC _
    exact runs_pure hQ
  | false =>
    apply runs_bind
    refine runs_execute ?_ fun _ => hE _ _ (by decide)
    apply runs_bind
    refine runs_check ?_ fun _ => hE _ _ (by decide)
    apply runs_bind
    apply runs_modify
    apply runs_bind
    refine runs_commit ?_ fun _ => hC _
    apply runs_bind
    apply runs_modify
    exact runs_modify hQ

theorem runs_readJson {name : String} {Q : Data → FileStore Data Checksum → Prop}
    (hQ : ∀ data, s.files (filePath key name) = some (some data) → Q data s)
    (hE : ∀ step, env.fails step = true ∨ (∀ data, s.files (filePath key name) ≠ some (some data)) →
      E (.localStore key step) s) :
    Runs (readJson env key name) s Q E := by
  apply runs_bind
  refine runs_typeDirectory ?_ fun h => hE _ (Or.inl h)
  apply runs_bind
  refine runs_check ?_ fun h => hE _ (Or.inl h)
  apply runs_bind
  apply runs_get
  cases hf : s.files (filePath key name) with
  | none =>
    have hE' : E (.localStore key .openFile) s := hE _ (Or.inr fun data h => by cases hf.symm.trans h)
    have hf' : s.files (dataDirectory key.typeName, name) = none := hf
    rw [hf']
    exact runs_throw hE'
  | some content =>
    have hf' : s.files (dataDirectory key.typeName, name) = some content := hf
    rw [hf']
    cases content with
    | none => exact runs_throw (hE _ (Or.inr fun data h => by cases hf.symm.trans h))
    | some data => exact runs_pure (hQ data hf)

/-- What `load` does without a cached object: it reads the file of the row, if there is one. -/
theorem runs_loadFile {Q : Data → FileStore Data Checksum → Prop} (hs : s.transaction = none)
    (hfile : ∀ name json, (s.dataIndex key).bind (·.file) = some name →
      s.files (filePath key name) = some (some json) →
      Q json { s with cache := s.cache.map (·.insert key json (size json)) })
    (hmissing : (s.dataIndex key).bind (·.file) = none → E (.noData key) s)
    (hE : ∀ step name, env.fails step = true ∨ (s.dataIndex key).bind (·.file) = some name ∧
      (∀ data, s.files (filePath key name) ≠ some (some data)) → E (.localStore key step) s)
    (hC : ∀ name json, env.fails .commit = true → (s.dataIndex key).bind (·.file) = some name →
      s.files (filePath key name) = some (some json) →
      E (.localStore key .commit) { s with cache := s.cache.map (·.insert key json (size json)) }) :
    Runs (beginTransaction env key >>= fun _ => tryCatch
      (select env key .query >>= fun r => match r.bind (·.file) with
        | some fileName => readJson env key fileName >>= fun json => putCached size key json >>= fun _ =>
          commit env key >>= fun _ => pure json
        | none => throw (.noData key))
      fun e => rollback >>= fun _ => throw e) s Q E := by
  obtain ⟨index, tx, files, cache, emitted⟩ := s
  subst hs
  apply runs_bind
  apply runs_beginTransaction _ fun h => hE _ "" (Or.inl h)
  apply runs_orRollback
  apply runs_bind
  refine runs_select ?_ fun h => hE _ "" (Or.inl h)
  dsimp only
  generalize hrow : (FileStore.rows _ key).bind (·.file) = file
  have hf : (index key).bind (·.file) = file := hrow
  cases file with
  | none => exact runs_throw (hmissing hf)
  | some name =>
    apply runs_bind
    refine runs_readJson ?_ fun step h => hE step name (h.imp id fun h => ⟨hf, h⟩)
    intro json hjson
    apply runs_bind
    apply runs_modify
    apply runs_bind
    refine runs_commit ?_ fun h => hC name json h hf hjson
    exact runs_pure (hfile name json hf hjson)

/-- `load` answers from the cache, or from the file of the row; only the cache changes. -/
theorem runs_load {Q : Data → FileStore Data Checksum → Prop} (hs : s.transaction = none)
    (hcached : ∀ c json, s.cache = some c → (c.object key).1 = some json →
      Q json { s with cache := some (c.object key).2 })
    (hfile : ∀ name json, (s.dataIndex key).bind (·.file) = some name →
      s.files (filePath key name) = some (some json) →
      Q json { s with cache := s.cache.map (·.insert key json (size json)) })
    (hmissing : (∀ c, s.cache = some c → (c.object key).1 = none) → (s.dataIndex key).bind (·.file) = none →
      E (.noData key) s)
    (hE : ∀ step name, env.fails step = true ∨ (s.dataIndex key).bind (·.file) = some name ∧
      (∀ data, s.files (filePath key name) ≠ some (some data)) → E (.localStore key step) s)
    (hC : ∀ name json, env.fails .commit = true → (s.dataIndex key).bind (·.file) = some name →
      s.files (filePath key name) = some (some json) →
      E (.localStore key .commit) { s with cache := s.cache.map (·.insert key json (size json)) }) :
    Runs (load env size key) s Q E := by
  obtain ⟨index, tx, files, cache, emitted⟩ := s
  subst hs
  apply runs_bind
  apply runs_bind
  apply runs_get
  cases hc : cache with
  | none =>
    subst hc
    exact runs_pure (runs_loadFile rfl hfile (hmissing fun c h => by cases h) hE hC)
  | some c =>
    subst hc
    apply runs_bind
    apply runs_modify
    apply runs_pure
    cases ho : (c.object key).1 with
    | some json => exact runs_pure (hcached c json rfl ho)
    | none =>
      show Runs _ ⟨index, none, files, some (c.object key).2, emitted⟩ Q E
      rw [Cache.object_of_none ho]
      refine runs_loadFile rfl hfile (hmissing fun c' h => ?_) hE hC
      rw [Option.some.injEq] at h
      rw [← h]
      exact ho

/-! ### The operations of a scope -/

/-- A scope rolls back unless its commit succeeds. -/
theorem runs_syncScope {body : FileInfo Checksum → StoreM Data Checksum (StoreM Data Checksum Unit)}
    {Q : Unit → FileStore Data Checksum → Prop} (hs : s.transaction = none)
    (hE : ∀ step, step ≠ .commit → E (.localStore key step) s)
    (hbody : Runs (body (.ofRow (s.dataIndex key))) { s with transaction := some s.dataIndex }
      (fun afterCommit t => Runs afterCommit { t with dataIndex := t.rows, transaction := none } Q
        (fun e t => E e { t with transaction := none }) ∧
          E (.localStore key .commit) { t with transaction := none })
      fun e t => E e { t with transaction := none }) :
    Runs (syncScope env key body) s Q E := by
  obtain ⟨index, tx, files, cache, emitted⟩ := s
  subst hs
  apply runs_bind
  apply runs_beginTransaction _ fun _ => hE _ (by decide)
  apply runs_orRollback
  apply runs_bind
  apply runs_bind
  refine runs_select ?_ fun _ => hE _ (by decide)
  apply runs_pure
  apply runs_bind
  apply hbody.mono _ fun _ _ h => h
  rintro afterCommit t ⟨hQ, hC⟩
  apply runs_bind
  exact runs_commit hQ fun _ => hC

theorem FileInfo.state_ofRow (r : Option (FileRow Checksum)) :
    ((FileInfo.ofRow r).state != .NoExists) = r.isSome := by
  rcases r with _ | ⟨version, _ | name, checksum, changed⟩ <;> rfl

theorem FileInfo.fileName_ofRow (r : Option (FileRow Checksum)) : (FileInfo.ofRow r).fileName = r.bind (·.file) := by
  rcases r with _ | ⟨version, _ | name, checksum, changed⟩ <;> rfl

theorem FileInfo.state_eq_exists {r : Option (FileRow Checksum)} :
    (FileInfo.ofRow r).state = .Exists ↔ r.bind (·.file) ≠ none := by
  rcases r with _ | ⟨version, _ | name, checksum, changed⟩ <;> simp [FileInfo.ofRow]

theorem FileInfo.state_eq_noExists {r : Option (FileRow Checksum)} :
    (FileInfo.ofRow r).state = .NoExists ↔ r = none := by
  rcases r with _ | ⟨version, _ | name, checksum, changed⟩ <;> simp [FileInfo.ofRow]

/-- `storeChanged` and `commitSync`: what was put into the cache stays there when the commit fails. -/
theorem runs_storeChanged {version : ℕ} {data : Data} {changed : Bool} {Q : Unit → FileStore Data Checksum → Prop}
    (hs : s.transaction = none) (hnew : s.files (filePath key env.newName) = none)
    (hQ : Q () { s.put size key (s.target env key) data with
      dataIndex := s.written env jsonHash key version data changed
      emitted := s.emitted ++ [.triggerChange key false changed] })
    (hE : ∀ step, step ≠ .commit → E (.localStore key step) s)
    (hC : E (.localStore key .commit) (s.put size key (s.target env key) data)) :
    Runs (syncScope env key fun info =>
      storeChanged env jsonHash size key version info.fileName data changed info.state) s Q E := by
  obtain ⟨index, tx, files, cache, emitted⟩ := s
  subst hs
  apply runs_syncScope rfl hE
  refine runs_storeChangedImpl (FileInfo.fileName_ofRow _) (FileInfo.state_ofRow _) hnew ?_ fun step tx h => hE step h
  exact ⟨runs_modify hQ, hC⟩

/-- The rows after `storeDeleted`. -/
def FileStore.deleted (s : FileStore Data Checksum) (key : ObjectKey) (version : ℕ) (changed : Bool) :
    FileTable Checksum := Function.update s.dataIndex key (some ⟨version, none, none, changed⟩)

/-- The statement of `storeDeleted`, whether there is a row or not. -/
theorem runs_deleteRow {version : ℕ} {changed : Bool} {Q : Unit → FileStore Data Checksum → Prop}
    {r : Option (FileRow Checksum)} (hr : s.rows key = r)
    (hQ : Q () { s with transaction := some (Function.update s.rows key (some ⟨version, none, none, changed⟩)) })
    (hE : E (.localStore key .statement) s) :
    Runs (deleteRow env key version changed (FileInfo.ofRow r).state) s Q E := by
  apply runs_ite
  · intro h
    exact runs_insertRow (hr.trans (FileInfo.state_eq_noExists.mp h)) hQ hE
  · intro h
    exact runs_updateRow (fun hn => h (FileInfo.state_eq_noExists.mpr (hr.symm.trans hn))) hQ fun _ => hE

/-- `storeDeleted` of a key without a file. -/
theorem runs_storeDeleted_of_none {version : ℕ} {changed : Bool} {Q : Unit → FileStore Data Checksum → Prop}
    (hs : s.transaction = none) (hf : (s.dataIndex key).bind (·.file) = none)
    (hQ : Q () { s with
      dataIndex := s.deleted key version changed
      emitted := s.emitted ++ if changed then [.triggerUpload] else [] })
    (hE : ∀ step, E (.localStore key step) s) :
    Runs (syncScope env key fun info => storeDeleted env key version changed info.state) s Q E := by
  obtain ⟨index, tx, files, cache, emitted⟩ := s
  subst hs
  have hstate : (FileInfo.ofRow (index key)).state ≠ .Exists := fun h => FileInfo.state_eq_exists.mp h hf
  apply runs_syncScope rfl fun step _ => hE step
  apply runs_bind
  apply runs_ite
  · exact fun h => absurd h hstate
  intro _
  apply runs_pure
  apply runs_bind
  refine runs_deleteRow rfl ?_ (hE _)
  apply runs_bind
  apply runs_pure
  apply runs_pure
  rw [if_neg hstate]
  refine ⟨?_, hE _⟩
  apply runs_ite
  · intro h
    apply runs_modify
    rw [if_pos h] at hQ
    exact hQ
  · intro h
    apply runs_pure
    rw [if_neg h, List.append_nil] at hQ
    exact hQ

/-- `storeDeleted` of a key with a file, which is removed before the commit. -/
theorem runs_storeDeleted_of_some {version : ℕ} {changed : Bool} {name : String}
    {Q : Unit → FileStore Data Checksum → Prop} (hs : s.transaction = none)
    (hf : (s.dataIndex key).bind (·.file) = some name) (hpath : s.files (filePath key name) ≠ none)
    (hQ : Q () { s with
      dataIndex := s.deleted key version changed
      files := Function.update s.files (filePath key name) none
      cache := s.cache.map (·.remove key)
      emitted := s.emitted ++ [.triggerChange key true changed] })
    (hE : ∀ step, step ≠ .commit → E (.localStore key step) s)
    (hC : E (.localStore key .commit) { s with files := Function.update s.files (filePath key name) none }) :
    Runs (syncScope env key fun info => storeDeleted env key version changed info.state) s Q E := by
  obtain ⟨index, tx, files, cache, emitted⟩ := s
  subst hs
  have hf' : (index key).bind (·.file) = some name := hf
  have hstate : (FileInfo.ofRow (index key)).state = .Exists := by
    apply FileInfo.state_eq_exists.mpr
    rw [hf']
    exact Option.some_ne_none name
  apply runs_syncScope rfl hE
  apply runs_bind
  apply runs_ite
  swap
  · exact fun h => absurd hstate h
  intro _
  apply runs_bind
  refine runs_select ?_ fun _ => hE _ (by decide)
  dsimp only
  generalize hrow : (FileStore.rows _ key).bind (·.file) = file
  obtain rfl : file = some name := hrow.symm.trans hf'
  apply runs_bind
  refine runs_typeDirectory ?_ fun _ => hE _ (by decide)
  apply runs_pure
  apply runs_bind
  refine runs_deleteRow rfl ?_ (hE _ (by decide))
  apply runs_bind
  refine runs_removeFile hpath ?_ fun _ => hE _ (by decide)
  apply runs_pure
  rw [if_pos hstate]
  exact ⟨runs_bind (runs_modify (runs_modify hQ)), hC⟩

/-- The other statements of a scope change rows only. -/
theorem runs_updateVersion {oldVersion newVersion : ℕ} {changed : Bool} {Q : Unit → FileStore Data Checksum → Prop}
    (hs : s.transaction = none)
    (hQ : ∀ emitted, Q () { s with
      dataIndex := Function.update s.dataIndex key <| (s.dataIndex key).map fun r =>
        if r.version = oldVersion then { r with version := newVersion, changed } else r
      emitted := emitted })
    (hE : ∀ step, E (.localStore key step) s) :
    Runs (syncScope env key fun _ => updateVersion env key oldVersion newVersion changed) s Q E := by
  obtain ⟨index, tx, files, cache, emitted⟩ := s
  subst hs
  apply runs_syncScope rfl fun step _ => hE step
  apply runs_bind
  refine runs_execute ?_ fun _ => hE _
  apply runs_pure
  exact ⟨runs_ite (fun _ => runs_modify (hQ _)) fun _ => runs_pure (hQ _), hE _⟩

theorem runs_markUnchangedScope {persistDeleted : Bool} {oldVersion : ℕ} {isDelete : Bool}
    {Q : Unit → FileStore Data Checksum → Prop} (hs : s.transaction = none)
    (hQ : Q () { s with dataIndex := markRow persistDeleted key oldVersion isDelete s.dataIndex })
    (hE : ∀ step, E (.localStore key step) s) :
    Runs (syncScope env key fun _ => markUnchangedScope env persistDeleted key oldVersion isDelete) s Q E := by
  obtain ⟨index, tx, files, cache, emitted⟩ := s
  subst hs
  apply runs_syncScope rfl fun step _ => hE step
  apply runs_bind
  refine runs_execute ?_ fun _ => hE _
  apply runs_pure
  exact ⟨runs_pure hQ, hE _⟩

theorem runs_markUnchanged {persistDeleted : Bool} {version : ℕ} {isDelete : Bool}
    {Q : Unit → FileStore Data Checksum → Prop}
    (hQ : Q () { s with dataIndex := markRow persistDeleted key version isDelete s.dataIndex })
    (hE : E (.localStore key .statement) s) :
    Runs (markUnchanged env persistDeleted key version isDelete) s Q E := by
  apply runs_bind
  apply runs_check _ fun _ => hE
  exact runs_modify hQ

end Store

end QtDataSync
