import QtDataSync.Store.Representation

/-!
# Store.Atomicity — what an operation that throws leaves behind

A failing operation rolls its transaction back, and it changes no file before its last step, the commit of the database.
If that commit fails, a data file may have been replaced or removed already while its row stays what it was
(`remove_loses_file`).  `Failed` says what holds in either case, and `atomic` reads it off for every reachable store.
-/

namespace QtDataSync

variable {Data Checksum : Type} {jsonHash : Data → Checksum} {size : Data → ℕ} {env : Env} {persistDeleted : Bool}

/-- The commit of the database has failed. -/
def StoreException.IsCommit (e : StoreException) : Prop := ∃ key, e = .localStore key .commit

namespace FileOp

/-- The keys whose files the operation replaces or removes. -/
def Rewrites (op : FileOp Data) (k : ObjectKey) : Prop :=
  match op with
  | .save key _ | .remove key | .storeChanged key _ _ _ | .storeDeleted key _ _ => k = key
  | .clear typeName => k.typeName = typeName
  | .reset keepData => keepData = false
  | _ => False

/-- The key whose object a scope puts into the cache. -/
def Caches (op : FileOp Data) (k : ObjectKey) : Prop :=
  match op with
  | .storeChanged key _ _ _ => k = key
  | _ => False

/-- What is left when the operation has thrown: the rows and the signals are what they were, the files of the rows too
unless a commit failed that came after they were rewritten, and the cache has no new object unless a scope put it there
before its commit failed. -/
structure Failed (op : FileOp Data) (index : DataIndex jsonHash) (s : FileStore Data Checksum) (e : StoreException)
    (t : FileStore Data Checksum) : Prop where
  rows : t.dataIndex = s.dataIndex
  idle : t.transaction = none
  emitted : t.emitted = s.emitted
  files : ∀ k name, s.fileOf k = some name → (e.IsCommit → ¬ op.Rewrites k) →
    t.files (filePath k name) = s.files (filePath k name)
  cached : ∀ c k data, t.cache = some c → c.Holds k data → (e.IsCommit → ¬ op.Caches k) →
    (index k).bind (·.content) = some data

section Programs

variable {s : FileStore Data Checksum} {index : DataIndex jsonHash} {op : FileOp Data} {key : ObjectKey}

/-- A failure before the commit. -/
theorem failed_of_cache (R : Represents s index) {e : StoreException} {c : Option (Cache ObjectKey Data)}
    (hc : ∀ c' k data, c = some c' → c'.Holds k data → (index k).bind (·.content) = some data) :
    Failed op index s e { s with cache := c } :=
  ⟨rfl, R.idle, rfl, fun _ _ _ _ => rfl, fun c' k data hc' h _ => hc c' k data hc' h⟩

theorem failed_early (R : Represents s index) {e : StoreException} : Failed op index s e s :=
  failed_of_cache R R.cached

/-- A failure of the commit after files were rewritten. -/
theorem failed_commit (R : Represents s index) {files : FilePath → Option (Option Data)}
    (hfiles : ∀ k name, s.fileOf k = some name → ¬ op.Rewrites k →
      files (filePath k name) = s.files (filePath k name)) :
    Failed op index s (.localStore key .commit) { s with files := files } :=
  ⟨rfl, R.idle, rfl, fun k name h hk => hfiles k name h (hk ⟨key, rfl⟩),
    fun c k data hc h _ => R.cached c k data hc h⟩

/-- The file of one key is rewritten, and the files of all others stay. -/
theorem file_of_other (R : Represents s index) {name name' : String} (hf : s.fileOf key = some name)
    {content : Option (Option Data)} {k : ObjectKey} (hk : k ≠ key) (h : s.fileOf k = some name') :
    Function.update s.files (filePath key name) content (filePath k name') = s.files (filePath k name') := by
  refine Function.update_of_ne (fun he => hk ?_) ..
  rw [filePath, filePath, Prod.mk.injEq] at he
  rw [he.2] at h
  exact R.distinct k key name h hf he.1

theorem fileOf_eq_some {name : String} (h : s.fileOf key = some name) :
    ∃ fr, s.dataIndex key = some fr ∧ fr.file = some name := Option.bind_eq_some_iff.mp h

theorem version_eq (R : Represents s index) (k : ObjectKey) :
    (s.dataIndex k).elim 1 (·.version + 1) = (index k).elim 1 (·.version + 1) := by
  have h := R.row k
  cases hr : s.dataIndex k with
  | none =>
    rw [hr, Option.map_none] at h
    rw [Option.map_eq_none_iff.mp h.symm]
    rfl
  | some fr =>
    rw [hr, Option.map_some] at h
    obtain ⟨r, hr', hv⟩ := Option.map_eq_some_iff.mp h.symm
    rw [hr']
    exact congrArg (· + 1) (congrArg (·.1) hv).symm

theorem save_eq (index : DataIndex jsonHash) (key : ObjectKey) (data : Data) :
    DataIndex.save index key data =
      .ok (Function.update index key (some ⟨(index key).elim 1 (·.version + 1), some (.write data), true⟩)) := by
  unfold DataIndex.save
  cases index key with
  | none => rfl
  | some r => rfl

theorem remove_of_none {index : DataIndex jsonHash} (h : (index key).bind (·.content) = none) :
    (DataIndex.remove index key).1 = index := by
  show Function.update index key (LocalStore.remove (index key)).1 = index
  rcases hr : index key with _ | ⟨version, _ | f, changed⟩
  · show Function.update index key none = index
    rw [← hr, Function.update_eq_self]
  · show Function.update index key (some _) = index
    rw [← hr, Function.update_eq_self]
  · rw [hr] at h
    cases h

theorem remove_of_some (R : Represents s index) {fr : FileRow Checksum} {name : String}
    (hr : s.dataIndex key = some fr) (hf : fr.file = some name) :
    (DataIndex.remove index key).1 = Function.update index key (some ⟨fr.version + 1, none, true⟩) := by
  have h := R.row key
  rw [hr, Option.map_some] at h
  obtain ⟨r, hr', hv⟩ := Option.map_eq_some_iff.mp h.symm
  have hversion : r.version = fr.version := congrArg (·.1) hv
  have hfile : r.file.map (fun f => some (some f.data)) = fr.file.map fun name => s.files (filePath key name) :=
    congrArg (·.2.2.2) hv
  rw [hf, Option.map_some] at hfile
  obtain ⟨f, hrf, -⟩ := Option.map_eq_some_iff.mp hfile
  obtain ⟨version, file, changed⟩ := r
  subst hversion hrf
  show Function.update index key (LocalStore.remove (index key)).1 = _
  rw [hr']
  rfl

theorem storeChanged_eq (index : DataIndex jsonHash) (version : ℕ) (data : Data) (changed : Bool) :
    (FileOp.storeChanged key version data changed).run persistDeleted index =
      .ok (Function.update index key (some ⟨version, some (.write data), changed⟩)) := by
  have he : ∀ e : Entry jsonHash, LocalStore.storeChanged e version data changed (changeType e) =
      .ok (some ⟨version, some (.write data), changed⟩) := by
    rintro (_ | ⟨v, _ | f, ch⟩) <;> rfl
  show (LocalStore.storeChanged _ _ _ _ _).map _ = _
  rw [he]
  rfl

theorem storeDeleted_eq (index : DataIndex jsonHash) (version : ℕ) (changed : Bool) :
    (FileOp.storeDeleted key version changed : FileOp Data).run persistDeleted index =
      .ok (Function.update index key (some ⟨version, none, changed⟩)) := by
  have he : ∀ e : Entry jsonHash, LocalStore.storeDeleted e version changed (changeType e) =
      .ok (some ⟨version, none, changed⟩) := by
    rintro (_ | ⟨v, _ | f, ch⟩) <;> rfl
  show (LocalStore.storeDeleted _ _ _ _).map _ = _
  rw [he]
  rfl

theorem updateVersion_view {fr : Option (FileRow Checksum)} {e : Entry jsonHash}
    {files : FilePath → Option (Option Data)} (h : fr.map (·.view files key) = e.map Row.view)
    {oldVersion newVersion : ℕ} {changed : Bool} :
    (fr.map fun r => if r.version = oldVersion then { r with version := newVersion, changed } else r).map
        (·.view files key) =
      (LocalStore.updateVersion e oldVersion newVersion changed).map Row.view := by
  cases fr with
  | none =>
    rw [Option.map_none] at h
    rw [Option.map_eq_none_iff.mp h.symm]
    rfl
  | some fr =>
    rw [Option.map_some] at h
    obtain ⟨r, rfl, hv⟩ := Option.map_eq_some_iff.mp h.symm
    have hversion : r.version = fr.version := congrArg (·.1) hv
    have hrest : (r.file.map (·.checksum), r.file.map fun f => some (some f.data)) =
      (fr.checksum, fr.file.map fun name => files (filePath key name)) := congrArg (·.2.2) hv
    unfold LocalStore.updateVersion
    rw [Option.map_some, Option.map_some, Option.map_some, Option.map_some, hversion]
    split
    · exact congrArg some (Prod.ext rfl (Prod.ext rfl hrest.symm))
    · exact congrArg some hv.symm

theorem markRow_view {rows : FileTable Checksum} {e : Entry jsonHash} {files : FilePath → Option (Option Data)}
    (h : (rows key).map (·.view files key) = e.map Row.view) {version : ℕ} {isDelete : Bool} :
    (markRow persistDeleted key version isDelete rows key).map (·.view files key) =
      (LocalStore.markUnchangedImpl persistDeleted e version isDelete).map Row.view := by
  unfold markRow LocalStore.markUnchangedImpl
  rw [Function.update_self]
  cases hr : rows key with
  | none =>
    rw [hr, Option.map_none] at h
    rw [Option.map_eq_none_iff.mp h.symm]
    split <;> rfl
  | some fr =>
    rw [hr, Option.map_some] at h
    obtain ⟨r, rfl, hv⟩ := Option.map_eq_some_iff.mp h.symm
    have hversion : r.version = fr.version := congrArg (·.1) hv
    have hfile : r.file.isNone = fr.file.isNone := by
      have hf : r.file.map (fun f => some (some f.data)) = fr.file.map fun name => files (filePath key name) :=
        congrArg (·.2.2.2) hv
      cases hr : r.file <;> cases hfr : fr.file <;> rw [hr, hfr] at hf <;> first | rfl | cases hf
    have hrest : (r.file.map (·.checksum), r.file.map fun f => some (some f.data)) =
      (fr.checksum, fr.file.map fun name => files (filePath key name)) := congrArg (·.2.2) hv
    split
    · rw [Option.filter_some, Option.filter_some, hversion, hfile]
      split
      · exact congrArg some hv.symm
      · rfl
    · rw [Option.map_some, Option.map_some, Option.map_some, Option.map_some, hversion]
      split
      · exact congrArg some (Prod.ext rfl (Prod.ext rfl hrest.symm))
      · exact congrArg some hv.symm

theorem markRow_file (rows : FileTable Checksum) (version : ℕ) (isDelete : Bool) :
    (markRow persistDeleted key version isDelete rows key).bind (·.file) = (rows key).bind (·.file) := by
  unfold markRow
  rw [Function.update_self]
  rcases rows key with _ | ⟨v, _ | name, checksum, ch⟩
  · split <;> rfl
  · split
    · rw [Option.filter_some]
      split <;> rfl
    · rw [Option.map_some]
      split <;> rfl
  · split
    · rw [Option.filter_some]
      simp
    · rw [Option.map_some]
      split <;> rfl

theorem update_markRow (R : Represents s index) (version : ℕ) (isDelete : Bool) :
    Represents { s with dataIndex := markRow persistDeleted key version isDelete s.dataIndex }
      (DataIndex.markUnchanged persistDeleted index key version isDelete) := by
  have hrow : (markRow persistDeleted key version isDelete s.dataIndex key).map (·.view s.files key) = _ :=
    markRow_view (R.row key)
  have h : Represents { s with emitted := s.emitted, dataIndex := _ } _ :=
    R.update_row hrow (markRow_file s.dataIndex version isDelete)
  have he : Function.update s.dataIndex key (markRow persistDeleted key version isDelete s.dataIndex key) =
      markRow persistDeleted key version isDelete s.dataIndex := by
    unfold markRow
    rw [Function.update_self]
  rw [he] at h
  exact h

theorem update_updateVersion (R : Represents s index) (oldVersion newVersion : ℕ) (changed : Bool)
    (emitted : List Signal) :
    Represents { s with
        dataIndex := Function.update s.dataIndex key <| (s.dataIndex key).map fun r =>
          if r.version = oldVersion then { r with version := newVersion, changed } else r
        emitted := emitted }
      (Function.update index key (LocalStore.updateVersion (index key) oldVersion newVersion changed)) := by
  apply R.update_row (updateVersion_view (R.row key))
  unfold FileStore.fileOf
  cases s.dataIndex key with
  | none => rfl
  | some r =>
    rw [Option.map_some]
    split <;> rfl

/-- **The outcomes of an operation.**  It does to the table what it does in `Store.LocalStore`, or throws and leaves what
`Failed` says. -/
theorem runs_program (R : Represents s index) (ha : op.Admissible env s) (hk : op.Keeps s) :
    Runs (op.program env jsonHash size persistDeleted) s
      (fun _ t => ∃ index', op.run persistDeleted index = .ok index' ∧ Represents t index')
      fun e t => Failed op index s e t := by
  cases op with
  | load key =>
    have hput : ∀ name json, s.fileOf key = some name → s.files (filePath key name) = some (some json) →
        ∀ c k data, s.cache.map (·.insert key json (size json)) = some c → c.Holds k data →
          (index k).bind (·.content) = some data := by
      intro name json hf hjson c k data hc h
      obtain ⟨c', hc', rfl⟩ := Option.map_eq_some_iff.mp hc
      rcases Cache.holds_insert h with ⟨rfl, rfl⟩ | ⟨hold, -⟩
      · obtain ⟨data', hd, hfile⟩ := R.file_of_row hf
        rw [hjson, Option.some.injEq, Option.some.injEq] at hfile
        rw [hfile]
        exact hd
      · exact R.cached c' k data hc' hold
    apply runs_bind
    refine runs_load R.idle ?_ ?_ (fun _ _ => failed_early R) (fun _ _ _ => failed_early R) ?_
    · intro c json hc _
      refine runs_pure ⟨index, rfl, R.frame rfl R.idle (fun _ _ _ => rfl) fun c' k data hc' h => ?_⟩
      rw [Option.some.injEq] at hc'
      rw [← hc'] at h
      exact R.cached c k data hc (Cache.holds_object h)
    · intro name json hf hjson
      exact runs_pure ⟨index, rfl, R.frame rfl R.idle (fun _ _ _ => rfl) (hput name json hf hjson)⟩
    · intro name json _ hf hjson
      exact failed_of_cache R (hput name json hf hjson)
  | save key data =>
    refine runs_save R.idle ha ?_ ?_ ?_
    · rw [version_eq R key]
      exact ⟨_, save_eq index key data, R.written ha⟩
    · rintro step c - (rfl | rfl)
      · exact failed_early R
      · refine failed_of_cache R fun c k data hc h => ?_
        obtain ⟨c', hc', rfl⟩ := Option.map_eq_some_iff.mp hc
        exact R.cached c' k data hc' (Cache.holds_remove.mp h).1
    · refine ⟨rfl, R.idle, rfl, fun k name h hk => ?_, fun c k d hc h _ => ?_⟩
      · exact Function.update_of_ne (R.filePath_ne ha (fun he => hk ⟨key, rfl⟩ he) h) ..
      · obtain ⟨c', hc', rfl⟩ := Option.map_eq_some_iff.mp hc
        obtain ⟨c₀, hc₀, rfl⟩ := Option.map_eq_some_iff.mp hc'
        obtain ⟨h, hne⟩ := Cache.holds_remove.mp h
        rcases Cache.holds_insert h with ⟨he, -⟩ | ⟨hold, -⟩
        · exact absurd he hne
        · exact R.cached c₀ k d hc₀ hold
  | remove key =>
    apply runs_bind
    cases hf : s.fileOf key with
    | none =>
      refine runs_remove_of_none R.idle hf (runs_pure ⟨_, rfl, ?_⟩) fun _ _ => failed_early R
      rw [remove_of_none (R.content_of_none hf)]
      exact R
    | some name =>
      obtain ⟨fr, hr, hfr⟩ := fileOf_eq_some hf
      obtain ⟨data, -, hfile⟩ := R.file_of_row hf
      refine runs_remove_of_some R.idle hr hfr (by rw [hfile]; exact Option.some_ne_none _) (runs_pure ⟨_, rfl, ?_⟩)
        (fun _ _ _ => failed_early R) fun _ => failed_commit R fun k name' h hk => file_of_other R hf hk h
      rw [remove_of_some R hr hfr]
      exact R.deleted hf
  | clear typeName =>
    refine runs_clear R.idle ⟨_, rfl, R.cleared ha hk⟩ (fun _ _ => failed_early R) (failed_commit R ?_)
    intro k name h hT
    have hdir : dataDirectory k.typeName ≠ dataDirectory typeName := by
      intro hd
      rw [hk k hT hd] at h
      cases h
    simp [FileStore.removed, filePath, hdir]
  | reset keepData =>
    refine runs_reset R.idle ⟨_, rfl, R.reset keepData⟩ (fun _ _ _ => failed_early R) fun _ => failed_commit R ?_
    intro k name _ hkeep
    rw [if_pos (by simpa [Rewrites] using hkeep)]
  | storeChanged key version data changed =>
    refine runs_storeChanged R.idle ha ⟨_, storeChanged_eq index version data changed, R.written ha⟩
      (fun _ _ => failed_early R) ?_
    refine ⟨rfl, R.idle, rfl, fun k name h hk => ?_, fun c k d hc h hk => ?_⟩
    · exact Function.update_of_ne (R.filePath_ne ha (hk ⟨key, rfl⟩) h) ..
    · obtain ⟨c', hc', rfl⟩ := Option.map_eq_some_iff.mp hc
      rcases Cache.holds_insert h with ⟨he, -⟩ | ⟨hold, -⟩
      · exact absurd he (hk ⟨key, rfl⟩)
      · exact R.cached c' k d hc' hold
  | storeDeleted key version changed =>
    cases hf : s.fileOf key with
    | none =>
      refine runs_storeDeleted_of_none R.idle hf ⟨_, storeDeleted_eq index version changed, ?_⟩ fun _ => failed_early R
      exact R.update_row rfl hf.symm
    | some name =>
      obtain ⟨data, -, hfile⟩ := R.file_of_row hf
      exact runs_storeDeleted_of_some R.idle hf (by rw [hfile]; exact Option.some_ne_none _)
        ⟨_, storeDeleted_eq index version changed, R.deleted hf⟩ (fun _ _ => failed_early R)
        (failed_commit R fun k name' h hk => file_of_other R hf hk h)
  | updateVersion key oldVersion newVersion changed =>
    exact runs_updateVersion R.idle (fun _ => ⟨_, rfl, update_updateVersion R ..⟩) fun _ => failed_early R
  | markUnchangedScope key oldVersion isDelete =>
    exact runs_markUnchangedScope R.idle ⟨_, rfl, update_markRow R ..⟩ fun _ => failed_early R
  | markUnchanged key version isDelete =>
    exact runs_markUnchanged ⟨_, rfl, update_markRow R ..⟩ (failed_early R)

end Programs

/-! ### Runs -/

variable (jsonHash size persistDeleted) in
/-- The store with its calls, from an empty table on. -/
def lts : LTS (FileStore Data Checksum) (Env × FileOp Data) where
  init s := s.dataIndex = (fun _ => none) ∧ s.transaction = none ∧ ∀ c, s.cache = some c → c.entries = []
  step s a t := a.2.Admissible a.1 s ∧ t = (exec (a.2.program a.1 jsonHash size persistDeleted) s).2

variable (jsonHash size persistDeleted) in
/-- A call keeps out of foreign directories, and its commit does not fail when it has rewritten a file of a row or filled
the cache. -/
def Spares (s : FileStore Data Checksum) (a : Env × FileOp Data) : Prop :=
  a.2.Keeps s ∧ ∀ e, (exec (a.2.program a.1 jsonHash size persistDeleted) s).1 = .error e → e.IsCommit →
    ∀ k, (a.2.Rewrites k → s.fileOf k = none) ∧ ¬ a.2.Caches k

section Runs

variable {s t : FileStore Data Checksum} {index : DataIndex jsonHash} {op : FileOp Data}

/-- A failed operation that has left the files of the rows and the cache alone has left the table. -/
theorem Failed.represents (R : Represents s index) {e : StoreException} (F : Failed op index s e t)
    (hk : e.IsCommit → ∀ k, (op.Rewrites k → s.fileOf k = none) ∧ ¬ op.Caches k) : Represents t index := by
  refine R.frame F.rows F.idle (fun k name h => F.files k name h fun he hr => ?_)
    fun c k data hc h => F.cached c k data hc h fun he => (hk he k).2
  rw [(hk he k).1 hr] at h
  cases h

theorem represents_step {a : Env × FileOp Data} (R : Represents s index)
    (hg : Spares jsonHash size persistDeleted s a) (hst : (lts jsonHash size persistDeleted).step s a t) :
    ∃ index' : DataIndex jsonHash, Represents t index' := by
  obtain ⟨ha, rfl⟩ := hst
  have h : Runs (a.2.program a.1 jsonHash size persistDeleted) s _ _ := runs_program R ha hg.1
  rcases hx : exec (a.2.program a.1 jsonHash size persistDeleted) s with ⟨e | _, t⟩
  · refine ⟨index, (h.error hx).represents R fun he => ?_⟩
    apply hg.2 e _ he
    rw [hx]
  · obtain ⟨index', -, R'⟩ := h.ok hx
    exact ⟨index', R'⟩

theorem represents_reachable
    (h : (lts jsonHash size persistDeleted).Reachable (Spares jsonHash size persistDeleted) s) :
    ∃ index : DataIndex jsonHash, Represents s index := by
  refine LTS.Reachable.invariant (I := fun s => ∃ index : DataIndex jsonHash, Represents s index) (fun s h0 => ?_)
    (fun s a t _ hI hg hst => ?_) h
  · obtain ⟨hrows, hidle, hcache⟩ := h0
    have hfile : ∀ k, s.fileOf k = none := by
      intro k
      rw [FileStore.fileOf, hrows]
      rfl
    refine ⟨fun _ => none, hidle, fun k => by rw [hrows]; rfl, fun k k' name hk => ?_, fun c k data hc hold => ?_⟩
    · rw [hfile] at hk
      cases hk
    · obtain ⟨n, hn⟩ := hold
      rw [hcache c hc] at hn
      cases hn
  · obtain ⟨index, R⟩ := hI
    exact represents_step R hg hst

/-- **Failure atomicity.**  When an operation throws, the rows are what they were, and no signal was emitted.  Unless it
was the commit of the database that failed after the file of the key was replaced or removed, the file is what it was
too, and so is what `load` answers; the row and its file still belong together. -/
theorem atomic (h : (lts jsonHash size persistDeleted).Reachable (Spares jsonHash size persistDeleted) s)
    (ha : op.Admissible env s) (hk : op.Keeps s) {e : StoreException}
    (he : exec (op.program env jsonHash size persistDeleted) s = (.error e, t)) :
    t.dataIndex = s.dataIndex ∧ t.transaction = none ∧ t.emitted = s.emitted ∧
      ∀ k, (e.IsCommit → op.Rewrites k → s.fileOf k = none) →
        (∀ name, s.fileOf k = some name → t.files (filePath k name) = s.files (filePath k name)) ∧
        Intact jsonHash t k ∧ ((e.IsCommit → ¬ op.Caches k) → loaded size t k = loaded size s k) := by
  obtain ⟨index, R⟩ := represents_reachable h
  have F : Failed op index s e t := (runs_program R ha hk).error he
  refine ⟨F.rows, F.idle, F.emitted, fun k hsp => ?_⟩
  have hfiles : ∀ name, s.fileOf k = some name → t.files (filePath k name) = s.files (filePath k name) := by
    intro name hf
    refine F.files k name hf fun hc hr => ?_
    rw [hsp hc hr] at hf
    cases hf
  have hfileOf : t.fileOf k = s.fileOf k := by
    rw [FileStore.fileOf, F.rows]
    rfl
  refine ⟨hfiles, fun row hr => ?_, fun hcache => ?_⟩
  · rw [F.rows] at hr
    have hin := R.intact k row hr
    cases hf : row.file with
    | none =>
      rw [hf] at hin
      exact hin
    | some name =>
      rw [hf] at hin
      show ∃ data, t.files _ = _ ∧ _
      rw [hfiles name (by rw [FileStore.fileOf, hr]; exact hf)]
      exact hin
  · rw [R.loaded_eq]
    refine loaded_eq_of_file F.idle ?_ fun c data hc hold => F.cached c k data hc hold hcache
    rw [hfileOf, ← R.file_eq k]
    cases hf : s.fileOf k with
    | none => rfl
    | some name => rw [Option.map_some, Option.map_some, hfiles name hf]

end Runs

/-! ### A file that is removed before its row -/

namespace Sample

def key : ObjectKey := ⟨[65], "a"⟩

def start : FileStore ℕ ℕ := ⟨fun _ => none, none, fun _ => none, some ⟨100, []⟩, []⟩

/-- The steps in `steps` fail, and a new file is called `f`. -/
def failing (steps : List FailurePoint) : Env := ⟨fun step => steps.contains step, "f", [], fun _ => false⟩

def call (steps : List FailurePoint) (op : FileOp ℕ) (s : FileStore ℕ ℕ) : Except StoreException Unit × FileStore ℕ ℕ :=
  exec (op.program (failing steps) id (fun _ => 1) false) s

/-- The store with one object. -/
def saved : FileStore ℕ ℕ := (call [] (.save key 5) start).2

theorem saved_reachable : (lts id (fun _ => 1) false).Reachable (Spares id (fun _ => 1) false) saved := by
  have h0 : (lts id (fun _ => 1) false).Reachable (Spares id (fun _ => 1) false) start := by
    refine .init ⟨rfl, rfl, fun c hc => ?_⟩
    cases hc
    rfl
  have hok : (call [] (.save key 5) start).1 = .ok () := rfl
  refine h0.step (a := (failing [], .save key 5)) ⟨trivial, fun e he => ?_⟩ ⟨rfl, rfl⟩
  cases hok.symm.trans he

end Sample

/-- A statement of `remove` fails, and the object is still there. -/
theorem atomic_statement : ∃ t, Sample.call [.statement] (.remove Sample.key) Sample.saved =
      (.error (.localStore Sample.key .statement), t) ∧ loaded (fun _ => 1) t Sample.key = .ok 5 := by
  have he : exec ((FileOp.remove Sample.key).program (Sample.failing [.statement]) id (fun _ => 1) false)
      Sample.saved = (.error (.localStore Sample.key .statement), _) := rfl
  have hcommit : ¬ (StoreException.localStore Sample.key .statement).IsCommit := fun ⟨_, h⟩ => nomatch h
  have ha : (FileOp.remove Sample.key).Admissible (Sample.failing [.statement]) Sample.saved := trivial
  have h := (atomic Sample.saved_reachable ha trivial he).2.2.2 Sample.key fun hc => absurd hc hcommit
  exact ⟨_, he, h.2.2 fun hc => absurd hc hcommit⟩

attribute [local semireducible] dataDirectory in
/-- The file is removed before the commit of the database; when the commit fails, the row still refers to it. -/
theorem remove_loses_file : ∃ s t : FileStore ℕ ℕ,
    (lts id (fun _ => 1) false).Reachable (Spares id (fun _ => 1) false) s ∧
    Sample.call [.commit] (.remove Sample.key) s = (.error (.localStore Sample.key .commit), t) ∧
    s.fileOf Sample.key = some "f" ∧ s.files (filePath Sample.key "f") = some (some 5) ∧
    t.fileOf Sample.key = some "f" ∧ t.files (filePath Sample.key "f") = none :=
  ⟨Sample.saved, _, Sample.saved_reachable, rfl, rfl, rfl, rfl, rfl⟩

end FileOp

end QtDataSync
