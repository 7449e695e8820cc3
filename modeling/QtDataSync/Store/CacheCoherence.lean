import QtDataSync.Store.Threads

/-!
# Store.CacheCoherence — the cache has what is committed

A reader caches what it has read before it ends its transaction, and a writer caches what it is about to commit.  While
a writer waits for the readers its entry can be overwritten with the content before, and only `save` takes it back when
the commit fails.
-/

namespace QtDataSync.Threads

variable {Thread Data : Type}

namespace SharedStore

/-- Readers do not read a file that was replaced by a transaction which is not committed, and do not cache keys that a
writer has cached already; in a scope that has stored something the commit does not fail. -/
def Ordered (s : SharedStore Thread Data) (move : Thread × Move Data) : Prop :=
  match s.tasks move.1, move.2 with
  | .read ((key, fileName) :: _) _, .proceed _ => s.replaced (filePath key fileName) = false
  | .read [] read, .proceed _ => ∀ v job name, s.tasks v = .commitStored job name → ∀ x ∈ read, x.1 ≠ job.key
  | .commitStored job _, .fail => job.inScope = false
  | _, _ => True

end SharedStore

/-! ### Rows -/

section Rows

variable {rows rows' : FileTable Data} {key key' : ObjectKey} {data : Data} {drop : Drop}

def Drop.Covers : Drop → ObjectKey → Prop
  | .nothing, _ => False
  | .keys dropped, key => key ∈ dropped
  | .all, _ => True

/-- Rows lose their content at most, and those that do are dropped. -/
structure Shrinks (rows rows' : FileTable Data) (drop : Drop) : Prop where
  kept : ∀ key r, rows' key = some r → r.file.isSome = true →
    ∃ r', rows key = some r' ∧ r'.file = r.file ∧ r'.checksum = r.checksum
  dropped : ∀ key data, Holds rows key data → Holds rows' key data ∨ drop.Covers key

theorem Holds.hasFile (h : Holds rows key data) : ∃ fileName, HasFile rows key fileName := by
  obtain ⟨r, hr, hf, -⟩ := h
  obtain ⟨fileName, hf⟩ := Option.isSome_iff_exists.mp hf
  exact ⟨fileName, r, hr, hf⟩

theorem Shrinks.hasFile (h : Shrinks rows rows' drop) {fileName : String} (hf : HasFile rows' key fileName) :
    HasFile rows key fileName := by
  obtain ⟨r, hr, hf⟩ := hf
  obtain ⟨r', hr', hfile, -⟩ := h.kept key r hr (by simp [hf])
  exact ⟨r', hr', hfile.trans hf⟩

theorem Shrinks.holds (h : Shrinks rows rows' drop) (hd : Holds rows' key data) : Holds rows key data := by
  obtain ⟨r, hr, hf, hc⟩ := hd
  obtain ⟨r', hr', hfile, hchecksum⟩ := h.kept key r hr hf
  exact ⟨r', hr', by rw [hfile, hf], hchecksum.trans hc⟩

theorem Shrinks.refl : Shrinks rows rows drop := ⟨fun _ r hr _ => ⟨r, hr, rfl, rfl⟩, fun _ _ h => Or.inl h⟩

/-- A statement about the row of one key that leaves its content. -/
theorem shrinks_update {row : Option (FileRow Data)}
    (hrow : ∀ r, row = some r → r.file.isSome = true →
      ∃ r', rows key = some r' ∧ r'.file = r.file ∧ r'.checksum = r.checksum)
    (hdrop : ∀ data, Holds rows key data → (∃ r, row = some r ∧ r.file.isSome = true ∧ r.checksum = some data) ∨
      drop.Covers key) : Shrinks rows (Function.update rows key row) drop := by
  refine ⟨?_, ?_⟩
  · intro k r hr hf
    by_cases hk : k = key
    · subst hk
      rw [Function.update_self] at hr
      exact hrow r hr hf
    · rw [Function.update_of_ne hk] at hr
      exact ⟨r, hr, rfl, rfl⟩
  · intro k d hd
    by_cases hk : k = key
    · subst hk
      rcases hdrop d hd with ⟨r, hr, hrest⟩ | hcovers
      · exact Or.inl ⟨r, by rw [Function.update_self, hr], hrest⟩
      · exact Or.inr hcovers
    · obtain ⟨r, hr, hrest⟩ := hd
      exact Or.inl ⟨r, by rw [Function.update_of_ne hk, hr], hrest⟩

/-- A statement that changes rows without a look at their content. -/
theorem shrinks_map {f : ObjectKey → FileRow Data → FileRow Data} (hf : ∀ key r, (f key r).file = r.file)
    (hc : ∀ key r, (f key r).checksum = r.checksum) : Shrinks rows (fun key => (rows key).map (f key)) drop := by
  refine ⟨?_, ?_⟩
  · intro k r hr _
    obtain ⟨r', hr', rfl⟩ := Option.map_eq_some_iff.mp hr
    exact ⟨r', hr', (hf k r').symm, (hc k r').symm⟩
  · rintro k d ⟨r, hr, hfile, hchecksum⟩
    exact Or.inl ⟨f k r, by simp [hr], by rw [hf, hfile], by rw [hc, hchecksum]⟩

theorem shrinks_update_map {f : FileRow Data → FileRow Data}
    (hf : ∀ r, (f r).file = r.file ∧ (f r).checksum = r.checksum) :
    Shrinks rows (Function.update rows key ((rows key).map f)) drop := by
  refine shrinks_update ?_ ?_
  · intro r hr _
    obtain ⟨r', hr', rfl⟩ := Option.map_eq_some_iff.mp hr
    exact ⟨r', hr', (hf r').1.symm, (hf r').2.symm⟩
  · rintro d ⟨r, hr, hfile, hchecksum⟩
    exact Or.inl ⟨f r, by rw [hr]; rfl, by rw [(hf r).1, hfile], by rw [(hf r).2, hchecksum]⟩

theorem shrinks_updateVersion (oldVersion newVersion : ℕ) (changed : Bool) :
    Shrinks rows (updateVersion key oldVersion newVersion changed rows) .nothing := by
  refine shrinks_update_map fun r => ?_
  split_ifs <;> exact ⟨rfl, rfl⟩

theorem shrinks_markRow (persistDeleted : Bool) (version : ℕ) (isDelete : Bool) :
    Shrinks rows (markRow persistDeleted key version isDelete rows) .nothing := by
  unfold markRow
  split_ifs
  · refine shrinks_update ?_ ?_
    · intro r hr _
      exact ⟨r, (Option.filter_eq_some_iff.mp hr).1, rfl, rfl⟩
    · rintro d ⟨r, hr, hf, hc⟩
      refine Or.inl ⟨r, ?_, hf, hc⟩
      rw [Option.filter_eq_some_iff]
      exact ⟨hr, by simp [hf]⟩
  · refine shrinks_update_map fun r => ?_
    split_ifs <;> exact ⟨rfl, rfl⟩

theorem shrinks_clearRow {typeName : QByteArray} {keys : List ObjectKey}
    (h : ∀ key, key.typeName = typeName → (∃ fileName, HasFile rows key fileName) → key ∈ keys) :
    Shrinks rows (clearRow typeName rows) (.keys keys) := by
  refine ⟨?_, ?_⟩
  · intro k r hr hf
    obtain ⟨r', hr', rfl⟩ := Option.map_eq_some_iff.mp hr
    split_ifs at hf ⊢ with hc
    · simp at hf
    · exact ⟨r', hr', rfl, rfl⟩
  · intro k d hd
    by_cases hk : k.typeName = typeName
    · exact Or.inr (h k hk hd.hasFile)
    · obtain ⟨r, hr, hrest⟩ := hd
      exact Or.inl ⟨r, by simp [clearRow, hr, hk], hrest⟩

/-- The row of a key loses its file. -/
theorem shrinks_statement {job : Deleting} (h : ∀ data, Holds rows job.key data → job.localState = .Exists) :
    Shrinks rows (job.statement rows) job.drop := by
  refine shrinks_update ?_ ?_
  · intro r hr hf
    split_ifs at hr with hs
    · obtain rfl := Option.some.inj hr
      simp at hf
    · obtain ⟨r', -, rfl⟩ := Option.map_eq_some_iff.mp hr
      simp at hf
  · intro d hd
    refine Or.inr ?_
    rw [Deleting.drop, if_pos (h d hd)]
    exact List.mem_singleton_self _

end Rows

/-! ### The cache -/

section CacheCalls

variable {size : Data → ℕ} {cache : Cache ObjectKey Data} {key : ObjectKey} {data : Data}

theorem holds_putCached {read : List (ObjectKey × Data)} (h : (putCached size cache read).Holds key data) :
    (key, data) ∈ read ∨ cache.Holds key data ∧ ∀ x ∈ read, x.1 ≠ key := by
  induction read generalizing cache with
  | nil => exact Or.inr ⟨h, by simp⟩
  | cons x read ih =>
    rcases ih h with hm | ⟨hc, hne⟩
    · exact Or.inl (List.mem_cons_of_mem _ hm)
    · rcases Cache.holds_insert hc with ⟨rfl, rfl⟩ | ⟨hc, hk⟩
      · exact Or.inl List.mem_cons_self
      · exact Or.inr ⟨hc, List.forall_mem_cons.mpr ⟨Ne.symm hk, hne⟩⟩

theorem holds_dropCached {drop : Drop} (h : (dropCached cache drop).Holds key data) :
    cache.Holds key data ∧ ¬ drop.Covers key := by
  cases drop with
  | nothing => exact ⟨h, id⟩
  | keys keys =>
    show cache.Holds key data ∧ key ∉ keys
    simp only [dropCached] at h
    induction keys generalizing cache with
    | nil => exact ⟨h, by simp⟩
    | cons k keys ih =>
      obtain ⟨hc, hk⟩ := ih h
      rw [Cache.holds_remove] at hc
      exact ⟨hc.1, by simp [hc.2, hk]⟩
  | all => exact absurd h Cache.not_holds_clear

end CacheCalls

/-! ### Tasks -/

/-- What a task answers for: an entry that is about to be committed, or that is about to be dropped. -/
def Task.Covers : Task Data → ObjectKey → Data → Prop
  | .commitStored job _, key, data => key = job.key ∧ data = job.data
  | .dropFailed failed, key, _ => key = failed
  | .dropCached drop, key, _ => drop.Covers key
  | _, _, _ => False

namespace SharedStore

/-- The thread has the lock of the writer, and these rows. -/
def Writes (s : SharedStore Thread Data) (u : Thread) (rows : FileTable Data) : Prop := s.transaction = some (u, rows)

/-- The call was made for the row of its key. -/
def Matches (s : SharedStore Thread Data) (job : Storing Data) : Prop :=
  job.existing = (s.dataIndex job.key).isSome ∧ job.fileName = (s.dataIndex job.key).bind (·.file)

/-- The file that is written belongs to the row of the key, or to none. -/
def Targets (s : SharedStore Thread Data) (job : Storing Data) (name : String) : Prop :=
  ∀ key fileName, HasFile s.dataIndex key fileName → filePath key fileName = job.path name →
    key = job.key ∧ job.inPlace = true

/-- The row is stored in the transaction. -/
def Stores (s : SharedStore Thread Data) (u : Thread) (job : Storing Data) (name : String) : Prop :=
  s.Writes u (Function.update s.dataIndex job.key (some (job.row name))) ∧ s.Targets job name

/-- The transaction drops content at most. -/
def Deletes (s : SharedStore Thread Data) (u : Thread) (drop : Drop) : Prop :=
  ∃ rows, s.Writes u rows ∧ Shrinks s.dataIndex rows drop

/-- What is written to a new file is there, that for the file of a row not before its commit. -/
def Written (s : SharedStore Thread Data) (job : Storing Data) (name : String) : Prop :=
  job.inPlace = false → s.files (job.path name) = some (some job.data)

end SharedStore

/-- What holds before the next step of a task. -/
def Task.Asserts (s : SharedStore Thread Data) (u : Thread) : Task Data → Prop
  | .read files data => u ∈ s.readers ∧ (∀ x ∈ files, HasFile s.dataIndex x.1 x.2) ∧
      ∀ x ∈ data, Holds s.dataIndex x.1 x.2
  | .select _ _ | .loadChangeInfo _ | .selectRemove _ | .selectFile _ _ _ | .selectClear _ | .resetRows _ =>
      s.Writes u s.dataIndex
  | .scope key info => s.Writes u s.dataIndex ∧ info = .ofRow (s.dataIndex key)
  | .openFile job => s.Writes u s.dataIndex ∧ s.Matches job
  | .writeFile job name => s.Writes u s.dataIndex ∧ s.Matches job ∧ s.Targets job name
  | .storeRow job name => s.Writes u s.dataIndex ∧ s.Matches job ∧ s.Targets job name ∧ s.Written job name
  | .commitFile job name => s.Stores u job name ∧ s.Written job name
  | .putCached job name => s.Stores u job name ∧ s.files (job.path name) = some (some job.data)
  | .commitStored job name => s.Stores u job name ∧ s.files (job.path name) = some (some job.data) ∧
      ∀ data, s.cache.Holds job.key data → data = job.data
  | .dropFailed _ | .rollback => ∃ rows, s.Writes u rows
  | .deleteRow job => s.Writes u s.dataIndex ∧ ∀ data, Holds s.dataIndex job.key data → job.localState = .Exists
  | .removeFile job => s.Deletes u job.drop
  | .clearRows typeName keys => s.Writes u s.dataIndex ∧ ∀ key, key.typeName = typeName →
      (∃ fileName, HasFile s.dataIndex key fileName) → key ∈ keys
  | .removeType _ keys => s.Deletes u (.keys keys)
  | .clearEventLog | .removeStore => s.Deletes u .all
  | .commit drop => s.Deletes u drop
  | .idle | .begin _ | .getCached _ | .query _ | .endRead | .dropCached _ => True

namespace SharedStore

/-- The invariant of the runs: what is cached is committed, or some task answers for it. -/
structure Inv (s : SharedStore Thread Data) : Prop where
  distinct : ∀ key key' fileName fileName', HasFile s.dataIndex key fileName → HasFile s.dataIndex key' fileName' →
    filePath key fileName = filePath key' fileName' → key = key'
  content : ∀ key fileName data, HasFile s.dataIndex key fileName → s.replaced (filePath key fileName) = false →
    s.files (filePath key fileName) = some (some data) → Holds s.dataIndex key data
  cached : ∀ key data, s.cache.Holds key data → Holds s.dataIndex key data ∨ ∃ v, (s.tasks v).Covers key data
  tasks : ∀ v, (s.tasks v).Asserts s v

/-- The invariant while the thread `u` takes a step; `C` is what it answers for. -/
structure Rest (s : SharedStore Thread Data) (u : Thread) (C : ObjectKey → Data → Prop) : Prop where
  distinct : ∀ key key' fileName fileName', HasFile s.dataIndex key fileName → HasFile s.dataIndex key' fileName' →
    filePath key fileName = filePath key' fileName' → key = key'
  content : ∀ key fileName data, HasFile s.dataIndex key fileName → s.replaced (filePath key fileName) = false →
    s.files (filePath key fileName) = some (some data) → Holds s.dataIndex key data
  cached : ∀ key data, s.cache.Holds key data →
    Holds s.dataIndex key data ∨ C key data ∨ ∃ v, v ≠ u ∧ (s.tasks v).Covers key data
  tasks : ∀ v, v ≠ u → (s.tasks v).Asserts s v

end SharedStore

section Steps

variable {s t : SharedStore Thread Data} {u v : Thread} {task : Task Data} {C C' : ObjectKey → Data → Prop}

/-- The steps of other threads keep what a task asserts. -/
theorem Task.Asserts.frame (h : task.Asserts s v) (hrows : t.dataIndex = s.dataIndex)
    (hreaders : v ∈ s.readers → v ∈ t.readers)
    (hwrites : ∀ rows, s.Writes v rows → t.transaction = s.transaction ∧ t.files = s.files)
    (hcache : ∀ job name, task = .commitStored job name → ∀ data, t.cache.Holds job.key data →
      s.cache.Holds job.key data ∨ data = job.data) : task.Asserts t v := by
  have hkeep : ∀ rows, s.Writes v rows → t.Writes v rows := fun rows hw => (hwrites rows hw).1.trans hw
  cases task with
  | idle => trivial
  | begin => trivial
  | getCached => trivial
  | query => trivial
  | endRead => trivial
  | dropCached => trivial
  | read files read =>
    obtain ⟨hr, hfiles, hread⟩ := h
    refine ⟨hreaders hr, ?_, ?_⟩ <;> rw [hrows]
    · exact hfiles
    · exact hread
  | select | loadChangeInfo | selectRemove | selectFile | selectClear | resetRows =>
    show t.Writes v t.dataIndex
    rw [hrows]
    exact hkeep _ h
  | scope key info =>
    show t.Writes v t.dataIndex ∧ info = .ofRow (t.dataIndex key)
    rw [hrows]
    exact ⟨hkeep _ h.1, h.2⟩
  | openFile job =>
    show t.Writes v t.dataIndex ∧ _
    rw [SharedStore.Matches, hrows]
    exact ⟨hkeep _ h.1, h.2⟩
  | writeFile job name =>
    show t.Writes v t.dataIndex ∧ _
    rw [SharedStore.Matches, SharedStore.Targets, hrows]
    exact ⟨hkeep _ h.1, h.2⟩
  | storeRow job name =>
    show t.Writes v t.dataIndex ∧ _
    rw [SharedStore.Matches, SharedStore.Targets, SharedStore.Written, hrows, (hwrites _ h.1).2]
    exact ⟨hkeep _ h.1, h.2⟩
  | commitFile job name =>
    show (t.Writes v _ ∧ _) ∧ _
    rw [SharedStore.Targets, SharedStore.Written, hrows, (hwrites _ h.1.1).2]
    exact ⟨⟨hkeep _ h.1.1, h.1.2⟩, h.2⟩
  | putCached job name =>
    show (t.Writes v _ ∧ _) ∧ _
    rw [SharedStore.Targets, hrows, (hwrites _ h.1.1).2]
    exact ⟨⟨hkeep _ h.1.1, h.1.2⟩, h.2⟩
  | commitStored job name =>
    obtain ⟨⟨hw, htargets⟩, hfile, hcached⟩ := h
    refine ⟨⟨?_, ?_⟩, ?_, ?_⟩
    · rw [hrows]
      exact hkeep _ hw
    · rwa [SharedStore.Targets, hrows]
    · rwa [(hwrites _ hw).2]
    · exact fun data hd => (hcache job name rfl data hd).elim (hcached data) id
  | dropFailed | rollback =>
    obtain ⟨rows, hw⟩ := h
    exact ⟨rows, hkeep rows hw⟩
  | deleteRow job =>
    show t.Writes v t.dataIndex ∧ _
    rw [hrows]
    exact ⟨hkeep _ h.1, h.2⟩
  | clearRows typeName keys =>
    show t.Writes v t.dataIndex ∧ _
    rw [hrows]
    exact ⟨hkeep _ h.1, h.2⟩
  | removeFile | removeType | clearEventLog | removeStore | commit =>
    obtain ⟨rows, hw, hshrinks⟩ := h
    exact ⟨rows, hkeep rows hw, by rwa [hrows]⟩

/-- A task that neither reads nor writes asserts nothing. -/
theorem Task.Asserts.of_idle (h : task.Asserts s v) (hreaders : v ∉ s.readers) (hwrites : ∀ rows, ¬ s.Writes v rows) :
    task.Asserts t v := by
  cases task with
  | idle => trivial
  | begin => trivial
  | getCached => trivial
  | query => trivial
  | endRead => trivial
  | dropCached => trivial
  | read => exact absurd h.1 hreaders
  | select | loadChangeInfo | selectRemove | selectFile | selectClear | resetRows => exact absurd h (hwrites _)
  | scope | openFile | writeFile | storeRow | deleteRow | clearRows => exact absurd h.1 (hwrites _)
  | commitFile | putCached | commitStored => exact absurd h.1.1 (hwrites _)
  | dropFailed | rollback => exact absurd h (not_exists.mpr hwrites)
  | removeFile | removeType | clearEventLog | removeStore | commit =>
    obtain ⟨rows, hw, -⟩ := h
    exact absurd hw (hwrites rows)

namespace SharedStore

theorem Inv.rest (h : s.Inv) (u : Thread) : s.Rest u (s.tasks u).Covers := by
  refine ⟨h.distinct, h.content, ?_, fun v _ => h.tasks v⟩
  intro key data hd
  rcases h.cached key data hd with hc | ⟨v, hv⟩
  · exact Or.inl hc
  · by_cases hu : v = u
    · exact Or.inr (Or.inl (hu ▸ hv))
    · exact Or.inr (Or.inr ⟨v, hu, hv⟩)

/-- The lock of the writer is held by one thread. -/
theorem Writes.unique {rows rows' : FileTable Data} (h : s.Writes u rows) (hv : v ≠ u) : ¬ s.Writes v rows' := by
  intro hw
  rw [Writes, h, Option.some.injEq, Prod.mk.injEq] at hw
  exact hv hw.1.symm

/-- The step ends with a task that answers for what the last one did. -/
theorem Rest.goto [DecidableEq Thread] (h : s.Rest u C) (hasserts : task.Asserts s u)
    (hC : ∀ key data, s.cache.Holds key data → C key data → Holds s.dataIndex key data ∨ task.Covers key data) :
    (s.goto u task).Inv := by
  have hself : (s.goto u task).tasks u = task := Function.update_self ..
  have hother : ∀ v, v ≠ u → (s.goto u task).tasks v = s.tasks v := fun v hv => Function.update_of_ne hv ..
  have hsame : ∀ {v} {task' : Task Data}, task'.Asserts s v → task'.Asserts (s.goto u task) v := fun hv =>
    hv.frame rfl id (fun _ _ => ⟨rfl, rfl⟩) fun _ _ _ _ hd => Or.inl hd
  refine ⟨h.distinct, h.content, ?_, ?_⟩
  · intro key data hd
    rcases h.cached key data hd with hc | hc | ⟨v, hv, hc⟩
    · exact Or.inl hc
    · rcases hC key data hd hc with hc | hc
      · exact Or.inl hc
      · exact Or.inr ⟨u, by rwa [hself]⟩
    · exact Or.inr ⟨v, by rwa [hother v hv]⟩
  · intro v
    by_cases hv : v = u
    · subst hv
      rw [hself]
      exact hsame hasserts
    · rw [hother v hv]
      exact hsame (h.tasks v hv)

/-- A step of the writer in its transaction. -/
theorem Rest.execute {rows : FileTable Data} (h : s.Rest u C) (hw : s.Writes u rows)
    (statement : FileTable Data → FileTable Data) :
    (s.execute statement).Rest u C ∧ (s.execute statement).Writes u (statement rows) := by
  refine ⟨⟨h.distinct, h.content, h.cached, fun v hv => ?_⟩, ?_⟩
  · exact (h.tasks v hv).frame rfl id (fun _ hv' => absurd hv' (hw.unique hv)) fun _ _ _ _ hd => Or.inl hd
  · show s.transaction.map _ = _
    rw [show s.transaction = some (u, rows) from hw]
    rfl

/-- A step of the writer that changes a file. -/
theorem Rest.setFile {rows : FileTable Data} {path : FilePath} {content : Option (Option Data)} {replaced : Bool}
    (h : s.Rest u C) (hw : s.Writes u rows)
    (hcontent : ∀ key fileName data, HasFile s.dataIndex key fileName → filePath key fileName = path →
      replaced = false → content = some (some data) → Holds s.dataIndex key data) :
    (s.setFile path content replaced).Rest u C := by
  refine ⟨h.distinct, ?_, h.cached, fun v hv => ?_⟩
  · intro key fileName data hf hreplaced hfile
    by_cases hp : filePath key fileName = path
    · rw [hp] at hreplaced hfile
      simp only [SharedStore.setFile, Function.update_self] at hreplaced hfile
      exact hcontent key fileName data hf hp hreplaced hfile
    · simp only [SharedStore.setFile, Function.update_of_ne hp] at hreplaced hfile
      exact h.content key fileName data hf hreplaced hfile
  · exact (h.tasks v hv).frame rfl id (fun _ hv' => absurd hv' (hw.unique hv)) fun _ _ _ _ hd => Or.inl hd

theorem Rest.removeFiles {rows : FileTable Data} (h : s.Rest u C) (hw : s.Writes u rows) (gone : FilePath → Bool) :
    (s.removeFiles gone).Rest u C := by
  refine ⟨h.distinct, ?_, h.cached, fun v hv => ?_⟩
  · intro key fileName data hf hreplaced hfile
    simp only [SharedStore.removeFiles] at hreplaced hfile
    split_ifs at hfile with hg
    rw [Bool.not_eq_true] at hg
    rw [hg, Bool.not_false, Bool.true_and] at hreplaced
    exact h.content key fileName data hf hreplaced hfile
  · exact (h.tasks v hv).frame rfl id (fun _ hv' => absurd hv' (hw.unique hv)) fun _ _ _ _ hd => Or.inl hd

/-- A call of the cache; other writers must keep their entries. -/
theorem Rest.setCache {cache : Cache ObjectKey Data} (h : s.Rest u C)
    (hcache : ∀ key data, cache.Holds key data → s.cache.Holds key data ∧ (C key data → C' key data) ∨
      Holds s.dataIndex key data ∨ C' key data)
    (hstored : ∀ v, v ≠ u → ∀ job name, s.tasks v = .commitStored job name → ∀ data, cache.Holds job.key data →
      s.cache.Holds job.key data ∨ data = job.data) : ({ s with cache } : SharedStore Thread Data).Rest u C' := by
  refine ⟨h.distinct, h.content, ?_, fun v hv => ?_⟩
  · intro key data hd
    rcases hcache key data hd with ⟨hd, hC⟩ | hd | hd
    · rcases h.cached key data hd with hc | hc | hc
      · exact Or.inl hc
      · exact Or.inr (Or.inl (hC hc))
      · exact Or.inr (Or.inr hc)
    · exact Or.inl hd
    · exact Or.inr (Or.inl hd)
  · exact (h.tasks v hv).frame rfl id (fun _ _ => ⟨rfl, rfl⟩) (hstored v hv)

/-- The writer commits when there is no reader. -/
theorem Rest.commit {rows : FileTable Data} {replaced : FilePath → Bool} (h : s.Rest u C) (hw : s.Writes u rows)
    (hreaders : s.readers = [])
    (hdistinct : ∀ key key' fileName fileName', HasFile rows key fileName → HasFile rows key' fileName' →
      filePath key fileName = filePath key' fileName' → key = key')
    (hcontent : ∀ key fileName data, HasFile rows key fileName → replaced (filePath key fileName) = false →
      s.files (filePath key fileName) = some (some data) → Holds rows key data)
    (hcached : ∀ key data, s.cache.Holds key data → Holds s.dataIndex key data ∨ C key data →
      Holds rows key data ∨ C' key data) :
    ({ s with dataIndex := rows, transaction := none, exclusive := false, replaced } :
      SharedStore Thread Data).Rest u C' := by
  refine ⟨hdistinct, hcontent, ?_, fun v hv => ?_⟩
  · intro key data hd
    rcases h.cached key data hd with hc | hc | hc
    · exact (hcached key data hd (Or.inl hc)).imp_right Or.inl
    · exact (hcached key data hd (Or.inr hc)).imp_right Or.inl
    · exact Or.inr (Or.inr hc)
  · exact (h.tasks v hv).of_idle (by simp [hreaders]) fun _ => hw.unique hv

theorem Rest.rollback {rows : FileTable Data} (h : s.Rest u C) (hw : s.Writes u rows) : s.rollback.Rest u C :=
  ⟨h.distinct, h.content, h.cached, fun v hv =>
    (h.tasks v hv).frame rfl id (fun _ hv' => absurd hv' (hw.unique hv)) fun _ _ _ _ hd => Or.inl hd⟩

theorem Rest.setReaders (h : s.Rest u C) (readers : List Thread) (hr : ∀ v, v ≠ u → v ∈ s.readers → v ∈ readers) :
    ({ s with readers } : SharedStore Thread Data).Rest u C :=
  ⟨h.distinct, h.content, h.cached, fun v hv =>
    (h.tasks v hv).frame rfl (hr v hv) (fun _ _ => ⟨rfl, rfl⟩) fun _ _ _ _ hd => Or.inl hd⟩

/-- The lock of the writer is free. -/
theorem Rest.beginWrite [DecidableEq Thread] {exclusive : Bool} (h : s.Rest u C) (ht : s.beginWrite u exclusive = some t) :
    t.Rest u C ∧ t.Writes u t.dataIndex := by
  simp only [SharedStore.beginWrite, Option.ite_none_right_eq_some, Option.some.injEq, Bool.and_eq_true,
    Option.isNone_iff_eq_none] at ht
  obtain ⟨⟨hfree, -⟩, rfl⟩ := ht
  refine ⟨⟨h.distinct, h.content, h.cached, fun v hv => ?_⟩, rfl⟩
  refine (h.tasks v hv).frame rfl id (fun rows hw => ?_) fun _ _ _ _ hd => Or.inl hd
  rw [Writes, hfree] at hw
  simp at hw

theorem Writes.rows_eq {rows : FileTable Data} (h : s.Writes u rows) : s.rows = rows := by
  rw [SharedStore.rows, show s.transaction = some (u, rows) from h]
  rfl

theorem Inv.at (h : s.Inv) (htask : s.tasks u = task) : s.Rest u task.Covers ∧ task.Asserts s u := by
  subst htask
  exact ⟨h.rest u, h.tasks u⟩

end SharedStore

end Steps

section Calls

variable {s : SharedStore Thread Data} {u : Thread} {key : ObjectKey} {job : Storing Data} {name : String}

theorem Operation.first_asserts (operation : Operation Data) (hw : operation.mode.isSome = true → s.Writes u s.dataIndex) :
    operation.first.Asserts s u := by
  cases operation with
  | load | loadAll | find => trivial
  | save | remove | clear | reset | startSync => exact hw rfl

namespace SharedStore

/-- The row of the key has a file that the call replaces, or none. -/
theorem Matches.inPlace (h : s.Matches job) :
    (job.inPlace = true → HasFile s.dataIndex job.key (job.name name)) ∧
      (job.inPlace = false → job.name name = name) := by
  obtain ⟨hexisting, hfile⟩ := h
  refine ⟨fun hi => ?_, fun hi => by simp [Storing.name, hi]⟩
  have hname : job.name name = job.fileName.getD name := by simp [Storing.name, hi]
  rw [Storing.inPlace, Bool.and_eq_true] at hi
  obtain ⟨fileName, hf⟩ := Option.isSome_iff_exists.mp hi.2
  obtain ⟨r, hr, hrf⟩ := Option.bind_eq_some_iff.mp (hfile.symm.trans hf)
  exact ⟨r, hr, by rw [hrf, hname, hf]; rfl⟩

theorem Matches.statement (h : s.Matches job) :
    job.statement name s.dataIndex = Function.update s.dataIndex job.key (some (job.row name)) := by
  rw [Storing.statement, h.1]
  split_ifs with hr
  · obtain ⟨r, hr⟩ := Option.isSome_iff_exists.mp hr
    rw [hr]
    rfl
  · rfl

theorem Matches.ofRow (info : FileInfo Data) (hinfo : info = .ofRow (s.dataIndex key)) (version : ℕ) (data : Data)
    (changed : Bool) :
    s.Matches ⟨key, version, info.fileName, data, changed, info.state != .NoExists, true⟩ := by
  subst hinfo
  rw [Matches]
  rcases s.dataIndex key with - | ⟨v, - | fileName, checksum, ch⟩ <;> exact ⟨rfl, rfl⟩

theorem exists_of_holds {info : FileInfo Data} (hinfo : info = .ofRow (s.dataIndex key)) {data : Data}
    (h : Holds s.dataIndex key data) : info.state = .Exists := by
  obtain ⟨⟨version, - | fileName, checksum, changed⟩, hr, hf, -⟩ := h
  · simp at hf
  · rw [hinfo, hr]
    rfl

end SharedStore

end Calls

/-! ### The steps of the operations -/

section Operations

variable [DecidableEq Thread] {size : Data → ℕ} {s t : SharedStore Thread Data} {u : Thread} {key : ObjectKey}
  {job : Storing Data} {name : String} {choice : Choice} {C : ObjectKey → Data → Prop}

namespace SharedStore

theorem inv_query {query : Query} (h : s.Inv) (htask : s.tasks u = .query query)
    (ha : ∀ typeName accepts, query = .select typeName accepts → ∀ x ∈ choice.found, HasFile s.dataIndex x.1 x.2)
    (ht : s.query u query choice = some t) : t.Inv := by
  have hrest := (h.at htask).1.setReaders (u :: s.readers) fun v _ hv => List.mem_cons_of_mem u hv
  unfold SharedStore.query at ht
  split_ifs at ht
  cases query with
  | load key =>
    simp only at ht
    split at ht
    · rename_i fileName hf
      obtain rfl := Option.some.inj ht
      refine hrest.goto ⟨List.mem_cons_self, ?_, by simp⟩ fun _ _ _ hc => hc.elim
      obtain ⟨r, hr, hrf⟩ := Option.bind_eq_some_iff.mp hf
      exact List.forall_mem_singleton.mpr ⟨r, hr, hrf⟩
    · obtain rfl := Option.some.inj ht
      exact hrest.goto trivial fun _ _ _ hc => hc.elim
  | select typeName accepts =>
    obtain rfl := Option.some.inj ht
    exact hrest.goto ⟨List.mem_cons_self, ha _ _ rfl, by simp⟩ fun _ _ _ hc => hc.elim

theorem inv_sync {info : FileInfo Data} {operation : SyncOperation Data} (h : s.Inv)
    (htask : s.tasks u = .scope key info) : (s.sync u key info operation).Inv := by
  obtain ⟨hrest, hw, hinfo⟩ := h.at htask
  cases operation with
  | storeChanged version data changed =>
    exact hrest.goto ⟨hw, Matches.ofRow info hinfo version data changed⟩ fun _ _ _ hc => hc.elim
  | storeDeleted version changed =>
    unfold SharedStore.sync
    simp only
    split_ifs with hs
    · exact hrest.goto hw fun _ _ _ hc => hc.elim
    · exact hrest.goto ⟨hw, fun _ hd => absurd (exists_of_holds hinfo hd) hs⟩ fun _ _ _ hc => hc.elim
  | updateVersion oldVersion newVersion changed =>
    obtain ⟨hrest, hw'⟩ := hrest.execute hw (updateVersion key oldVersion newVersion changed)
    exact hrest.goto ⟨_, hw', shrinks_updateVersion _ _ _⟩ fun _ _ _ hc => hc.elim
  | markUnchanged persistDeleted oldVersion isDelete =>
    obtain ⟨hrest, hw'⟩ := hrest.execute hw (markRow persistDeleted key oldVersion isDelete)
    exact hrest.goto ⟨_, hw', shrinks_markRow _ _ _⟩ fun _ _ _ hc => hc.elim

/-- A call of `storeChangedImpl` fails before it caches anything. -/
theorem Rest.fail {rows : FileTable Data} (h : s.Rest u fun _ _ => False) (hw : s.Writes u rows) :
    (s.fail u job name).Inv := by
  have hfailed : ∀ {t : SharedStore Thread Data}, t.Rest u (fun _ _ => False) → t.Writes u rows →
      (t.goto u job.failed).Inv := by
    intro t hrest hw'
    refine hrest.goto ?_ fun _ _ _ hc => hc.elim
    unfold Storing.failed
    split_ifs
    · exact ⟨rows, hw'⟩
    · exact ⟨rows, hw'⟩
  unfold SharedStore.fail
  split_ifs
  · exact hfailed h hw
  · exact hfailed (h.setFile hw (by simp)) hw

theorem inv_openFile (h : s.Inv) (htask : s.tasks u = .openFile job)
    (ha : job.inPlace = false → ∀ key fileName, HasFile s.dataIndex key fileName →
      filePath key fileName ≠ job.path choice.newName) :
    ((if job.inPlace then s else s.setFile (job.path (job.name choice.newName)) (some none) false).goto u
      (.writeFile job (job.name choice.newName))).Inv := by
  obtain ⟨hrest, hw, hmatches⟩ := h.at htask
  have htargets : s.Targets job (job.name choice.newName) := by
    intro key fileName hf hp
    by_cases hi : job.inPlace = true
    · exact ⟨h.distinct _ _ _ _ hf (hmatches.inPlace.1 hi) hp, hi⟩
    · rw [Bool.not_eq_true] at hi
      rw [hmatches.inPlace.2 hi] at hp
      exact absurd hp (ha hi key fileName hf)
  split_ifs
  · exact hrest.goto ⟨hw, hmatches, htargets⟩ fun _ _ _ hc => hc.elim
  · exact (hrest.setFile hw (by simp)).goto ⟨hw, hmatches, htargets⟩ fun _ _ _ hc => hc.elim

theorem inv_writeFile (h : s.Inv) (htask : s.tasks u = .writeFile job name) :
    ((if job.inPlace then s else s.setFile (job.path name) (some (some job.data)) false).goto u
      (.storeRow job name)).Inv := by
  obtain ⟨hrest, hw, hmatches, htargets⟩ := h.at htask
  split_ifs with hi
  · refine hrest.goto ⟨hw, hmatches, htargets, fun hi' => ?_⟩ fun _ _ _ hc => hc.elim
    exact absurd (hi.symm.trans hi') (by simp)
  · refine (hrest.setFile hw ?_).goto ⟨hw, hmatches, htargets, fun _ => Function.update_self ..⟩
      fun _ _ _ hc => hc.elim
    exact fun key fileName _ hf hp _ _ => absurd (htargets key fileName hf hp).2 hi

theorem inv_commitFile (h : s.Inv) (htask : s.tasks u = .commitFile job name) :
    ((if job.inPlace then s.setFile (job.path name) (some (some job.data)) true else s).goto u
      (.putCached job name)).Inv := by
  obtain ⟨hrest, hstores, hwritten⟩ := h.at htask
  split_ifs with hi
  · exact (hrest.setFile hstores.1 (by simp)).goto ⟨hstores, Function.update_self ..⟩ fun _ _ _ hc => hc.elim
  · exact hrest.goto ⟨hstores, hwritten (by simpa using hi)⟩ fun _ _ _ hc => hc.elim

/-- The entry of a writer replaces the one before. -/
theorem inv_putCached (h : s.Inv) (htask : s.tasks u = .putCached job name) :
    (({ s with cache := putCached size s.cache [(job.key, job.data)] } : SharedStore Thread Data).goto u
      (.commitStored job name)).Inv := by
  obtain ⟨hrest, hstores, hfile⟩ := h.at htask
  have hput : ∀ {key data}, (putCached size s.cache [(job.key, job.data)]).Holds key data →
      key = job.key ∧ data = job.data ∨ s.cache.Holds key data ∧ job.key ≠ key := by
    intro key data hd
    rcases holds_putCached hd with hm | ⟨hc, hne⟩
    · rw [List.mem_singleton, Prod.mk.injEq] at hm
      exact Or.inl hm
    · exact Or.inr ⟨hc, hne _ (List.mem_singleton_self _)⟩
  refine Rest.goto (C := (Task.commitStored job name).Covers) ?_ ⟨hstores, hfile, ?_⟩ fun _ _ _ hc => Or.inr hc
  · refine hrest.setCache ?_ ?_
    · intro key data hd
      rcases hput hd with hc | ⟨hc, -⟩
      · exact Or.inr (Or.inr hc)
      · exact Or.inl ⟨hc, fun hf => hf.elim⟩
    · intro v hv job' name' htask'
      exact absurd (h.at htask').2.1.1 (hstores.1.unique hv)
  · intro data hd
    rcases hput hd with ⟨-, hdata⟩ | ⟨-, hne⟩
    · exact hdata
    · exact absurd rfl hne

/-- The transaction of a store operation is committed. -/
theorem inv_commitStored (h : s.Inv) (htask : s.tasks u = .commitStored job name) (hreaders : s.readers = []) :
    (({ s with
      dataIndex := s.rows
      transaction := none
      exclusive := false
      replaced := Function.update s.replaced (job.path name) false } : SharedStore Thread Data).goto u .idle).Inv := by
  obtain ⟨hrest, ⟨hw, htargets⟩, hfile, hcached⟩ := h.at htask
  have hrow : ∀ {key fileName}, HasFile (Function.update s.dataIndex job.key (some (job.row name))) key fileName →
      key = job.key ∧ filePath key fileName = job.path name ∨ key ≠ job.key ∧ HasFile s.dataIndex key fileName := by
    rintro key fileName ⟨r, hr, hf⟩
    by_cases hk : key = job.key
    · subst hk
      rw [Function.update_self, Option.some.injEq] at hr
      subst hr
      obtain rfl := Option.some.inj hf
      exact Or.inl ⟨rfl, rfl⟩
    · rw [Function.update_of_ne hk] at hr
      exact Or.inr ⟨hk, r, hr, hf⟩
  have hstored : Holds (Function.update s.dataIndex job.key (some (job.row name))) job.key job.data :=
    ⟨job.row name, Function.update_self .., rfl, rfl⟩
  have hother : ∀ {key data}, key ≠ job.key → Holds s.dataIndex key data →
      Holds (Function.update s.dataIndex job.key (some (job.row name))) key data := by
    rintro key data hk ⟨r, hr, hrest⟩
    exact ⟨r, by rw [Function.update_of_ne hk, hr], hrest⟩
  rw [hw.rows_eq]
  refine (hrest.commit hw hreaders ?_ ?_ ?_).goto (C := fun _ _ => False) trivial fun _ _ _ hc => hc.elim
  · intro key key' fileName fileName' hf hf' hp
    rcases hrow hf with ⟨hk, hpath⟩ | ⟨hk, hf⟩
    · rcases hrow hf' with ⟨hk', -⟩ | ⟨hk', hf'⟩
      · exact hk.trans hk'.symm
      · exact absurd (htargets key' fileName' hf' (hp.symm.trans hpath)).1 hk'
    · rcases hrow hf' with ⟨-, hpath'⟩ | ⟨-, hf'⟩
      · exact absurd (htargets key fileName hf (hp.trans hpath')).1 hk
      · exact h.distinct _ _ _ _ hf hf' hp
  · intro key fileName data hf hreplaced hdata
    rcases hrow hf with ⟨hk, hpath⟩ | ⟨hk, hf⟩
    · rw [hpath, hfile, Option.some.injEq, Option.some.injEq] at hdata
      rw [hk, ← hdata]
      exact hstored
    · have hne : filePath key fileName ≠ job.path name := fun hp => hk (htargets key fileName hf hp).1
      rw [Function.update_of_ne hne] at hreplaced
      exact hother hk (h.content key fileName data hf hreplaced hdata)
  · intro key data hd hc
    by_cases hk : key = job.key
    · subst hk
      rw [hcached data hd]
      exact Or.inl hstored
    · rcases hc with hc | hc
      · exact Or.inl (hother hk hc)
      · exact absurd hc.1 hk

/-- A transaction that loses content is committed. -/
theorem inv_commit {drop : Drop} (h : s.Inv) (htask : s.tasks u = .commit drop) (hreaders : s.readers = []) :
    (({ s with dataIndex := s.rows, transaction := none, exclusive := false } : SharedStore Thread Data).goto u
      (.dropCached drop)).Inv := by
  obtain ⟨hrest, rows, hw, hshrinks⟩ := h.at htask
  rw [hw.rows_eq]
  refine (hrest.commit hw hreaders ?_ ?_ ?_).goto (C := (Task.dropCached drop).Covers) trivial
    fun _ _ _ hc => Or.inr hc
  · exact fun key key' fileName fileName' hf hf' =>
      h.distinct key key' fileName fileName' (hshrinks.hasFile hf) (hshrinks.hasFile hf')
  · intro key fileName data hf hreplaced hdata
    obtain ⟨r, hr, hrf, hc⟩ := h.content key fileName data (hshrinks.hasFile hf) hreplaced hdata
    obtain ⟨r', hr', hf'⟩ := hf
    obtain ⟨r'', hr'', hfile, hchecksum⟩ := hshrinks.kept key r' hr' (by simp [hf'])
    obtain rfl := Option.some.inj (hr.symm.trans hr'')
    exact ⟨r', hr', by simp [hf'], hchecksum.symm.trans hc⟩
  · intro key data _ hc
    rcases hc with hc | hc
    · exact hshrinks.dropped key data hc
    · exact hc.elim

/-- What a task answers for is dropped. -/
theorem inv_dropCached {drop : Drop} {task task' : Task Data} (h : s.Inv) (htask : s.tasks u = task)
    (hcovers : ∀ key data, task.Covers key data → drop.Covers key) (hasserts : task'.Asserts s u) :
    (({ s with cache := dropCached s.cache drop } : SharedStore Thread Data).goto u task').Inv := by
  have hkeeps : task'.Asserts ({ s with cache := dropCached s.cache drop } : SharedStore Thread Data) u :=
    hasserts.frame rfl id (fun _ _ => ⟨rfl, rfl⟩) fun _ _ _ _ hd => Or.inl (holds_dropCached hd).1
  refine Rest.goto (C := fun _ _ => False) ?_ hkeeps fun _ _ _ hc => hc.elim
  refine (h.at htask).1.setCache ?_ fun _ _ _ _ _ _ hd => Or.inl (holds_dropCached hd).1
  intro key data hd
  exact Or.inl ⟨(holds_dropCached hd).1, fun hc => (holds_dropCached hd).2 (hcovers key data hc)⟩

/-- A step that leaves the shared state. -/
theorem Inv.goto {task task' : Task Data} (h : s.Inv) (htask : s.tasks u = task)
    (hcovers : ∀ key data, task.Covers key data → task'.Covers key data) (hasserts : task'.Asserts s u) :
    (s.goto u task').Inv :=
  (h.at htask).1.goto hasserts fun _ _ _ hc => Or.inr (hcovers _ _ hc)

theorem inv_begin {operation : Operation Data} (h : s.Inv) (htask : s.tasks u = .begin operation)
    (ht : (match operation.mode with
      | none => some (s.goto u operation.first)
      | some exclusive => (s.beginWrite u exclusive).map (·.goto u operation.first)) = some t) : t.Inv := by
  split at ht
  · rename_i hmode
    obtain rfl := Option.some.inj ht
    exact h.goto htask (fun _ _ hc => hc.elim) (operation.first_asserts (by simp [hmode]))
  · obtain ⟨s', hs', rfl⟩ := Option.map_eq_some_iff.mp ht
    obtain ⟨hrest, hw⟩ := (h.at htask).1.beginWrite hs'
    exact hrest.goto (operation.first_asserts fun _ => hw) fun _ _ _ hc => hc.elim

theorem inv_getCached {task' : Task Data} (h : s.Inv) (htask : s.tasks u = .getCached key)
    (hasserts : task' = .idle ∨ task' = .begin (.load key)) :
    (({ s with cache := (s.cache.object key).2 } : SharedStore Thread Data).goto u task').Inv := by
  refine Rest.goto (C := fun _ _ => False) ((h.at htask).1.setCache ?_ ?_) ?_ fun _ _ _ hc => hc.elim
  · exact fun key' data hd => Or.inl ⟨Cache.holds_object hd, id⟩
  · exact fun _ _ _ _ _ _ hd => Or.inl (Cache.holds_object hd)
  · rcases hasserts with rfl | rfl <;> trivial

/-- A file is read that no transaction has replaced. -/
theorem inv_readFile {fileName : String} {files : List (ObjectKey × String)} {data : List (ObjectKey × Data)}
    (h : s.Inv) (htask : s.tasks u = .read ((key, fileName) :: files) data)
    (hg : s.replaced (filePath key fileName) = false)
    (ht : (match s.files (filePath key fileName) with
      | some (some d) => some (s.goto u (.read files (data ++ [(key, d)])))
      | _ => some (s.goto u .endRead)) = some t) : t.Inv := by
  obtain ⟨-, hreader, hfiles, hread⟩ := h.at htask
  rw [List.forall_mem_cons] at hfiles
  split at ht
  · rename_i d hd
    obtain rfl := Option.some.inj ht
    refine h.goto htask (fun _ _ hc => hc) ⟨hreader, hfiles.2, ?_⟩
    exact List.forall_mem_append.mpr
      ⟨hread, List.forall_mem_singleton.mpr (h.content key fileName d hfiles.1 hg hd)⟩
  · obtain rfl := Option.some.inj ht
    exact h.goto htask (fun _ _ hc => hc) trivial

/-- What was read is cached before a writer has cached its key. -/
theorem inv_putRead {data : List (ObjectKey × Data)} (h : s.Inv) (htask : s.tasks u = .read [] data)
    (hg : ∀ v job name, s.tasks v = .commitStored job name → ∀ x ∈ data, x.1 ≠ job.key) :
    (({ s with cache := putCached size s.cache data } : SharedStore Thread Data).goto u .endRead).Inv := by
  obtain ⟨hrest, -, -, hread⟩ := h.at htask
  refine Rest.goto (C := fun _ _ => False) (hrest.setCache ?_ ?_) trivial fun _ _ _ hc => hc.elim
  · intro key d hd
    rcases holds_putCached hd with hm | ⟨hc, -⟩
    · exact Or.inr (Or.inl (hread _ hm))
    · exact Or.inl ⟨hc, id⟩
  · intro v _ job name hv d hd
    rcases holds_putCached hd with hm | ⟨hc, -⟩
    · exact absurd rfl (hg v job name hv _ hm)
    · exact Or.inl hc

theorem inv_endRead (h : s.Inv) (htask : s.tasks u = .endRead)
    (ht : s.next size (u, .proceed choice) = some t) : t.Inv := by
  simp only [SharedStore.next, htask] at ht
  obtain rfl := Option.some.inj ht
  refine Rest.goto (C := fun _ _ => False) ((h.at htask).1.setReaders _ ?_) trivial fun _ _ _ hc => hc.elim
  exact fun v hv hr => List.mem_filter.mpr ⟨hr, by simpa using hv⟩

theorem inv_select {data : Data} (h : s.Inv) (htask : s.tasks u = .select key data)
    (ht : s.next size (u, .proceed choice) = some t) : t.Inv := by
  have hw : s.Writes u s.dataIndex := (h.at htask).2
  simp only [SharedStore.next, htask, hw.rows_eq] at ht
  obtain rfl := Option.some.inj ht
  exact h.goto htask (fun _ _ hc => hc) ⟨hw, rfl, rfl⟩

theorem inv_loadChangeInfo (h : s.Inv) (htask : s.tasks u = .loadChangeInfo key)
    (ht : s.next size (u, .proceed choice) = some t) : t.Inv := by
  have hw : s.Writes u s.dataIndex := (h.at htask).2
  simp only [SharedStore.next, htask, hw.rows_eq] at ht
  obtain rfl := Option.some.inj ht
  exact h.goto htask (fun _ _ hc => hc) ⟨hw, rfl⟩

theorem inv_scope {info : FileInfo Data} (h : s.Inv) (htask : s.tasks u = .scope key info)
    (ht : s.next size (u, .proceed choice) = some t) : t.Inv := by
  simp only [SharedStore.next, htask] at ht
  obtain rfl := Option.some.inj ht
  exact h.goto htask (fun _ _ hc => hc) ⟨_, (h.at htask).2.1, Shrinks.refl⟩

theorem inv_storeRow (h : s.Inv) (htask : s.tasks u = .storeRow job name)
    (ht : s.next size (u, .proceed choice) = some t) : t.Inv := by
  obtain ⟨hrest, hw, hmatches, htargets, hwritten⟩ := h.at htask
  simp only [SharedStore.next, htask] at ht
  obtain rfl := Option.some.inj ht
  obtain ⟨hrest, hw'⟩ := hrest.execute hw (job.statement name)
  rw [hmatches.statement] at hw'
  exact hrest.goto ⟨⟨hw', htargets⟩, hwritten⟩ fun _ _ _ hc => hc.elim

theorem inv_selectRemove (h : s.Inv) (htask : s.tasks u = .selectRemove key)
    (ht : s.next size (u, .proceed choice) = some t) : t.Inv := by
  have hw : s.Writes u s.dataIndex := (h.at htask).2
  simp only [SharedStore.next, htask] at ht
  split at ht
  · obtain rfl := Option.some.inj ht
    exact h.goto htask (fun _ _ hc => hc) ⟨hw, fun _ _ => rfl⟩
  · obtain rfl := Option.some.inj ht
    exact h.goto htask (fun _ _ hc => hc) ⟨_, hw, Shrinks.refl⟩

theorem inv_selectFile {version : ℕ} {changed : Bool} (h : s.Inv) (htask : s.tasks u = .selectFile key version changed)
    (ht : s.next size (u, .proceed choice) = some t) : t.Inv := by
  simp only [SharedStore.next, htask] at ht
  obtain rfl := Option.some.inj ht
  exact h.goto htask (fun _ _ hc => hc) ⟨(h.at htask).2, fun _ _ => rfl⟩

theorem inv_deleteRow {job : Deleting} (h : s.Inv) (htask : s.tasks u = .deleteRow job)
    (ht : s.next size (u, .proceed choice) = some t) : t.Inv := by
  obtain ⟨hrest, hw, hexists⟩ := h.at htask
  simp only [SharedStore.next, htask] at ht
  obtain rfl := Option.some.inj ht
  obtain ⟨hrest, hw'⟩ := hrest.execute hw job.statement
  exact hrest.goto ⟨_, hw', shrinks_statement hexists⟩ fun _ _ _ hc => hc.elim

theorem inv_removeFile {job : Deleting} (h : s.Inv) (htask : s.tasks u = .removeFile job)
    (ht : s.next size (u, .proceed choice) = some t) : t.Inv := by
  obtain ⟨hrest, rows, hw, hshrinks⟩ := h.at htask
  simp only [SharedStore.next, htask] at ht
  split at ht
  · split_ifs at ht
    · obtain rfl := Option.some.inj ht
      exact h.goto htask (fun _ _ hc => hc) ⟨rows, hw⟩
    · obtain rfl := Option.some.inj ht
      exact (hrest.setFile hw (by simp)).goto ⟨rows, hw, hshrinks⟩ fun _ _ _ hc => hc.elim
  · obtain rfl := Option.some.inj ht
    exact h.goto htask (fun _ _ hc => hc) ⟨rows, hw, hshrinks⟩

theorem inv_clearRows {typeName : QByteArray} {keys : List ObjectKey} (h : s.Inv)
    (htask : s.tasks u = .clearRows typeName keys) (ht : s.next size (u, .proceed choice) = some t) : t.Inv := by
  obtain ⟨hrest, hw, hkeys⟩ := h.at htask
  simp only [SharedStore.next, htask] at ht
  obtain rfl := Option.some.inj ht
  obtain ⟨hrest, hw'⟩ := hrest.execute hw (clearRow typeName)
  exact hrest.goto ⟨_, hw', shrinks_clearRow hkeys⟩ fun _ _ _ hc => hc.elim

theorem inv_removeFiles {drop : Drop} (hrest : s.Rest u fun _ _ => False) (hdeletes : s.Deletes u drop) :
    ((s.removeFiles choice.gone).goto u (.commit drop)).Inv := by
  obtain ⟨rows, hw, hshrinks⟩ := hdeletes
  exact (hrest.removeFiles hw choice.gone).goto ⟨rows, hw, hshrinks⟩ fun _ _ _ hc => hc.elim

theorem inv_removeType {typeName : QByteArray} {keys : List ObjectKey} (h : s.Inv)
    (htask : s.tasks u = .removeType typeName keys) (ht : s.next size (u, .proceed choice) = some t) : t.Inv := by
  obtain ⟨hrest, hdeletes⟩ := h.at htask
  simp only [SharedStore.next, htask] at ht
  obtain rfl := Option.some.inj ht
  exact inv_removeFiles hrest hdeletes

theorem inv_removeStore (h : s.Inv) (htask : s.tasks u = .removeStore)
    (ht : s.next size (u, .proceed choice) = some t) : t.Inv := by
  obtain ⟨hrest, hdeletes⟩ := h.at htask
  simp only [SharedStore.next, htask] at ht
  obtain rfl := Option.some.inj ht
  exact inv_removeFiles hrest hdeletes

theorem inv_resetRows {keepData : Bool} (h : s.Inv) (htask : s.tasks u = .resetRows keepData)
    (ht : s.next size (u, .proceed choice) = some t) : t.Inv := by
  obtain ⟨hrest, hw⟩ := h.at htask
  simp only [SharedStore.next, htask] at ht
  cases keepData with
  | true =>
    obtain rfl := Option.some.inj ht
    obtain ⟨hrest, hw'⟩ := hrest.execute hw fun rows key => (rows key).map fun r => { r with changed := true }
    exact hrest.goto ⟨_, hw', shrinks_map (fun _ _ => rfl) fun _ _ => rfl⟩ fun _ _ _ hc => hc.elim
  | false =>
    obtain rfl := Option.some.inj ht
    obtain ⟨hrest, hw'⟩ := hrest.execute hw fun _ _ => none
    exact hrest.goto ⟨_, hw', by simp, fun _ _ _ => Or.inr trivial⟩ fun _ _ _ hc => hc.elim

theorem inv_rollback (h : s.Inv) (htask : s.tasks u = .rollback)
    (ht : s.next size (u, .proceed choice) = some t) : t.Inv := by
  obtain ⟨hrest, rows, hw⟩ := h.at htask
  simp only [SharedStore.next, htask] at ht
  obtain rfl := Option.some.inj ht
  exact (hrest.rollback hw).goto trivial fun _ _ _ hc => hc.elim

/-- A step fails. -/
theorem Inv.fail (h : s.Inv) (hg : s.Ordered (u, .fail)) (ht : s.next size (u, .fail) = some t) : t.Inv := by
  have hrollback : ∀ {task : Task Data} {rows : FileTable Data}, s.tasks u = task →
      (∀ key data, ¬ task.Covers key data) → s.Writes u rows → (s.goto u .rollback).Inv := fun htask hC hw =>
    h.goto htask (fun key data hc => absurd hc (hC key data)) ⟨_, hw⟩
  simp only [Ordered] at hg
  simp only [SharedStore.next] at ht
  cases htask : s.tasks u with
  | idle | getCached | endRead | putCached | dropFailed | removeStore | dropCached | rollback => simp [htask] at ht
  | begin | query =>
    simp only [htask] at ht
    obtain rfl := Option.some.inj ht
    exact h.goto htask (fun _ _ hc => hc) trivial
  | read files data =>
    simp only [htask] at ht
    rcases files with - | ⟨⟨key, fileName⟩, files⟩ <;> obtain rfl := Option.some.inj ht <;>
      exact h.goto htask (fun _ _ hc => hc) trivial
  | select =>
    simp only [htask] at ht
    obtain rfl := Option.some.inj ht
    exact h.goto htask (fun _ _ hc => hc.elim) ⟨_, (h.at htask).2⟩
  | loadChangeInfo | selectRemove | selectFile | selectClear =>
    simp only [htask] at ht
    obtain rfl := Option.some.inj ht
    exact hrollback htask (fun _ _ => id) (h.at htask).2
  | resetRows keepData =>
    simp only [htask] at ht
    cases keepData <;> obtain rfl := Option.some.inj ht <;> exact hrollback htask (fun _ _ => id) (h.at htask).2
  | scope | deleteRow | clearRows =>
    simp only [htask] at ht
    obtain rfl := Option.some.inj ht
    exact hrollback htask (fun _ _ => id) (h.at htask).2.1
  | openFile job =>
    simp only [htask] at ht
    obtain rfl := Option.some.inj ht
    refine h.goto htask (fun _ _ hc => hc.elim) ?_
    unfold Storing.failed
    split_ifs <;> exact ⟨_, (h.at htask).2.1⟩
  | writeFile | storeRow =>
    simp only [htask] at ht
    obtain rfl := Option.some.inj ht
    exact (h.at htask).1.fail (h.at htask).2.1
  | commitFile =>
    simp only [htask] at ht
    obtain rfl := Option.some.inj ht
    exact (h.at htask).1.fail (h.at htask).2.1.1
  | commitStored job name =>
    simp only [htask] at hg ht
    obtain rfl := Option.some.inj ht
    rw [Storing.failed, if_neg (by simp [hg])]
    exact h.goto htask (fun _ _ hc => hc.1) ⟨_, (h.at htask).2.1.1⟩
  | removeFile | removeType | clearEventLog | commit =>
    obtain ⟨-, rows, hw, -⟩ := h.at htask
    simp only [htask] at ht
    obtain rfl := Option.some.inj ht
    exact hrollback htask (fun _ _ => id) hw

/-- A step does what it is there for. -/
theorem Inv.proceed (h : s.Inv) (ha : s.Answers (u, .proceed choice)) (hg : s.Ordered (u, .proceed choice))
    (ht : s.next size (u, .proceed choice) = some t) : t.Inv := by
  simp only [Answers, Ordered] at ha hg
  cases htask : s.tasks u with
  | idle => simp [SharedStore.next, htask] at ht
  | begin operation =>
    simp only [SharedStore.next, htask] at ht
    exact inv_begin h htask ht
  | getCached key =>
    simp only [SharedStore.next, htask] at ht
    obtain rfl := Option.some.inj ht
    exact inv_getCached h htask (by split_ifs <;> simp)
  | query query =>
    simp only [SharedStore.next, htask] at ha ht
    refine inv_query h htask ?_ ht
    rintro typeName accepts rfl x hx
    exact ((ha.2 x.1 x.2).mp hx).2.2
  | read files data =>
    simp only [SharedStore.next, htask] at hg ht
    rcases files with - | ⟨⟨key, fileName⟩, files⟩
    · obtain rfl := Option.some.inj ht
      exact inv_putRead h htask hg
    · exact inv_readFile h htask hg ht
  | endRead => exact inv_endRead h htask ht
  | select key data => exact inv_select h htask ht
  | loadChangeInfo key => exact inv_loadChangeInfo h htask ht
  | scope key info => exact inv_scope h htask ht
  | openFile job =>
    simp only [SharedStore.next, htask] at ha ht
    obtain rfl := Option.some.inj ht
    exact inv_openFile h htask fun hi => (ha hi).2
  | writeFile job name =>
    simp only [SharedStore.next, htask] at ht
    obtain rfl := Option.some.inj ht
    exact inv_writeFile h htask
  | storeRow job name => exact inv_storeRow h htask ht
  | commitFile job name =>
    simp only [SharedStore.next, htask] at ht
    obtain rfl := Option.some.inj ht
    exact inv_commitFile h htask
  | putCached job name =>
    simp only [SharedStore.next, htask] at ht
    obtain rfl := Option.some.inj ht
    exact inv_putCached h htask
  | commitStored job name =>
    simp only [SharedStore.next, htask, SharedStore.commit, Option.map_eq_some_iff, Option.ite_none_right_eq_some,
      Option.some.injEq, List.isEmpty_iff] at ht
    obtain ⟨-, ⟨hreaders, rfl⟩, rfl⟩ := ht
    exact inv_commitStored h htask hreaders
  | dropFailed key =>
    simp only [SharedStore.next, htask] at ht
    obtain rfl := Option.some.inj ht
    exact inv_dropCached h htask (fun _ _ hc => List.mem_singleton.mpr hc) (h.at htask).2
  | selectRemove key => exact inv_selectRemove h htask ht
  | selectFile key version changed => exact inv_selectFile h htask ht
  | deleteRow job => exact inv_deleteRow h htask ht
  | removeFile job => exact inv_removeFile h htask ht
  | selectClear typeName =>
    simp only [SharedStore.next, htask] at ha ht
    obtain rfl := Option.some.inj ht
    exact h.goto htask (fun _ _ hc => hc) ⟨(h.at htask).2, fun key hk hf => (ha key).mpr ⟨hk, hf⟩⟩
  | clearRows typeName keys => exact inv_clearRows h htask ht
  | removeType typeName keys => exact inv_removeType h htask ht
  | removeStore => exact inv_removeStore h htask ht
  | resetRows keepData => exact inv_resetRows h htask ht
  | clearEventLog =>
    simp only [SharedStore.next, htask] at ht
    obtain rfl := Option.some.inj ht
    exact h.goto htask (fun _ _ hc => hc) (h.at htask).2
  | commit drop =>
    simp only [SharedStore.next, htask, SharedStore.commit, Option.map_eq_some_iff, Option.ite_none_right_eq_some,
      Option.some.injEq, List.isEmpty_iff] at ht
    obtain ⟨-, ⟨hreaders, rfl⟩, rfl⟩ := ht
    exact inv_commit h htask hreaders
  | dropCached drop =>
    simp only [SharedStore.next, htask] at ht
    obtain rfl := Option.some.inj ht
    exact inv_dropCached h htask (fun _ _ hc => hc) trivial
  | rollback => exact inv_rollback h htask ht

/-- Every step that meets the condition keeps the invariant. -/
theorem Inv.next {move : Move Data} (h : s.Inv) (ha : s.Answers (u, move)) (hg : s.Ordered (u, move))
    (ht : s.next size (u, move) = some t) : t.Inv := by
  cases move with
  | call operation =>
    simp only [SharedStore.next] at ht
    cases htask : s.tasks u with
    | idle =>
      simp only [htask] at ht
      cases operation <;> obtain rfl := Option.some.inj ht <;> exact h.goto htask (fun _ _ hc => hc) trivial
    | read files data => rcases files with - | ⟨⟨key, fileName⟩, files⟩ <;> simp [htask] at ht
    | _ => simp [htask] at ht
  | sync operation =>
    simp only [SharedStore.next] at ht
    cases htask : s.tasks u with
    | scope key info =>
      simp only [htask] at ht
      obtain rfl := Option.some.inj ht
      exact inv_sync h htask
    | read files data => rcases files with - | ⟨⟨key, fileName⟩, files⟩ <;> simp [htask] at ht
    | _ => simp [htask] at ht
  | proceed choice => exact h.proceed ha hg ht
  | fail => exact h.fail hg ht

omit [DecidableEq Thread] in
theorem Inv.init (h : Init s) : s.Inv := by
  refine ⟨h.distinct, h.content, ?_, fun v => by rw [h.tasks v]; trivial⟩
  rintro key data ⟨cost, hc⟩
  rw [h.cache] at hc
  simp at hc

omit [DecidableEq Thread] in
theorem Inv.coherent (h : s.Inv) (hq : s.Quiescent) : s.Coherent := by
  intro key data hd
  rcases h.cached key data hd with hc | ⟨v, hc⟩
  · exact hc
  · rw [hq v] at hc
    exact hc.elim

end SharedStore

end Operations

namespace SharedStore

/-- If readers and writers come in order and the commits of scopes do not fail, the cache is coherent whenever no
operation is in progress. -/
theorem cache_coherent [DecidableEq Thread] {size : Data → ℕ} {s : SharedStore Thread Data}
    (h : (lts size).Reachable (fun s move => s.Answers move ∧ s.Ordered move) s) (hq : s.Quiescent) : s.Coherent := by
  refine Inv.coherent (LTS.Reachable.invariant (I := Inv) ?_ ?_ h) hq
  · exact fun _ h0 => Inv.init h0
  · exact fun s a t _ hs hg hst => hs.next hg.1 hg.2 hst

/-! ### A reader and a writer -/

namespace Sample

def key : ObjectKey := ⟨[1], "1"⟩

/-- One object with the content 1. -/
def stored : SharedStore Bool ℕ where
  dataIndex := Function.update (fun _ => none) key (some ⟨1, some "a", some 1, false⟩)
  transaction := none
  exclusive := false
  readers := []
  files := Function.update (fun _ => none) (filePath key "a") (some (some 1))
  replaced := fun _ => false
  cache := ⟨10, []⟩
  tasks := fun _ => .idle

theorem hasFile_stored {key' : ObjectKey} {fileName : String} (h : HasFile stored.dataIndex key' fileName) :
    key' = key ∧ fileName = "a" := by
  obtain ⟨r, hr, hf⟩ := h
  by_cases hk : key' = key
  · subst hk
    obtain rfl := Option.some.inj hr
    exact ⟨rfl, (Option.some.inj hf).symm⟩
  · simp [stored, Function.update_of_ne hk] at hr

theorem init_stored : Init stored := by
  refine ⟨fun _ => rfl, rfl, rfl, ?_, ?_⟩
  · exact fun key' key'' _ _ hf hf' _ => (hasFile_stored hf).1.trans (hasFile_stored hf').1.symm
  · intro key' fileName data hf _ hdata
    obtain ⟨rfl, rfl⟩ := hasFile_stored hf
    simp only [stored, Function.update_self, Option.some.injEq] at hdata
    subst hdata
    exact ⟨_, rfl, rfl, rfl⟩

def proceed : Move ℕ := .proceed ⟨[], "", fun _ => false⟩

/-- The reader reads the object. -/
def reads : List (Bool × Move ℕ) := [(false, .call (.load key))] ++ List.replicate 4 (false, proceed)

/-- The reader caches it and is done. -/
def caches : List (Bool × Move ℕ) := List.replicate 2 (false, proceed)

/-- The writer saves the content 2, until it waits for the readers. -/
def saves : List (Bool × Move ℕ) := [(true, .call (.save key 2))] ++ List.replicate 7 (true, proceed)

def commits : List (Bool × Move ℕ) := [(true, proceed)]

/-- Steps that find nothing that has to be looked up. -/
def answered (s : SharedStore Bool ℕ) (move : Bool × Move ℕ) : Bool :=
  match s.tasks move.1 with
  | .openFile job => job.inPlace
  | .query (.select _ _) | .selectClear _ | .removeType _ _ => false
  | _ => true

theorem answers_of_answered (s : SharedStore Bool ℕ) (move : Bool × Move ℕ) (h : answered s move = true) :
    s.Answers move := by
  obtain ⟨u, move⟩ := move
  unfold answered at h
  unfold Answers
  split at h
  · rename_i htask
    rw [show s.tasks u = _ from htask]
    cases move <;> simp [h]
  all_goals simp_all

/-- Steps in order, where the other thread does nothing when one fills the cache. -/
def ordered (s : SharedStore Bool ℕ) (move : Bool × Move ℕ) : Bool :=
  match s.tasks move.1, s.tasks (!move.1) with
  | .read ((key, fileName) :: _) _, _ => !s.replaced (filePath key fileName)
  | .read [] _, .idle => true
  | .read [] _, _ => false
  | .commitStored job _, _ => !job.inScope
  | _, _ => true

theorem ordered_of_ordered (s : SharedStore Bool ℕ) (move : Bool × Move ℕ) (h : ordered s move = true) :
    s.Ordered move := by
  obtain ⟨u, move⟩ := move
  cases htask : s.tasks u with
  | read files data =>
    rcases files with - | ⟨x, files⟩
    · cases hother : s.tasks !u with
      | idle =>
        simp only [Ordered, htask]
        cases move with
        | proceed choice =>
          intro v job name hv
          rcases Bool.eq_or_eq_not v u with rfl | rfl
          · simp [htask] at hv
          · simp [hother] at hv
        | _ => trivial
      | _ => simp [ordered, htask, hother] at h
    · cases move <;> simp_all [ordered, Ordered]
  | commitStored job name => cases move <;> simp_all [ordered, Ordered]
  | _ => simp [Ordered, htask]

/-- The content 1 is read and cached, and then the content 2 is saved. -/
def saved : SharedStore Bool ℕ :=
  (LTS.exec (next fun _ => 1) (fun s move => answered s move && ordered s move) stored
    (reads ++ caches ++ saves ++ commits)).get (by decide +kernel)

end Sample

attribute [local semireducible] dataDirectory in
theorem cache_coherent_saved : Sample.saved.cache.entries = [(Sample.key, 2, 1)] ∧ Sample.saved.Coherent := by
  refine ⟨by decide +kernel, ?_⟩
  have hreachable : (lts fun _ => 1).Reachable (fun s move => s.Answers move ∧ s.Ordered move) Sample.saved := by
    refine LTS.exec_reachable (fun s move hok => ?_) Sample.init_stored (Option.some_get _).symm
    rw [Bool.and_eq_true] at hok
    exact ⟨Sample.answers_of_answered s move hok.1, Sample.ordered_of_ordered s move hok.2⟩
  refine cache_coherent hreachable fun u => ?_
  cases u <;> rfl

attribute [local semireducible] dataDirectory in
/-- The reader caches what it has read after the writer has cached the new content. -/
theorem load_caches_stale : ¬ ∀ s : SharedStore Bool ℕ, (lts fun _ => 1).Reachable Answers s → s.Quiescent →
    s.Coherent := by
  intro h
  have hrun : ((LTS.exec (next fun _ => 1) Sample.answered Sample.stored
      (Sample.reads ++ Sample.saves ++ Sample.caches ++ Sample.commits)).map fun s =>
        (s.cache.entries, (s.dataIndex Sample.key).bind (·.checksum))) = some ([(Sample.key, 1, 1)], some 2) := by
    decide +kernel
  obtain ⟨s, hs, he⟩ := Option.map_eq_some_iff.mp hrun
  rw [Prod.mk.injEq] at he
  have hreachable := LTS.exec_reachable Sample.answers_of_answered Sample.init_stored hs
  have hquiescent : s.Quiescent := by
    obtain rfl := Option.some.inj hs
    intro u
    cases u <;> rfl
  obtain ⟨r, hr, -, hc⟩ := h s hreachable hquiescent Sample.key 1 ⟨1, by simp [he.1]⟩
  have hchecksum := he.2
  rw [hr] at hchecksum
  simp [hc] at hchecksum

end SharedStore

end QtDataSync.Threads
