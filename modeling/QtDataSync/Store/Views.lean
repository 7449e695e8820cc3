import QtDataSync.Store.Isolation
import QtDataSync.Store.Search

/-!
# Store.Views — the queries of the store and what they say about a key

Every query of the store filters the rows by itself.  `keys`, `count`, `loadAll`, `find`, `load` and `remove` ask for a
file; `contains` does not, and a row whose deletion is still to be uploaded, or is kept, has none.
-/

namespace QtDataSync

section Queries

variable {Data Checksum : Type} (env : Env) (size : Data → ℕ) (typeName : QByteArray)

/-- `LocalStore::count`. -/
def count (scan : List String) : StoreM Data Checksum ℕ := do
  return (← selectRows env typeName scan fun _ row => row.file.isSome).length

/-- `LocalStore::keys`. -/
def keys (scan : List String) : StoreM Data Checksum (List String) := do
  return (← selectRows env typeName scan fun _ row => row.file.isSome).map (·.1)

/-- `LocalStore::loadAll`. -/
def loadAll (scan : List String) : StoreM Data Checksum (List (ObjectKey × Data)) :=
  readAll env size typeName scan fun _ row => row.file.isSome

/-- `LocalStore::contains`, the one query without `File IS NOT NULL`. -/
def contains (key : ObjectKey) : StoreM Data Checksum Bool := do
  return (← select env key .query).isSome

end Queries

namespace Views

variable {Data Checksum : Type} {jsonHash : Data → Checksum} {size : Data → ℕ} {persistDeleted : Bool}
variable {other regexp : List Char → List Char → Bool}

/-! ### What a query says -/

/-- Nothing fails, and the result satisfies `P`. -/
def Returns {α : Type} (m : StoreM Data Checksum α) (s : FileStore Data Checksum) (P : α → Prop) : Prop :=
  ∃ a, (exec m s).1 = .ok a ∧ P a

variable (size other regexp) in
/-- The views of a key: `contains`, `keys`, `load`, `loadAll`, a search for the empty string, and `remove`. -/
def views (s : FileStore Data Checksum) (scan : List String) (key : ObjectKey) : List Prop :=
  [Returns (contains Env.sound key) s (· = true),
    Returns (keys Env.sound key.typeName scan) s (key.id ∈ ·),
    Returns (load Env.sound size key) s fun _ => True,
    Returns (loadAll Env.sound size key.typeName scan) s fun objects => ∃ data, (key, data) ∈ objects,
    Returns (find Env.sound size key.typeName other regexp scan "" .ContainsMode) s
      fun objects => ∃ data, (key, data) ∈ objects,
    Returns (remove Env.sound key) s (· = true)]

variable (size other regexp) in
/-- The views of the key agree, and `count` is the number of keys of the type that can be loaded. -/
def Agree (s : FileStore Data Checksum) (scan : List String) (key : ObjectKey) : Prop :=
  (views size other regexp s scan key).TFAE ∧ Returns (count Env.sound key.typeName scan) s
    (· = {id | Returns (load Env.sound size ⟨key.typeName, id⟩) s fun _ => True}.ncard)

theorem returns_of_runs {α : Type} {m : StoreM Data Checksum α} {s : FileStore Data Checksum} {P : α → Prop}
    (h : Runs m s (fun a _ => P a) fun _ _ => False) : Returns m s P := by
  rcases hx : exec m s with ⟨e | a, t⟩
  · exact (h.error hx).elim
  · exact ⟨a, by rw [hx], h.ok hx⟩

/-- The result is determined. -/
theorem returns_iff_of_runs {α : Type} {m : StoreM Data Checksum α} {s : FileStore Data Checksum} {P : α → Prop}
    {p : Prop} (h : Runs m s (fun a _ => P a ↔ p) fun _ _ => False) : Returns m s P ↔ p := by
  obtain ⟨a, ha, hp⟩ := returns_of_runs h
  constructor
  · rintro ⟨a', ha', h'⟩
    rw [ha, Except.ok.injEq] at ha'
    rw [← hp, ha']
    exact h'
  · exact fun h' => ⟨a, ha, hp.mpr h'⟩

/-! ### Which rows the queries see -/

section

variable {s : FileStore Data Checksum} {index : DataIndex jsonHash} {scan : List String} {key : ObjectKey}

theorem returns_contains (hs : s.transaction = none) :
    Returns (contains Env.sound key) s (· = true) ↔ s.dataIndex key ≠ none := by
  refine returns_iff_of_runs (runs_bind (runs_select (runs_pure ?_) fun h => (Bool.false_ne_true h).elim))
  rw [FileStore.rows_of_idle hs]
  exact Option.isSome_iff_ne_none

/-- The rows with a file are selected. -/
theorem mem_selected_file (hs : s.transaction = none) (hscan : s.Scans key.typeName scan) :
    (∃ row, (key.id, row) ∈ s.selected key.typeName scan fun _ row => row.file.isSome) ↔ s.fileOf key ≠ none := by
  rw [FileStore.fileOf, ← Option.isSome_iff_ne_none, ← FileStore.rows_of_idle hs, Option.isSome_bind]
  simp only [hscan.mem_selected]
  rcases s.rows key with _ | row
  · simp
  · simp

theorem runs_selectRows {typeName : QByteArray} {p : String → FileRow Checksum → Bool}
    {Q : List (String × FileRow Checksum) → FileStore Data Checksum → Prop}
    {E : StoreException → FileStore Data Checksum → Prop} (hQ : Q (s.selected typeName scan p) s) :
    Runs (selectRows Env.sound typeName scan p) s Q E := by
  apply runs_bind
  refine runs_check ?_ fun h => (Bool.false_ne_true h).elim
  apply runs_bind
  apply runs_get
  exact runs_pure hQ

theorem returns_keys (hs : s.transaction = none) (hscan : s.Scans key.typeName scan) :
    Returns (keys Env.sound key.typeName scan) s (key.id ∈ ·) ↔ s.fileOf key ≠ none := by
  refine returns_iff_of_runs (runs_bind (runs_selectRows (runs_pure ?_)))
  rw [← mem_selected_file hs hscan, List.mem_map]
  constructor
  · rintro ⟨⟨id, row⟩, hmem, rfl⟩
    exact ⟨row, hmem⟩
  · rintro ⟨row, hmem⟩
    exact ⟨_, hmem, rfl⟩

theorem returns_load (R : Represents s index) :
    Returns (load Env.sound size key) s (fun _ => True) ↔ s.fileOf key ≠ none := by
  have hloaded : (exec (load Env.sound size key) s).1 = _ := R.loaded_eq key
  rw [Returns, hloaded]
  cases hf : s.fileOf key with
  | none =>
    rw [R.content_of_none hf]
    constructor
    · rintro ⟨_, h, -⟩
      cases h
    · exact fun h => absurd rfl h
  | some name =>
    obtain ⟨data, hdata, -⟩ := R.file_of_row hf
    rw [hdata]
    exact ⟨fun _ => Option.some_ne_none _, fun _ => ⟨data, rfl, trivial⟩⟩

/-- What is read is the object of a selected row. -/
theorem Reads.exists_row {typeName : QByteArray} {rows : List (String × FileRow Checksum)}
    {objects : List (ObjectKey × Data)} (h : s.Reads typeName rows objects) {data : Data} (hmem : (key, data) ∈ objects) :
    ∃ x ∈ rows, key = ⟨typeName, x.1⟩ ∧ s.files (filePath key (x.2.file.getD "")) = some (some data) := by
  induction h with
  | nil => cases hmem
  | @cons x o rows objects hxo _ ih =>
    rcases List.mem_cons.mp hmem with rfl | hmem
    · exact ⟨x, List.mem_cons_self, hxo⟩
    · obtain ⟨y, hy, h⟩ := ih hmem
      exact ⟨y, List.mem_cons_of_mem _ hy, h⟩

/-- Every selected row is read. -/
theorem Reads.exists_object {typeName : QByteArray} {rows : List (String × FileRow Checksum)}
    {objects : List (ObjectKey × Data)} (h : s.Reads typeName rows objects) {x : String × FileRow Checksum}
    (hx : x ∈ rows) : ∃ data, (⟨typeName, x.1⟩, data) ∈ objects := by
  induction h with
  | nil => cases hx
  | @cons y o rows objects hyo _ ih =>
    rcases List.mem_cons.mp hx with rfl | hx
    · refine ⟨o.2, List.mem_cons.mpr (Or.inl ?_)⟩
      rw [← hyo.1]
    · obtain ⟨data, hdata⟩ := ih hx
      exact ⟨data, List.mem_cons_of_mem _ hdata⟩

/-- The row that a query selects has a file, with an object. -/
theorem file_of_selected (R : Represents s index) {typeName : QByteArray} (hscan : s.Scans typeName scan)
    {p : String → Bool} {x : String × FileRow Checksum}
    (hx : x ∈ s.selected typeName scan fun id row => p id && row.file.isSome) :
    s.fileOf ⟨typeName, x.1⟩ = some (x.2.file.getD "") ∧ ∃ data,
      (index ⟨typeName, x.1⟩).bind (·.content) = some data ∧
        s.files (filePath ⟨typeName, x.1⟩ (x.2.file.getD "")) = some (some data) := by
  obtain ⟨id, row⟩ := x
  obtain ⟨hrow, hsel⟩ := hscan.mem_selected.mp hx
  rw [Bool.and_eq_true] at hsel
  obtain ⟨name, hname⟩ := Option.isSome_iff_exists.mp hsel.2
  have hf : s.fileOf ⟨typeName, id⟩ = some (row.file.getD "") := by
    rw [FileStore.fileOf, ← FileStore.rows_of_idle R.idle, hrow, Option.bind_some, hname, Option.getD_some]
  exact ⟨hf, R.file_of_row hf⟩

/-- A query for rows with files finds the objects of those that it selects. -/
theorem returns_readAll (R : Represents s index) (hscan : s.Scans key.typeName scan) {p : String → Bool}
    (hp : p key.id = true) :
    Returns (readAll Env.sound size key.typeName scan fun id row => p id && row.file.isSome) s
      (fun objects => ∃ data, (key, data) ∈ objects) ↔ s.fileOf key ≠ none := by
  apply returns_iff_of_runs
  refine runs_readAll R.idle (fun objects hread => ?_) ?_ fun _ h _ => (Bool.false_ne_true h).elim
  · constructor
    · rintro ⟨data, hmem⟩
      obtain ⟨x, hx, hkey, -⟩ := Reads.exists_row hread hmem
      rw [hkey, (file_of_selected R hscan hx).1]
      exact Option.some_ne_none _
    · intro hf
      obtain ⟨row, hrow⟩ := (mem_selected_file R.idle hscan).mpr hf
      rw [hscan.mem_selected] at hrow
      have hsel : (key.id, row) ∈ s.selected key.typeName scan fun id row => p id && row.file.isSome := by
        rw [hscan.mem_selected, hp]
        exact hrow
      exact Reads.exists_object hread hsel
  · rintro _ _ (h | ⟨x, hx, hno⟩)
    · exact (Bool.false_ne_true h).elim
    · obtain ⟨-, data, -, hfile⟩ := file_of_selected R hscan hx
      exact hno data hfile

theorem returns_loadAll (R : Represents s index) (hscan : s.Scans key.typeName scan) :
    Returns (loadAll Env.sound size key.typeName scan) s (fun objects => ∃ data, (key, data) ∈ objects) ↔
      s.fileOf key ≠ none :=
  returns_readAll R hscan (p := fun _ => true) rfl

theorem returns_find (R : Represents s index) (hscan : s.Scans key.typeName scan) :
    Returns (find Env.sound size key.typeName other regexp scan "" .ContainsMode) s
      (fun objects => ∃ data, (key, data) ∈ objects) ↔ s.fileOf key ≠ none := by
  have hsel : Search.selects other regexp .ContainsMode "".toList key.id.toList = true := by
    rw [Search.selects_iff fun h => absurd h (by decide)]
    exact List.nil_infix
  exact returns_readAll R hscan (p := fun id => Search.selects other regexp .ContainsMode "".toList id.toList) hsel

theorem returns_remove (R : Represents s index) :
    Returns (remove Env.sound key) s (· = true) ↔ s.fileOf key ≠ none := by
  apply returns_iff_of_runs
  cases hf : s.fileOf key with
  | none => exact runs_remove_of_none R.idle hf (by simp) fun _ h => (Bool.false_ne_true h).elim
  | some name =>
    obtain ⟨fr, hr, hfr⟩ := FileOp.fileOf_eq_some hf
    obtain ⟨data, -, hfile⟩ := R.file_of_row hf
    exact runs_remove_of_some R.idle hr hfr (by rw [hfile]; exact Option.some_ne_none _) (by simp)
      (fun _ _ h => (Bool.false_ne_true h).elim) fun h => (Bool.false_ne_true h).elim

theorem nodup_selected {typeName : QByteArray} (hscan : s.Scans typeName scan) (p : String → FileRow Checksum → Bool) :
    ((s.selected typeName scan p).map (·.1)).Nodup := by
  rw [FileStore.selected, List.map_filterMap]
  refine hscan.nodup.filterMap fun id id' x hx hx' => ?_
  have hid : ∀ {i : String}, x ∈ (((s.rows ⟨typeName, i⟩).filter (p i)).map fun row => (i, row)).map (·.1) → x = i := by
    intro i hi
    rw [Option.map_map, Option.mem_def, Option.map_eq_some_iff] at hi
    obtain ⟨_, -, he⟩ := hi
    exact he.symm
  exact (hid hx).symm.trans (hid hx')

/-- `count` is the number of keys that can be loaded. -/
theorem returns_count (R : Represents s index) {typeName : QByteArray} (hscan : s.Scans typeName scan) :
    Returns (count Env.sound typeName scan) s
      (· = {id | Returns (load Env.sound size ⟨typeName, id⟩) s fun _ => True}.ncard) := by
  refine returns_of_runs (runs_bind (runs_selectRows (runs_pure ?_)))
  have hset : {id | Returns (load Env.sound size ⟨typeName, id⟩) s fun _ => True} =
      ((s.selected typeName scan fun _ row => row.file.isSome).map (·.1)).toFinset := by
    ext id
    rw [Set.mem_ofPred_eq, returns_load R, List.coe_toFinset, Set.mem_ofPred_eq, List.mem_map,
      ← mem_selected_file R.idle hscan]
    simp
  rw [hset, Set.ncard_coe_finset, List.toFinset_card_of_nodup (nodup_selected hscan _), List.length_map]

/-- Without `contains`, and for keys whose row has a file with it, the views agree. -/
theorem agree_iff (R : Represents s index) (hscan : s.Scans key.typeName scan) :
    Agree size other regexp s scan key ↔ (s.dataIndex key ≠ none → s.fileOf key ≠ none) := by
  have hviews : views size other regexp s scan key = [s.dataIndex key ≠ none, s.fileOf key ≠ none,
      s.fileOf key ≠ none, s.fileOf key ≠ none, s.fileOf key ≠ none, s.fileOf key ≠ none] := by
    simp only [views, returns_contains R.idle, returns_keys R.idle hscan, returns_load R, returns_loadAll R hscan,
      returns_find R hscan, returns_remove R]
  have hrow : s.fileOf key ≠ none → s.dataIndex key ≠ none := by
    intro hf hr
    rw [FileStore.fileOf, hr] at hf
    exact hf rfl
  rw [Agree, hviews, and_iff_left (returns_count R hscan)]
  constructor
  · exact fun h => (h.out 0 1).mp
  · intro h
    have hiff : (s.dataIndex key ≠ none) = (s.fileOf key ≠ none) := propext ⟨h, hrow⟩
    rw [hiff]
    exact List.tfae_of_forall (s.fileOf key ≠ none) _ (by simp)

/-! ### Queries that fill the cache -/

theorem holds_foldl_insert {objects : List (ObjectKey × Data)} {c : Cache ObjectKey Data} {data : Data}
    (h : (objects.foldl (fun c x => c.insert x.1 x.2 (size x.2)) c).Holds key data) :
    (key, data) ∈ objects ∨ c.Holds key data := by
  induction objects generalizing c with
  | nil => exact Or.inr h
  | cons x objects ih =>
    rcases ih h with hmem | hold
    · exact Or.inl (List.mem_cons_of_mem x hmem)
    · rcases Cache.holds_insert hold with ⟨rfl, rfl⟩ | ⟨hold, -⟩
      · exact Or.inl List.mem_cons_self
      · exact Or.inr hold

/-- What a query puts into the cache is what is stored. -/
theorem represents_withCached (R : Represents s index) {typeName : QByteArray} (hscan : s.Scans typeName scan)
    {p : String → Bool} {objects : List (ObjectKey × Data)}
    (hread : s.Reads typeName (s.selected typeName scan fun id row => p id && row.file.isSome) objects) :
    Represents (s.withCached size objects) index := by
  refine R.frame rfl R.idle (fun _ _ _ => rfl) fun c k data hc hold => ?_
  obtain ⟨c', hc', rfl⟩ := Option.map_eq_some_iff.mp hc
  rcases holds_foldl_insert hold with hmem | hold
  · obtain ⟨x, hx, rfl, hfile⟩ := Reads.exists_row hread hmem
    obtain ⟨-, data', hcontent, hfile'⟩ := file_of_selected R hscan hx
    rw [hfile, Option.some.injEq, Option.some.injEq] at hfile'
    rw [hfile']
    exact hcontent
  · exact R.cached c' k data hc' hold

theorem runs_query (R : Represents s index) {env : Env} {typeName : QByteArray} (hscan : s.Scans typeName scan)
    {p : String → Bool} : Runs (readAll env size typeName scan fun id row => p id && row.file.isSome) s
      (fun _ t => Represents t index) fun _ t => Represents t index :=
  runs_readAll R.idle (fun _ hread => represents_withCached R hscan hread) (fun _ _ _ => R)
    fun _ _ hread => represents_withCached R hscan hread

end

/-- A call of the store: an operation, or a query that fills the cache. -/
inductive StoreCall (Data : Type) where
  | perform (op : FileOp Data)
  | loadAll (typeName : QByteArray) (scan : List String)
  | find (typeName : QByteArray) (scan : List String) (query : String) (mode : SearchMode)

variable (jsonHash size persistDeleted other regexp) in
def StoreCall.program (env : Env) : StoreCall Data → StoreM Data Checksum Unit
  | .perform op => op.program env jsonHash size persistDeleted
  | .loadAll typeName scan => discard (QtDataSync.loadAll env size typeName scan)
  | .find typeName scan query mode => discard (QtDataSync.find env size typeName other regexp scan query mode)

/-- What the environment cannot do. -/
def StoreCall.Admissible (env : Env) (s : FileStore Data Checksum) : StoreCall Data → Prop
  | .perform op => op.Admissible env s
  | .loadAll typeName scan | .find typeName scan _ _ => s.Scans typeName scan

variable (jsonHash size persistDeleted other regexp) in
/-- The store with its calls, one after another. -/
def lts : LTS (FileStore Data Checksum) (Env × StoreCall Data) where
  init := (FileOp.lts jsonHash size persistDeleted).init
  step s a t := a.2.Admissible a.1 s ∧
    t = (exec (a.2.program jsonHash size persistDeleted other regexp a.1) s).2

variable (jsonHash size persistDeleted) in
/-- A `clear` keeps out of foreign directories, and no commit fails that comes after a file was rewritten. -/
def Spares (s : FileStore Data Checksum) (a : Env × StoreCall Data) : Prop :=
  ∀ op, a.2 = .perform op → FileOp.Spares jsonHash size persistDeleted s (a.1, op)

section Runs

variable {s t : FileStore Data Checksum} {index : DataIndex jsonHash}

theorem represents_step {a : Env × StoreCall Data} (R : Represents s index)
    (hg : Spares jsonHash size persistDeleted s a)
    (hst : (lts jsonHash size persistDeleted other regexp).step s a t) :
    ∃ index' : DataIndex jsonHash, Represents t index' := by
  obtain ⟨env, call⟩ := a
  obtain ⟨ha, rfl⟩ := hst
  have hquery : ∀ {m : StoreM Data Checksum (List (ObjectKey × Data))},
      Runs m s (fun _ t => Represents t index) (fun _ t => Represents t index) →
        ∃ index' : DataIndex jsonHash, Represents (exec (discard m) s).2 index' := by
    intro m hm
    refine ⟨index, ?_⟩
    have hd : Runs (discard m) s (fun _ t => Represents t index) fun _ t => Represents t index :=
      runs_bind (hm.mono (fun _ _ h => runs_pure h) fun _ _ h => h)
    rcases hx : exec (discard m) s with ⟨e | _, t⟩
    · exact hd.error hx
    · exact hd.ok hx
  cases call with
  | perform op => exact FileOp.represents_step R (hg op rfl) ⟨ha, rfl⟩
  | loadAll typeName scan => exact hquery (runs_query R ha (p := fun _ => true))
  | find typeName scan query mode => exact hquery (runs_query R ha)

theorem represents_reachable
    (h : (lts jsonHash size persistDeleted other regexp).Reachable (Spares jsonHash size persistDeleted) s) :
    ∃ index : DataIndex jsonHash, Represents s index := by
  refine LTS.Reachable.invariant (I := fun s => ∃ index : DataIndex jsonHash, Represents s index) (fun s h0 => ?_)
    (fun s a t _ hI hg hst => ?_) h
  · have h0' : (FileOp.lts jsonHash size persistDeleted).init s := h0
    exact FileOp.represents_reachable (.init h0')
  · obtain ⟨index, R⟩ := hI
    exact represents_step R hg hst

/-- **The views of the store.**  In every state of a run whose calls keep rows and files together, all views of a key
agree, and `count` with them, if and only if the key has no row without a file. -/
theorem agree_iff_of_reachable
    (h : (lts jsonHash size persistDeleted other regexp).Reachable (Spares jsonHash size persistDeleted) s)
    {key : ObjectKey} {scan : List String} (hscan : s.Scans key.typeName scan) :
    Agree size other regexp s scan key ↔ ∀ row, s.dataIndex key = some row → row.file ≠ none := by
  obtain ⟨index, R⟩ := represents_reachable h
  rw [agree_iff R hscan, FileStore.fileOf]
  rcases s.dataIndex key with _ | row
  · simp
  · simp

end Runs

/-! ### A removed object -/

namespace Sample

open FileOp.Sample (key start failing)

def call (op : FileOp ℕ) (s : FileStore ℕ ℕ) : FileStore ℕ ℕ :=
  (exec (op.program (failing []) id (fun _ => 1) false) s).2

/-- The object is stored. -/
def saved : FileStore ℕ ℕ := call (.save key 5) start

/-- The object is removed again. -/
def removed : FileStore ℕ ℕ := call (.remove key) saved

def noMatch : List Char → List Char → Bool := fun _ _ => false

theorem saved_reachable :
    (lts id (fun _ => 1) false noMatch noMatch).Reachable (Spares id (fun _ => 1) false) saved := by
  have h0 : (lts id (fun _ => 1) false noMatch noMatch).Reachable (Spares id (fun _ => 1) false) start := by
    refine .init ⟨rfl, rfl, fun c hc => ?_⟩
    cases hc
    rfl
  refine h0.step (a := (failing [], .perform (.save key 5))) (fun op hop => ?_) ⟨rfl, rfl⟩
  cases hop
  refine ⟨trivial, fun e he => ?_⟩
  cases he

attribute [local semireducible] dataDirectory in
theorem removed_reachable :
    (lts id (fun _ => 1) false noMatch noMatch).Reachable (Spares id (fun _ => 1) false) removed := by
  refine saved_reachable.step (a := (failing [], .perform (.remove key))) (fun op hop => ?_) ⟨trivial, rfl⟩
  cases hop
  refine ⟨trivial, fun e he => ?_⟩
  cases he

theorem scans {s : FileStore ℕ ℕ} {row : FileRow ℕ} (hs : s.rows = Function.update (fun _ => none) key (some row)) :
    s.Scans key.typeName [key.id] := by
  refine ⟨List.nodup_singleton _, fun id hid => ?_⟩
  rw [hs] at hid
  by_contra hne
  rw [Function.update_of_ne fun he => hne (List.mem_singleton.mpr (congrArg ObjectKey.id he))] at hid
  exact hid rfl

end Sample

/-- The views of a stored object agree. -/
theorem agree_saved : Agree (fun _ => 1) Sample.noMatch Sample.noMatch Sample.saved [FileOp.Sample.key.id]
    FileOp.Sample.key := by
  have hscan : Sample.saved.Scans FileOp.Sample.key.typeName [FileOp.Sample.key.id] :=
    Sample.scans rfl
  refine (agree_iff_of_reachable Sample.saved_reachable hscan).mpr fun row hrow => ?_
  cases hrow
  exact Option.some_ne_none _

attribute [local semireducible] dataDirectory in
/-- The deletion of an object is still to be uploaded: `contains` finds it, and `keys` does not. -/
theorem not_agree_removed : (lts id (fun _ => 1) false Sample.noMatch Sample.noMatch).Reachable
      (Spares id (fun _ => 1) false) Sample.removed ∧
    Sample.removed.Scans FileOp.Sample.key.typeName [FileOp.Sample.key.id] ∧
    (exec (contains Env.sound FileOp.Sample.key) Sample.removed).1 = .ok true ∧
    (exec (keys Env.sound FileOp.Sample.key.typeName [FileOp.Sample.key.id]) Sample.removed).1 = .ok [] ∧
    ¬ Agree (fun _ => 1) Sample.noMatch Sample.noMatch Sample.removed [FileOp.Sample.key.id] FileOp.Sample.key := by
  have hcontains : (exec (contains Env.sound FileOp.Sample.key) Sample.removed).1 = .ok true := rfl
  have hkeys : (exec (keys Env.sound FileOp.Sample.key.typeName [FileOp.Sample.key.id]) Sample.removed).1 = .ok [] := rfl
  refine ⟨Sample.removed_reachable, ?_, hcontains, hkeys, fun h => ?_⟩
  · have hrows : Sample.removed.rows = Function.update (fun _ => none) FileOp.Sample.key
        (some ⟨2, none, none, true⟩) := by
      show Function.update (Function.update _ _ _) _ _ = _
      rw [Function.update_idem]
      rfl
    exact Sample.scans hrows
  · have hviews : Returns (contains Env.sound FileOp.Sample.key) Sample.removed (· = true) ↔
        Returns (keys Env.sound FileOp.Sample.key.typeName [FileOp.Sample.key.id]) Sample.removed
          (FileOp.Sample.key.id ∈ ·) := h.1.out 0 1
    obtain ⟨ids, hids, hmem⟩ := hviews.mp ⟨true, hcontains, rfl⟩
    rw [hkeys, Except.ok.injEq] at hids
    rw [← hids] at hmem
    cases hmem

end Views

end QtDataSync
