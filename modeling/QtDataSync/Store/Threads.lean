import QtDataSync.Lib.Transition
import QtDataSync.Store.Files

/-!
# Store.Threads — stores of several threads on one database and one cache

`LocalStore` instances that work at the same time.  An operation is a sequence of atomic steps: a call of the cache, an
access to a file, an SQL statement.  The database has a rollback journal: a reader holds a shared lock from its first
statement to the end of its transaction, a writer keeps other writers out from its `BEGIN`, an exclusive one also the
readers, and a `COMMIT` of a writer waits for the readers.  A step that waits is not enabled; any step that can fail may
do so (`Move.fail`), which includes giving up waiting.  The checksum of a row stands for the JSON it was computed of.
-/

namespace QtDataSync

namespace Threads

/-- What a read transaction selects: the row of `load`, or those of `loadAll` and `find`. -/
inductive Query where
  | load (key : ObjectKey)
  | select (typeName : QByteArray) (accepts : String → Bool)

inductive Operation (Data : Type) where
  | load (key : ObjectKey)
  | loadAll (typeName : QByteArray)
  | find (typeName : QByteArray) (accepts : String → Bool)
  | save (key : ObjectKey) (data : Data)
  | remove (key : ObjectKey)
  | clear (typeName : QByteArray)
  | reset (keepData : Bool)
  | startSync (key : ObjectKey)

/-- The operations of a `SyncScope`. -/
inductive SyncOperation (Data : Type) where
  | storeChanged (version : ℕ) (data : Data) (changed : Bool)
  | storeDeleted (version : ℕ) (changed : Bool)
  | updateVersion (oldVersion newVersion : ℕ) (changed : Bool)
  | markUnchanged (persistDeleted : Bool) (oldVersion : ℕ) (isDelete : Bool)

/-- A call of `storeChangedImpl`, from `save` or in a scope. -/
structure Storing (Data : Type) where
  key : ObjectKey
  version : ℕ
  fileName : Option String
  data : Data
  changed : Bool
  existing : Bool
  inScope : Bool

/-- A call of `storeDeleted`, or a `remove`, which does the same. -/
structure Deleting where
  key : ObjectKey
  version : ℕ
  changed : Bool
  localState : ChangeType
  fileName : Option String

/-- What is dropped from the cache after a commit. -/
inductive Drop where
  | nothing
  | keys (keys : List ObjectKey)
  | all

/-- Where an operation is: the step it takes next. -/
inductive Task (Data : Type) where
  | idle
  | begin (operation : Operation Data)
  | getCached (key : ObjectKey)
  | query (query : Query)
  | read (files : List (ObjectKey × String)) (read : List (ObjectKey × Data))
  | endRead
  | select (key : ObjectKey) (data : Data)
  | loadChangeInfo (key : ObjectKey)
  | scope (key : ObjectKey) (info : FileInfo Data)
  | openFile (job : Storing Data)
  | writeFile (job : Storing Data) (name : String)
  | storeRow (job : Storing Data) (name : String)
  | commitFile (job : Storing Data) (name : String)
  | putCached (job : Storing Data) (name : String)
  | commitStored (job : Storing Data) (name : String)
  | dropFailed (key : ObjectKey)
  | selectRemove (key : ObjectKey)
  | selectFile (key : ObjectKey) (version : ℕ) (changed : Bool)
  | deleteRow (job : Deleting)
  | removeFile (job : Deleting)
  | selectClear (typeName : QByteArray)
  | clearRows (typeName : QByteArray) (keys : List ObjectKey)
  | removeType (typeName : QByteArray) (keys : List ObjectKey)
  | resetRows (keepData : Bool)
  | clearEventLog
  | removeStore
  | commit (drop : Drop)
  | dropCached (drop : Drop)
  | rollback

/-- What a step finds: the rows that a `SELECT` returns, the name of a new file, and the files that are removed with
their directory. -/
structure Choice where
  found : List (ObjectKey × String)
  newName : String
  gone : FilePath → Bool

inductive Move (Data : Type) where
  | call (operation : Operation Data)
  | sync (operation : SyncOperation Data)
  | proceed (choice : Choice)
  | fail

/-- The committed rows, the transaction of the writer with its rows, the readers with a shared lock, the files, the
cache, and the tasks of the threads.  `replaced` is history: the files with data of a transaction that is not, or was
never, committed. -/
structure SharedStore (Thread Data : Type) where
  dataIndex : FileTable Data
  transaction : Option (Thread × FileTable Data)
  exclusive : Bool
  readers : List Thread
  files : FilePath → Option (Option Data)
  replaced : FilePath → Bool
  cache : Cache ObjectKey Data
  tasks : Thread → Task Data

variable {Thread Data : Type}

/-! ### Operations -/

/-- Whether an operation begins a write transaction, and if so an exclusive one. -/
def Operation.mode : Operation Data → Option Bool
  | .load _ | .loadAll _ | .find _ _ => none
  | .save _ _ | .remove _ | .startSync _ => some false
  | .clear _ | .reset _ => some true

/-- The first step after `BEGIN`. -/
def Operation.first : Operation Data → Task Data
  | .load key => .query (.load key)
  | .loadAll typeName => .query (.select typeName fun _ => true)
  | .find typeName accepts => .query (.select typeName accepts)
  | .save key data => .select key data
  | .remove key => .selectRemove key
  | .clear typeName => .selectClear typeName
  | .reset keepData => .resetRows keepData
  | .startSync key => .loadChangeInfo key

/-- The data of a row with a file are replaced in this file, others go to a new one. -/
def Storing.inPlace (job : Storing Data) : Bool := job.existing && job.fileName.isSome

def Storing.name (job : Storing Data) (newName : String) : String :=
  if job.inPlace then job.fileName.getD newName else newName

def Storing.path (job : Storing Data) (name : String) : FilePath := filePath job.key name

def Storing.row (job : Storing Data) (name : String) : FileRow Data :=
  ⟨job.version, some name, some job.data, job.changed⟩

/-- The `UPDATE` or `INSERT` of `storeChangedImpl`. -/
def Storing.statement (job : Storing Data) (name : String) (rows : FileTable Data) : FileTable Data :=
  Function.update rows job.key (if job.existing then (rows job.key).map fun _ => job.row name else some (job.row name))

/-- The `catch` block of `save`, or the end of a scope. -/
def Storing.failed (job : Storing Data) : Task Data := if job.inScope then .rollback else .dropFailed job.key

/-- The `UPDATE` or `INSERT` of `storeDeleted`. -/
def Deleting.statement (job : Deleting) (rows : FileTable Data) : FileTable Data :=
  let row : FileRow Data := ⟨job.version, none, none, job.changed⟩
  Function.update rows job.key (if job.localState = .NoExists then some row else (rows job.key).map fun _ => row)

def Deleting.drop (job : Deleting) : Drop := if job.localState = .Exists then .keys [job.key] else .nothing

def clearRow (typeName : QByteArray) (rows : FileTable Data) : FileTable Data := fun key => (rows key).map fun r =>
  if key.typeName = typeName && r.file.isSome then ⟨r.version + 1, none, none, true⟩ else r

/-- The `UPDATE` of `updateVersion`. -/
def updateVersion (key : ObjectKey) (oldVersion newVersion : ℕ) (changed : Bool) (rows : FileTable Data) :
    FileTable Data :=
  Function.update rows key <| (rows key).map fun r =>
    if r.version = oldVersion then { r with version := newVersion, changed } else r

variable (size : Data → ℕ)

/-- `EmitterAdapter::putCached`. -/
def putCached (cache : Cache ObjectKey Data) (data : List (ObjectKey × Data)) : Cache ObjectKey Data :=
  data.foldl (fun c x => c.insert x.1 x.2 (size x.2)) cache

/-- `EmitterAdapter::dropCached`. -/
def dropCached (cache : Cache ObjectKey Data) : Drop → Cache ObjectKey Data
  | .nothing => cache
  | .keys keys => keys.foldl (fun c key => c.remove key) cache
  | .all => cache.clear

namespace SharedStore

variable [DecidableEq Thread] (s : SharedStore Thread Data) (u : Thread)

def goto (task : Task Data) : SharedStore Thread Data := { s with tasks := Function.update s.tasks u task }

omit [DecidableEq Thread] in
/-- The rows as the writer sees them. -/
def rows : FileTable Data := (s.transaction.map (·.2)).getD s.dataIndex

/-- `BEGIN IMMEDIATE` or `BEGIN EXCLUSIVE`. -/
def beginWrite (exclusive : Bool) : Option (SharedStore Thread Data) :=
  if s.transaction.isNone && (!exclusive || s.readers.isEmpty) then
    some { s with transaction := some (u, s.dataIndex), exclusive }
  else none

omit [DecidableEq Thread] in
def execute (statement : FileTable Data → FileTable Data) : SharedStore Thread Data :=
  { s with transaction := s.transaction.map fun x => (x.1, statement x.2) }

omit [DecidableEq Thread] in
def setFile (path : FilePath) (content : Option (Option Data)) (replaced : Bool) : SharedStore Thread Data :=
  { s with
    files := Function.update s.files path content
    replaced := Function.update s.replaced path replaced }

omit [DecidableEq Thread] in
def removeFiles (gone : FilePath → Bool) : SharedStore Thread Data :=
  { s with
    files := fun path => if gone path then none else s.files path
    replaced := fun path => !gone path && s.replaced path }

omit [DecidableEq Thread] in
/-- The `COMMIT` of a writer, which waits until there is no reader. -/
def commit : Option (SharedStore Thread Data) :=
  if s.readers.isEmpty then some { s with dataIndex := s.rows, transaction := none, exclusive := false } else none

omit [DecidableEq Thread] in
def rollback : SharedStore Thread Data := { s with transaction := none, exclusive := false }

/-- The end of a read transaction. -/
def endRead : SharedStore Thread Data := { s with readers := s.readers.filter (· ≠ u) }

/-- A store operation fails: a new file is removed. -/
def fail (job : Storing Data) (name : String) : SharedStore Thread Data :=
  (if job.inPlace then s else s.setFile (job.path name) none false).goto u job.failed

/-- The first `SELECT` of a reader, which takes the lock. -/
def query (query : Query) (choice : Choice) : Option (SharedStore Thread Data) :=
  if s.exclusive then none
  else
    let s := { s with readers := u :: s.readers }
    match query with
    | .load key =>
      match (s.dataIndex key).bind (·.file) with
      | some fileName => some (s.goto u (.read [(key, fileName)] []))
      | none => some (s.goto u .endRead)
    | .select _ _ => some (s.goto u (.read choice.found []))

/-- What a scope is used for, with the columns of its row. -/
def sync (key : ObjectKey) (info : FileInfo Data) : SyncOperation Data → SharedStore Thread Data
  | .storeChanged version data changed =>
    s.goto u (.openFile ⟨key, version, info.fileName, data, changed, info.state != .NoExists, true⟩)
  | .storeDeleted version changed =>
    if info.state = .Exists then s.goto u (.selectFile key version changed)
    else s.goto u (.deleteRow ⟨key, version, changed, info.state, none⟩)
  | .updateVersion oldVersion newVersion changed =>
    (s.execute (updateVersion key oldVersion newVersion changed)).goto u (.commit .nothing)
  | .markUnchanged persistDeleted oldVersion isDelete =>
    (s.execute (markRow persistDeleted key oldVersion isDelete)).goto u (.commit .nothing)

/-- A step of a thread. -/
def next (move : Thread × Move Data) : Option (SharedStore Thread Data) :=
  let u := move.1
  match s.tasks u, move.2 with
  | .idle, .call (.load key) => some (s.goto u (.getCached key))
  | .idle, .call operation => some (s.goto u (.begin operation))
  | .begin operation, .proceed _ =>
    match operation.mode with
    | none => some (s.goto u operation.first)
    | some exclusive => (s.beginWrite u exclusive).map (·.goto u operation.first)
  | .begin _, .fail => some (s.goto u .idle)
  | .getCached key, .proceed _ =>
    let found := s.cache.object key
    some ({ s with cache := found.2 }.goto u (if found.1.isSome then .idle else .begin (.load key)))
  | .query query, .proceed choice => s.query u query choice
  | .query _, .fail => some (s.goto u .endRead)
  | .read ((key, fileName) :: files) read, .proceed _ =>
    match s.files (filePath key fileName) with
    | some (some data) => some (s.goto u (.read files (read ++ [(key, data)])))
    | _ => some (s.goto u .endRead)
  | .read [] read, .proceed _ => some ({ s with cache := putCached size s.cache read }.goto u .endRead)
  | .read _ _, .fail => some (s.goto u .endRead)
  | .endRead, .proceed _ => some ((s.endRead u).goto u .idle)
  | .select key data, .proceed _ =>
    let row := s.rows key
    let version := match row with
      | some r => r.version + 1
      | none => 1
    some (s.goto u (.openFile ⟨key, version, row.bind (·.file), data, true, row.isSome, false⟩))
  | .select key _, .fail => some (s.goto u (.dropFailed key))
  | .loadChangeInfo key, .proceed _ => some (s.goto u (.scope key (.ofRow (s.rows key))))
  | .loadChangeInfo _, .fail => some (s.goto u .rollback)
  | .scope key info, .sync operation => some (s.sync u key info operation)
  | .scope _ _, .proceed _ => some (s.goto u (.commit .nothing))
  | .scope _ _, .fail => some (s.goto u .rollback)
  | .openFile job, .proceed choice =>
    let name := job.name choice.newName
    some ((if job.inPlace then s else s.setFile (job.path name) (some none) false).goto u (.writeFile job name))
  | .openFile job, .fail => some (s.goto u job.failed)
  | .writeFile job name, .proceed _ =>
    let t := if job.inPlace then s else s.setFile (job.path name) (some (some job.data)) false
    some (t.goto u (.storeRow job name))
  | .writeFile job name, .fail => some (s.fail u job name)
  | .storeRow job name, .proceed _ => some ((s.execute (job.statement name)).goto u (.commitFile job name))
  | .storeRow job name, .fail => some (s.fail u job name)
  | .commitFile job name, .proceed _ =>
    let t := if job.inPlace then s.setFile (job.path name) (some (some job.data)) true else s
    some (t.goto u (.putCached job name))
  | .commitFile job name, .fail => some (s.fail u job name)
  | .putCached job name, .proceed _ =>
    some ({ s with cache := putCached size s.cache [(job.key, job.data)] }.goto u (.commitStored job name))
  | .commitStored job name, .proceed _ =>
    s.commit.map fun t => { t with replaced := Function.update t.replaced (job.path name) false }.goto u .idle
  | .commitStored job _, .fail => some (s.goto u job.failed)
  | .dropFailed key, .proceed _ => some ({ s with cache := dropCached s.cache (.keys [key]) }.goto u .rollback)
  | .selectRemove key, .proceed _ =>
    match s.rows key with
    | some ⟨version, some fileName, _, _⟩ =>
      some (s.goto u (.deleteRow ⟨key, version + 1, true, .Exists, some fileName⟩))
    | _ => some (s.goto u (.commit .nothing))
  | .selectRemove _, .fail => some (s.goto u .rollback)
  | .selectFile key version changed, .proceed _ =>
    some (s.goto u (.deleteRow ⟨key, version, changed, .Exists, (s.rows key).bind (·.file)⟩))
  | .selectFile _ _ _, .fail => some (s.goto u .rollback)
  | .deleteRow job, .proceed _ => some ((s.execute job.statement).goto u (.removeFile job))
  | .deleteRow _, .fail => some (s.goto u .rollback)
  | .removeFile job, .proceed _ =>
    match job.fileName with
    | some fileName =>
      if (s.files (filePath job.key fileName)).isNone then some (s.goto u .rollback)
      else some ((s.setFile (filePath job.key fileName) none false).goto u (.commit job.drop))
    | none => some (s.goto u (.commit job.drop))
  | .removeFile _, .fail => some (s.goto u .rollback)
  | .selectClear typeName, .proceed choice => some (s.goto u (.clearRows typeName (choice.found.map (·.1))))
  | .selectClear _, .fail => some (s.goto u .rollback)
  | .clearRows typeName keys, .proceed _ =>
    some ((s.execute (clearRow typeName)).goto u (.removeType typeName keys))
  | .clearRows _ _, .fail => some (s.goto u .rollback)
  | .removeType _ keys, .proceed choice => some ((s.removeFiles choice.gone).goto u (.commit (.keys keys)))
  | .removeType _ _, .fail => some (s.goto u .rollback)
  | .resetRows true, .proceed _ =>
    some ((s.execute fun rows key => (rows key).map fun r => { r with changed := true }).goto u (.commit .nothing))
  | .resetRows false, .proceed _ => some ((s.execute fun _ _ => none).goto u .clearEventLog)
  | .resetRows _, .fail => some (s.goto u .rollback)
  | .clearEventLog, .proceed _ => some (s.goto u .removeStore)
  | .clearEventLog, .fail => some (s.goto u .rollback)
  | .removeStore, .proceed choice => some ((s.removeFiles choice.gone).goto u (.commit .all))
  | .commit drop, .proceed _ => s.commit.map (·.goto u (.dropCached drop))
  | .commit _, .fail => some (s.goto u .rollback)
  | .dropCached drop, .proceed _ => some ({ s with cache := dropCached s.cache drop }.goto u .idle)
  | .rollback, .proceed _ => some (s.rollback.goto u .idle)
  | _, _ => none

end SharedStore

/-! ### The system -/

/-- The row of the key has this file. -/
def HasFile (rows : FileTable Data) (key : ObjectKey) (fileName : String) : Prop :=
  ∃ r, rows key = some r ∧ r.file = some fileName

/-- The row of the key has a file, which was stored with this content. -/
def Holds (rows : FileTable Data) (key : ObjectKey) (data : Data) : Prop :=
  ∃ r, rows key = some r ∧ r.file.isSome = true ∧ r.checksum = some data

namespace SharedStore

/-- A `SELECT` returns the rows that it is about, a new file has a name of its own, and only files of the type are
removed with its directory. -/
def Answers (s : SharedStore Thread Data) (move : Thread × Move Data) : Prop :=
  match s.tasks move.1, move.2 with
  | .query (.select typeName accepts), .proceed choice => choice.found.Nodup ∧ ∀ key fileName,
    (key, fileName) ∈ choice.found ↔
      key.typeName = typeName ∧ accepts key.id = true ∧ HasFile s.dataIndex key fileName
  | .openFile job, .proceed choice => job.inPlace = false → s.files (job.path choice.newName) = none ∧
    ∀ key fileName, HasFile s.dataIndex key fileName → filePath key fileName ≠ job.path choice.newName
  | .selectClear typeName, .proceed choice => ∀ key,
    key ∈ choice.found.map (·.1) ↔ key.typeName = typeName ∧ ∃ fileName, HasFile s.dataIndex key fileName
  | .removeType typeName _, .proceed choice => ∀ path, choice.gone path = true → path.1 = dataDirectory typeName
  | _, _ => True

/-- No operation has begun, nothing is cached, and every row has its own file, which holds its content unless a failed
transaction has replaced it. -/
structure Init (s : SharedStore Thread Data) : Prop where
  tasks : ∀ u, s.tasks u = .idle
  transaction : s.transaction = none
  cache : s.cache.entries = []
  distinct : ∀ key key' fileName fileName', HasFile s.dataIndex key fileName → HasFile s.dataIndex key' fileName' →
    filePath key fileName = filePath key' fileName' → key = key'
  content : ∀ key fileName data, HasFile s.dataIndex key fileName → s.replaced (filePath key fileName) = false →
    s.files (filePath key fileName) = some (some data) → Holds s.dataIndex key data

def lts [DecidableEq Thread] (size : Data → ℕ) : LTS (SharedStore Thread Data) (Thread × Move Data) :=
  LTS.ofStep Init (next size)

/-- No operation is in progress. -/
def Quiescent (s : SharedStore Thread Data) : Prop := ∀ u, s.tasks u = .idle

/-- Whatever is cached is the content that is committed for its key. -/
def Coherent (s : SharedStore Thread Data) : Prop :=
  ∀ key data, s.cache.Holds key data → Holds s.dataIndex key data

end SharedStore

end Threads

end QtDataSync
