import Mathlib
import QtDataSync.Lib.Cache
import QtDataSync.Messages.Utf8String
import QtDataSync.Store.LocalStore

/-!
# Store.Files — the store with its database transactions, data files and cache

`LocalStore` as a program: a row names its data file, the operations run between `BEGIN` and `COMMIT`, write and remove
files on the way, and keep the cache up.  Every step that can fail is a `FailurePoint`, and the environment decides
which ones do (`Env.fails`); what is thrown passes through the `catch` blocks of the source.  `Represents` relates the
store to the table of `Store.LocalStore`, whose rows carry their data.
-/

namespace QtDataSync

/-! ### Directories -/

/-- The characters that percent-encoding keeps: letters, digits, `-`, `.`, `_` and `~`. -/
def isUnreserved (b : UInt8) : Bool :=
  (48 ≤ b && b ≤ 57) || (65 ≤ b && b ≤ 90) || (97 ≤ b && b ≤ 122) || b == 45 || b == 46 || b == 95 || b == 126

def hexDigit (b : UInt8) : UInt8 := if b < 10 then 48 + b else 55 + b

/-- `QUrl::toPercentEncoding`. -/
def toPercentEncoding (name : String) : QByteArray :=
  (toUtf8 name).flatMap fun b => if isUnreserved b then [b] else [37, hexDigit (b / 16), hexDigit (b % 16)]

/-- The name of `LocalStore::typeDirectory` below `store/data_`: `%` is replaced by `_`.  The name of the type is read as
UTF-8 first, so only what stands before a null byte counts. -/
@[irreducible] def dataDirectory (typeName : QByteArray) : QByteArray :=
  (toPercentEncoding (fromUtf8 typeName)).map fun b => if b = 37 then 95 else b

/-- A data file: its directory and its base name. -/
abbrev FilePath := QByteArray × String

/-- `LocalStore::filePath`. -/
def filePath (key : ObjectKey) (baseName : String) : FilePath := (dataDirectory key.typeName, baseName)

/-! ### The state -/

/-- A row of `DataIndex` as the table has it. -/
structure FileRow (Checksum : Type) where
  version : ℕ
  file : Option String
  checksum : Option Checksum
  changed : Bool

/-- The rows of `DataIndex`. -/
abbrev FileTable (Checksum : Type) := ObjectKey → Option (FileRow Checksum)

/-- What the emitter is told. -/
inductive Signal where
  | triggerChange (key : ObjectKey) (deleted changed : Bool)
  | triggerClear (typeName : QByteArray) (ids : List String)
  | triggerReset
  | triggerUpload

/-- The committed rows with the open transaction, the data files (`some none` is a file that holds no JSON object), the
cache if there is one, and the signals so far. -/
structure FileStore (Data Checksum : Type) where
  dataIndex : FileTable Checksum
  transaction : Option (FileTable Checksum)
  files : FilePath → Option (Option Data)
  cache : Option (Cache ObjectKey Data)
  emitted : List Signal

/-- The steps that can fail. -/
inductive FailurePoint where
  | transaction
  | loadChangeInfo
  | query
  | directory
  | openFile
  | readFile
  | writeFile
  | statement
  | commitFile
  | removeFile
  | eventLog
  | commit
deriving DecidableEq, Repr

/-- `LocalStoreException`, with the step it is about, and `NoDataException`. -/
inductive StoreException where
  | localStore (key : ObjectKey) (step : FailurePoint)
  | noData (key : ObjectKey)
deriving DecidableEq, Repr

/-- What the operations get from outside: the steps that fail, the name of a new temporary file, the ids that the query
of `clear` returns, and the files that are left when a directory cannot be removed. -/
structure Env where
  fails : FailurePoint → Bool
  newName : String
  clearKeys : List String
  remains : FilePath → Bool

/-- Nothing fails. -/
def Env.sound : Env := ⟨fun _ => false, "", [], fun _ => false⟩

section Operations

variable {Data Checksum : Type}

/-- The operations of the store: what they have done stays done when they throw. -/
abbrev StoreM (Data Checksum α : Type) := ExceptT StoreException (StateM (FileStore Data Checksum)) α

variable (env : Env)

/-- A step that can fail. -/
def check (key : ObjectKey) (step : FailurePoint) : StoreM Data Checksum Unit :=
  if env.fails step then throw (.localStore key step) else pure ()

/-! ### The database -/

/-- The rows as a query sees them: those of the open transaction. -/
def FileStore.rows (s : FileStore Data Checksum) : FileTable Checksum := s.transaction.getD s.dataIndex

/-- `BEGIN`. -/
def beginTransaction (key : ObjectKey) : StoreM Data Checksum Unit := do
  check env key .transaction
  modify fun s => { s with transaction := some s.dataIndex }

/-- `SELECT .. FROM DataIndex WHERE Type = ? AND Id = ?`. -/
def select (key : ObjectKey) (step : FailurePoint) : StoreM Data Checksum (Option (FileRow Checksum)) := do
  check env key step
  return (← get).rows key

/-- A statement that changes rows. -/
def execute (key : ObjectKey) (f : FileTable Checksum → FileTable Checksum) : StoreM Data Checksum Unit := do
  check env key .statement
  modify fun s => { s with transaction := some (f s.rows) }

/-- `INSERT INTO DataIndex`, which fails if there is such a row. -/
def insertRow (key : ObjectKey) (row : FileRow Checksum) : StoreM Data Checksum Unit := do
  if ((← get).rows key).isSome then throw (.localStore key .statement)
  execute env key fun rows => Function.update rows key (some row)

/-- `UPDATE DataIndex SET .. WHERE Type = ? AND Id = ?`. -/
def updateRow (key : ObjectKey) (row : FileRow Checksum) : StoreM Data Checksum Unit :=
  execute env key fun rows => Function.update rows key ((rows key).map fun _ => row)

/-- `QSqlDatabase::commit`. -/
def commit (key : ObjectKey) : StoreM Data Checksum Unit := do
  check env key .commit
  modify fun s => { s with dataIndex := s.rows, transaction := none }

/-- `QSqlDatabase::rollback`. -/
def rollback : StoreM Data Checksum Unit := modify fun s => { s with transaction := none }

/-! ### The files -/

def setFile (path : FilePath) (content : Option (Option Data)) : StoreM Data Checksum Unit :=
  modify fun s => { s with files := Function.update s.files path content }

/-- `LocalStore::typeDirectory`, which makes the directory. -/
def typeDirectory (key : ObjectKey) : StoreM Data Checksum QByteArray := do
  check env key .directory
  return dataDirectory key.typeName

/-- `LocalStore::readJson`. -/
def readJson (key : ObjectKey) (fileName : String) : StoreM Data Checksum Data := do
  let dir ← typeDirectory env key
  check env key .openFile
  match (← get).files (dir, fileName) with
  | some (some data) => return data
  | some none => throw (.localStore key .readFile)
  | none => throw (.localStore key .openFile)

/-- The `QSaveFile` of a file that exists: the new data replaces it when it is committed. -/
def saveFile (key : ObjectKey) (path : FilePath) (data : Data) (body : StoreM Data Checksum Unit) :
    StoreM Data Checksum Unit := do
  check env key .openFile
  check env key .writeFile
  body
  check env key .commitFile
  setFile path (some (some data))

/-- The `QTemporaryFile` of a new data file: it is removed again unless it is committed. -/
def temporaryFile (key : ObjectKey) (path : FilePath) (data : Data) (body : StoreM Data Checksum Unit) :
    StoreM Data Checksum Unit := do
  check env key .openFile
  setFile path (some none)
  try
    check env key .writeFile
    setFile path (some (some data))
    body
    check env key .commitFile
  catch e =>
    setFile path none
    throw e

/-- `QFile::remove`. -/
def removeFile (key : ObjectKey) (path : FilePath) : StoreM Data Checksum Unit := do
  if ((← get).files path).isNone then throw (.localStore key .removeFile)
  check env key .removeFile
  setFile path none

/-- `QDir::removeRecursively` of the files that `inside` describes; a failure is only logged. -/
def removeRecursively (inside : FilePath → Bool) : StoreM Data Checksum Unit :=
  modify fun s => { s with
    files := fun path => if inside path && !(env.fails .removeFile && env.remains path) then none else s.files path }

/-! ### The cache and the signals -/

def onCache (f : Cache ObjectKey Data → Cache ObjectKey Data) : StoreM Data Checksum Unit :=
  modify fun s => { s with cache := s.cache.map f }

/-- `EmitterAdapter::putCached`; the cost of an object is the size of its file. -/
def putCached (size : Data → ℕ) (key : ObjectKey) (data : Data) : StoreM Data Checksum Unit :=
  onCache fun c => c.insert key data (size data)

/-- `EmitterAdapter::getCached`. -/
def getCached (key : ObjectKey) : StoreM Data Checksum (Option Data) := do
  match (← get).cache with
  | none => return none
  | some c =>
    modify fun s => { s with cache := some (c.object key).2 }
    return (c.object key).1

/-- `EmitterAdapter::dropCached` of one key. -/
def dropCached (key : ObjectKey) : StoreM Data Checksum Unit := onCache (·.remove key)

/-- `EmitterAdapter::dropCached` of some ids of a type. -/
def dropCachedIds (typeName : QByteArray) (ids : List String) : StoreM Data Checksum Unit :=
  onCache fun c => ids.foldl (fun c id => c.remove ⟨typeName, id⟩) c

def emit (signal : Signal) : StoreM Data Checksum Unit :=
  modify fun s => { s with emitted := s.emitted ++ [signal] }

/-! ### `LocalStore` -/

variable (jsonHash : Data → Checksum) (size : Data → ℕ)

/-- `LocalStore::load`. -/
def load (key : ObjectKey) : StoreM Data Checksum Data := do
  match ← getCached key with
  | some json => pure json
  | none =>
    beginTransaction env key
    try
      match (← select env key .query).bind (·.file) with
      | some fileName =>
        let json ← readJson env key fileName
        putCached size key json
        commit env key
        pure json
      | none => throw (.noData key)
    catch e =>
      rollback
      throw e

/-- `LocalStore::storeChangedImpl`, which returns what is to be done after the commit. -/
def storeChangedImpl (key : ObjectKey) (version : ℕ) (fileName : Option String) (data : Data) (changed existing : Bool) :
    StoreM Data Checksum (StoreM Data Checksum Unit) := do
  let dir ← typeDirectory env key
  let row (name : String) : FileRow Checksum := ⟨version, some name, some (jsonHash data), changed⟩
  let store (name : String) := if existing then updateRow env key (row name) else insertRow env key (row name)
  match existing, fileName with
  | true, some name => saveFile env key (dir, name) data (store name)
  | _, _ => temporaryFile env key (dir, env.newName) data (store env.newName)
  putCached size key data
  return emit (.triggerChange key false changed)

/-- `LocalStore::save`. -/
def save (key : ObjectKey) (data : Data) : StoreM Data Checksum Unit := do
  beginTransaction env key
  try
    let row ← select env key .query
    let version := match row with
      | some r => r.version + 1
      | none => 1
    let resFn ← storeChangedImpl env jsonHash size key version (row.bind (·.file)) data true row.isSome
    commit env key
    resFn
  catch e =>
    dropCached key
    rollback
    throw e

/-- `LocalStore::remove`. -/
def remove (key : ObjectKey) : StoreM Data Checksum Bool := do
  beginTransaction env key
  try
    match ← select env key .query with
    | some ⟨version, some fileName, _, _⟩ =>
      updateRow env key ⟨version + 1, none, none, true⟩
      let dir ← typeDirectory env key
      removeFile env key (dir, fileName)
      commit env key
      dropCached key
      emit (.triggerChange key true true)
      pure true
    | _ =>
      commit env key
      pure false
  catch e =>
    rollback
    throw e

/-- The key that exceptions about a whole type carry. -/
def typeKey (typeName : QByteArray) : ObjectKey := ⟨typeName, ""⟩

/-- `LocalStore::clear`. -/
def clear (typeName : QByteArray) : StoreM Data Checksum Unit := do
  beginTransaction env (typeKey typeName)
  try
    check env (typeKey typeName) .query
    execute env (typeKey typeName) fun rows key => (rows key).map fun r =>
      if key.typeName = typeName && r.file.isSome then ⟨r.version + 1, none, none, true⟩ else r
    let dir ← typeDirectory env (typeKey typeName)
    removeRecursively env fun path => path.1 == dir
    commit env (typeKey typeName)
    dropCachedIds typeName env.clearKeys
    emit (.triggerClear typeName env.clearKeys)
  catch e =>
    rollback
    throw e

/-- `LocalStore::reset`. -/
def reset (keepData : Bool) : StoreM Data Checksum Unit := do
  let any := typeKey [97, 110, 121]
  beginTransaction env any
  try
    if keepData then
      execute env any fun rows key => (rows key).map fun r => { r with changed := true }
    else
      execute env any fun _ _ => none
      check env any .eventLog
      removeRecursively env fun _ => true
    commit env any
    if !keepData then
      onCache (·.clear)
      emit .triggerReset
  catch e =>
    rollback
    throw e

/-- What `loadChangeInfo` returns: `NoExists`, `ExistsDeleted` or `Exists`, with the columns of the row. -/
structure FileInfo (Checksum : Type) where
  state : ChangeType
  version : ℕ
  fileName : Option String
  checksum : Option Checksum

def FileInfo.ofRow : Option (FileRow Checksum) → FileInfo Checksum
  | some ⟨version, none, _, _⟩ => ⟨.ExistsDeleted, version, none, none⟩
  | some ⟨version, some fileName, checksum, _⟩ => ⟨.Exists, version, some fileName, checksum⟩
  | none => ⟨.NoExists, 0, none, none⟩

/-- `LocalStore::loadChangeInfo`. -/
def loadChangeInfo (key : ObjectKey) : StoreM Data Checksum (FileInfo Checksum) := do
  return .ofRow (← select env key .loadChangeInfo)

/-- `LocalStore::storeChanged`; the result is the action for after the commit. -/
def storeChanged (key : ObjectKey) (version : ℕ) (fileName : Option String) (data : Data) (changed : Bool)
    (localState : ChangeType) : StoreM Data Checksum (StoreM Data Checksum Unit) :=
  storeChangedImpl env jsonHash size key version fileName data changed (localState != .NoExists)

/-- The file of the row, as `storeDeleted` looks it up if there is one. -/
def storedFile (key : ObjectKey) (localState : ChangeType) : StoreM Data Checksum (Option FilePath) :=
  if localState = .Exists then do
    match (← select env key .query).bind (·.file) with
    | some name =>
      let dir ← typeDirectory env key
      pure (some (dir, name))
    | none => pure none
  else pure none

/-- The statement of `storeDeleted`. -/
def deleteRow (key : ObjectKey) (version : ℕ) (changed : Bool) (localState : ChangeType) : StoreM Data Checksum Unit :=
  if localState = .NoExists then insertRow env key ⟨version, none, none, changed⟩
  else updateRow env key ⟨version, none, none, changed⟩

/-- `LocalStore::storeDeleted`; the file goes after the statement and before the commit. -/
def storeDeleted (key : ObjectKey) (version : ℕ) (changed : Bool) (localState : ChangeType) :
    StoreM Data Checksum (StoreM Data Checksum Unit) := do
  let fileName ← storedFile env key localState
  deleteRow env key version changed localState
  fileName.forM fun path => removeFile env key path
  pure <| if localState = .Exists then do
      dropCached key
      emit (.triggerChange key true changed)
    else if changed then emit .triggerUpload
    else pure ()

/-- `LocalStore::updateVersion`. -/
def updateVersion (key : ObjectKey) (oldVersion newVersion : ℕ) (changed : Bool) :
    StoreM Data Checksum (StoreM Data Checksum Unit) := do
  execute env key fun rows => Function.update rows key <| (rows key).map fun r =>
    if r.version = oldVersion then { r with version := newVersion, changed } else r
  pure <| if changed then emit .triggerUpload else pure ()

/-- The statement of `LocalStore::markUnchangedImpl`. -/
def markRow (persistDeleted : Bool) (key : ObjectKey) (version : ℕ) (isDelete : Bool) (rows : FileTable Checksum) :
    FileTable Checksum :=
  Function.update rows key <|
    if isDelete && !persistDeleted then
      (rows key).filter fun r => !(r.version == version && r.file.isNone)
    else (rows key).map fun r => if r.version = version then { r with changed := false } else r

/-- `LocalStore::markUnchanged` of a sync scope. -/
def markUnchangedScope (persistDeleted : Bool) (key : ObjectKey) (oldVersion : ℕ) (isDelete : Bool) :
    StoreM Data Checksum (StoreM Data Checksum Unit) := do
  execute env key (markRow persistDeleted key oldVersion isDelete)
  pure (pure ())

/-- `LocalStore::markUnchanged`, a statement of its own. -/
def markUnchanged (persistDeleted : Bool) (key : ObjectKey) (version : ℕ) (isDelete : Bool) :
    StoreM Data Checksum Unit := do
  check env key .statement
  modify fun s => { s with dataIndex := markRow persistDeleted key version isDelete s.dataIndex }

/-- A `SyncScope` from its start to `commitSync`: the scope rolls back when it is left by an exception. -/
def syncScope (key : ObjectKey) (body : FileInfo Checksum → StoreM Data Checksum (StoreM Data Checksum Unit)) :
    StoreM Data Checksum Unit := do
  beginTransaction env key
  try
    let info ← loadChangeInfo env key
    let afterCommit ← body info
    commit env key
    afterCommit
  catch e =>
    rollback
    throw e

end Operations

end QtDataSync
