import Mathlib.Data.List.Induction
import Mathlib.Data.List.Nodup
import Mathlib.Data.List.Perm.Basic
import Mathlib.Order.Lattice
import Mathlib.Tactic.Common
import QtDataSync.Lib.QHash
import QtDataSync.Lib.Transition

/-!
# Store.DataStoreModel — the rows of the item model of a store

The model knows all keys of its type and has loaded the objects of some of them.  Which row shows which object is stored
nowhere: the first keys are the loaded ones, as many as there are objects (`Consistent`).
-/

namespace QtDataSync

structure TypeFlags where
  isGadget : Bool
  pointerToQObject : Bool
deriving DecidableEq, Repr

/-- The members that have to do with the rows. -/
structure DataStoreModel (δ : Type) where
  type : ℕ
  isObject : Bool
  keyList : List String
  dataHash : QHash String δ
  isFetching : Bool
deriving DecidableEq, Repr

namespace DataStoreModel

variable {δ : Type}

/-- What the views are told, from the beginning to the end of a change, and how a call fails. -/
inductive Signal where
  | typeIdChanged (typeId : ℕ)
  | modelReset
  | rowsInserted (first last : ℕ)
  | rowsRemoved (first last : ℕ)
  | dataChanged (row : ℤ)
  | storeError
  | exception
deriving DecidableEq, Repr

/-- `DataStoreModelPrivate`, with `QMetaType::UnknownType`. -/
def new : DataStoreModel δ := ⟨0, false, [], [], false⟩

def activeKeys (m : DataStoreModel δ) : List String := m.keyList.take m.dataHash.length

def rowCount (m : DataStoreModel δ) (parentIsValid : Bool) : ℕ := if parentIsValid then 0 else m.dataHash.length

def canFetchMore (m : DataStoreModel δ) (parentIsValid : Bool) : Bool :=
  if parentIsValid then false else m.dataHash.length < m.keyList.length

/-- The loop of `fetchMore`; `load` is what `DataStore::load` returns, and `none` an exception. -/
def loadData (load : String → Option δ) (keys : List String) : Option (QHash String δ) :=
  keys.foldlM (fun loadData key => (load key).map (loadData.insert key)) []

def fetchMore (m : DataStoreModel δ) (parentIsValid : Bool) (load : String → Option δ) :
    DataStoreModel δ × List Signal :=
  if m.isFetching then (m, [])
  else if m.canFetchMore parentIsValid then
    let m := { m with isFetching := true }
    -- load 100 at once
    let offset := m.dataHash.length
    let max := min (offset + 100) m.keyList.length
    match loadData load ((m.keyList.take max).drop offset) with
    | some loadData =>
      ({ m with dataHash := m.dataHash.unite loadData, isFetching := false }, [.rowsInserted offset (max - 1)])
    | none => ({ m with isFetching := false }, [.storeError])
  else (m, [])

/-- `keys` is what `DataStore::keys` returns. -/
def setTypeId (typeFlags : ℕ → TypeFlags) (m : DataStoreModel δ) (typeId : ℕ) (keys : Option (List String)) :
    DataStoreModel δ × List Signal :=
  let flags := typeFlags typeId
  if flags.isGadget || flags.pointerToQObject then
    let m := { m with type := typeId, isObject := flags.pointerToQObject, keyList := [], dataHash := [] }
    match keys with
    | some keys => ({ m with keyList := keys }, [.typeIdChanged typeId, .modelReset])
    | none => (m, [.typeIdChanged typeId, .modelReset, .exception])
  else (m, [.exception])

def reload (m : DataStoreModel δ) (keys : Option (List String)) : DataStoreModel δ × List Signal :=
  let m := { m with keyList := [], dataHash := [] }
  match keys with
  | some keys => ({ m with keyList := keys }, [.modelReset])
  | none => (m, [.modelReset, .storeError])

/-- The row of `idIndex`, which is -1 for an invalid index. -/
def idIndex (m : DataStoreModel δ) (id : String) : ℤ :=
  if id ∈ m.activeKeys then m.activeKeys.idxOf id else -1

/-- A loaded object is updated in its place, a gadget is loaded anew. -/
def updateData (m : DataStoreModel δ) (key : String) (data : δ) : DataStoreModel δ :=
  if m.isObject then m else { m with dataHash := m.dataHash.insert key data }

/-- `load` is what `DataStore::load` returns, and whether `DataStore::update` does. -/
def storeChanged (m : DataStoreModel δ) (metaTypeId : ℕ) (key : String) (wasDeleted : Bool) (load : String → Option δ) :
    DataStoreModel δ × List Signal :=
  if metaTypeId ≠ m.type then (m, [])
  else if wasDeleted then
    if key ∈ m.keyList then
      let index := m.keyList.idxOf key
      if index < m.dataHash.length then -- is already fetched
        ({ m with keyList := m.keyList.eraseIdx index, dataHash := m.dataHash.take key }, [.rowsRemoved index index])
      else -- not fetched yet
        ({ m with keyList := m.keyList.eraseIdx index }, [])
    else (m, [])
  else if key ∈ m.keyList then
    let index := m.keyList.idxOf key
    if index < m.dataHash.length then
      match load key with
      | some data =>
        let m := m.updateData key data
        (m, [.dataChanged (m.idIndex key)])
      | none => (m, [.storeError])
    else (m, [])
  else if m.keyList.length = m.dataHash.length then -- already fully loaded
    ({ m with keyList := m.keyList ++ [key] } : DataStoreModel δ).fetchMore false load
  else -- only append
    ({ m with keyList := m.keyList ++ [key] }, [])

def storeResetted (m : DataStoreModel δ) : DataStoreModel δ × List Signal :=
  ({ m with keyList := [], dataHash := [] }, [.modelReset])

/-- What is called on the model, and what the store returns to it. -/
inductive Call (δ : Type) where
  | setTypeId (typeId : ℕ) (keys : Option (List String))
  | reload (keys : Option (List String))
  | fetchMore (parentIsValid : Bool) (load : String → Option δ)
  | storeChanged (metaTypeId : ℕ) (key : String) (wasDeleted : Bool) (load : String → Option δ)
  | storeResetted

def call (typeFlags : ℕ → TypeFlags) (m : DataStoreModel δ) : Call δ → DataStoreModel δ × List Signal
  | .setTypeId typeId keys => m.setTypeId typeFlags typeId keys
  | .reload keys => m.reload keys
  | .fetchMore parentIsValid load => m.fetchMore parentIsValid load
  | .storeChanged metaTypeId key wasDeleted load => m.storeChanged metaTypeId key wasDeleted load
  | .storeResetted => m.storeResetted

/-- `DataStore::keys` returns distinct keys. -/
def Distinct (_ : DataStoreModel δ) : Call δ → Prop
  | .setTypeId _ keys | .reload keys => ∀ l, keys = some l → l.Nodup
  | _ => True

def lts (typeFlags : ℕ → TypeFlags) : LTS (DataStoreModel δ) (Call δ) where
  init m := m = new
  step m a m' := (m.call typeFlags a).1 = m'

/-- How the rows that a view shows change with a signal. -/
def Signal.Shows : Signal → List String → List String → Prop
  | .modelReset, _, _ => True
  | .rowsInserted first last, old, new =>
    first ≤ last ∧ last < new.length ∧ new.take first ++ new.drop (last + 1) = old
  | .rowsRemoved first last, old, new =>
    first ≤ last ∧ last < old.length ∧ old.take first ++ old.drop (last + 1) = new
  | .dataChanged row, old, new => 0 ≤ row ∧ row < old.length ∧ new = old
  | _, old, new => new = old

def Shows : List Signal → List String → List String → Prop
  | [], old, new => new = old
  | signal :: signals, old, new => ∃ rows, signal.Shows old rows ∧ Shows signals rows new

/-- The first keys are the loaded ones. -/
structure Consistent (m : DataStoreModel δ) : Prop where
  nodup : m.keyList.Nodup
  loaded : m.dataHash.keys.Perm m.activeKeys
  idle : m.isFetching = false

/-! ### Loading a page -/

variable {m : DataStoreModel δ} {load : String → Option δ}

theorem loadData_concat (load : String → Option δ) (keys : List String) (key : String) :
    loadData load (keys ++ [key]) = (loadData load keys).bind fun h => (load key).map (h.insert key) := by
  rw [loadData, List.foldlM_append]
  simp [loadData]

theorem keys_loadData {keys : List String} (hkeys : keys.Nodup) {h : QHash String δ}
    (hload : loadData load keys = some h) : h.keys.Perm keys := by
  induction keys using List.reverseRecOn generalizing h with
  | nil =>
    cases hload
    rfl
  | append_singleton keys key ih =>
    rw [loadData_concat, Option.bind_eq_some_iff] at hload
    obtain ⟨h', hload', hvalue⟩ := hload
    obtain ⟨value, -, rfl⟩ := Option.map_eq_some_iff.mp hvalue
    obtain ⟨hnodup, -, hnew⟩ := List.nodup_append.mp hkeys
    have hperm := ih hnodup hload'
    have hnotMem : key ∉ h'.keys := fun hmem =>
      hnew key (hperm.mem_iff.mp hmem) key (List.mem_singleton.mpr rfl) rfl
    rw [QHash.keys_insert, List.erase_of_not_mem hnotMem]
    exact (hperm.cons key).trans (List.perm_append_singleton key keys).symm

theorem exists_loadData {keys : List String} (hload : ∀ key ∈ keys, (load key).isSome) :
    ∃ h, loadData load keys = some h := by
  induction keys using List.reverseRecOn with
  | nil => exact ⟨[], rfl⟩
  | append_singleton keys key ih =>
    obtain ⟨h, hkeys⟩ := ih fun k hk => hload k (List.mem_append_left _ hk)
    obtain ⟨value, hvalue⟩ := Option.isSome_iff_exists.mp (hload key (by simp))
    exact ⟨h.insert key value, by rw [loadData_concat, hkeys, Option.bind_some, hvalue, Option.map_some]⟩

theorem Consistent.length_activeKeys (hc : Consistent m) : m.activeKeys.length = m.dataHash.length := by
  rw [← hc.loaded.length_eq, QHash.length_keys]

theorem Consistent.length_le (hc : Consistent m) : m.dataHash.length ≤ m.keyList.length := by
  rw [← hc.length_activeKeys]
  exact List.length_take_le' _ _

/-- A page of 100 keys is loaded as a whole, if there are more keys. -/
structure Fetches (m m' : DataStoreModel δ) (signals : List Signal) : Prop where
  consistent : Consistent m'
  keyList : m'.keyList = m.keyList
  length : m'.dataHash.length = min (m.dataHash.length + 100) m.keyList.length
  signals : signals = [.rowsInserted m.dataHash.length (m'.dataHash.length - 1)]

/-- **`fetchMore`** has loaded a page, or the model is as it was. -/
theorem Consistent.fetchMore (hc : Consistent m) (parentIsValid : Bool) (load : String → Option δ) :
    m.fetchMore parentIsValid load = (m, []) ∧ m.canFetchMore parentIsValid = false ∨
    m.canFetchMore parentIsValid = true ∧ (m.fetchMore parentIsValid load = (m, [.storeError]) ∧
      (∃ key ∈ m.keyList, load key = none) ∨
    Fetches m (m.fetchMore parentIsValid load).1 (m.fetchMore parentIsValid load).2) := by
  obtain ⟨type, isObject, keyList, dataHash, isFetching⟩ := m
  obtain rfl : isFetching = false := hc.idle
  unfold DataStoreModel.fetchMore
  rcases hmore : canFetchMore ⟨type, isObject, keyList, dataHash, false⟩ parentIsValid with - | -
  · exact Or.inl ⟨by simp, rfl⟩
  · refine Or.inr ⟨rfl, ?_⟩
    have hlt : dataHash.length < keyList.length := by
      unfold canFetchMore at hmore
      split_ifs at hmore
      exact of_decide_eq_true hmore
    obtain ⟨max, hmax⟩ : ∃ max, max = min (dataHash.length + 100) keyList.length := ⟨_, rfl⟩
    simp only [Bool.false_eq_true, if_false, if_true, ← hmax]
    rcases hload : loadData load ((keyList.take max).drop dataHash.length) with - | h
    · left
      refine ⟨rfl, ?_⟩
      by_contra hall
      push Not at hall
      have hsome : ∀ key ∈ (keyList.take max).drop dataHash.length, (load key).isSome := fun key hkey =>
        Option.isSome_iff_ne_none.mpr (hall key (List.mem_of_mem_take (List.mem_of_mem_drop hkey)))
      obtain ⟨h, hsome⟩ := exists_loadData hsome
      rw [hsome] at hload
      cases hload
    · right
      have hkeys : h.keys.Perm ((keyList.take max).drop dataHash.length) := keys_loadData (
        (hc.nodup.sublist (List.take_sublist _ _)).sublist (List.drop_sublist _ _)) hload
      have hlength : h.length = max - dataHash.length := by
        rw [← QHash.length_keys, hkeys.length_eq, List.length_drop, List.length_take]
        omega
      have hunite : (dataHash.unite h).length = max := by
        rw [QHash.unite, List.length_append, hlength]
        omega
      refine ⟨⟨hc.nodup, ?_, rfl⟩, rfl, hunite.trans hmax, ?_⟩
      · show (dataHash.unite h).keys.Perm (keyList.take (dataHash.unite h).length)
        have hold : dataHash.keys.Perm ((keyList.take max).take dataHash.length) := by
          rw [List.take_take, min_eq_left (by omega)]
          exact hc.loaded
        rw [hunite, QHash.keys_unite]
        refine (List.perm_append_comm.trans (hold.append hkeys)).trans ?_
        rw [List.take_append_drop]
      · show [Signal.rowsInserted dataHash.length (max - 1)] = _
        rw [← hunite]

theorem shows_singleton {signal : Signal} {old new : List String} (h : signal.Shows old new) : Shows [signal] old new :=
  ⟨new, h, rfl⟩

theorem Fetches.shows {m' : DataStoreModel δ} {signals : List Signal} (h : Fetches m m' signals)
    (hlt : m.dataHash.length < m.keyList.length) : Shows signals m.activeKeys m'.activeKeys := by
  have hlength := h.length
  have hnew := h.consistent.length_activeKeys
  rw [h.signals]
  refine shows_singleton ⟨by omega, by omega, ?_⟩
  rw [List.drop_eq_nil_of_le (by omega), List.append_nil, activeKeys, List.take_take, h.keyList,
    min_eq_left (by omega)]
  rfl

theorem lt_of_canFetchMore {parentIsValid : Bool} (h : m.canFetchMore parentIsValid = true) :
    m.dataHash.length < m.keyList.length := by
  unfold canFetchMore at h
  split_ifs at h
  exact of_decide_eq_true h

/-- What a call does to the rows. -/
structure Keeps (m : DataStoreModel δ) (x : DataStoreModel δ × List Signal) : Prop where
  consistent : Consistent x.1
  shows : Shows x.2 m.activeKeys x.1.activeKeys

theorem Consistent.keeps_fetchMore (hc : Consistent m) (parentIsValid : Bool) (load : String → Option δ) :
    Keeps m (m.fetchMore parentIsValid load) := by
  obtain ⟨hsame, -⟩ | ⟨hmore, ⟨hsame, -⟩ | hfetches⟩ := hc.fetchMore parentIsValid load
  · rw [hsame]
    exact ⟨hc, rfl⟩
  · rw [hsame]
    exact ⟨hc, shows_singleton rfl⟩
  · exact ⟨hfetches.consistent, hfetches.shows (lt_of_canFetchMore hmore)⟩

/-! ### Notifications of the store -/

theorem eraseIdx_take_succ {α : Type} (l : List α) {i n : ℕ} (h : i ≤ n) :
    (l.eraseIdx i).take n = (l.take (n + 1)).eraseIdx i := by
  rw [List.eraseIdx_eq_take_drop_succ, List.eraseIdx_eq_take_drop_succ, List.take_take, min_eq_left (by omega)]
  rcases Nat.lt_or_ge i l.length with hi | hi
  · have hlength : (l.take i).length = i := List.length_take_of_le hi.le
    rw [List.take_append, hlength, List.take_take, min_eq_right h, List.drop_take]
    congr 2
    omega
  · rw [List.drop_eq_nil_of_le (by omega), List.drop_eq_nil_of_le (by rw [List.length_take]; omega), List.append_nil,
      List.take_take, min_eq_right h]

/-- A loaded key: its row is its index. -/
theorem idxOf_activeKeys {key : String} (hkey : key ∈ m.keyList) (hlt : m.keyList.idxOf key < m.dataHash.length) :
    key ∈ m.activeKeys ∧ m.activeKeys.idxOf key = m.keyList.idxOf key := by
  have hmem : key ∈ m.activeKeys := (List.mem_take_iff_idxOf_lt hkey).mpr hlt
  refine ⟨hmem, ?_⟩
  have happend : m.keyList = m.activeKeys ++ m.keyList.drop m.dataHash.length := (List.take_append_drop _ _).symm
  conv_rhs => rw [happend]
  rw [List.idxOf_append_of_mem hmem]

theorem Consistent.length_take (hc : Consistent m) {key : String} (hmem : key ∈ m.activeKeys) :
    (m.dataHash.take key).length + 1 = m.dataHash.length := by
  have hkey : key ∈ m.dataHash.keys := hc.loaded.mem_iff.mpr hmem
  have hpos := List.length_pos_of_mem hkey
  rw [← QHash.length_keys, QHash.keys_take, List.length_erase_of_mem hkey, QHash.length_keys]
  rw [QHash.length_keys] at hpos
  omega

/-- The rows without a row that is removed. -/
theorem Consistent.activeKeys_removed (hc : Consistent m) {key : String} (hkey : key ∈ m.keyList)
    (hlt : m.keyList.idxOf key < m.dataHash.length) :
    (m.keyList.eraseIdx (m.keyList.idxOf key)).take (m.dataHash.take key).length =
      m.activeKeys.eraseIdx (m.keyList.idxOf key) := by
  have hlength := hc.length_take (idxOf_activeKeys hkey hlt).1
  rw [eraseIdx_take_succ _ (by omega), hlength]
  rfl

theorem Consistent.keeps_removed (hc : Consistent m) {key : String} (hkey : key ∈ m.keyList)
    (hlt : m.keyList.idxOf key < m.dataHash.length) :
    Keeps m ({ m with keyList := m.keyList.eraseIdx (m.keyList.idxOf key), dataHash := m.dataHash.take key },
      [.rowsRemoved (m.keyList.idxOf key) (m.keyList.idxOf key)]) := by
  have hrows := hc.activeKeys_removed hkey hlt
  have hindex := (idxOf_activeKeys hkey hlt).2
  refine ⟨⟨hc.nodup.eraseIdx _, ?_, hc.idle⟩, shows_singleton ⟨le_rfl, ?_, ?_⟩⟩
  · show (m.dataHash.take key).keys.Perm ((m.keyList.eraseIdx _).take (m.dataHash.take key).length)
    rw [hrows, QHash.keys_take, ← List.erase_eq_eraseIdx_of_idxOf hindex]
    exact hc.loaded.erase key
  · rw [hc.length_activeKeys]
    exact hlt
  · rw [← List.eraseIdx_eq_take_drop_succ]
    exact hrows.symm

theorem Consistent.updateData (hc : Consistent m) {key : String} (hkey : key ∈ m.keyList)
    (hlt : m.keyList.idxOf key < m.dataHash.length) (data : δ) :
    Consistent (m.updateData key data) ∧ (m.updateData key data).activeKeys = m.activeKeys := by
  unfold DataStoreModel.updateData
  split_ifs
  · exact ⟨hc, rfl⟩
  have hmem : key ∈ m.dataHash.keys := hc.loaded.mem_iff.mpr (idxOf_activeKeys hkey hlt).1
  have hperm : (m.dataHash.insert key data).keys.Perm m.dataHash.keys := by
    rw [QHash.keys_insert]
    exact (List.perm_cons_erase hmem).symm
  have hlength : (m.dataHash.insert key data).length = m.dataHash.length := by
    rw [← QHash.length_keys, hperm.length_eq, QHash.length_keys]
  refine ⟨⟨hc.nodup, ?_, hc.idle⟩, congrArg m.keyList.take hlength⟩
  show (m.dataHash.insert key data).keys.Perm (m.keyList.take (m.dataHash.insert key data).length)
  rw [hlength]
  exact hperm.trans hc.loaded

/-- An unknown key is known from now on, and the rows stay as they are. -/
theorem Consistent.appended (hc : Consistent m) {key : String} (hkey : key ∉ m.keyList) :
    Consistent { m with keyList := m.keyList ++ [key] } ∧
      ({ m with keyList := m.keyList ++ [key] } : DataStoreModel δ).activeKeys = m.activeKeys := by
  have hrows : ({ m with keyList := m.keyList ++ [key] } : DataStoreModel δ).activeKeys = m.activeKeys :=
    List.take_append_of_le_length hc.length_le
  refine ⟨⟨?_, ?_, hc.idle⟩, hrows⟩
  · show (m.keyList ++ [key]).Nodup
    rw [← List.concat_eq_append]
    exact hc.nodup.concat hkey
  · rw [hrows]
    exact hc.loaded

/-- The rows of a model with another list of keys. -/
theorem Consistent.of_activeKeys (hc : Consistent m) {keyList : List String} (hnodup : keyList.Nodup)
    (hrows : keyList.take m.dataHash.length = m.activeKeys) : Consistent { m with keyList := keyList } :=
  ⟨hnodup, hc.loaded.trans (List.Perm.of_eq hrows.symm), hc.idle⟩

theorem Consistent.keeps_storeChanged (hc : Consistent m) (metaTypeId : ℕ) (key : String) (wasDeleted : Bool)
    (load : String → Option δ) : Keeps m (m.storeChanged metaTypeId key wasDeleted load) := by
  simp only [storeChanged]
  split_ifs with htype hdeleted hkey hlt hkey hlt
  · exact ⟨hc, rfl⟩
  · exact hc.keeps_removed hkey hlt
  · have hrows := List.take_eraseIdx_eq_take_of_le m.keyList m.dataHash.length _ (Nat.not_lt.mp hlt)
    exact ⟨hc.of_activeKeys (hc.nodup.eraseIdx _) hrows, hrows⟩
  · exact ⟨hc, rfl⟩
  · obtain ⟨hmem, hindex⟩ := idxOf_activeKeys hkey hlt
    rcases load key with - | data
    · exact ⟨hc, shows_singleton rfl⟩
    · obtain ⟨hconsistent, hrows⟩ := hc.updateData hkey hlt data
      refine ⟨hconsistent, shows_singleton ?_⟩
      show Signal.Shows (.dataChanged ((m.updateData key data).idIndex key)) _ _
      rw [idIndex, hrows, if_pos hmem]
      exact ⟨Int.natCast_nonneg _, Int.ofNat_lt.mpr (List.idxOf_lt_length_of_mem hmem), rfl⟩
  · exact ⟨hc, rfl⟩
  · obtain ⟨happended, hrows⟩ := hc.appended hkey
    obtain ⟨hconsistent, hshows⟩ := happended.keeps_fetchMore false load
    rw [hrows] at hshows
    exact ⟨hconsistent, hshows⟩
  · obtain ⟨happended, hrows⟩ := hc.appended hkey
    exact ⟨happended, hrows⟩

/-! ### Runs -/

variable {typeFlags : ℕ → TypeFlags}

/-- The model after a reset. -/
theorem Consistent.reset {m : DataStoreModel δ} {keys : List String} (hkeys : keys.Nodup) (hhash : m.dataHash = [])
    (hlist : m.keyList = keys) (hidle : m.isFetching = false) : Consistent m := by
  refine ⟨hlist ▸ hkeys, ?_, hidle⟩
  rw [activeKeys, hhash]
  exact List.Perm.refl []

theorem Consistent.keeps_call (hc : Consistent m) {a : Call δ} (hdistinct : Distinct m a) :
    Keeps m (m.call typeFlags a) := by
  have hreset : ∀ m' : DataStoreModel δ, ∀ signals, Shows (.modelReset :: signals) m.activeKeys m'.activeKeys ↔
      ∃ rows, Shows signals rows m'.activeKeys := by
    intro m' signals
    exact ⟨fun ⟨rows, _, h⟩ => ⟨rows, h⟩, fun ⟨rows, h⟩ => ⟨rows, trivial, h⟩⟩
  cases a with
  | setTypeId typeId keys =>
    rw [call, setTypeId]
    split_ifs
    · rcases keys with - | keys
      · exact ⟨.reset List.nodup_nil rfl rfl hc.idle, _, rfl, (hreset _ _).mpr ⟨_, _, rfl, rfl⟩⟩
      · exact ⟨.reset (hdistinct keys rfl) rfl rfl hc.idle, _, rfl, (hreset _ _).mpr ⟨_, rfl⟩⟩
    · exact ⟨hc, shows_singleton rfl⟩
  | reload keys =>
    rcases keys with - | keys
    · exact ⟨.reset List.nodup_nil rfl rfl hc.idle, (hreset _ _).mpr ⟨_, _, rfl, rfl⟩⟩
    · exact ⟨.reset (hdistinct keys rfl) rfl rfl hc.idle, (hreset _ _).mpr ⟨_, rfl⟩⟩
  | fetchMore parentIsValid load => exact hc.keeps_fetchMore parentIsValid load
  | storeChanged metaTypeId key wasDeleted load => exact hc.keeps_storeChanged metaTypeId key wasDeleted load
  | storeResetted => exact ⟨.reset List.nodup_nil rfl rfl hc.idle, (hreset _ _).mpr ⟨_, rfl⟩⟩

theorem consistent_of_reachable (h : (lts typeFlags).Reachable Distinct m) : Consistent m :=
  h.invariant (I := Consistent) (fun _ hs => hs ▸ ⟨List.nodup_nil, List.Perm.refl [], rfl⟩)
    fun _ _ _ _ hc hdistinct hst => hst ▸ (hc.keeps_call hdistinct).consistent

/-- Pages are loaded until all keys are loaded. -/
theorem Consistent.fetchMore_iterate (hc : Consistent m) (hload : ∀ key ∈ m.keyList, (load key).isSome) (n : ℕ) :
    let m' := (fun m => (DataStoreModel.fetchMore m false load).1)^[n] m
    Consistent m' ∧ m'.keyList = m.keyList ∧ m'.dataHash.length = min (m.dataHash.length + 100 * n) m.keyList.length := by
  induction n with
  | zero => exact ⟨hc, rfl, (min_eq_left hc.length_le).symm⟩
  | succ n ih =>
    obtain ⟨hc', hkeys, hlength⟩ := ih
    rw [Function.iterate_succ_apply']
    set m' := (fun m => (DataStoreModel.fetchMore m false load).1)^[n] m
    obtain ⟨hsame, hnone⟩ | ⟨-, ⟨-, key, hkey, hfails⟩ | hfetches⟩ := hc'.fetchMore false load
    · have hall : ¬m'.dataHash.length < m'.keyList.length := by simpa [canFetchMore] using hnone
      rw [hkeys] at hall
      rw [hsame]
      refine ⟨hc', hkeys, ?_⟩
      show m'.dataHash.length = _
      omega
    · have hsome := hload key (hkeys ▸ hkey)
      rw [hfails] at hsome
      cases hsome
    · have hpage := hfetches.length
      rw [hkeys] at hpage
      exact ⟨hfetches.consistent, hfetches.keyList.trans hkeys, by omega⟩

/-- Later calls of `fetchMore` load what is missing, if nothing fails. -/
def Completes (m : DataStoreModel δ) : Prop :=
  ∀ load : String → Option δ, (∀ key ∈ m.keyList, (load key).isSome) → ∀ n, m.keyList.length ≤ m.dataHash.length + 100 * n →
    ((fun m => (DataStoreModel.fetchMore m false load).1)^[n] m).activeKeys = m.keyList

theorem Consistent.completes (hc : Consistent m) : Completes m := by
  intro load hload n hn
  obtain ⟨hc', hkeys, hlength⟩ := hc.fetchMore_iterate hload n
  rw [activeKeys, hkeys, hlength]
  exact List.take_of_length_le (by omega)

/-- The calls that load objects. -/
def Loads : Call δ → Prop
  | .fetchMore _ _ | .storeChanged _ _ false _ => True
  | _ => False

/-- What is left by a call whose load fails. -/
structure Fails (m m' : DataStoreModel δ) : Prop where
  rows : m'.activeKeys = m.activeKeys
  keyList : m.keyList <+: m'.keyList
  completes : Completes m'

theorem Consistent.fails_fetchMore (hc : Consistent m) {parentIsValid : Bool} {load : String → Option δ}
    (herror : Signal.storeError ∈ (m.fetchMore parentIsValid load).2) : (m.fetchMore parentIsValid load).1 = m := by
  obtain ⟨hsame, -⟩ | ⟨hmore, ⟨hsame, -⟩ | hfetches⟩ := hc.fetchMore parentIsValid load
  · rw [hsame]
  · rw [hsame]
  · rw [hfetches.signals] at herror
    simp at herror

theorem Consistent.fails_storeChanged (hc : Consistent m) {metaTypeId : ℕ} {key : String} {load : String → Option δ}
    (herror : Signal.storeError ∈ (m.storeChanged metaTypeId key false load).2) :
    (m.storeChanged metaTypeId key false load).1 = m ∨
      key ∉ m.keyList ∧ (m.storeChanged metaTypeId key false load).1 = { m with keyList := m.keyList ++ [key] } := by
  simp only [storeChanged, Bool.false_eq_true, if_false] at herror ⊢
  split_ifs at herror ⊢ with htype hkey hlt hall
  · exact Or.inl rfl
  · rcases hdata : load key with - | data
    · exact Or.inl rfl
    · rw [hdata] at herror
      simp at herror
  · exact Or.inl rfl
  · exact Or.inr ⟨hkey, (hc.appended hkey).1.fails_fetchMore herror⟩
  · exact Or.inr ⟨hkey, rfl⟩

theorem Consistent.fails (hc : Consistent m) {a : Call δ} (hloads : Loads a)
    (herror : Signal.storeError ∈ (m.call typeFlags a).2) : Fails m (m.call typeFlags a).1 := by
  cases a with
  | fetchMore parentIsValid load =>
    rw [call, hc.fails_fetchMore herror]
    exact ⟨rfl, List.prefix_rfl, hc.completes⟩
  | storeChanged metaTypeId key wasDeleted load =>
    obtain rfl : wasDeleted = false := by
      rcases wasDeleted with - | -
      · rfl
      · exact hloads.elim
    obtain hsame | ⟨hkey, happended⟩ := hc.fails_storeChanged herror
    · rw [call, hsame]
      exact ⟨rfl, List.prefix_rfl, hc.completes⟩
    · rw [call, happended]
      obtain ⟨hc', hrows⟩ := hc.appended hkey
      exact ⟨hrows, List.prefix_append _ _, hc'.completes⟩
  | _ => exact hloads.elim

/-- **The rows of the model**, in every state that it can reach. -/
structure Rows (typeFlags : ℕ → TypeFlags) (m : DataStoreModel δ) : Prop where
  nodup : m.keyList.Nodup
  loaded : m.dataHash.keys.Perm (m.keyList.take m.dataHash.length)
  rowCount_le : ∀ parentIsValid, m.rowCount parentIsValid ≤ m.keyList.length
  shows : ∀ a, Distinct m a → Shows (m.call typeFlags a).2 m.activeKeys (m.call typeFlags a).1.activeKeys
  completes : Completes m
  fails : ∀ a, Loads a → Signal.storeError ∈ (m.call typeFlags a).2 → Fails m (m.call typeFlags a).1

theorem rows_of_reachable (h : (lts typeFlags).Reachable Distinct m) : Rows typeFlags m := by
  have hc := consistent_of_reachable h
  refine ⟨hc.nodup, hc.loaded, fun parentIsValid => ?_, fun a ha => (hc.keeps_call ha).shows, hc.completes,
    fun a hloads herror => hc.fails hloads herror⟩
  unfold rowCount
  split_ifs
  · exact Nat.zero_le _
  · exact hc.length_le

/-- Two objects are shown, and the load of a third one fails. -/
theorem rows_failed : ∃ m : DataStoreModel ℕ, Rows (fun _ => ⟨true, false⟩) m ∧
    m.keyList = ["a", "b", "c"] ∧ m.activeKeys = ["a", "b"] := by
  have h0 : (lts fun _ => ⟨true, false⟩).Reachable Distinct (new : DataStoreModel ℕ) := .init rfl
  have hkeys : Distinct (new : DataStoreModel ℕ) (.setTypeId 1 (some ["a", "b"])) := by
    rintro _ ⟨⟩
    decide
  have hfetch : ∀ m, Distinct (m : DataStoreModel ℕ) (.fetchMore false fun _ => some 0) := fun _ => trivial
  have hchanged : ∀ m, Distinct (m : DataStoreModel ℕ) (.storeChanged 1 "c" false fun _ => none) := fun _ => trivial
  have h3 := ((h0.step hkeys rfl).step (hfetch _) rfl).step (hchanged _) rfl
  exact ⟨_, rows_of_reachable h3, by decide, by decide⟩

end DataStoreModel

end QtDataSync
