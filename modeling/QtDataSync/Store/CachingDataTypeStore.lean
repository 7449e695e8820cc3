import Mathlib.Data.Fintype.Basic
import QtDataSync.Lib.Transition

/-!
# Store.CachingDataTypeStore — a cache of a type that follows the change signals

The threads of a process have a `DataStore` each, with one database, one cache of what has been loaded and one
`ChangeEmitter`.  An operation commits, posts a message to the emitter and emits its own signals at once; the emitter
passes the message on to the queues of all adapters, and an adapter skips what its own store has done.  A
`CachingDataTypeStore` loads the object of a key that has changed, from the shared cache if it is there, and forgets the
key when it is told of a deletion, whatever the store has by then.  The model is about the keys of one type.
-/

namespace QtDataSync

namespace CachingDataTypeStore

/-- A `dataChanged` signal. -/
structure Notice (Key : Type) where
  key : Key
  deleted : Bool
deriving DecidableEq, Repr

/-- Where `load` finds an object: in the shared cache, in the file of its row, or there but written by a transaction that
is not committed. -/
inductive Source where
  | cached
  | database
  | file
deriving DecidableEq, Repr

/-- The objects that are committed; the writer that has saved or removed the file of a key, and not committed yet; the
shared cache, and for every thread what it has yet to drop from it; what it has yet to post to the emitter, and the
signals that it emits itself; the queues of the emitter and of the adapters, with the origins; and `_data` of the stores
that exist. -/
structure Process (Thread Key Data : Type) where
  store : Key → Option Data
  writing : Option (Thread × Key × Option Data)
  cache : Key → Option Data
  dropping : Thread → List Key
  unposted : Thread → List (Notice Key)
  own : Thread → List (Notice Key)
  emitter : List (Thread × List (Notice Key))
  adapter : Thread → List (Thread × Notice Key)
  data : Thread → Option (Key → Option Data)

/-- What a thread calls.  `save` and `remove` stand for synchronized changes, too; `ids` are the keys that the store has
at this moment. -/
inductive Call (Key Data : Type) where
  | save (key : Key) (data : Data)
  | remove (key : Key)
  | clear (ids : List Key)
  | construct (ids : List Key)

/-- `load` is one of any other reader, and `evict` what a `QCache` does. -/
inductive Move (Thread Key Data : Type) where
  | call (u : Thread) (call : Call Key Data)
  | commit (u : Thread)
  | dropCached (u : Thread)
  | post (u : Thread)
  | signal (u : Thread) (source : Source)
  | emit
  | deliver (u : Thread) (source : Source)
  | load (key : Key) (source : Source)
  | evict (key : Key)

variable {Thread Key Data : Type} [DecidableEq Thread] [DecidableEq Key]

/-- `CachingDataTypeStore::evalDataChanged`, with what `load` has returned unless it has thrown an exception. -/
def evalDataChanged (loaded : Option Data) (notice : Notice Key) (data : Key → Option Data) : Key → Option Data :=
  if notice.deleted then Function.update data notice.key none
  else match loaded with
    | some object => Function.update data notice.key (some object)
    | none => data

namespace Process

variable (s : Process Thread Key Data) (u : Thread)

omit [DecidableEq Key] in
/-- The thread is in its event loop. -/
def Idle : Prop :=
  s.unposted u = [] ∧ s.own u = [] ∧ s.dropping u = [] ∧ s.writing.map (·.1) ≠ some u

instance : Decidable (s.Idle u) := inferInstanceAs (Decidable (_ ∧ _ ∧ _ ∧ _))

/-- What a `load` returns, if this is where it finds the object. -/
def found (key : Key) : Source → Option (Option Data)
  | .cached => (s.cache key).map some
  | .database => some (s.store key) -- the cache may have got the entry since
  | .file => if (s.store key).isSome then (s.writing.filter (·.2.1 = key)).map (·.2.2) else none

/-- A reader puts what it has read into the cache before it ends its transaction. -/
def putCached (key : Key) (object : Option Data) : Process Thread Key Data :=
  { s with cache := Function.update s.cache key (object.or (s.cache key)) }

/-- A commit, after which these keys are dropped and these signals are due. -/
def commit (store : Key → Option Data) (gone : List Key) (notices : List (Notice Key)) : Process Thread Key Data :=
  { s with
    store := store
    writing := none
    dropping := Function.update s.dropping u gone
    unposted := Function.update s.unposted u notices
    own := Function.update s.own u notices }

/-- The store of the thread has been told of a change, and what has been loaded. -/
def changed (notice : Notice Key) (loaded : Option Data) : Process Thread Key Data :=
  { s with data := Function.update s.data u ((s.data u).map (evalDataChanged loaded notice)) }

/-- The thread receives a signal of its adapter. -/
def receive (notice : Notice Key) (source : Source) : Option (Process Thread Key Data) :=
  if notice.deleted || (s.data u).isNone then some (s.changed u notice none)
  else (s.found notice.key source).map fun loaded => (s.putCached notice.key loaded).changed u notice loaded

/-- What a call does first: a writer has the lock of the database from here to its commit, and the readers of `clear` and
of other commits wait.  The constructor has only read the keys, and loads the objects next. -/
def call : Call Key Data → Option (Process Thread Key Data)
  | .save key data =>
    if s.writing.isNone then some { s.putCached key (some data) with writing := some (u, key, some data) } else none
  | .remove key =>
    if s.writing.isNone then some (if (s.store key).isSome then { s with writing := some (u, key, none) } else s)
    else none
  | .clear ids => if s.writing.isNone then some (s.commit u (fun _ => none) ids (ids.map (⟨·, true⟩))) else none
  | .construct ids =>
    if (s.data u).isNone then
      some { s with
        own := Function.update s.own u (ids.map (⟨·, false⟩))
        data := Function.update s.data u (some fun _ => none) }
    else none

/-- A step of a thread or of the emitter. -/
def next : Move Thread Key Data → Option (Process Thread Key Data)
  | .call u call => if s.Idle u then s.call u call else none
  | .commit u =>
    match s.writing with
    | some (v, key, object) =>
      if v = u then some (s.commit u (Function.update s.store key object) (if object.isNone then [key] else [])
        [⟨key, object.isNone⟩])
      else none
    | none => none
  | .dropCached u => some { s with
      cache := fun key => if key ∈ s.dropping u then none else s.cache key
      dropping := Function.update s.dropping u [] }
  | .post u =>
    if s.unposted u = [] ∨ s.dropping u ≠ [] then none
    else some { s with
      unposted := Function.update s.unposted u []
      emitter := s.emitter ++ [(u, s.unposted u)] }
  | .signal u source =>
    if s.unposted u = [] then
      match s.own u with
      | notice :: notices => receive { s with own := Function.update s.own u notices } u notice source
      | [] => none
    else none
  | .emit =>
    match s.emitter with
    | (origin, notices) :: messages =>
      some { s with emitter := messages, adapter := fun w => s.adapter w ++ notices.map (origin, ·) }
    | [] => none
  | .deliver u source =>
    if s.Idle u then
      match s.adapter u with
      | (origin, notice) :: events =>
        let t := { s with adapter := Function.update s.adapter u events }
        if origin = u then some t else t.receive u notice source
      | [] => none
    else none
  | .load key source => (s.found key source).map fun object => s.putCached key object
  | .evict key => some { s with cache := Function.update s.cache key none }

omit [DecidableEq Thread] [DecidableEq Key] in
/-- The keys that `clear` and the constructor select are those of the store. -/
def Answers : Move Thread Key Data → Prop
  | .call _ (.clear ids) | .call _ (.construct ids) => ∀ key, key ∈ ids ↔ s.store key ≠ none
  | _ => True

omit [DecidableEq Key] in
/-- All signals are delivered. -/
def Quiescent : Prop := s.emitter = [] ∧ ∀ u, s.Idle u ∧ s.adapter u = []

omit [DecidableEq Thread] [DecidableEq Key] in
/-- Every cache holds what the store holds. -/
def Mirrors : Prop := ∀ u data, s.data u = some data → data = s.store

/-! ### What is on its way -/

/-- The posted signals of other threads about the key that have not reached the thread, oldest first. -/
def underway (key : Key) : List Bool :=
  ((s.adapter u ++ s.emitter.flatMap fun message => message.2.map (message.1, ·)).filter
    fun event => event.1 ≠ u ∧ event.2.key = key).map (·.2.deleted)

/-- The same after the signals that the thread emits itself. -/
def toCome (key : Key) : List Bool := ((s.own u).filter (·.key = key)).map (·.deleted) ++ s.underway u key

/-- Another thread has yet to post such a signal. -/
def Unposted (notice : Notice Key) : Prop := ∃ v ≠ u, notice ∈ s.unposted v

/-- Another thread has yet to commit the key. -/
def Writing (key : Key) : Prop := ∃ w ∈ s.writing, w.1 ≠ u ∧ w.2.1 = key

/-- The last signal about the key that is to reach the thread is one of a deletion. -/
def EndsDeleted (key : Key) : Prop := (s.underway u key).getLast? = some true ∧ ¬ s.Unposted u ⟨key, false⟩

/-- The object is not read before, and cached after, a writer has cached the one that it is about to commit. -/
def Fresh (key : Key) (source : Source) : Prop :=
  source = .database → ∀ w ∈ s.writing, w.2.2.isSome = true → w.2.1 ≠ key

/-- A thread that saves an object where there is none, or loads the objects into a new cache, has no deletion ahead; and
what is loaded is fresh. -/
def Ordered : Move Thread Key Data → Prop
  | .commit u => ∀ w ∈ s.writing, w.2.2.isSome = true → s.store w.2.1 = none →
      ¬ s.Unposted u ⟨w.2.1, true⟩ ∧ (s.data u ≠ none → ¬ s.EndsDeleted u w.2.1)
  | .call u (.construct ids) => ∀ key ∈ ids, ¬ s.EndsDeleted u key
  | .signal u source => ∀ notice ∈ (s.own u).head?, s.Fresh notice.key source
  | .deliver u source => ∀ event ∈ (s.adapter u).head?, s.Fresh event.2.key source
  | .load key source => s.Fresh key source
  | _ => True

section Decidable

variable [Fintype Thread] [Fintype Key] [DecidableEq Data] (notice : Notice Key) (key : Key) (source : Source)

instance : Decidable (s.Unposted u notice) := inferInstanceAs (Decidable (∃ v, v ≠ u ∧ _))

omit [Fintype Key] [DecidableEq Data] in
instance : Decidable (s.EndsDeleted u key) := inferInstanceAs (Decidable (_ ∧ ¬ _))

omit [Fintype Thread] [Fintype Key] [DecidableEq Data] in
instance : Decidable (s.Fresh key source) :=
  inferInstanceAs (Decidable (source = .database → ∀ w ∈ s.writing, w.2.2.isSome = true → w.2.1 ≠ key))

instance : (move : Move Thread Key Data) → Decidable (s.Answers move)
  | .call _ (.clear ids) | .call _ (.construct ids) => inferInstanceAs (Decidable (∀ key, key ∈ ids ↔ s.store key ≠ none))
  | .call _ (.save _ _) | .call _ (.remove _) | .commit _ | .dropCached _ | .post _ | .signal _ _ | .emit | .deliver _ _
  | .load _ _ | .evict _ => .isTrue trivial

instance : (move : Move Thread Key Data) → Decidable (s.Ordered move)
  | .commit u => inferInstanceAs (Decidable (∀ w ∈ s.writing, w.2.2.isSome = true → s.store w.2.1 = none →
      ¬ s.Unposted u ⟨w.2.1, true⟩ ∧ (s.data u ≠ none → ¬ s.EndsDeleted u w.2.1)))
  | .call u (.construct ids) => inferInstanceAs (Decidable (∀ key ∈ ids, ¬ s.EndsDeleted u key))
  | .signal u source => inferInstanceAs (Decidable (∀ notice ∈ (s.own u).head?, s.Fresh notice.key source))
  | .deliver u source => inferInstanceAs (Decidable (∀ event ∈ (s.adapter u).head?, s.Fresh event.2.key source))
  | .load key source => inferInstanceAs (Decidable (s.Fresh key source))
  | .call _ (.save _ _) | .call _ (.remove _) | .call _ (.clear _) | .dropCached _ | .post _ | .emit | .evict _ =>
    .isTrue trivial

end Decidable

omit [DecidableEq Key] in
/-- Nothing is on its way, and no store of the type exists yet. -/
def Init : Prop := s.Quiescent ∧ (∀ key object, s.cache key = some object → s.store key = some object) ∧
  ∀ u, s.data u = none

end Process

def lts : LTS (Process Thread Key Data) (Move Thread Key Data) := LTS.ofStep Process.Init Process.next

/-! ### One key of one cache -/

section Due

/-- What a cache has of a key will be what the store has: `flags` tells which of the signals to come are deletions, and
`changing` and `deleting` whether a change or a deletion has yet to be posted. -/
def Due (changing deleting : Prop) (flags : List Bool) (stored cached : Option Data) : Prop :=
  match stored with
  | some object => changing ∨ flags.getLast? = some false ∨ flags = [] ∧ cached = some object
  | none => deleting ∨ true ∈ flags ∨ cached = none

variable {changing deleting : Prop} {flags : List Bool} {stored cached : Option Data}

theorem Due.eq (h : Due False False [] stored cached) : cached = stored := by
  rcases stored with _ | object
  · rcases h with h | h | h
    · exact h.elim
    · cases h
    · exact h
  · rcases h with h | h | ⟨-, h⟩
    · exact h.elim
    · cases h
    · exact h

/-- A signal has yet to be posted. -/
theorem Due.awaits (hc : stored ≠ none → changing) (hd : stored = none → deleting) :
    Due changing deleting flags stored cached := by
  rcases stored with _ | object
  · exact Or.inl (hd rfl)
  · exact Or.inl (hc (Option.some_ne_none _))

/-- A signal is received. -/
theorem Due.tail {flag : Bool} (h : Due changing deleting (flag :: flags) stored cached) :
    Due changing deleting flags stored (if flag then none else stored.or cached) := by
  rcases stored with _ | object
  · rcases h with h | h | rfl
    · exact Or.inl h
    · rcases List.mem_cons.mp h with rfl | h
      · exact Or.inr (Or.inr rfl)
      · exact Or.inr (Or.inl h)
    · exact Or.inr (Or.inr (by split <;> rfl))
  · rcases h with h | h | ⟨h, -⟩
    · exact Or.inl h
    · rcases flags.eq_nil_or_concat with rfl | ⟨_, _, rfl⟩
      · obtain rfl : flag = false := Option.some.inj h
        exact Or.inr (Or.inr ⟨rfl, rfl⟩)
      · rw [List.getLast?_cons_of_ne_nil (by simp)] at h
        exact Or.inr (Or.inl h)
    · cases h

/-- Signals are posted. -/
theorem Due.post {posted : List Bool} (h : Due (changing ∨ false ∈ posted) (deleting ∨ true ∈ posted) flags stored cached)
    (hstored : stored ≠ none → true ∉ posted) : Due changing deleting (flags ++ posted) stored cached := by
  rcases stored with _ | object
  · rcases h with (h | h) | h | h
    · exact Or.inl h
    · exact Or.inr (Or.inl (List.mem_append_right _ h))
    · exact Or.inr (Or.inl (List.mem_append_left _ h))
    · exact Or.inr (Or.inr h)
  · rcases posted.eq_nil_or_concat with rfl | ⟨posted, flag, rfl⟩
    · rw [List.append_nil]
      rcases h with (h | h) | h
      · exact Or.inl h
      · cases h
      · exact Or.inr h
    · have hflag : flag = false := by
        rcases flag with _ | _
        · rfl
        · exact absurd (by simp) (hstored (Option.some_ne_none _))
      rw [hflag]
      exact Or.inr (Or.inl (by simp))

theorem Due.mono {changing' deleting' : Prop} (h : Due changing deleting flags stored cached)
    (hc : changing → changing') (hd : deleting → deleting') : Due changing' deleting' flags stored cached := by
  rcases stored with _ | object
  · exact h.imp_left hd
  · exact h.imp_left hc

end Due

/-! ### The invariant -/

namespace Process

/-- Another thread has yet to post such a signal, or to commit what it is about. -/
def Awaits (s : Process Thread Key Data) (u : Thread) (notice : Notice Key) : Prop :=
  s.Unposted u notice ∨ s.Writing u notice.key

/-- A deletion of an object that is there has been posted, and one that has not been dropped yet has not.  The shared
cache has what is committed, or about to be committed or dropped. -/
structure Coherent (s : Process Thread Key Data) : Prop where
  posted : ∀ key, s.store key ≠ none → ∀ u, ⟨key, true⟩ ∉ s.unposted u
  dropped : ∀ u, ∀ key ∈ s.dropping u, s.store key = none ∧ ⟨key, true⟩ ∈ s.unposted u
  writer : ∀ w ∈ s.writing, s.unposted w.1 = [] ∧ s.own w.1 = []
  cached : ∀ key object, s.cache key = some object → s.store key = some object ∨ (∃ u, key ∈ s.dropping u) ∨
    ∃ v, s.writing = some (v, key, some object)
  caching : ∀ v key object, s.writing = some (v, key, some object) → ∀ x, s.cache key = some x → x = object

/-- And every cache of the type is due to have what the store has. -/
structure Inv (s : Process Thread Key Data) : Prop where
  coherent : s.Coherent
  due : ∀ u data, s.data u = some data → ∀ key, Due (s.Awaits u ⟨key, false⟩) (s.Awaits u ⟨key, true⟩)
    (s.toCome u key) (s.store key) (data key)

end Process

section Steps

variable {s t : Process Thread Key Data} {u : Thread} {key : Key} {source : Source} {object : Option Data}

omit [DecidableEq Thread] in
theorem evalDataChanged_apply (loaded : Option Data) (notice : Notice Key) (data : Key → Option Data) (key : Key) :
    evalDataChanged loaded notice data key =
      if notice.key = key then (if notice.deleted then none else loaded.or (data key)) else data key := by
  unfold evalDataChanged
  split_ifs with hdeleted hkey hkey
  · rw [← hkey, Function.update_self]
  · rw [Function.update_of_ne (Ne.symm hkey)]
  · subst hkey
    rcases loaded with _ | object
    · rfl
    · exact Function.update_self ..
  · rcases loaded with _ | object
    · rfl
    · exact Function.update_of_ne (Ne.symm hkey) ..

namespace Process

theorem toCome_of_own (h : s.own u = []) (key : Key) : s.toCome u key = s.underway u key := by
  rw [toCome, h]
  rfl

omit [DecidableEq Thread] [DecidableEq Key] in
theorem Awaits.congr {notice : Notice Key} (h : s.Awaits u notice) (hwriting : t.writing = s.writing)
    (hunposted : t.unposted = s.unposted) : t.Awaits u notice := by
  rcases h with ⟨v, hv, hmem⟩ | ⟨w, hw, h⟩
  · exact Or.inl ⟨v, hv, by rw [hunposted]; exact hmem⟩
  · exact Or.inr ⟨w, by rw [hwriting]; exact hw, h⟩

/-! ### The shared cache -/

omit [DecidableEq Thread] in
theorem putCached_self : (s.putCached key object).cache key = object.or (s.cache key) := Function.update_self ..

omit [DecidableEq Thread] in
theorem putCached_of_ne {k : Key} (h : k ≠ key) : (s.putCached key object).cache k = s.cache k :=
  Function.update_of_ne h ..

/-! ### A commit -/

section

variable {store : Key → Option Data} {gone : List Key} {notices : List (Notice Key)}

/-- A commit signals the keys whose objects it changes, as deleted if they are gone.  The cache has none of the others that
it replaces, and a thread that makes an object anew has no deletion ahead. -/
structure Commits (s : Process Thread Key Data) (u : Thread) (store : Key → Option Data) (gone : List Key)
    (notices : List (Notice Key)) : Prop where
  other : ∀ key, (∀ notice ∈ notices, notice.key ≠ key) → store key = s.store key
  deleted : ∀ notice ∈ notices, notice.deleted = true ↔ store notice.key = none
  gone_iff : ∀ key, key ∈ gone ↔ ⟨key, true⟩ ∈ notices
  writing : ∀ w ∈ s.writing, w.1 = u ∧ ∃ notice ∈ notices, notice.key = w.2.1
  cached : ∀ notice ∈ notices, notice.deleted = false → ∀ x, s.cache notice.key = some x → store notice.key = some x
  ordered : ∀ key, store key ≠ none → s.store key = none →
    ¬ s.Unposted u ⟨key, true⟩ ∧ (s.data u ≠ none → ¬ s.EndsDeleted u key)

omit [DecidableEq Key] in
theorem unposted_commit_self : (s.commit u store gone notices).unposted u = notices := Function.update_self ..

omit [DecidableEq Key] in
theorem unposted_commit_of_ne {v : Thread} (hv : v ≠ u) :
    (s.commit u store gone notices).unposted v = s.unposted v := Function.update_of_ne hv ..

omit [DecidableEq Key] in
theorem own_commit_self : (s.commit u store gone notices).own u = notices := Function.update_self ..

omit [DecidableEq Key] in
/-- What the others have yet to post is still to be posted. -/
theorem Unposted.commit {w : Thread} {notice : Notice Key} (hunposted : s.unposted u = []) (h : s.Unposted w notice) :
    (s.commit u store gone notices).Unposted w notice := by
  obtain ⟨v, hv, hmem⟩ := h
  have hvu : v ≠ u := by
    rintro rfl
    rw [hunposted] at hmem
    cases hmem
  exact ⟨v, hv, by rw [unposted_commit_of_ne hvu]; exact hmem⟩

omit [DecidableEq Key] in
/-- The other threads are going to be told of the keys that are signalled. -/
theorem awaits_commit {w : Thread} (hw : w ≠ u) {notice : Notice Key} (hnotice : notice ∈ notices) :
    (s.commit u store gone notices).Awaits w notice :=
  Or.inl ⟨u, hw.symm, by rw [unposted_commit_self]; exact hnotice⟩

end

namespace Coherent

variable {store : Key → Option Data} {gone : List Key} {notices : List (Notice Key)}

omit [DecidableEq Thread] [DecidableEq Key] in
/-- No entry of the cache is touched. -/
theorem frame (h : s.Coherent) (hstore : t.store = s.store) (hwriting : t.writing = s.writing) (hcache : t.cache = s.cache)
    (hdropping : t.dropping = s.dropping) (hunposted : t.unposted = s.unposted)
    (hown : ∀ v, s.own v = [] → t.own v = []) : t.Coherent := by
  refine ⟨?_, ?_, ?_, ?_, ?_⟩
  · rw [hstore, hunposted]
    exact h.posted
  · rw [hstore, hdropping, hunposted]
    exact h.dropped
  · rw [hwriting, hunposted]
    exact fun w hw => ⟨(h.writer w hw).1, hown _ (h.writer w hw).2⟩
  · rw [hstore, hwriting, hcache, hdropping]
    exact h.cached
  · rw [hwriting, hcache]
    exact h.caching

omit [DecidableEq Thread] in
/-- A reader caches an object that is fresh. -/
theorem putCached (h : s.Coherent) (hfound : s.found key source = some object) (hfresh : s.Fresh key source) :
    (s.putCached key object).Coherent := by
  have hself : ∀ x, (s.putCached key object).cache key = some x →
      object = some x ∨ object = none ∧ s.cache key = some x := by
    intro x hx
    rw [putCached_self] at hx
    rcases object with - | y
    · exact Or.inr ⟨rfl, hx⟩
    · exact Or.inl hx
  have hsource : ∀ x, object = some x → s.cache key = some x ∨ s.store key = some x ∧ source = .database ∨
      ∃ v, s.writing = some (v, key, some x) := by
    rintro x rfl
    cases source with
    | cached =>
      obtain ⟨y, hy, hxy⟩ := Option.map_eq_some_iff.mp hfound
      exact Or.inl (hy.trans hxy)
    | database => exact Or.inr (Or.inl ⟨Option.some.inj hfound, rfl⟩)
    | file =>
      rw [found, Option.ite_none_right_eq_some, Option.map_eq_some_iff] at hfound
      obtain ⟨-, ⟨v, k, y⟩, hw, hy⟩ := hfound
      rw [Option.filter_eq_some_iff, decide_eq_true_eq] at hw
      obtain ⟨hw, rfl⟩ := hw
      exact Or.inr (Or.inr ⟨v, hw.trans (by rw [show y = some x from hy])⟩)
  refine ⟨h.posted, h.dropped, h.writer, fun k x hx => ?_, fun v k x hw y hy => ?_⟩
  · by_cases hk : k = key
    · subst hk
      rcases hself x hx with hobject | ⟨-, hx⟩
      · rcases hsource x hobject with hx | ⟨hx, -⟩ | hw
        · exact h.cached _ x hx
        · exact Or.inl hx
        · exact Or.inr (Or.inr hw)
      · exact h.cached _ x hx
    · rw [putCached_of_ne hk] at hx
      exact h.cached k x hx
  · by_cases hk : k = key
    · subst hk
      rcases hself y hy with hobject | ⟨-, hy⟩
      · rcases hsource y hobject with hy | ⟨-, rfl⟩ | ⟨v', hw'⟩
        · exact h.caching v k x hw y hy
        · exact absurd rfl (hfresh rfl _ hw rfl)
        · have heq : some (v', k, some y) = some (v, k, some x) := hw'.symm.trans hw
          simp only [Option.some.injEq, Prod.mk.injEq, true_and] at heq
          exact heq.2
      · exact h.caching v k x hw y hy
    · rw [putCached_of_ne hk] at hy
      exact h.caching v k x hw y hy

omit [DecidableEq Thread] in
/-- What a thread loads is what the store has, or a signal has yet to be posted. -/
theorem found (h : s.Coherent) (hunposted : s.unposted u = []) (hwriting : ∀ w ∈ s.writing, w.1 ≠ u)
    (hfound : s.found key source = some object) :
    object = s.store key ∨ s.Writing u key ∨ s.store key = none ∧ s.Unposted u ⟨key, true⟩ := by
  cases source with
  | cached =>
    obtain ⟨x, hx, rfl⟩ := Option.map_eq_some_iff.mp hfound
    rcases h.cached key x hx with hstore | ⟨v, hv⟩ | ⟨v, hv⟩
    · exact Or.inl hstore.symm
    · obtain ⟨hnone, hmem⟩ := h.dropped v key hv
      have hvu : v ≠ u := by
        rintro rfl
        rw [hunposted] at hmem
        cases hmem
      exact Or.inr (Or.inr ⟨hnone, v, hvu, hmem⟩)
    · exact Or.inr (Or.inl ⟨_, hv, hwriting _ hv, rfl⟩)
  | database => exact Or.inl (Option.some.inj hfound).symm
  | file =>
    rw [Process.found, Option.ite_none_right_eq_some, Option.map_eq_some_iff] at hfound
    obtain ⟨-, w, hw, -⟩ := hfound
    rw [Option.filter_eq_some_iff, decide_eq_true_eq] at hw
    exact Or.inr (Or.inl ⟨w, hw.1, hwriting w hw.1, hw.2⟩)

omit [DecidableEq Thread] [DecidableEq Key] in
/-- Entries of the cache are dropped. -/
theorem drop (h : s.Coherent) (hstore : t.store = s.store) (hwriting : t.writing = s.writing)
    (hcache : ∀ key x, t.cache key = some x → s.cache key = some x ∧ ∀ v, key ∈ s.dropping v → ∃ v, key ∈ t.dropping v)
    (hdropping : ∀ v, ∀ key ∈ t.dropping v, key ∈ s.dropping v) (hunposted : t.unposted = s.unposted)
    (hown : t.own = s.own) :
    t.Coherent := by
  refine ⟨?_, fun v key hkey => ?_, ?_, fun key x hx => ?_, fun v key x hw y hy => ?_⟩
  · rw [hstore, hunposted]
    exact h.posted
  · rw [hstore, hunposted]
    exact h.dropped v key (hdropping v key hkey)
  · rw [hwriting, hunposted, hown]
    exact h.writer
  · rw [hstore, hwriting]
    obtain ⟨hx, hkey⟩ := hcache key x hx
    rcases h.cached key x hx with hs | ⟨v, hv⟩ | hw
    · exact Or.inl hs
    · exact Or.inr (Or.inl (hkey v hv))
    · exact Or.inr (Or.inr hw)
  · rw [hwriting] at hw
    exact h.caching v key x hw y (hcache key y hy).1

omit [DecidableEq Thread] [DecidableEq Key] in
/-- A writer is about to commit a key; if it saves an object, the cache has it already. -/
theorem write (h : s.Coherent) (hposted : s.unposted u = []) (hown : s.own u = []) (hnone : s.writing = none)
    {cache : Key → Option Data}
    (hother : ∀ k x, cache k = some x → s.cache k = some x ∨ k = key ∧ object = some x)
    (hself : ∀ x, object = some x → cache key = some x) :
    Coherent { s with cache := cache, writing := some (u, key, object) } := by
  refine ⟨h.posted, h.dropped, fun w hw => ?_, fun k x hx => ?_, fun v k x hw y hy => ?_⟩
  · obtain rfl := Option.some.inj hw
    exact ⟨hposted, hown⟩
  · rcases hother k x hx with hx | ⟨rfl, rfl⟩
    · refine (h.cached k x hx).imp_right (Or.imp_right ?_)
      rintro ⟨v, hv⟩
      rw [hnone] at hv
      cases hv
    · exact Or.inr (Or.inr ⟨u, rfl⟩)
  · have heq : some (u, key, object) = some (v, k, some x) := hw
    simp only [Option.some.injEq, Prod.mk.injEq] at heq
    obtain ⟨-, rfl, rfl⟩ := heq
    exact Option.some.inj (hy.symm.trans (hself x rfl))

/-- An operation commits: what is gone is dropped next, and the rest is in the cache as it is committed, or not at all. -/
theorem commit (h : s.Coherent) (hunposted : s.unposted u = []) (hc : Commits s u store gone notices) :
    (s.commit u store gone notices).Coherent := by
  have hdropping : (s.commit u store gone notices).dropping u = gone := Function.update_self ..
  have hdropping' : ∀ v, v ≠ u → (s.commit u store gone notices).dropping v = s.dropping v :=
    fun v hv => Function.update_of_ne hv ..
  refine ⟨fun key hstore v hmem => ?_, fun v key hkey => ?_, nofun, fun key x hx => ?_, nofun⟩
  · rcases eq_or_ne v u with rfl | hv
    · rw [unposted_commit_self] at hmem
      exact hstore ((hc.deleted _ hmem).mp rfl)
    · rw [unposted_commit_of_ne hv] at hmem
      by_cases hs : s.store key = none
      · exact (hc.ordered key hstore hs).1 ⟨v, hv, hmem⟩
      · exact h.posted key hs v hmem
  · rcases eq_or_ne v u with rfl | hv
    · rw [hdropping] at hkey
      rw [unposted_commit_self]
      have hmem := (hc.gone_iff key).mp hkey
      exact ⟨(hc.deleted _ hmem).mp rfl, hmem⟩
    · rw [hdropping' v hv] at hkey
      rw [unposted_commit_of_ne hv]
      obtain ⟨hnone, hmem⟩ := h.dropped v key hkey
      refine ⟨?_, hmem⟩
      by_contra hstore
      exact (hc.ordered key hstore hnone).1 ⟨v, hv, hmem⟩
  · by_cases htouch : ∃ notice ∈ notices, notice.key = key
    · obtain ⟨⟨k, flag⟩, hnotice, rfl⟩ := htouch
      rcases flag with - | -
      · exact Or.inl (hc.cached _ hnotice rfl x hx)
      · refine Or.inr (Or.inl ⟨u, ?_⟩)
        rw [hdropping]
        exact (hc.gone_iff k).mpr hnotice
    · have huntouched : ∀ notice ∈ notices, notice.key ≠ key := fun notice hn hk => htouch ⟨notice, hn, hk⟩
      rcases h.cached key x hx with hs | ⟨v, hv⟩ | ⟨v, hv⟩
      · exact Or.inl ((hc.other key huntouched).trans hs)
      · have hvu : v ≠ u := by
          rintro rfl
          have hmem := (h.dropped v key hv).2
          rw [hunposted] at hmem
          cases hmem
        exact Or.inr (Or.inl ⟨v, by rw [hdropping' v hvu]; exact hv⟩)
      · exact absurd (hc.writing _ hv).2 htouch

/-- The thread drops what it has removed. -/
theorem dropCached (h : s.Coherent) : Coherent { s with
    cache := fun key => if key ∈ s.dropping u then none else s.cache key
    dropping := Function.update s.dropping u [] } := by
  refine h.drop rfl rfl (fun key x hx => ?_) (fun v key hkey => ?_) rfl rfl
  · have hx' : (if key ∈ s.dropping u then none else s.cache key) = some x := hx
    rw [Option.ite_none_left_eq_some] at hx'
    refine ⟨hx'.2, fun v hv => ⟨v, ?_⟩⟩
    have hvu : v ≠ u := by
      rintro rfl
      exact hx'.1 hv
    show key ∈ Function.update s.dropping u [] v
    rwa [Function.update_of_ne hvu]
  · have hkey' : key ∈ Function.update s.dropping u [] v := hkey
    rcases eq_or_ne v u with rfl | hv
    · rw [Function.update_self] at hkey'
      cases hkey'
    · rwa [Function.update_of_ne hv] at hkey'

omit [DecidableEq Thread] in
/-- An entry is evicted. -/
theorem evict (h : s.Coherent) (key : Key) : Coherent { s with cache := Function.update s.cache key none } := by
  refine h.drop rfl rfl (fun k x hx => ?_) (fun v k hk => hk) rfl rfl
  have hx' : Function.update s.cache key none k = some x := hx
  rcases eq_or_ne k key with rfl | hk
  · rw [Function.update_self] at hx'
    cases hx'
  · rw [Function.update_of_ne hk] at hx'
    exact ⟨hx', fun v hv => ⟨v, hv⟩⟩

omit [DecidableEq Key] in
/-- The message about an operation is posted, and everything has been dropped before. -/
theorem post (h : s.Coherent) (hdropping : s.dropping u = []) : Coherent { s with
    unposted := Function.update s.unposted u []
    emitter := s.emitter ++ [(u, s.unposted u)] } := by
  have hself : Function.update s.unposted u [] u = [] := Function.update_self ..
  have hother : ∀ v, v ≠ u → Function.update s.unposted u [] v = s.unposted v := fun v hv => Function.update_of_ne hv ..
  refine ⟨fun key hstore v hn => ?_, fun v key hkey => ?_, fun w hw => ?_, h.cached, h.caching⟩
  · have hn' : (⟨key, true⟩ : Notice Key) ∈ Function.update s.unposted u [] v := hn
    rcases eq_or_ne v u with rfl | hv
    · rw [hself] at hn'
      cases hn'
    · rw [hother v hv] at hn'
      exact h.posted key hstore v hn'
  · have hkey' : key ∈ s.dropping v := hkey
    have hv : v ≠ u := by
      rintro rfl
      rw [hdropping] at hkey'
      cases hkey'
    refine ⟨(h.dropped v key hkey).1, ?_⟩
    show _ ∈ Function.update s.unposted u [] v
    rw [hother v hv]
    exact (h.dropped v key hkey).2
  · refine ⟨?_, (h.writer w hw).2⟩
    show Function.update s.unposted u [] w.1 = []
    rcases eq_or_ne w.1 u with hwu | hwu
    · rw [hwu, hself]
    · rw [hother _ hwu]
      exact (h.writer w hw).1

end Coherent

end Process

omit [DecidableEq Thread] in
/-- The first signal to come is received: the object is loaded as it is in the store, or a signal has yet to be posted. -/
theorem due_receive {changing deleting : Prop} {notice : Notice Key} {flags : List Bool} {loaded : Option Data}
    {data : Key → Option Data}
    (h : Due changing deleting ((if notice.key = key then [notice.deleted] else []) ++ flags) (s.store key) (data key))
    (hloaded : notice.key = key → notice.deleted = false → loaded = s.store key ∨
      (s.store key ≠ none → changing) ∧ (s.store key = none → deleting)) :
    Due changing deleting flags (s.store key) (evalDataChanged loaded notice data key) := by
  rw [evalDataChanged_apply]
  split_ifs at h ⊢ with hkey hdeleted
  · have htail := h.tail
    rw [if_pos hdeleted] at htail
    exact htail
  · rcases hloaded hkey (Bool.eq_false_iff.mpr hdeleted) with rfl | ⟨hc, hd⟩
    · have htail := h.tail
      rw [if_neg hdeleted] at htail
      exact htail
    · exact .awaits hc hd
  · exact h

namespace Process.Inv

variable {store : Key → Option Data} {gone : List Key} {notices : List (Notice Key)}

theorem not_endsDeleted (h : s.Inv) (hown : s.own u = []) (hwriting : ¬ s.Writing u key) (hstore : s.store key ≠ none)
    (hdata : s.data u ≠ none) : ¬ s.EndsDeleted u key := by
  rintro ⟨hlast, hno⟩
  obtain ⟨data, hdata⟩ := Option.ne_none_iff_exists'.mp hdata
  obtain ⟨object, hobject⟩ := Option.ne_none_iff_exists'.mp hstore
  have hdue := h.due u data hdata key
  rw [hobject, toCome_of_own hown] at hdue
  rcases hdue with (hchange | hchange) | hchange | ⟨hnil, -⟩
  · exact hno hchange
  · exact hwriting hchange
  · rw [hlast] at hchange
    cases hchange
  · rw [hnil] at hlast
    cases hlast

/-- After its own signals of changes a thread has no deletion ahead. -/
theorem due_own {notices : List (Notice Key)} {object cached : Option Data} {changing deleting : Prop}
    (hmem : ∃ notice ∈ notices, notice.key = key) (hnotices : ∀ notice ∈ notices, notice.key = key → notice.deleted = false)
    (hends : s.EndsDeleted u key → changing) (hchange : s.Unposted u ⟨key, false⟩ → changing) (hobject : object ≠ none) :
    Due changing deleting (((notices.filter (·.key = key)).map (·.deleted)) ++ s.underway u key) object cached := by
  obtain ⟨object, rfl⟩ := Option.ne_none_iff_exists'.mp hobject
  by_cases hc : changing
  · exact Or.inl hc
  refine Or.inr (Or.inl ?_)
  rcases hlast : (s.underway u key).getLast? with _ | flag
  · rw [List.getLast?_eq_none_iff.mp hlast, List.append_nil]
    have hfalse : ∀ flag ∈ (notices.filter (·.key = key)).map (·.deleted), flag = false := by
      intro flag hflag
      obtain ⟨notice, hnotice, rfl⟩ := List.mem_map.mp hflag
      obtain ⟨hn, hk⟩ := List.mem_filter.mp hnotice
      exact hnotices notice hn (of_decide_eq_true hk)
    have hne : (notices.filter (·.key = key)).map (·.deleted) ≠ [] := by
      obtain ⟨notice, hn, hk⟩ := hmem
      exact List.ne_nil_of_mem (List.mem_map.mpr ⟨notice, List.mem_filter.mpr ⟨hn, decide_eq_true hk⟩, rfl⟩)
    rw [List.getLast?_eq_some_getLast hne]
    exact congrArg some (hfalse _ (List.getLast_mem hne))
  · rw [List.getLast?_append, hlast, Option.some_or]
    rcases flag with _ | _
    · rfl
    · by_cases hun : s.Unposted u ⟨key, false⟩
      · exact absurd (hchange hun) hc
      · exact absurd (hends ⟨hlast, hun⟩) hc

/-- The thread itself is going to hear of an object that its commit has stored. -/
theorem due_stored (h : s.Inv) (hunposted : s.unposted u = []) (hown : s.own u = []) (hc : Commits s u store gone notices)
    {notice : Notice Key} (hnotice : notice ∈ notices) (hstore : store notice.key ≠ none) (hdata : s.data u ≠ none)
    {changing deleting : Prop} (hchange : (s.commit u store gone notices).Unposted u ⟨notice.key, false⟩ → changing)
    (cached : Option Data) :
    Due changing deleting ((s.commit u store gone notices).toCome u notice.key) (store notice.key) cached := by
  rw [toCome, own_commit_self]
  refine due_own (s := s) ⟨notice, hnotice, rfl⟩ (fun n hn hk => ?_) (fun hends => ?_)
    (fun hun => hchange (hun.commit hunposted)) hstore
  · rw [← hk] at hstore
    exact Bool.eq_false_iff.mpr fun htrue => hstore ((hc.deleted n hn).mp htrue)
  · by_cases hs : s.store notice.key = none
    · exact absurd hends ((hc.ordered _ hstore hs).2 hdata)
    · refine absurd hends (h.not_endsDeleted hown ?_ hs hdata)
      rintro ⟨x, hx, hne, -⟩
      exact hne (hc.writing x hx).1

/-- A key that the commit signals. -/
theorem due_signalled (h : s.Inv) (hunposted : s.unposted u = []) (hown : s.own u = [])
    (hc : Commits s u store gone notices) {notice : Notice Key} (hnotice : notice ∈ notices) {w : Thread}
    (hdata : s.data w ≠ none) (cached : Option Data) :
    Due ((s.commit u store gone notices).Awaits w ⟨notice.key, false⟩)
      ((s.commit u store gone notices).Awaits w ⟨notice.key, true⟩)
      ((s.commit u store gone notices).toCome w notice.key) (store notice.key) cached := by
  rcases hflag : notice.deleted with - | -
  · have hstore : store notice.key ≠ none := fun hnone => by
      rw [(hc.deleted notice hnotice).mpr hnone] at hflag
      cases hflag
    rcases eq_or_ne w u with rfl | hw
    · exact h.due_stored hunposted hown hc hnotice hstore hdata Or.inl cached
    · obtain ⟨object, hobject⟩ := Option.ne_none_iff_exists'.mp hstore
      rw [hobject, ← hflag]
      exact Or.inl (awaits_commit hw hnotice)
  · rw [(hc.deleted notice hnotice).mp hflag]
    rcases eq_or_ne w u with rfl | hw
    · refine Or.inr (Or.inl ?_)
      rw [toCome, own_commit_self]
      refine List.mem_append_left _ (List.mem_map.mpr ⟨notice, List.mem_filter.mpr ⟨hnotice, ?_⟩, hflag⟩)
      exact decide_eq_true rfl
    · rw [← hflag]
      exact Or.inl (awaits_commit hw hnotice)

/-- A key that the commit does not touch. -/
theorem due_untouched (h : s.Inv) (hunposted : s.unposted u = []) (hown : s.own u = [])
    (hc : Commits s u store gone notices) (htouch : ∀ notice ∈ notices, notice.key ≠ key) {w : Thread}
    {data : Key → Option Data} (hdata : s.data w = some data) :
    Due ((s.commit u store gone notices).Awaits w ⟨key, false⟩) ((s.commit u store gone notices).Awaits w ⟨key, true⟩)
      ((s.commit u store gone notices).toCome w key) (store key) (data key) := by
  have hcome : (s.commit u store gone notices).toCome w key = s.toCome w key := by
    rcases eq_or_ne w u with rfl | hw
    · have hnil : notices.filter (·.key = key) = [] :=
        List.filter_eq_nil_iff.mpr fun notice hn => by simpa using htouch notice hn
      rw [toCome, own_commit_self, hnil, toCome, hown]
      rfl
    · have hown : (s.commit u store gone notices).own w = s.own w := Function.update_of_ne hw ..
      rw [toCome, hown]
      rfl
  have hawaits : ∀ flag, s.Awaits w ⟨key, flag⟩ → (s.commit u store gone notices).Awaits w ⟨key, flag⟩ := by
    rintro flag (hun | ⟨x, hx, -, hkey⟩)
    · exact Or.inl (hun.commit hunposted)
    · obtain ⟨notice, hn, hk⟩ := (hc.writing x hx).2
      exact absurd (hk.trans hkey) (htouch notice hn)
  rw [hcome, hc.other key htouch]
  exact (h.due w data hdata key).mono (hawaits _) (hawaits _)

/-- An operation commits. -/
theorem commit (h : s.Inv) (hunposted : s.unposted u = []) (hown : s.own u = []) (hc : Commits s u store gone notices) :
    (s.commit u store gone notices).Inv := by
  refine ⟨h.coherent.commit hunposted hc, fun w data hdata key => ?_⟩
  have hdata' : s.data w = some data := hdata
  by_cases htouch : ∃ notice ∈ notices, notice.key = key
  · obtain ⟨notice, hnotice, rfl⟩ := htouch
    have hsome : s.data w ≠ none := by
      rw [hdata']
      exact Option.some_ne_none _
    exact h.due_signalled hunposted hown hc hnotice hsome _
  · exact h.due_untouched hunposted hown hc (fun notice hn hk => htouch ⟨notice, hn, hk⟩) hdata'

/-- A new cache, whose constructor is about to load the objects. -/
theorem construct (h : s.Inv) (hidle : s.Idle u) {ids : List Key} (hids : ∀ key, key ∈ ids ↔ s.store key ≠ none)
    (hordered : ∀ key ∈ ids, ¬ s.EndsDeleted u key) :
    Inv { s with
      own := Function.update s.own u (ids.map (⟨·, false⟩))
      data := Function.update s.data u (some fun _ => none) } := by
  have hwriter : ∀ w ∈ s.writing, w.1 ≠ u := by
    rintro w hw rfl
    exact hidle.2.2.2 (by rw [hw]; rfl)
  refine ⟨⟨h.coherent.posted, h.coherent.dropped, fun w hw => ?_, h.coherent.cached, h.coherent.caching⟩,
    fun w data hdata key => ?_⟩
  · have hown : Function.update s.own u (ids.map (⟨·, false⟩)) w.1 = s.own w.1 := Function.update_of_ne (hwriter w hw) ..
    exact ⟨(h.coherent.writer w hw).1, hown.trans (h.coherent.writer w hw).2⟩
  · have hdata' : Function.update s.data u (some fun _ => none) w = some data := hdata
    rcases eq_or_ne w u with rfl | hw
    · rw [Function.update_self, Option.some.injEq] at hdata'
      simp only [toCome, Function.update_self]
      by_cases hkey : key ∈ ids
      · refine due_own (s := s) ⟨_, List.mem_map_of_mem hkey, rfl⟩ (fun notice hn _ => ?_)
          (fun hends => absurd hends (hordered key hkey)) (fun hun => Or.inl hun) ((hids key).mp hkey)
        obtain ⟨_, -, rfl⟩ := List.mem_map.mp hn
        rfl
      · have hstore : s.store key = none := not_not.mp fun hne => hkey ((hids key).mpr hne)
        show Due _ _ _ (s.store key) _
        rw [hstore, ← hdata']
        exact Or.inr (Or.inr rfl)
    · rw [Function.update_of_ne hw] at hdata'
      simp only [toCome, Function.update_of_ne hw]
      exact h.due w data hdata' key

/-- A writer has begun: a signal about its key is going to be posted. -/
theorem write (h : s.Inv) (hidle : s.Idle u) (hnone : s.writing = none) {cache : Key → Option Data}
    (hother : ∀ k x, cache k = some x → s.cache k = some x ∨ k = key ∧ object = some x)
    (hself : ∀ x, object = some x → cache key = some x) :
    Inv { s with cache := cache, writing := some (u, key, object) } := by
  refine ⟨h.coherent.write hidle.1 hidle.2.1 hnone hother hself, fun w data hdata k => ?_⟩
  have hawaits : ∀ flag, s.Awaits w ⟨k, flag⟩ →
      Awaits { s with cache := cache, writing := some (u, key, object) } w ⟨k, flag⟩ := by
    rintro flag (hun | ⟨x, hx, -⟩)
    · exact Or.inl hun
    · rw [hnone] at hx
      cases hx
  exact (h.due w data hdata k).mono (hawaits _) (hawaits _)

/-- The message about an operation is posted. -/
theorem post (h : s.Inv) (hdropping : s.dropping u = []) : Inv { s with
    unposted := Function.update s.unposted u []
    emitter := s.emitter ++ [(u, s.unposted u)] } := by
  have hother : ∀ v, v ≠ u → Function.update s.unposted u [] v = s.unposted v := fun v hv => Function.update_of_ne hv ..
  refine ⟨h.coherent.post hdropping, fun w data hdata key => ?_⟩
  have hdue := h.due w data hdata key
  have hposted : ∀ flag, flag ∈ ((s.unposted u).filter (·.key = key)).map (·.deleted) ↔
      ⟨key, flag⟩ ∈ s.unposted u := by
    intro flag
    simp only [List.mem_map, List.mem_filter, decide_eq_true_eq]
    constructor
    · rintro ⟨notice, ⟨hn, rfl⟩, rfl⟩
      exact hn
    · exact fun hn => ⟨_, ⟨hn, rfl⟩, rfl⟩
  have hun : ∀ flag, s.Awaits w ⟨key, flag⟩ → Awaits { s with
      unposted := Function.update s.unposted u []
      emitter := s.emitter ++ [(u, s.unposted u)] } w ⟨key, flag⟩ ∨ w ≠ u ∧ ⟨key, flag⟩ ∈ s.unposted u := by
    rintro flag (⟨v, hv, hmem⟩ | hwriting)
    · rcases eq_or_ne v u with rfl | hvu
      · exact Or.inr ⟨hv.symm, hmem⟩
      · exact Or.inl (Or.inl ⟨v, hv, by rw [← hother v hvu] at hmem; exact hmem⟩)
    · exact Or.inl (Or.inr hwriting)
  rcases eq_or_ne w u with rfl | hw
  · have hcome : toCome { s with
          unposted := Function.update s.unposted w []
          emitter := s.emitter ++ [(w, s.unposted w)] } w key = s.toCome w key := by
      simp [toCome, underway, List.flatMap_append, List.filter_append]
    rw [hcome]
    exact hdue.mono (fun hc => (hun _ hc).resolve_right fun hr => hr.1 rfl)
      fun hd => (hun _ hd).resolve_right fun hr => hr.1 rfl
  · have hcome : toCome { s with
          unposted := Function.update s.unposted u []
          emitter := s.emitter ++ [(u, s.unposted u)] } w key =
        s.toCome w key ++ ((s.unposted u).filter (·.key = key)).map (·.deleted) := by
      simp [toCome, underway, List.flatMap_append, List.filter_append, List.filter_map, Function.comp_def, hw.symm]
    rw [hcome]
    refine (hdue.mono (fun hc => ?_) fun hd => ?_).post fun hstore hmem => ?_
    · exact (hun _ hc).imp_right fun hr => (hposted _).mpr hr.2
    · exact (hun _ hd).imp_right fun hr => (hposted _).mpr hr.2
    · exact h.coherent.posted key hstore u ((hposted _).mp hmem)

/-- No cache of the type is touched, and signals are only moved from one queue to another. -/
theorem frame (h : s.Inv) (hcoherent : t.Coherent) (hstore : t.store = s.store) (hwriting : t.writing = s.writing)
    (hunposted : t.unposted = s.unposted) (hdata : t.data = s.data)
    (hcome : ∀ w key, t.toCome w key = s.toCome w key) : t.Inv := by
  refine ⟨hcoherent, fun w data hw key => ?_⟩
  rw [hdata] at hw
  rw [hstore, hcome]
  exact (h.due w data hw key).mono (fun hc => hc.congr hwriting hunposted) fun hd => hd.congr hwriting hunposted

/-- A thread receives the first of the signals to come: `t` is the process with the signal taken from its queue. -/
theorem receive (h : s.Inv) {notice : Notice Key} {t' : Process Thread Key Data} (hcoherent : t.Coherent)
    (hstore : t.store = s.store) (hwriting : t.writing = s.writing) (hunposted : t.unposted = s.unposted)
    (hdata : t.data = s.data)
    (hself : ∀ key, (if notice.key = key then [notice.deleted] else []) ++ t.toCome u key = s.toCome u key)
    (hother : ∀ w, w ≠ u → ∀ key, t.toCome w key = s.toCome w key) (hposted : t.unposted u = [])
    (hwriter : ∀ w ∈ t.writing, w.1 ≠ u) (hfresh : t.Fresh notice.key source)
    (ht : t.receive u notice source = some t') : t'.Inv := by
  -- a deleted notice loads nothing, and neither does a thread without a store of the type
  have hloads : ∃ loaded cache, t' = { t with
        cache := cache, data := Function.update t.data u ((t.data u).map (evalDataChanged loaded notice)) } ∧
      Coherent { t with cache := cache } ∧ (t.data u ≠ none → notice.deleted = false →
        loaded = t.store notice.key ∨ t.Writing u notice.key ∨
          t.store notice.key = none ∧ t.Unposted u ⟨notice.key, true⟩) := by
    rw [Process.receive] at ht
    split_ifs at ht with hnone
    · obtain rfl := Option.some.inj ht
      refine ⟨none, t.cache, rfl, hcoherent, fun hdata' hflag => ?_⟩
      rw [hflag, Bool.false_or, Option.isNone_iff_eq_none] at hnone
      exact absurd hnone hdata'
    · obtain ⟨loaded, hfound, rfl⟩ := Option.map_eq_some_iff.mp ht
      exact ⟨loaded, _, rfl, hcoherent.putCached hfound hfresh, fun _ _ => hcoherent.found hposted hwriter hfound⟩
  obtain ⟨loaded, cache, rfl, hcache, hloaded⟩ := hloads
  refine ⟨hcache.frame rfl rfl rfl rfl rfl fun _ hv => hv, fun w data hw key => ?_⟩
  have hdue : ∀ {flags : List Bool} {cached : Option Data},
      Due (s.Awaits w ⟨key, false⟩) (s.Awaits w ⟨key, true⟩) flags (t.store key) cached →
      Due (t.Awaits w ⟨key, false⟩) (t.Awaits w ⟨key, true⟩) flags (t.store key) cached :=
    fun hdue => hdue.mono (fun hc => hc.congr hwriting hunposted) fun hd => hd.congr hwriting hunposted
  have hw' : Function.update t.data u ((t.data u).map (evalDataChanged loaded notice)) w = some data := hw
  rcases eq_or_ne w u with rfl | hwu
  · rw [Function.update_self, Option.map_eq_some_iff] at hw'
    obtain ⟨data', hdata', rfl⟩ := hw'
    refine due_receive (s := t) ?_ fun hkey hflag => ?_
    · have hold := h.due w data' (hdata ▸ hdata') key
      rw [← hself, ← hstore] at hold
      exact hdue hold
    · subst hkey
      have hsome : t.data w ≠ none := by
        rw [hdata']
        exact Option.some_ne_none _
      refine (hloaded hsome hflag).imp_right fun hwait => ?_
      rcases hwait with hwriting | ⟨hnone, hdeleted⟩
      · exact ⟨fun _ => Or.inr hwriting, fun _ => Or.inr hwriting⟩
      · exact ⟨fun hne => absurd hnone hne, fun _ => Or.inl hdeleted⟩
  · rw [Function.update_of_ne hwu, hdata] at hw'
    have hold := h.due w data hw' key
    rw [← hother w hwu, ← hstore] at hold
    exact hdue hold

/-- A thread emits a signal of its own. -/
theorem signal (h : s.Inv) {notice : Notice Key} {notices : List (Notice Key)} (hposted : s.unposted u = [])
    (hown : s.own u = notice :: notices) (hfresh : s.Fresh notice.key source)
    (ht : Process.receive { s with own := Function.update s.own u notices } u notice source = some t) : t.Inv := by
  have hwriter : ∀ w ∈ s.writing, w.1 ≠ u := by
    rintro w hw rfl
    rw [(h.coherent.writer w hw).2] at hown
    cases hown
  have hself : Function.update s.own u notices u = notices := Function.update_self ..
  have hcoherent : Coherent { s with own := Function.update s.own u notices } := by
    refine ⟨h.coherent.posted, h.coherent.dropped, fun w hw => ?_, h.coherent.cached, h.coherent.caching⟩
    have hkeep : Function.update s.own u notices w.1 = s.own w.1 := Function.update_of_ne (hwriter w hw) ..
    exact ⟨(h.coherent.writer w hw).1, hkeep.trans (h.coherent.writer w hw).2⟩
  refine h.receive hcoherent rfl rfl rfl rfl (fun key => ?_) (fun w hw key => ?_) hposted hwriter hfresh ht
  · simp only [toCome, hself, hown, List.filter_cons]
    by_cases hkey : notice.key = key
    · rw [if_pos hkey, if_pos (decide_eq_true hkey)]
      rfl
    · rw [if_neg hkey, if_neg (by simpa using hkey)]
      rfl
  · simp only [toCome, Function.update_of_ne hw]
    rfl

/-- The emitter passes a message on to the adapters. -/
theorem emit (h : s.Inv) {origin : Thread} {notices : List (Notice Key)} {messages : List (Thread × List (Notice Key))}
    (hemitter : s.emitter = (origin, notices) :: messages) :
    Inv { s with emitter := messages, adapter := fun w => s.adapter w ++ notices.map (origin, ·) } := by
  refine h.frame (h.coherent.frame rfl rfl rfl rfl rfl fun _ hv => hv) rfl rfl rfl rfl fun w key => ?_
  rw [toCome, toCome, underway, underway, hemitter, List.flatMap_cons, ← List.append_assoc]

theorem underway_update {w : Thread} (hw : w ≠ u) (events : List (Thread × Notice Key)) (key : Key) :
    underway { s with adapter := Function.update s.adapter u events } w key = s.underway w key := by
  simp only [underway, Function.update_of_ne hw]

/-- A thread receives a signal of another one, or skips one of its own. -/
theorem deliver (h : s.Inv) (hidle : s.Idle u) {origin : Thread} {notice : Notice Key}
    {events : List (Thread × Notice Key)} (hadapter : s.adapter u = (origin, notice) :: events)
    (hfresh : s.Fresh notice.key source)
    (ht : (if origin = u then some { s with adapter := Function.update s.adapter u events }
      else Process.receive { s with adapter := Function.update s.adapter u events } u notice source) = some t) :
    t.Inv := by
  have hwriter : ∀ w ∈ s.writing, w.1 ≠ u := by
    rintro w hw rfl
    exact hidle.2.2.2 (by rw [hw]; rfl)
  have hself : Function.update s.adapter u events u = events := Function.update_self ..
  have hcoherent : Coherent { s with adapter := Function.update s.adapter u events } :=
    h.coherent.frame rfl rfl rfl rfl rfl fun _ hv => hv
  have hcome : ∀ key, (if origin ≠ u ∧ notice.key = key then [notice.deleted] else []) ++
      toCome { s with adapter := Function.update s.adapter u events } u key = s.toCome u key := by
    intro key
    have hown : ({ s with adapter := Function.update s.adapter u events } : Process Thread Key Data).own u = [] := hidle.2.1
    rw [toCome_of_own hown, toCome_of_own hidle.2.1]
    simp only [underway, hadapter, hself, List.cons_append, List.filter_cons]
    by_cases hc : origin ≠ u ∧ notice.key = key
    · rw [if_pos hc, if_pos (decide_eq_true hc)]
      rfl
    · rw [if_neg hc, if_neg (by simpa using hc)]
      rfl
  split_ifs at ht with horigin
  · obtain rfl := Option.some.inj ht
    refine h.frame hcoherent rfl rfl rfl rfl fun w key => ?_
    rcases eq_or_ne w u with rfl | hw
    · rw [← hcome key, if_neg fun hc => hc.1 horigin, List.nil_append]
    · exact congrArg _ (underway_update hw events key)
  · refine h.receive hcoherent rfl rfl rfl rfl (fun key => ?_) (fun w hw key => ?_) hidle.1 hwriter hfresh ht
    · have hkey := hcome key
      simp only [ne_eq, horigin, not_false_eq_true, true_and] at hkey
      exact hkey
    · exact congrArg _ (underway_update hw events key)

/-- A thread calls an operation. -/
theorem call (h : s.Inv) (hidle : s.Idle u) {call : Call Key Data} (ha : s.Answers (.call u call))
    (hg : s.Ordered (.call u call)) (hst : s.call u call = some t) : t.Inv := by
  cases call with
  | save key data =>
    rw [Process.call, Option.ite_none_right_eq_some, Option.isNone_iff_eq_none] at hst
    obtain ⟨hnone, hst⟩ := hst
    cases hst
    refine h.write hidle hnone (fun k x hx => ?_) fun x hx => ?_
    · by_cases hk : k = key
      · subst hk
        rw [putCached_self] at hx
        exact Or.inr ⟨rfl, hx⟩
      · rw [putCached_of_ne hk] at hx
        exact Or.inl hx
    · rw [putCached_self]
      exact hx
  | remove key =>
    rw [Process.call, Option.ite_none_right_eq_some, Option.isNone_iff_eq_none] at hst
    obtain ⟨hnone, hst⟩ := hst
    split_ifs at hst with hsome
    · cases hst
      exact h.write hidle hnone (fun k x hx => Or.inl hx) nofun
    · cases hst
      exact h
  | clear ids =>
    rw [Process.call, Option.ite_none_right_eq_some, Option.isNone_iff_eq_none] at hst
    obtain ⟨hnone, hst⟩ := hst
    cases hst
    have hids : ∀ key flag, (⟨key, flag⟩ : Notice Key) ∈ ids.map (⟨·, true⟩) ↔ key ∈ ids ∧ flag = true := by
      intro key flag
      simp [eq_comm]
    refine h.commit hidle.1 hidle.2.1 ⟨fun k hk => ?_, fun notice hn => ?_, fun k => ?_, fun w hw => ?_,
      fun notice hn hflag => ?_, fun k hk => absurd rfl hk⟩
    · by_contra hne
      exact hk ⟨k, true⟩ ((hids k true).mpr ⟨(ha k).mpr (Ne.symm hne), rfl⟩) rfl
    · exact ⟨fun _ => rfl, fun _ => ((hids notice.key notice.deleted).mp hn).2⟩
    · rw [hids]
      exact (and_iff_left rfl).symm
    · rw [hnone] at hw
      cases hw
    · rw [((hids notice.key notice.deleted).mp hn).2] at hflag
      cases hflag
  | construct ids =>
    rw [Process.call, Option.ite_none_right_eq_some] at hst
    obtain ⟨-, hst⟩ := hst
    cases hst
    exact h.construct hidle ha hg

/-- A writer commits. -/
theorem commit_writing (h : s.Inv) (hwriting : s.writing = some (u, key, object)) (hg : s.Ordered (.commit u)) :
    (s.commit u (Function.update s.store key object) (if object.isNone then [key] else [])
      [⟨key, object.isNone⟩]).Inv := by
  obtain ⟨hposted, hown⟩ := h.coherent.writer _ hwriting
  refine h.commit hposted hown ⟨fun k hk => ?_, fun notice hn => ?_, fun k => ?_, fun w hw => ?_,
    fun notice hn hflag x hx => ?_, fun k hk hnone => ?_⟩
  · exact Function.update_of_ne (fun he => hk _ List.mem_cons_self he.symm) ..
  · rw [List.mem_singleton] at hn
    rw [hn, Function.update_self]
    exact Option.isNone_iff_eq_none
  · rcases object with - | x
    · simp [eq_comm]
    · simp
  · rw [hwriting] at hw
    cases hw
    exact ⟨rfl, _, List.mem_cons_self, rfl⟩
  · rw [List.mem_singleton] at hn
    subst hn
    rcases object with - | y
    · cases hflag
    · rw [Function.update_self, h.coherent.caching u key y hwriting x hx]
  · rcases eq_or_ne k key with rfl | hne
    · rw [Function.update_self, ← Option.isSome_iff_ne_none] at hk
      exact hg _ hwriting hk hnone
    · rw [Function.update_of_ne hne] at hk
      exact absurd hnone hk

theorem next {move : Move Thread Key Data} (h : s.Inv) (ha : s.Answers move) (hg : s.Ordered move)
    (hst : s.next move = some t) : t.Inv := by
  cases move with
  | call u call =>
    rw [Process.next, Option.ite_none_right_eq_some] at hst
    exact h.call hst.1 ha hg hst.2
  | commit u =>
    rw [Process.next] at hst
    rcases hwriting : s.writing with - | ⟨v, key, object⟩
    · rw [hwriting] at hst
      cases hst
    · rw [hwriting, Option.ite_none_right_eq_some] at hst
      obtain ⟨rfl, hst⟩ := hst
      cases hst
      exact h.commit_writing hwriting hg
  | dropCached u =>
    cases hst
    exact h.frame h.coherent.dropCached rfl rfl rfl rfl fun _ _ => rfl
  | post u =>
    rw [Process.next, Option.ite_none_left_eq_some, not_or, not_not] at hst
    obtain ⟨⟨-, hdropping⟩, hst⟩ := hst
    cases hst
    exact h.post hdropping
  | signal u source =>
    rw [Process.next, Option.ite_none_right_eq_some] at hst
    obtain ⟨hposted, hst⟩ := hst
    rcases hown : s.own u with _ | ⟨notice, notices⟩
    · rw [hown] at hst
      cases hst
    · rw [hown] at hst
      exact h.signal hposted hown (hg notice (by rw [hown]; rfl)) hst
  | emit =>
    rw [Process.next] at hst
    rcases hemitter : s.emitter with _ | ⟨⟨origin, notices⟩, messages⟩
    · rw [hemitter] at hst
      cases hst
    · rw [hemitter] at hst
      cases hst
      exact h.emit hemitter
  | deliver u source =>
    rw [Process.next, Option.ite_none_right_eq_some] at hst
    obtain ⟨hidle, hst⟩ := hst
    rcases hadapter : s.adapter u with _ | ⟨⟨origin, notice⟩, events⟩
    · rw [hadapter] at hst
      cases hst
    · rw [hadapter] at hst
      exact h.deliver hidle hadapter (hg (origin, notice) (by rw [hadapter]; rfl)) hst
  | load key source =>
    obtain ⟨object, hfound, rfl⟩ := Option.map_eq_some_iff.mp hst
    exact h.frame (h.coherent.putCached hfound hg) rfl rfl rfl rfl fun _ _ => rfl
  | evict key =>
    cases hst
    exact h.frame (h.coherent.evict key) rfl rfl rfl rfl fun _ _ => rfl

end Process.Inv

/-- **Mirrors.**  In every run in which no thread saves an object, or loads the objects, with the deletion of one still
ahead, and none caches an object that a writer is about to replace, every cache holds what the store holds as soon as all
signals are delivered. -/
theorem mirrors_of_reachable (h : lts.Reachable (fun s move => s.Answers move ∧ s.Ordered move) s)
    (hq : s.Quiescent) : s.Mirrors := by
  have hinv : s.Inv := by
    refine LTS.Reachable.invariant (I := Process.Inv) (fun s h0 => ?_)
      (fun s move t _ hI hg hst => hI.next hg.1 hg.2 hst) h
    obtain ⟨⟨-, hidle⟩, hcached, hdata⟩ := h0
    refine ⟨⟨fun key _ u hmem => ?_, fun u key hkey => ?_, fun w hw => ?_, fun key x hx => Or.inl (hcached key x hx),
      fun v key x hw => ?_⟩, fun u data hu => ?_⟩
    · rw [(hidle u).1.1] at hmem
      cases hmem
    · rw [(hidle u).1.2.2.1] at hkey
      cases hkey
    · exact absurd (by rw [hw]; rfl) (hidle w.1).1.2.2.2
    · exact absurd (by rw [hw]; rfl) (hidle v).1.2.2.2
    · rw [hdata u] at hu
      cases hu
  obtain ⟨hemitter, hq⟩ := hq
  intro u data hdata
  funext key
  have hawaits : ∀ notice, ¬ s.Awaits u notice := by
    rintro notice (⟨v, -, hmem⟩ | ⟨w, hw, -⟩)
    · rw [(hq v).1.1] at hmem
      cases hmem
    · exact absurd (by rw [hw]; rfl) (hq w.1).1.2.2.2
  have hcome : s.toCome u key = [] := by
    rw [Process.toCome_of_own (hq u).1.2.1, Process.underway, (hq u).2, hemitter]
    rfl
  have hdue := hinv.due u data hdata key
  rw [hcome] at hdue
  exact (hdue.mono (hawaits _) (hawaits _)).eq

end Steps

/-! ### An object that is saved again -/

namespace Sample

open Process

/-- Two threads, and one object. -/
def start : Process Bool Unit ℕ :=
  ⟨fun _ => some 0, none, fun _ => none, fun _ => [], fun _ => [], fun _ => [], [], fun _ => [], fun _ => none⟩

theorem init_start : start.Init := ⟨⟨rfl, fun _ => ⟨⟨rfl, rfl, rfl, nofun⟩, rfl⟩⟩, nofun, fun _ => rfl⟩

/-- Both threads make a cache; the second one finds the object that the first one has loaded. -/
def constructs : List (Move Bool Unit ℕ) :=
  [.call false (.construct [()]), .signal false .database, .call true (.construct [()]), .signal true .cached]

/-- One removes the object. -/
def removes : List (Move Bool Unit ℕ) :=
  [.call true (.remove ()), .commit true, .dropCached true, .post true, .signal true .cached]

/-- The other saves a new one. -/
def saves : List (Move Bool Unit ℕ) :=
  [.call false (.save () 1), .commit false, .post false, .signal false .cached]

/-- A message is delivered. -/
def delivers : List (Move Bool Unit ℕ) := [.emit, .deliver false .cached, .deliver true .cached]

/-- The removal is delivered before the object is saved. -/
def delivered : Process Bool Unit ℕ :=
  (LTS.exec next (fun s move => decide (s.Answers move ∧ s.Ordered move)) start
    (constructs ++ removes ++ delivers ++ saves ++ delivers)).get (by decide +kernel)

end Sample

theorem mirrors_delivered : (Sample.delivered.data false).bind (· ()) = some 1 ∧ Sample.delivered.Mirrors := by
  refine ⟨by decide +kernel, ?_⟩
  have hreachable : lts.Reachable (fun s move => s.Answers move ∧ s.Ordered move) Sample.delivered :=
    LTS.exec_reachable (fun s move hok => of_decide_eq_true hok) Sample.init_start (Option.some_get _).symm
  refine mirrors_of_reachable hreachable ⟨by decide +kernel, fun u => ?_⟩
  cases u <;> exact ⟨by decide +kernel, by decide +kernel⟩

/-- The removal is delivered to the thread that has saved the object since. -/
theorem not_mirrors_overtaken : ¬ ∀ s : Process Bool Unit ℕ, lts.Reachable Process.Answers s → s.Quiescent →
    s.Mirrors := by
  intro h
  have hrun : ((LTS.exec Process.next (fun s move => decide (s.Answers move)) Sample.start
      (Sample.constructs ++ Sample.removes ++ Sample.saves ++ Sample.delivers ++
        [.emit, .deliver true .cached, .deliver false .cached])).map
          fun s => (s.store (), (s.data false).map (· ()))) = some (some 1, some none) := by
    decide +kernel
  obtain ⟨s, hs, he⟩ := Option.map_eq_some_iff.mp hrun
  rw [Prod.mk.injEq] at he
  have hreachable : lts.Reachable Process.Answers s :=
    LTS.exec_reachable (fun s move hok => of_decide_eq_true hok) Sample.init_start hs
  have hquiescent : s.Quiescent := by
    obtain rfl := Option.some.inj hs
    refine ⟨rfl, fun u => ?_⟩
    cases u <;> exact ⟨⟨rfl, rfl, rfl, nofun⟩, rfl⟩
  obtain ⟨data, hdata, hnone⟩ := Option.map_eq_some_iff.mp he.2
  rw [h s hreachable hquiescent false data hdata, he.1] at hnone
  cases hnone

/-- An object that is read before, and cached after, a writer has cached the next one stays. -/
example : ((LTS.exec Process.next (fun s move => decide (s.Answers move)) Sample.start
    (Sample.constructs ++ [.call false (.save () 1), .load () .database, .commit false, .post false,
      .signal false .cached] ++ Sample.delivers)).map
        fun s => (s.store (), (s.data false).map (· ()), (s.data true).map (· ()))) =
      some (some 1, some (some 0), some (some 0)) := by
  decide +kernel

end CachingDataTypeStore

end QtDataSync
