import Mathlib.Order.WithBot
import QtDataSync.Lib.Versioned
import QtDataSync.Store.LocalStore

/-!
# Store.SyncController — `SyncController::syncChange` on the row of the changed key

`syncChange` is the case matrix of `synccontroller.cpp`, branch by branch.  What its twenty branches amount to
is said once by `SyncOutcome` (`syncChange_outcome`): the row is kept, replaced by the received change, found
identical, deleted with an echo, bumped by one version after a tie, or erased.  All later proofs use the outcome.
-/

namespace QtDataSync

/-- `Setup::SyncPolicy`. -/
inductive SyncPolicy where
  | PreferChanged
  | PreferDeleted
deriving DecidableEq, Repr

/-- A change as `SyncHelper::extract` returns it; `data = none` is a deletion. -/
structure Change (Data : Type*) where
  key : ObjectKey
  version : ℕ
  data : Option Data
deriving DecidableEq, Repr

/-- The properties of `Defaults` that the sync code reads.  A resolver gets the type name and the local and the
remote data and may throw; `none` is the empty JSON object, i.e. no result. -/
structure Defaults (Data : Type*) where
  persistDeleted : Bool
  conflictPolicy : SyncPolicy
  conflictResolver : Option (QByteArray → Data → Data → Except QException (Option Data))

section Sync

variable {Data Checksum : Type*} {jsonHash : Data → Checksum}

/-- The version and content of a row. -/
def Row.item (r : Row jsonHash) : Versioned (Option Data) := ⟨r.version, r.content⟩

/-- The version and content of a change. -/
def Change.item (c : Change Data) : Versioned (Option Data) := ⟨c.version, c.data⟩

@[simp] theorem Row.item_version (r : Row jsonHash) : r.item.version = r.version := rfl
@[simp] theorem Row.item_content (r : Row jsonHash) : r.item.content = r.content := rfl
@[simp] theorem Change.item_version (c : Change Data) : c.item.version = c.version := rfl
@[simp] theorem Change.item_content (c : Change Data) : c.item.content = c.data := rfl

namespace SyncController

open LocalStore

/-- `resolver->resolveConflict(..)`, if there is a resolver. -/
def resolveConflict (d : Defaults Data) (typeName : QByteArray) (localData remoteData : Data) :
    Except QException (Option Data) :=
  match d.conflictResolver with
  | some resolver => resolver typeName localData remoteData
  | none => .ok none

theorem markUnchanged_change (p : Bool) (r : Row jsonHash) :
    LocalStore.markUnchanged p (some r) r.version false = some { r with changed := false } := by
  simp [LocalStore.markUnchanged, markUnchangedImpl_change]

variable [LinearOrder Checksum]

/-- `SyncController::syncChange` on the row of the key of the change. -/
def syncChange (d : Defaults Data) (e : Entry jsonHash) (c : Change Data) :
    Except QException (Entry jsonHash) :=
  match LocalStore.loadChangeInfo e, c.data with
  | .Exists localVersion _, none => -- exists<->deleted
    if localVersion < c.version then LocalStore.storeDeleted e c.version (!d.persistDeleted) .Exists
    else if localVersion = c.version then
      match d.conflictPolicy with
      | .PreferChanged => .ok (LocalStore.updateVersion e localVersion (localVersion + 1) true)
      | .PreferDeleted => LocalStore.storeDeleted e (c.version + 1) true .Exists
    else .ok e
  | .Exists localVersion localFile, some remoteData => -- exists<->changed
    if localVersion < c.version then LocalStore.storeChanged e c.version remoteData false .Exists
    else if localVersion = c.version then
      let remoteChecksum := jsonHash remoteData
      if localFile.checksum ≠ remoteChecksum then
        match resolveConflict d c.key.typeName localFile.data remoteData with
        | .error ex => .error ex
        | .ok (some resolvedData) => LocalStore.storeChanged e (localVersion + 1) resolvedData true .Exists
        | .ok none =>
          if localFile.checksum > remoteChecksum then
            .ok (LocalStore.updateVersion e localVersion (localVersion + 1) true)
          else LocalStore.storeChanged e (c.version + 1) remoteData true .Exists
      else .ok (LocalStore.markUnchanged d.persistDeleted e localVersion false)
    else .ok e
  | .ExistsDeleted localVersion, none => -- cachedDelete<->deleted
    if localVersion ≤ c.version then
      if d.persistDeleted then .ok (LocalStore.updateVersion e localVersion c.version false)
      else .ok (LocalStore.markUnchanged d.persistDeleted e localVersion true)
    else .ok e
  | .ExistsDeleted localVersion, some remoteData => -- cachedDelete<->changed
    if localVersion < c.version then LocalStore.storeChanged e c.version remoteData false .ExistsDeleted
    else if localVersion = c.version then
      match d.conflictPolicy with
      | .PreferChanged => LocalStore.storeChanged e (c.version + 1) remoteData true .ExistsDeleted
      | .PreferDeleted => .ok (LocalStore.updateVersion e localVersion (localVersion + 1) true)
    else .ok e
  | .NoExists, none => -- noexists<->deleted
    if d.persistDeleted then LocalStore.storeDeleted e c.version false .NoExists
    else .ok e
  | .NoExists, some remoteData => -- noexists<->changed
    LocalStore.storeChanged e c.version remoteData false .NoExists

/-! ### The content that survives a tie -/

/-- Who wins a tie of two different contents at one version when no resolver decides: by policy between an
object and a deletion, by the larger checksum between two objects. -/
def tieKey (jsonHash : Data → Checksum) (policy : SyncPolicy) : Option Data → WithBot (WithTop Checksum)
  | some data => ((jsonHash data : WithTop Checksum) : WithBot (WithTop Checksum))
  | none => match policy with
    | .PreferChanged => ⊥
    | .PreferDeleted => ((⊤ : WithTop Checksum) : WithBot (WithTop Checksum))

omit [LinearOrder Checksum] in
/-- Checksums identify contents. -/
theorem item_eq_of_checksum (hj : Function.Injective jsonHash) {r : Row jsonHash} {c : Change Data}
    (hv : r.version = c.version) (hc : r.content.map jsonHash = c.data.map jsonHash) :
    r.item = c.item :=
  Versioned.ext hv (Option.map_injective hj hc)

/-- The content stored after a tie between the local content `l` and the remote content `m`. -/
inductive TieResult (jsonHash : Data → Checksum) (d : Defaults Data) (typeName : QByteArray)
    (l m : Option Data) : Option Data → Prop
  | resolved {ld md data : Data} : l = some ld → m = some md →
      resolveConflict d typeName ld md = .ok (some data) → TieResult jsonHash d typeName l m (some data)
  | keep : tieKey jsonHash d.conflictPolicy m < tieKey jsonHash d.conflictPolicy l →
      TieResult jsonHash d typeName l m l
  | take : tieKey jsonHash d.conflictPolicy l < tieKey jsonHash d.conflictPolicy m →
      TieResult jsonHash d typeName l m m

/-- What `syncChange` does to the row. -/
inductive SyncOutcome (jsonHash : Data → Checksum) (d : Defaults Data) (c : Change Data) :
    Entry jsonHash → Entry jsonHash → Prop
  /-- The local version is higher. -/
  | newer {r : Row jsonHash} : c.version < r.version → SyncOutcome jsonHash d c (some r) (some r)
  /-- A deletion of a key that is not known and that is not to be kept. -/
  | ignored : d.persistDeleted = false → c.data = none → SyncOutcome jsonHash d c none none
  /-- The change is stored as it is, unchanged. -/
  | taken {e : Entry jsonHash} {r' : Row jsonHash} : (∀ r, e = some r → r.version < c.version) →
      (d.persistDeleted = true ∨ c.data ≠ none) → r'.item = c.item → r'.changed = false →
      SyncOutcome jsonHash d c e (some r')
  /-- Local and remote are the same: a deletion, or two objects with one checksum. -/
  | identical {r : Row jsonHash} : (d.persistDeleted = true ∨ c.data ≠ none) → r.version = c.version →
      r.content.map jsonHash = c.data.map jsonHash →
      SyncOutcome jsonHash d c (some r) (some { r with changed := false })
  /-- A newer deletion of an object that is not kept is stored as changed, so that it is sent again. -/
  | echo {r r' : Row jsonHash} : d.persistDeleted = false → c.data = none → r.content ≠ none →
      r.version < c.version → r'.item = c.item → r'.changed = true →
      SyncOutcome jsonHash d c (some r) (some r')
  /-- Two contents at one version: one of them, or a merge, is stored one version higher. -/
  | tie {r r' : Row jsonHash} : r.version = c.version → r.content ≠ c.data →
      TieResult jsonHash d c.key.typeName r.content c.data r'.content → r'.version = c.version + 1 →
      r'.changed = true → SyncOutcome jsonHash d c (some r) (some r')
  /-- A cached deletion that is not kept is dropped. -/
  | erased {r : Row jsonHash} : d.persistDeleted = false → c.data = none → r.content = none →
      r.version ≤ c.version → SyncOutcome jsonHash d c (some r) none

/-- The tie of two objects: a merge, or the one with the larger checksum. -/
theorem outcome_conflict {d : Defaults Data} {c : Change Data} {f : DataFile jsonHash} {ch : Bool}
    {remoteData : Data} {e' : Entry jsonHash} (hc : c.data = some remoteData)
    (hne : f.checksum ≠ jsonHash remoteData)
    (h : (match resolveConflict d c.key.typeName f.data remoteData with
      | .error ex => .error ex
      | .ok (some resolvedData) =>
        LocalStore.storeChanged (some ⟨c.version, some f, ch⟩) (c.version + 1) resolvedData true .Exists
      | .ok none =>
        if f.checksum > jsonHash remoteData then
          .ok (LocalStore.updateVersion (some ⟨c.version, some f, ch⟩) c.version (c.version + 1) true)
        else LocalStore.storeChanged (some ⟨c.version, some f, ch⟩) (c.version + 1) remoteData true .Exists) =
      Except.ok e') :
    SyncOutcome jsonHash d c (some ⟨c.version, some f, ch⟩) e' := by
  have hdata : f.data ≠ remoteData := by
    rintro rfl
    exact hne f.checksum_eq
  have hcont : (Row.mk c.version (some f) ch).content ≠ c.data := by
    rw [hc]; simpa using hdata
  have hl : tieKey jsonHash d.conflictPolicy (Row.mk c.version (some f) ch).content =
      ((f.checksum : WithTop Checksum) : WithBot (WithTop Checksum)) := by
    simp [tieKey, f.checksum_eq]
  cases hres : resolveConflict d c.key.typeName f.data remoteData with
  | error ex => rw [hres] at h; simp at h
  | ok res =>
    rw [hres] at h
    cases res with
    | some data =>
      simp only [LocalStore.storeChanged, LocalStore.storeChangedImpl, bne_iff_ne, ne_eq, reduceCtorEq,
        not_false_eq_true, ↓reduceIte, Option.map_some, Except.ok.injEq] at h
      subst h
      exact .tie rfl hcont (.resolved rfl hc hres) rfl rfl
    | none =>
      simp only at h
      by_cases h4 : f.checksum > jsonHash remoteData
      · rw [if_pos h4] at h
        simp only [LocalStore.updateVersion, Option.map_some, ↓reduceIte, Except.ok.injEq] at h
        subst h
        refine .tie rfl hcont (.keep ?_) rfl rfl
        rw [hl, hc]
        exact WithBot.coe_lt_coe.mpr (WithTop.coe_lt_coe.mpr h4)
      · rw [if_neg h4] at h
        simp only [LocalStore.storeChanged, LocalStore.storeChangedImpl, bne_iff_ne, ne_eq, reduceCtorEq,
          not_false_eq_true, ↓reduceIte, Option.map_some, Except.ok.injEq] at h
        subst h
        have hlt : f.checksum < jsonHash remoteData := lt_of_le_of_ne (not_lt.mp h4) hne
        have ht : TieResult jsonHash d c.key.typeName (Row.mk c.version (some f) ch).content c.data
            c.data := by
          refine .take ?_
          rw [hl, hc]
          exact WithBot.coe_lt_coe.mpr (WithTop.coe_lt_coe.mpr hlt)
        refine .tie rfl hcont ?_ rfl rfl
        simpa [hc] using ht

/-- The row `exists` and a change arrives for it. -/
theorem outcome_exists_changed {d : Defaults Data} {c : Change Data} {v : ℕ} {f : DataFile jsonHash} {ch : Bool}
    {remoteData : Data}
    {e' : Entry jsonHash} (hc : c.data = some remoteData)
    (h : syncChange d (some ⟨v, some f, ch⟩) c = .ok e') :
    SyncOutcome jsonHash d c (some ⟨v, some f, ch⟩) e' := by
  have hne : c.data ≠ none := by rw [hc]; simp
  simp only [syncChange, LocalStore.loadChangeInfo, hc] at h
  by_cases h1 : v < c.version
  · rw [if_pos h1] at h
    simp only [LocalStore.storeChanged, LocalStore.storeChangedImpl, bne_iff_ne, ne_eq, reduceCtorEq, not_false_eq_true,
      ↓reduceIte, Option.map_some, Except.ok.injEq] at h
    subst h
    exact .taken (by rintro r hr; cases hr; exact h1) (Or.inr hne)
      (by simp [Row.item, Change.item, hc]) rfl
  · rw [if_neg h1] at h
    by_cases h2 : v = c.version
    · subst h2
      rw [if_pos rfl] at h
      by_cases h3 : f.checksum = jsonHash remoteData
      · rw [if_neg (not_not.mpr h3)] at h
        rw [markUnchanged_change d.persistDeleted ⟨c.version, some f, ch⟩, Except.ok.injEq] at h
        subst h
        exact .identical (Or.inr hne) rfl (by simp [hc, ← h3, f.checksum_eq])
      · rw [if_pos h3] at h
        exact outcome_conflict hc h3 h
    · rw [if_neg h2, Except.ok.injEq] at h
      subst h
      exact .newer (by simp only; omega)

/-- The row `exists` and a deletion arrives for it. -/
theorem outcome_exists_deleted {d : Defaults Data} {c : Change Data} {v : ℕ} {f : DataFile jsonHash}
    {ch : Bool} {e' : Entry jsonHash} (hc : c.data = none)
    (h : syncChange d (some ⟨v, some f, ch⟩) c = .ok e') :
    SyncOutcome jsonHash d c (some ⟨v, some f, ch⟩) e' := by
  have hcont : (Row.mk v (some f) ch).content ≠ c.data := by rw [hc]; simp
  simp only [syncChange, LocalStore.loadChangeInfo, hc] at h
  split_ifs at h with h1 h2
  · simp only [LocalStore.storeDeleted, bne_iff_ne, ne_eq, reduceCtorEq, not_false_eq_true, ↓reduceIte,
      Option.map_some, Except.ok.injEq] at h
    subst h
    cases hp : d.persistDeleted with
    | true =>
      exact .taken (by rintro r hr; cases hr; exact h1) (Or.inl hp)
        (by simp [Row.item, Change.item, hc]) rfl
    | false =>
      exact .echo hp hc (by simp) h1 (by simp [Row.item, Change.item, hc]) rfl
  · cases hpol : d.conflictPolicy with
    | PreferChanged =>
      simp only [hpol, LocalStore.updateVersion, Option.map_some, ↓reduceIte, Except.ok.injEq] at h
      subst h
      refine .tie h2 hcont (.keep ?_) (by simp [h2]) rfl
      rw [hc, hpol]
      exact WithBot.bot_lt_coe _
    | PreferDeleted =>
      simp only [hpol, LocalStore.storeDeleted, bne_iff_ne, ne_eq, reduceCtorEq, not_false_eq_true, ↓reduceIte,
        Option.map_some, Except.ok.injEq] at h
      subst h
      have ht : TieResult jsonHash d c.key.typeName (Row.mk v (some f) ch).content c.data c.data := by
        refine .take ?_
        rw [hc, hpol]
        exact WithBot.coe_lt_coe.mpr (WithTop.coe_lt_top _)
      refine .tie h2 hcont ?_ rfl rfl
      simpa [hc] using ht
  · simp only [Except.ok.injEq] at h
    subst h
    exact .newer (by simp only; omega)

/-- A deletion is cached and another one arrives. -/
theorem outcome_deleted_deleted {d : Defaults Data} {c : Change Data} {v : ℕ} {ch : Bool}
    {e' : Entry jsonHash} (hc : c.data = none)
    (h : syncChange d (some (⟨v, none, ch⟩ : Row jsonHash)) c = .ok e') :
    SyncOutcome jsonHash d c (some ⟨v, none, ch⟩) e' := by
  simp only [syncChange, LocalStore.loadChangeInfo, hc] at h
  split_ifs at h with h1 hp
  · simp only [LocalStore.updateVersion, Option.map_some, ↓reduceIte, Except.ok.injEq] at h
    subst h
    rcases Nat.lt_or_ge v c.version with hlt | hge
    · exact .taken (by rintro r hr; cases hr; exact hlt) (Or.inl hp)
        (by simp [Row.item, Change.item, hc]) rfl
    · have hv : v = c.version := le_antisymm h1 hge
      have hid : SyncOutcome jsonHash d c (some ⟨v, none, ch⟩) (some ⟨v, none, false⟩) :=
        .identical (Or.inl hp) hv (by simp [hc])
      simpa [hv] using hid
  · have hp' : d.persistDeleted = false := by simpa using hp
    rw [hp', LocalStore.markUnchanged, markUnchangedImpl_delete rfl rfl, Except.ok.injEq] at h
    subst h
    exact .erased hp' hc rfl h1
  · simp only [Except.ok.injEq] at h
    subst h
    exact .newer (by simp only; omega)

/-- A deletion is cached and a change arrives. -/
theorem outcome_deleted_changed {d : Defaults Data} {c : Change Data} {v : ℕ} {ch : Bool}
    {remoteData : Data} {e' : Entry jsonHash} (hc : c.data = some remoteData)
    (h : syncChange d (some (⟨v, none, ch⟩ : Row jsonHash)) c = .ok e') :
    SyncOutcome jsonHash d c (some ⟨v, none, ch⟩) e' := by
  have hne : c.data ≠ none := by rw [hc]; simp
  have hcont : (Row.mk v none ch : Row jsonHash).content ≠ c.data := by rw [hc]; simp
  simp only [syncChange, LocalStore.loadChangeInfo, hc] at h
  split_ifs at h with h1 h2
  · simp only [LocalStore.storeChanged, LocalStore.storeChangedImpl, bne_iff_ne, ne_eq, reduceCtorEq, not_false_eq_true,
      ↓reduceIte, Option.map_some, Except.ok.injEq] at h
    subst h
    exact .taken (by rintro r hr; cases hr; exact h1) (Or.inr hne)
      (by simp [Row.item, Change.item, hc]) rfl
  · cases hpol : d.conflictPolicy with
    | PreferChanged =>
      simp only [hpol, LocalStore.storeChanged, LocalStore.storeChangedImpl, bne_iff_ne, ne_eq, reduceCtorEq,
        not_false_eq_true, ↓reduceIte, Option.map_some, Except.ok.injEq] at h
      subst h
      have ht : TieResult jsonHash d c.key.typeName (Row.mk v none ch : Row jsonHash).content c.data
          c.data := by
        refine .take ?_
        rw [hc, hpol]
        exact WithBot.bot_lt_coe _
      refine .tie h2 hcont ?_ rfl rfl
      simpa [hc] using ht
    | PreferDeleted =>
      simp only [hpol, LocalStore.updateVersion, Option.map_some, ↓reduceIte, Except.ok.injEq] at h
      subst h
      refine .tie h2 hcont (.keep ?_) (by simp [h2]) rfl
      rw [hc, hpol]
      exact WithBot.coe_lt_coe.mpr (WithTop.coe_lt_top _)
  · simp only [Except.ok.injEq] at h
    subst h
    exact .newer (by simp only; omega)

/-- The key is not known. -/
theorem outcome_noexists {d : Defaults Data} {c : Change Data} {e' : Entry jsonHash}
    (h : syncChange d (none : Entry jsonHash) c = .ok e') : SyncOutcome jsonHash d c none e' := by
  cases hc : c.data with
  | none =>
    simp only [syncChange, LocalStore.loadChangeInfo, hc] at h
    split_ifs at h with hp
    · simp only [LocalStore.storeDeleted, bne_self_eq_false, Bool.false_eq_true, ↓reduceIte,
        Except.ok.injEq] at h
      subst h
      exact .taken (by rintro r hr; cases hr) (Or.inl hp) (by simp [Row.item, Change.item, hc]) rfl
    · simp only [Except.ok.injEq] at h
      subst h
      exact .ignored (by simpa using hp) hc
  | some remoteData =>
    simp only [syncChange, LocalStore.loadChangeInfo, hc, LocalStore.storeChanged, LocalStore.storeChangedImpl, bne_self_eq_false,
      Bool.false_eq_true, ↓reduceIte, Except.ok.injEq] at h
    subst h
    exact .taken (by rintro r hr; cases hr) (Or.inr (by rw [hc]; simp))
      (by simp [Row.item, Change.item, hc]) rfl

/-- **Inversion of `syncChange`**: every successful call has one of the outcomes. -/
theorem syncChange_outcome {d : Defaults Data} {c : Change Data}
    {e e' : Entry jsonHash} (h : syncChange d e c = .ok e') : SyncOutcome jsonHash d c e e' := by
  rcases e with _ | ⟨v, f, ch⟩
  · exact outcome_noexists h
  · cases f with
    | none =>
      cases hc : c.data with
      | none => exact outcome_deleted_deleted hc h
      | some remoteData => exact outcome_deleted_changed hc h
    | some f =>
      cases hc : c.data with
      | none => exact outcome_exists_deleted hc h
      | some remoteData => exact outcome_exists_changed hc h

/-- A change of a lower version is not applied. -/
theorem syncChange_newer (d : Defaults Data) {r : Row jsonHash} {c : Change Data}
    (h : c.version < r.version) : syncChange d (some r) c = .ok (some r) := by
  obtain ⟨v, f, ch⟩ := r
  have h1 : ¬ v < c.version := not_lt.mpr h.le
  have h2 : v ≠ c.version := h.ne'
  have h3 : ¬ v ≤ c.version := not_le.mpr h
  rcases f with _ | f <;> rcases hc : c.data with _ | data <;>
    simp only [syncChange, LocalStore.loadChangeInfo, hc, if_neg h1, if_neg h2, if_neg h3]

end SyncController

/-- `SyncController::syncChange` on the table. -/
def DataIndex.syncChange [LinearOrder Checksum] (d : Defaults Data) (index : DataIndex jsonHash)
    (c : Change Data) : Except QException (DataIndex jsonHash) :=
  (SyncController.syncChange d (index c.key) c).map fun e => Function.update index c.key e

end Sync

end QtDataSync
