import Mathlib.Algebra.Order.Ring.Nat
import QtDataSync.Store.Client
import QtDataSync.Store.VersionColumn

/-!
# Store.UploadAck — what an acknowledged upload marks as unchanged

An acknowledgement is matched by the version of the row.  As long as the row of an active upload exists, its version
only grows and the statement finds the row that was uploaded or none at all (`Matched`).  Without `PersistDeleted` the
row can go while the upload is active; the key then starts again at version 1 and can reach the version of the upload
with other data.  From `2 ^ 63` on a row keeps its version when it is saved, with other data again.
-/

namespace QtDataSync

variable {Dev Data Checksum : Type*} {jsonHash : Data → Checksum}

namespace Client

open SyncController

variable [DecidableEq Dev] [LinearOrder Checksum]

/-- The active upload of a key to all devices. -/
def Active (s : Client Dev jsonHash) (info : ChangeController.UploadInfo Data) : Prop :=
  ∃ key, s.changeController.activeUploads.lookup (key, none) = some info

/-- The database holds the rows as its columns can. -/
def stored (s : Client Dev jsonHash) : Client Dev jsonHash :=
  { s with database := { s.database with dataIndex := s.database.dataIndex.stored } }

/-- One device with its database, started with an empty store. -/
def ltsStored (d : Defaults Data) (hashed : ObjectKey → QByteArray) :
    LTS (Client Dev jsonHash) (Action Dev Data) where
  init := (lts d hashed).init
  step s a t := Queried s a ∧ t = (next d hashed s a).stored

/-! ### The row of an active upload -/

omit [DecidableEq Dev] [LinearOrder Checksum] in
/-- The table holds a version that is raised as a higher one. -/
theorem evolves_stored {p : Bool} {e e' : Entry jsonHash} (hinteger : IsInteger e) (h : Evolves p e e') :
    Evolves p e (e'.map Row.stored) := by
  rcases h with (rfl | ⟨r, rfl, rfl⟩ | ⟨r', rfl, hv⟩) | ⟨hp, rfl⟩
  · rw [hinteger.stored]
    exact Or.inl (Or.inl rfl)
  · refine Or.inl (Or.inr (Or.inl ⟨r, rfl, ?_⟩))
    rw [Option.map_some, Row.stored_of_lt (r := { r with changed := false }) (hinteger r rfl)]
  · exact Or.inl (Or.inr (Or.inr ⟨r'.stored, rfl, fun r hr => lt_column (hinteger r hr) (hv r hr)⟩))
  · exact Or.inr ⟨hp, rfl⟩

/-- What an acknowledgement can find of the row that was uploaded: that row, or a higher version. -/
structure Matched (persistDeleted : Bool) (info : ChangeController.UploadInfo Data) (e : Entry jsonHash) :
    Prop where
  payload : info.payload.key = info.key ∧ info.payload.version = info.version ∧
    info.isDelete = info.payload.data.isNone
  isSome : persistDeleted = true → e.isSome = true
  row : persistDeleted = true ∨ info.isDelete = false → ∀ r, e = some r → info.version ≤ r.version ∧
    (r.version = info.version → r.content = info.payload.data ∨ r.changed = false)

/-- A key that has no row gets one that the acknowledgement of the upload cannot mistake for its own. -/
def Distinct (info : ChangeController.UploadInfo Data) (r : Row jsonHash) : Prop :=
  info.isDelete = true ∨ info.version ≤ r.version ∧ r.changed = false

omit [DecidableEq Dev] [LinearOrder Checksum] in
theorem Matched.evolves {p : Bool} {info : ChangeController.UploadInfo Data} {e e' : Entry jsonHash}
    (h : Matched p info e) (he : Evolves p e e')
    (hnew : p = false → e = none → ∀ r, e' = some r → Distinct info r) : Matched p info e' := by
  obtain ⟨hpay, hsome, hrow⟩ := h
  rcases he with (rfl | ⟨r, rfl, rfl⟩ | ⟨r', rfl, hv⟩) | ⟨hp, rfl⟩
  · exact ⟨hpay, hsome, hrow⟩
  · refine ⟨hpay, fun _ => rfl, fun hd r' hr' => ?_⟩
    cases hr'
    exact ⟨(hrow hd r rfl).1, fun _ => Or.inr rfl⟩
  · refine ⟨hpay, fun _ => rfl, fun hd r hr => ?_⟩
    cases hr
    rcases e with _ | r
    · -- the key had no row
      have hp : p = false := by
        rcases p with _ | _
        · rfl
        · exact absurd (hsome rfl) (by simp)
      rcases hnew hp rfl r' rfl with hdel | ⟨hle, hch⟩
      · rw [hp, hdel] at hd
        simp at hd
      · exact ⟨hle, fun _ => Or.inr hch⟩
    · have hle := (hrow hd r rfl).1
      have hlt := hv r rfl
      exact ⟨by omega, fun he => by omega⟩
  · rw [hp]
    exact ⟨hpay, fun hp' => Bool.noConfusion hp', fun _ r hr => by cases hr⟩

omit [DecidableEq Dev] [LinearOrder Checksum] in
/-- The row of a new upload. -/
theorem Matched.of_loaded {hashed : ObjectKey → QByteArray} {db : LocalDatabase Dev jsonHash}
    {key : QByteArray × Option Dev} {info : ChangeController.UploadInfo Data} (p : Bool)
    (h : ChangeController.Loaded hashed db key info) : Matched p info (db.dataIndex info.key) := by
  obtain ⟨-, r, hr, hi, -⟩ := h
  rw [hr]
  refine ⟨?_, fun _ => rfl, fun _ r' hr' => ?_⟩
  · rw [hi]
    exact ⟨rfl, rfl, rfl⟩
  · cases hr'
    rw [hi]
    exact ⟨le_rfl, fun _ => Or.inl rfl⟩

omit [DecidableEq Dev] [LinearOrder Checksum] in
/-- **What an acknowledgement finds**: if it changes the row, the row holds what was uploaded. -/
theorem Matched.content_eq {p : Bool} {info : ChangeController.UploadInfo Data} {e : Entry jsonHash}
    (h : Matched p info e) (he : LocalStore.markUnchangedImpl p e info.version info.isDelete ≠ e) :
    ∃ r, e = some r ∧ r.version = info.version ∧ r.content = info.payload.data := by
  rcases e with _ | r
  · exact absurd (LocalStore.markUnchangedImpl_none _ _ _) he
  · have hv : r.version = info.version := by
      by_contra hv
      exact he (LocalStore.markUnchangedImpl_ne p hv _)
    refine ⟨r, rfl, hv, ?_⟩
    by_cases hd : p = true ∨ info.isDelete = false
    · rcases (h.row hd r rfl).2 hv with hc | hch
      · exact hc
      · -- the flag is clear already
        refine absurd ?_ he
        rcases hd with rfl | hd
        · rw [LocalStore.markUnchangedImpl_persist, Option.map_some, if_pos hv, ← hch]
        · rw [hd, LocalStore.markUnchangedImpl_change, Option.map_some, if_pos hv, ← hch]
    · rw [not_or, Bool.not_eq_true, Bool.not_eq_false] at hd
      obtain ⟨rfl, hdel⟩ := hd
      have hnone : info.payload.data = none := Option.isNone_iff_eq_none.mp (h.payload.2.2.symm.trans hdel)
      rcases hf : r.file with _ | f
      · rw [hnone, Row.content, hf, Option.map_none]
      · refine absurd ?_ he
        rw [hdel]
        simp [LocalStore.markUnchangedImpl, Option.filter, hf]

/-! ### Runs -/

section Runs

variable {d : Defaults Data} {hashed : ObjectKey → QByteArray} {s : Client Dev jsonHash}

/-- The contents of a key that were handed to an upload, and those that were received. -/
structure Exchanged (Data : Type*) where
  uploaded : ObjectKey → Option Data → Prop
  received : ObjectKey → Option Data → Prop

/-- What a step adds to them: the uploads that are active after it, or the change it applies. -/
def exchange (y : Exchanged Data) (_ : Client Dev jsonHash) (a : Action Dev Data) (t : Client Dev jsonHash) :
    Exchanged Data where
  uploaded k x := y.uploaded k x ∨ ∃ key info, t.changeController.activeUploads.lookup key = some info ∧
    info.key = k ∧ info.payload.data = x
  received k x := y.received k x ∨ ∃ c, a = .syncChange c ∧ c.key = k ∧ c.data = x

/-- The runs of a device, with what it has uploaded and received. -/
def ltsExchanged (d : Defaults Data) (hashed : ObjectKey → QByteArray) :
    LTS (Client Dev jsonHash × Exchanged Data) (Action Dev Data) :=
  (ltsStored d hashed).withHistory ⟨fun _ _ => False, fun _ _ => False⟩ exchange

/-- **Acknowledgements mark what was uploaded.**  If `uploadDone` changes or deletes a row, the row holds what was
handed to `uploadChange`; an unchanged row was uploaded or received as it is. -/
structure Acknowledges (d : Defaults Data) (s : Client Dev jsonHash) (y : Exchanged Data) : Prop where
  uploadDone : ∀ key info, s.changeController.activeUploads.lookup (key, none) = some info →
    ∀ k, (s.changeController.uploadDone d.persistDeleted s.database key).2.dataIndex k ≠ s.database.dataIndex k →
      k = info.payload.key ∧ ∃ r, s.database.dataIndex k = some r ∧ r.version = info.payload.version ∧
        r.content = info.payload.data
  unchanged : ∀ k r, s.database.dataIndex k = some r → r.changed = false →
    y.uploaded k r.content ∨ y.received k r.content

/-- What must not happen while a key without a row has an active upload of data: it is saved again, or receives an
older version.  And no object is received that differs from the local one of its version but has its checksum. -/
def Restores (d : Defaults Data) (s : Client Dev jsonHash) : Action Dev Data → Prop
  | .save key _ => d.persistDeleted = false → s.database.dataIndex key = none →
      ∀ info, Active s info → info.key = key → info.isDelete = true
  | .syncChange c => (d.persistDeleted = false → s.database.dataIndex c.key = none →
      ∀ info, Active s info → info.key = c.key → info.isDelete = true ∨ info.version ≤ c.version) ∧
      ∀ r, s.database.dataIndex c.key = some r → r.version = c.version →
        r.content.map jsonHash = c.data.map jsonHash → r.content = c.data
  | _ => True

/-- And all versions are integers in the table. -/
structure Keeps (d : Defaults Data) (s : Client Dev jsonHash) (a : Action Dev Data) : Prop where
  restores : Restores d s a
  integers : s.database.dataIndex.Integers

/-- The invariant of a run. -/
structure Inv (d : Defaults Data) (s : Client Dev jsonHash) (y : Exchanged Data) : Prop where
  integer : ∀ info, Active s info → info.version < 2 ^ 63
  matched : ∀ info, Active s info → Matched d.persistDeleted info (s.database.dataIndex info.key)
  uploaded : ∀ key info, s.changeController.activeUploads.lookup key = some info →
    y.uploaded info.key info.payload.data
  unchanged : ∀ k r, s.database.dataIndex k = some r → r.changed = false →
    y.uploaded k r.content ∨ y.received k r.content

/-- A row made anew under an active upload is distinct from it. -/
theorem distinct_next {a : Action Dev Data} {info : ChangeController.UploadInfo Data} {r : Row jsonHash}
    (hg : Restores d s a) (hp : d.persistDeleted = false) (hi : Active s info)
    (hk : s.database.dataIndex info.key = none) (hr : (next d hashed s a).database.dataIndex info.key = some r) :
    Distinct info r := by
  rcases dataIndex_next d hashed s a with he | ⟨op, hop, he⟩
  · rw [he, hk] at hr
    cases hr
  · rw [he] at hr
    rcases DataIndex.run_of_none hk hr with ⟨data, rfl⟩ | ⟨c, rfl, hc, hrc, hch⟩
    · cases hop
      exact Or.inl (hg hp hk info hi rfl)
    · cases hop
      rw [← hc] at hk
      rcases hg.1 hp hk info hi hc.symm with hdel | hle
      · exact Or.inl hdel
      · have hv : r.version = c.version := congrArg Versioned.version hrc
        exact Or.inr ⟨by omega, hch⟩

omit [DecidableEq Dev] [LinearOrder Checksum] in
/-- It is distinct as the table holds it, too. -/
theorem Distinct.stored {info : ChangeController.UploadInfo Data} {r : Row jsonHash} (h : Distinct info r)
    (hinfo : info.version < 2 ^ 63) : Distinct info r.stored := by
  refine h.imp_right fun ⟨hle, hch⟩ => ⟨?_, hch⟩
  rw [← column_of_lt hinfo]
  exact column_mono hle

theorem Inv.matched_next {y : Exchanged Data} {a : Action Dev Data} (hI : Inv d s y) (hg : Keeps d s a)
    (hq : Queried s a) (info : ChangeController.UploadInfo Data) (h : Active (next d hashed s a).stored info) :
    Matched d.persistDeleted info ((next d hashed s a).stored.database.dataIndex info.key) ∧ info.version < 2 ^ 63 := by
  obtain ⟨key, hkey⟩ := h
  rcases lookup_next hq hkey with hl | ⟨-, hdb, hl⟩
  · have hact : Active s info := ⟨key, hl⟩
    have hevolves := evolves_stored (hg.integers info.key) (evolves_next d hashed s a info.key)
    refine ⟨(hI.matched info hact).evolves hevolves fun hp hk r hr => ?_, hI.integer info hact⟩
    obtain ⟨r₀, hr₀, rfl⟩ := Option.map_eq_some_iff.mp hr
    exact (distinct_next hg.restores hp hact hk hr₀).stored (hI.integer info hact)
  · have hstored : (next d hashed s a).stored.database.dataIndex = s.database.dataIndex := by
      rw [stored, hdb]
      exact hg.integers.stored
    rw [hstored]
    refine ⟨.of_loaded d.persistDeleted hl, ?_⟩
    obtain ⟨-, r, hr, hinfo, -⟩ := hl
    rw [hinfo]
    exact hg.integers info.key r hr

theorem Inv.unchanged_next {y : Exchanged Data} {a : Action Dev Data} (hI : Inv d s y) (hg : Restores d s a)
    {k : ObjectKey} {r : Row jsonHash} (hr : (next d hashed s a).database.dataIndex k = some r)
    (hch : r.changed = false) : y.uploaded k r.content ∨ y.received k r.content ∨
      ∃ c, a = .syncChange c ∧ c.key = k ∧ c.data = r.content := by
  rcases dataIndex_next d hashed s a with he | ⟨op, hop, he⟩
  · rw [he] at hr
    exact (hI.unchanged k r hr hch).imp_right Or.inl
  · rw [he] at hr
    rcases DataIndex.run_unchanged hr hch with h₀ | ⟨version, isDelete, rfl⟩ | ⟨c, rfl, hc, hi⟩
    · exact (hI.unchanged k r h₀ hch).imp_right Or.inl
    · cases hop with
      | @uploadDone key info hl =>
        have hr' : LocalStore.markUnchangedImpl d.persistDeleted (s.database.dataIndex info.key) info.version
            info.isDelete = some r := by
          rw [← hr, DataIndex.run, DataIndex.markUnchanged, Function.update_self]
        by_cases he : LocalStore.markUnchangedImpl d.persistDeleted (s.database.dataIndex info.key) info.version
            info.isDelete = s.database.dataIndex info.key
        · exact (hI.unchanged _ r (he.symm.trans hr') hch).imp_right Or.inl
        · -- the row that the statement has found is the one that was uploaded
          obtain ⟨r₀, hr₀, -, hc₀⟩ := (hI.matched info ⟨key, hl⟩).content_eq he
          rw [hr₀] at hr'
          rw [(LocalStore.content_markUnchangedImpl hr').2, hc₀]
          exact Or.inl (hI.uploaded _ _ hl)
    · cases hop
      refine Or.inr (Or.inr ⟨c, rfl, hc, ?_⟩)
      rcases hi with hi | ⟨r₀, hr₀, hi, hv, hcs⟩
      · exact (congrArg Versioned.content hi).symm
      · rw [← hc] at hr₀
        rw [← hg.2 r₀ hr₀ hv hcs]
        exact (congrArg Versioned.content hi).symm

theorem Inv.next {y : Exchanged Data} {a : Action Dev Data} (hI : Inv d s y) (hg : Keeps d s a)
    (hq : Queried s a) : Inv d (next d hashed s a).stored (exchange y s a (next d hashed s a).stored) := by
  refine ⟨fun info h => (hI.matched_next hg hq info h).2, fun info h => (hI.matched_next hg hq info h).1,
    fun key info hl => Or.inr ⟨key, info, hl, rfl, rfl⟩, fun k r hr hch => ?_⟩
  obtain ⟨r₀, hr₀, rfl⟩ := Option.map_eq_some_iff.mp hr
  rcases hI.unchanged_next hg.restores hr₀ hch with hu | hrec | ⟨c, ha, hc, hd⟩
  · exact Or.inl (Or.inl hu)
  · exact Or.inr (Or.inl hrec)
  · exact Or.inr (Or.inr ⟨c, ha, hc, hd⟩)

theorem inv_reachable {x : Client Dev jsonHash × Exchanged Data}
    (h : (ltsExchanged d hashed).Reachable (fun x a => Keeps d x.1 a) x) : Inv d x.1 x.2 := by
  refine LTS.Reachable.invariant (I := fun x => Inv d x.1 x.2) ?_ ?_ h
  · rintro ⟨s, y⟩ ⟨⟨hdb, hup⟩, -⟩
    simp only at hdb hup
    refine ⟨?_, ?_, ?_, ?_⟩
    · rintro info ⟨key, hl⟩
      rw [hup, AList.lookup_empty] at hl
      cases hl
    · rintro info ⟨key, hl⟩
      rw [hup, AList.lookup_empty] at hl
      cases hl
    · intro key info hl
      rw [hup, AList.lookup_empty] at hl
      cases hl
    · intro k r hr
      rw [hdb] at hr
      cases hr
  · rintro ⟨s, y⟩ a ⟨t, z⟩ - hI hg ⟨⟨hq, ht⟩, hz⟩
    simp only at hI hg hq ht hz
    subst ht hz
    exact hI.next hg hq

omit [LinearOrder Checksum] in
theorem Inv.acknowledges {y : Exchanged Data} (hI : Inv d s y) : Acknowledges d s y := by
  refine ⟨fun key info hl k hk => ?_, hI.unchanged⟩
  have hm := hI.matched info ⟨key, hl⟩
  simp only [ChangeController.uploadDone, hl, LocalDatabase.write, DataIndex.markUnchanged] at hk
  rcases eq_or_ne k info.key with rfl | hne
  · rw [Function.update_self] at hk
    rw [hm.payload.1, hm.payload.2.1]
    exact ⟨rfl, hm.content_eq hk⟩
  · rw [Function.update_of_ne hne] at hk
    exact absurd rfl hk

/-- **Acknowledged uploads.**  In every run in which versions are integers and no key is taken up again under an active
upload of it (`Keeps`), acknowledgements mark only what was uploaded. -/
theorem acknowledges_of_keeps (d : Defaults Data) (hashed : ObjectKey → QByteArray)
    {x : Client Dev jsonHash × Exchanged Data}
    (h : (ltsExchanged d hashed).Reachable (fun x a => Keeps d x.1 a) x) : Acknowledges d x.1 x.2 :=
  (inv_reachable h).acknowledges

end Runs

/-! ### A key that is saved again under its upload -/

namespace Sample

def key : ObjectKey := ⟨[1], "a"⟩

def defaults (persistDeleted : Bool) : Defaults ℕ := ⟨persistDeleted, .PreferChanged, none⟩

def hashed (key : ObjectKey) : QByteArray := key.typeName

def start : Client Unit (fun n : ℕ => n) := ⟨.empty, ⟨∅, 1⟩⟩

def run (persistDeleted : Bool) (s : Client Unit (fun n : ℕ => n)) (as : List (Action Unit ℕ)) :
    Client Unit (fun n : ℕ => n) :=
  as.foldl (fun s a => (next (defaults persistDeleted) hashed s a).stored) s

theorem started {persistDeleted : Bool} {G : Client Unit (fun n : ℕ => n) → Action Unit ℕ → Prop} :
    (ltsStored (defaults persistDeleted) hashed).Reachable G start := .init ⟨rfl, rfl⟩

theorem runs {persistDeleted : Bool} {G : Client Unit (fun n : ℕ => n) → Action Unit ℕ → Prop}
    {s : Client Unit (fun n : ℕ => n)} {as : List (Action Unit ℕ)} {a : Action Unit ℕ}
    (h : (ltsStored (defaults persistDeleted) hashed).Reachable G (run persistDeleted s as))
    (hG : G (run persistDeleted s as) a) (hqueried : Queried (run persistDeleted s as) a) :
    (ltsStored (defaults persistDeleted) hashed).Reachable G (run persistDeleted s (as ++ [a])) := by
  have hstep := h.step hG ⟨hqueried, rfl⟩
  rwa [run, List.foldl_append]

/-- The object is saved and its upload starts. -/
def uploading : Client Unit (fun n : ℕ => n) := run false start [.save key 5, .uploadNext [key] []]

/-- The object is removed, another device's deletion of it arrives, and it is saved again. -/
def savedAgain : Client Unit (fun n : ℕ => n) :=
  run false start [.save key 5, .uploadNext [key] [], .remove key, .syncChange ⟨key, 2, none⟩, .save key 6]

/-- A change of version `2 ^ 63` is received, and the object is saved before and after an upload starts. -/
def savedTwice : Client Unit (fun n : ℕ => n) :=
  run true start [.syncChange ⟨key, 2 ^ 63, some 5⟩, .save key 6, .uploadNext [key] [], .save key 7]

/-- The query finds the changed row of the object. -/
theorem queried {s : Client Unit (fun n : ℕ => n)} (hlimit : s.changeController.uploadLimit = 1)
    (hrow : (s.database.dataIndex key).map (·.changed) = some true) : Queried s (.uploadNext [key] []) := by
  obtain ⟨r, hr, hch⟩ := Option.map_eq_some_iff.mp hrow
  refine ⟨⟨List.nodup_singleton _, fun k hk => ?_, ?_, fun h => ?_⟩,
    ⟨List.nodup_nil, fun x hx => (by cases hx), Nat.zero_le _, fun h => ?_⟩⟩
  · rw [List.mem_singleton] at hk
    subst hk
    exact ⟨r, hr, hch⟩
  · rw [hlimit]
    exact le_rfl
  · rw [hlimit] at h
    exact absurd h (lt_irrefl _)
  · rw [hlimit] at h
    exact absurd h (lt_irrefl _)

theorem uploading_reachable {G : Client Unit (fun n : ℕ => n) → Action Unit ℕ → Prop}
    (hs : G start (.save key 5)) (hu : G (run false start [.save key 5]) (.uploadNext [key] [])) :
    (ltsStored (defaults false) hashed).Reachable G uploading := by
  have hstarted : (ltsStored (defaults false) hashed).Reachable G (run false start []) := started
  exact runs (runs hstarted hs trivial) hu (queried rfl rfl)

theorem savedAgain_reachable : (ltsStored (defaults false) hashed).Reachable LTS.free savedAgain := by
  have huploading : (ltsStored (defaults false) hashed).Reachable LTS.free uploading := uploading_reachable trivial trivial
  have hremoved := runs (a := .remove key) huploading trivial trivial
  have hsynced := runs (a := .syncChange ⟨key, 2, none⟩) hremoved trivial trivial
  exact runs (a := .save key 6) hsynced trivial trivial

theorem savedTwice_reachable : (ltsStored (defaults true) hashed).Reachable LTS.free savedTwice := by
  have hstarted : (ltsStored (defaults true) hashed).Reachable LTS.free (run true start []) := started
  have hsynced := runs (a := .syncChange ⟨key, 2 ^ 63, some 5⟩) hstarted trivial trivial
  have hsaved := runs (a := .save key 6) hsynced trivial trivial
  have huploading := runs (a := .uploadNext [key] []) hsaved trivial (queried rfl (by decide +kernel))
  exact runs (a := .save key 7) huploading trivial trivial

/-- The acknowledgement finds other data than what was uploaded, and marks it. -/
theorem not_acknowledges {d : Defaults ℕ} {s : Client Unit fun n : ℕ => n} {y : Exchanged ℕ}
    (info : ChangeController.UploadInfo ℕ) (x : ℕ)
    (hl : s.changeController.activeUploads.lookup (hashed key, none) = some info)
    (hrow : (s.database.dataIndex key).map (fun r => (r.content, r.changed)) = some (some x, true))
    (hdone : ((s.changeController.uploadDone d.persistDeleted s.database (hashed key)).2.dataIndex key).map (·.changed) =
      some false) (hx : info.payload.data ≠ some x) : ¬ Acknowledges d s y := by
  intro h
  obtain ⟨r, hr, hrow⟩ := Option.map_eq_some_iff.mp hrow
  obtain ⟨hcontent, hchanged⟩ := Prod.mk.inj hrow
  obtain ⟨-, r', hr', -, hc⟩ := h.uploadDone (hashed key) info hl key fun heq => by
    rw [heq, hr, Option.map_some, hchanged] at hdone
    cases hdone
  rw [hr, Option.some.injEq] at hr'
  subst hr'
  exact hx (hc.symm.trans hcontent)

end Sample

/-- The upload of the object is acknowledged. -/
theorem acknowledges_uploading : ∃ y, Acknowledges (Sample.defaults false) Sample.uploading y ∧
    ((Sample.run false Sample.uploading [.uploadDone (Sample.hashed Sample.key)]).database.dataIndex
      Sample.key).map (·.changed) = some false := by
  have hr : (ltsStored (Sample.defaults false) Sample.hashed).Reachable (Keeps (Sample.defaults false))
      Sample.uploading := by
    refine Sample.uploading_reachable ⟨fun _ _ info hi => ?_, fun k r hr => ?_⟩ ⟨trivial, fun k r hr => ?_⟩
    · obtain ⟨key, hl⟩ := hi
      cases hl
    · cases hr
    · obtain ⟨r₀, hr₀, rfl⟩ := Option.map_eq_some_iff.mp hr
      by_cases hk : k = Sample.key
      · subst hk
        cases hr₀
        decide
      · have hnone : (Function.update (fun _ => none) Sample.key (some ⟨1, some (.write 5), true⟩) :
            DataIndex fun n : ℕ => n) k = none := Function.update_of_ne hk _ _
        cases hnone.symm.trans hr₀
  obtain ⟨y, hy⟩ := hr.withHistory
  exact ⟨y, acknowledges_of_keeps (Sample.defaults false) Sample.hashed (x := (Sample.uploading, y)) hy, by decide⟩

/-- Without `PersistDeleted` the row of an active upload goes when a remote deletion meets a local one; the key then
starts again at the version of the upload, whose acknowledgement clears the flag of the new data.  With it, the version
`2 ^ 63` of the upload is also that of the data which is saved after it. -/
theorem uploadDone_marks_other_data :
    ¬ (∀ (s : Client Unit (fun n : ℕ => n)) (y : Exchanged ℕ),
      (ltsExchanged (Sample.defaults false) Sample.hashed).Reachable LTS.free (s, y) →
        Acknowledges (Sample.defaults false) s y) ∧
    ¬ ∀ (s : Client Unit (fun n : ℕ => n)) (y : Exchanged ℕ),
      (ltsExchanged (Sample.defaults true) Sample.hashed).Reachable LTS.free (s, y) →
        Acknowledges (Sample.defaults true) s y := by
  constructor
  · intro h
    obtain ⟨y, hy⟩ := Sample.savedAgain_reachable.withHistory
    exact Sample.not_acknowledges ⟨Sample.key, 1, false, ⟨Sample.key, 1, some 5⟩⟩ 6 (by decide)
      (by decide) (by decide) (by decide) (h Sample.savedAgain y hy)
  · intro h
    obtain ⟨y, hy⟩ := Sample.savedTwice_reachable.withHistory
    exact Sample.not_acknowledges ⟨Sample.key, 2 ^ 63, false, ⟨Sample.key, 2 ^ 63, some 6⟩⟩ 7
      (by decide +kernel) (by decide +kernel) (by decide +kernel) (by decide) (h Sample.savedTwice y hy)

end Client

end QtDataSync
