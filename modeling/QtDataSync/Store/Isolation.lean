import QtDataSync.Store.Atomicity

/-!
# Store.Isolation — an operation on one type leaves the other types alone

In a run of operations that succeed, every row has its file, no two rows share one, and what belongs to another type
stays as it is.  Directories are named by the percent-encoding of the type, read as UTF-8, with `%` replaced by `_`, and
`_` itself is not encoded: two types can have the same directory, and `clear` of the one removes the files of the other
(`clear_removes_other_type`).
-/

namespace QtDataSync

variable {Data Checksum : Type} {jsonHash : Data → Checksum} {size : Data → ℕ} {env : Env} {persistDeleted : Bool}

namespace FileOp

variable {s t : FileStore Data Checksum} {index : DataIndex jsonHash} {op : FileOp Data} {key : ObjectKey}

/-- The rows that the operation is not about, and their files, stay as they are. -/
def Leaves (op : FileOp Data) (s t : FileStore Data Checksum) : Prop :=
  ∀ k, ¬ op.Touches k → t.dataIndex k = s.dataIndex k ∧
    ∀ name, s.fileOf k = some name → t.files (filePath k name) = s.files (filePath k name)

/-- An operation that writes the row of one key. -/
theorem leaves_of_update (htouch : ∀ k, k = key → op.Touches k) {fr : Option (FileRow Checksum)}
    (hrows : t.dataIndex = Function.update s.dataIndex key fr)
    (hfiles : ∀ k name, k ≠ key → s.fileOf k = some name → t.files (filePath k name) = s.files (filePath k name)) :
    op.Leaves s t := by
  intro k hk
  have hne : k ≠ key := fun he => hk (htouch k he)
  rw [hrows, Function.update_of_ne hne]
  exact ⟨rfl, fun name h => hfiles k name hne h⟩

theorem leaves_of_rows (hrows : t.dataIndex = s.dataIndex) (hfiles : t.files = s.files) : op.Leaves s t := by
  intro k _
  rw [hrows, hfiles]
  exact ⟨rfl, fun _ _ => rfl⟩

theorem runs_leaves (R : Represents s index) (ha : op.Admissible env s) (hk : op.Keeps s) :
    Runs (op.program env jsonHash size persistDeleted) s (fun _ t => op.Leaves s t) fun _ _ => True := by
  have hwritten : ∀ {key : ObjectKey}, s.files (filePath key env.newName) = none → ∀ k name, k ≠ key →
      s.fileOf k = some name → ∀ content,
        Function.update s.files (filePath key (s.target env key)) content (filePath k name) =
          s.files (filePath k name) :=
    fun hnew k name hne h content => Function.update_of_ne (R.filePath_ne hnew hne h) ..
  cases op with
  | load key =>
    apply runs_bind
    exact runs_load R.idle (fun _ _ _ _ => runs_pure (leaves_of_rows rfl rfl))
      (fun _ _ _ _ => runs_pure (leaves_of_rows rfl rfl)) (fun _ _ => trivial) (fun _ _ _ => trivial)
      fun _ _ _ _ _ => trivial
  | save key data =>
    refine runs_save R.idle ha ?_ (fun _ _ _ _ => trivial) trivial
    exact leaves_of_update (fun _ he => he) rfl fun k name hne h => hwritten ha k name hne h _
  | remove key =>
    apply runs_bind
    cases hf : s.fileOf key with
    | none => exact runs_remove_of_none R.idle hf (runs_pure (leaves_of_rows rfl rfl)) fun _ _ => trivial
    | some name =>
      obtain ⟨fr, hr, hfr⟩ := fileOf_eq_some hf
      obtain ⟨data, -, hfile⟩ := R.file_of_row hf
      refine runs_remove_of_some R.idle hr hfr (by rw [hfile]; exact Option.some_ne_none _) (runs_pure ?_)
        (fun _ _ _ => trivial) fun _ => trivial
      exact leaves_of_update (fun _ he => he) rfl fun k name' hne h => file_of_other R hf hne h
  | clear typeName =>
    refine runs_clear R.idle (fun k hT => ⟨?_, fun name h => ?_⟩) (fun _ _ => trivial) trivial
    · have hT' : k.typeName ≠ typeName := hT
      show (s.dataIndex k).map _ = s.dataIndex k
      cases s.dataIndex k with
      | none => rfl
      | some r => simp [hT']
    · have hdir : dataDirectory k.typeName ≠ dataDirectory typeName := by
        intro hd
        rw [hk k hT hd] at h
        cases h
      simp [FileStore.removed, filePath, hdir]
  | reset keepData =>
    exact runs_reset R.idle (fun k hT => absurd trivial hT) (fun _ _ _ => trivial) fun _ => trivial
  | storeChanged key version data changed =>
    refine runs_storeChanged R.idle ha ?_ (fun _ _ => trivial) trivial
    exact leaves_of_update (fun _ he => he) rfl fun k name hne h => hwritten ha k name hne h _
  | storeDeleted key version changed =>
    cases hf : s.fileOf key with
    | none =>
      refine runs_storeDeleted_of_none R.idle hf ?_ fun _ => trivial
      exact leaves_of_update (fun _ he => he) rfl fun _ _ _ _ => rfl
    | some name =>
      obtain ⟨data, -, hfile⟩ := R.file_of_row hf
      refine runs_storeDeleted_of_some R.idle hf (by rw [hfile]; exact Option.some_ne_none _) ?_
        (fun _ _ => trivial) trivial
      exact leaves_of_update (fun _ he => he) rfl fun k name' hne h => file_of_other R hf hne h
  | updateVersion key oldVersion newVersion changed =>
    refine runs_updateVersion R.idle (fun _ => ?_) fun _ => trivial
    exact leaves_of_update (fun _ he => he) rfl fun _ _ _ _ => rfl
  | markUnchangedScope key oldVersion isDelete =>
    refine runs_markUnchangedScope R.idle ?_ fun _ => trivial
    exact leaves_of_update (fun _ he => he) rfl fun _ _ _ _ => rfl
  | markUnchanged key version isDelete =>
    refine runs_markUnchanged ?_ trivial
    exact leaves_of_update (fun _ he => he) rfl fun _ _ _ _ => rfl

variable (jsonHash size persistDeleted) in
/-- The call returns. -/
def Succeeds (s : FileStore Data Checksum) (a : Env × FileOp Data) : Prop :=
  (exec (a.2.program a.1 jsonHash size persistDeleted) s).1 = .ok ()

/-- The type that the operation is about, unless it is a `reset`. -/
def typeName : FileOp Data → Option QByteArray
  | .load key | .save key _ | .remove key | .storeChanged key _ _ _ | .storeDeleted key _ _
  | .updateVersion key _ _ _ | .markUnchangedScope key _ _ | .markUnchanged key _ _ => some key.typeName
  | .clear typeName => some typeName
  | .reset _ => none

theorem touches_typeName {typeName : QByteArray} (hT : op.typeName = some typeName) {k : ObjectKey}
    (h : op.Touches k) : k.typeName = typeName := by
  cases op with
  | clear T => exact h.trans (Option.some.inj hT)
  | reset keepData => cases hT
  | _ => exact (congrArg ObjectKey.typeName h).trans (Option.some.inj hT)

/-- The table rows of other types stay as they are. -/
theorem run_of_other {index' : DataIndex jsonHash} (hrun : op.run persistDeleted index = .ok index')
    {k : ObjectKey} (hk : ¬ op.Touches k) : index' k = index k := by
  cases op with
  | load key =>
    cases hrun
    rfl
  | save key data =>
    have hrun' : DataIndex.save index key data = .ok index' := hrun
    rw [save_eq] at hrun'
    cases hrun'
    exact Function.update_of_ne hk ..
  | clear typeName =>
    cases hrun
    exact if_neg hk
  | reset keepData => exact absurd trivial hk
  | storeChanged key version data changed =>
    rw [storeChanged_eq] at hrun
    cases hrun
    exact Function.update_of_ne hk ..
  | storeDeleted key version changed =>
    rw [storeDeleted_eq] at hrun
    cases hrun
    exact Function.update_of_ne hk ..
  | _ =>
    cases hrun
    exact Function.update_of_ne hk ..

/-- **Rows, files and types.**  In every run of calls that succeed and never clear a directory with files of another type,
every row and its file belong together, two rows never have the same file, and a call on one type leaves the rows, the
files and the objects of all others. -/
theorem isolated
    (h : (lts jsonHash size persistDeleted).Reachable
      (fun s a => Succeeds jsonHash size persistDeleted s a ∧ a.2.Keeps s) s) :
    (∀ k, Intact jsonHash s k) ∧
    (∀ k k' name name', s.fileOf k = some name → s.fileOf k' = some name' → filePath k name = filePath k' name' →
      k = k') ∧
    ∀ a t, (lts jsonHash size persistDeleted).step s a t → Succeeds jsonHash size persistDeleted s a → a.2.Keeps s →
      ∀ typeName, a.2.typeName = some typeName → ∀ k : ObjectKey, k.typeName ≠ typeName →
        t.dataIndex k = s.dataIndex k ∧
        (∀ name, s.fileOf k = some name → t.files (filePath k name) = s.files (filePath k name)) ∧
        loaded size t k = loaded size s k := by
  have hspares : ∀ s a, Succeeds jsonHash size persistDeleted s a ∧ a.2.Keeps s →
      Spares jsonHash size persistDeleted s a := by
    rintro s a ⟨hok, hk⟩
    exact ⟨hk, fun e he => nomatch hok.symm.trans he⟩
  obtain ⟨index, R⟩ := represents_reachable (h.mono hspares)
  refine ⟨R.intact, fun k k' name name' hk hk' he => ?_, fun a t hst hok hkeep T hT k hne => ?_⟩
  · rw [filePath, filePath, Prod.mk.injEq] at he
    rw [← he.2] at hk'
    exact R.distinct k k' name hk hk' he.1
  · have htouch : ¬ a.2.Touches k := fun hk => hne (touches_typeName hT hk)
    obtain ⟨ha, rfl⟩ := hst
    have hx : exec (a.2.program a.1 jsonHash size persistDeleted) s = (.ok (), _) := Prod.ext hok rfl
    have hleaves : a.2.Leaves s _ := (runs_leaves R ha hkeep).ok hx
    obtain ⟨index', hrun, R'⟩ := (runs_program R ha hkeep).ok hx
    refine ⟨(hleaves k htouch).1, (hleaves k htouch).2, ?_⟩
    rw [R.loaded_eq, R'.loaded_eq, run_of_other hrun htouch]

/-! ### Two types with one directory -/

namespace Sample

/-- An object of the type `a b`. -/
def plain : ObjectKey := ⟨[97, 32, 98], "x"⟩

/-- An object of the type `a_20b`. -/
def encoded : ObjectKey := ⟨[97, 95, 50, 48, 98], "x"⟩

/-- Nothing fails; a new file has this name, and `clear` finds the object `x`. -/
def naming (newName : String) : Env := ⟨fun _ => false, newName, ["x"], fun _ => false⟩

def next (s : FileStore ℕ ℕ) (a : Env × FileOp ℕ) : FileStore ℕ ℕ := (exec (a.2.program a.1 id (fun _ => 1) false) s).2

/-- Both objects are stored. -/
def both : FileStore ℕ ℕ := next (next start (naming "f", .save plain 1)) (naming "g", .save encoded 2)

attribute [local semireducible] dataDirectory in
theorem both_reachable {G : FileStore ℕ ℕ → Env × FileOp ℕ → Prop} (hf : G start (naming "f", .save plain 1))
    (hg : G (next start (naming "f", .save plain 1)) (naming "g", .save encoded 2)) :
    (lts id (fun _ => 1) false).Reachable G both := by
  have h0 : (lts id (fun _ => 1) false).Reachable G start := by
    refine .init ⟨rfl, rfl, fun c hc => ?_⟩
    cases hc
    rfl
  have h1 : (lts id (fun _ => 1) false).Reachable G (next start (naming "f", .save plain 1)) := h0.step hf ⟨rfl, rfl⟩
  exact h1.step hg ⟨rfl, rfl⟩

theorem clear_step {typeName : QByteArray} (hT : typeName = plain.typeName) :
    (lts id (fun _ => 1) false).step both (naming "h", .clear typeName)
      (next both (naming "h", .clear typeName)) := by
  refine ⟨fun id => ?_, rfl⟩
  subst hT
  have hboth : both.dataIndex = Function.update (Function.update (fun _ => none) plain
      (some ⟨1, some "f", some 1, true⟩)) encoded (some ⟨1, some "g", some 2, true⟩) := rfl
  have hrow : both.dataIndex ⟨plain.typeName, id⟩ =
      if id = "x" then some ⟨1, some "f", some 1, true⟩ else none := by
    have hne : (⟨plain.typeName, id⟩ : ObjectKey) ≠ encoded := by
      intro he
      have hT : plain.typeName ≠ encoded.typeName := by decide
      injection he with h
      exact hT h
    rw [hboth, Function.update_of_ne hne]
    split
    · rename_i hid
      subst hid
      exact Function.update_self ..
    · rename_i hid
      exact Function.update_of_ne (fun he => hid (congrArg ObjectKey.id he)) ..
  rw [FileStore.fileOf, hrow]
  show id ∈ ["x"] ↔ _
  rw [List.mem_singleton]
  split <;> simp_all

end Sample

attribute [local semireducible] dataDirectory in
/-- A change of the one object leaves the other. -/
theorem isolated_save : ∃ t, (lts id (fun _ => 1) false).step Sample.both (Sample.naming "h", .save Sample.encoded 3) t ∧
    (∀ k, Intact id Sample.both k) ∧ loaded (fun _ => 1) t Sample.plain = .ok 1 := by
  have h := isolated (Sample.both_reachable ⟨rfl, trivial⟩ ⟨rfl, trivial⟩)
  have hstep : (lts id (fun _ => 1) false).step Sample.both (Sample.naming "h", .save Sample.encoded 3) _ := ⟨rfl, rfl⟩
  refine ⟨_, hstep, h.1, ?_⟩
  exact (h.2.2 _ _ hstep rfl trivial _ rfl Sample.plain (by decide)).2.2

attribute [local semireducible] dataDirectory in
/-- `clear` of the type `a b` removes the file of an object of the type `a_20b`, whose row still refers to it. -/
theorem clear_removes_other_type : ∃ s a t, (lts id (fun _ => 1) false).Reachable (Succeeds id (fun _ => 1) false) s ∧
    (lts id (fun _ => 1) false).step s a t ∧ Succeeds id (fun _ => 1) false s a ∧
    a.2.typeName = some Sample.plain.typeName ∧ Sample.encoded.typeName ≠ Sample.plain.typeName ∧
    s.files (filePath Sample.encoded "g") = some (some 2) ∧ ¬ Intact id t Sample.encoded := by
  refine ⟨Sample.both, _, _, Sample.both_reachable rfl rfl, Sample.clear_step rfl, rfl, rfl, by decide, by decide, ?_⟩
  intro h
  obtain ⟨data, hfile, -⟩ := h ⟨1, some "g", some 2, true⟩ rfl
  have hgone : (Sample.next Sample.both (Sample.naming "h", .clear Sample.plain.typeName)).files
      (filePath Sample.encoded "g") = none := by decide
  rw [hgone] at hfile
  cases hfile

end FileOp

end QtDataSync
