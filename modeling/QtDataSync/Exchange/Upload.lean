import QtDataSync.Exchange.Ledger

/-!
# Exchange.Upload — a row and its unacknowledged upload without `PersistDeleted`

What a device holds of a key and still has to send is read off its row and its upload (`objectOf`, `unsentOf`).
Without `PersistDeleted` a row is erased when the upload of its deletion is acknowledged, and when another deletion
arrives; `Kept` says how the row and an unacknowledged upload are related all the same.
-/

namespace QtDataSync

namespace Lane

variable {Dev Data Checksum : Type*} {jsonHash : Data → Checksum}

section Sent

/-- The object of a row. -/
def objectOf (e : Entry jsonHash) : Option (Item Data) :=
  (e.map Row.item).filter fun x => x.content.isSome

/-- The upload of the version is stored on the server and not acknowledged yet. -/
def sent (u : Option (Upload (Item Data))) (version : ℕ) : Bool :=
  u.any fun u => u.stored && u.payload.version == version

/-- The version of a row that is still to be uploaded. -/
def unsentOf (e : Entry jsonHash) (u : Option (Upload (Item Data))) : Option ℕ :=
  (e.filter fun r => r.changed && !sent u r.version).map (·.version)

theorem objectOf_eq_some {e : Entry jsonHash} {x : Item Data} :
    objectOf e = some x ↔ ∃ r, e = some r ∧ r.item = x ∧ r.content ≠ none := by
  unfold objectOf
  rw [Option.filter_eq_some_iff, Option.map_eq_some_iff]
  constructor
  · rintro ⟨⟨r, hr, rfl⟩, hc⟩
    exact ⟨r, hr, rfl, Option.isSome_iff_ne_none.mp hc⟩
  · rintro ⟨r, hr, rfl, hc⟩
    exact ⟨⟨r, hr, rfl⟩, Option.isSome_iff_ne_none.mpr hc⟩

@[simp] theorem objectOf_none : objectOf (none : Entry jsonHash) = none := rfl

theorem objectOf_some {r : Row jsonHash} (hc : r.content ≠ none) : objectOf (some r) = some r.item :=
  objectOf_eq_some.mpr ⟨r, rfl, rfl, hc⟩

theorem objectOf_deletion {r : Row jsonHash} (hc : r.content = none) : objectOf (some r) = none := by
  unfold objectOf
  rw [Option.map_some, Option.filter_some, if_neg]
  rw [Row.item_content, hc]
  exact Bool.false_ne_true

variable {u : Option (Upload (Item Data))}

theorem unsentOf_eq_some {e : Entry jsonHash} {w : ℕ} :
    unsentOf e u = some w ↔ ∃ r, e = some r ∧ r.changed = true ∧ sent u r.version = false ∧ r.version = w := by
  unfold unsentOf
  rw [Option.map_eq_some_iff]
  constructor
  · rintro ⟨r, hr, rfl⟩
    rw [Option.filter_eq_some_iff, Bool.and_eq_true, Bool.not_eq_true'] at hr
    exact ⟨r, hr.1, hr.2.1, hr.2.2, rfl⟩
  · rintro ⟨r, rfl, hch, hs, rfl⟩
    refine ⟨r, ?_, rfl⟩
    rw [Option.filter_some, if_pos]
    rw [hch, hs]
    rfl

@[simp] theorem unsentOf_none : unsentOf (none : Entry jsonHash) u = none := rfl

theorem unsentOf_changed {r : Row jsonHash} (hch : r.changed = true) (hs : sent u r.version = false) :
    unsentOf (some r) u = some r.version := unsentOf_eq_some.mpr ⟨r, rfl, hch, hs, rfl⟩

theorem unsentOf_eq_none {r : Row jsonHash} (h : r.changed = false ∨ sent u r.version = true) :
    unsentOf (some r) u = none := by
  rw [Option.eq_none_iff_forall_ne_some]
  intro w hw
  obtain ⟨r', hr, hch, hs, -⟩ := unsentOf_eq_some.mp hw
  cases hr
  rcases h with h | h
  · rw [hch] at h
    cases h
  · rw [hs] at h
    cases h

theorem sent_eq_true {version : ℕ} :
    sent u version = true ↔ ∃ x, u = some ⟨x, true⟩ ∧ x.version = version := by
  unfold sent
  rw [Option.any_eq_true]
  constructor
  · rintro ⟨⟨x, st⟩, rfl, h⟩
    rw [Bool.and_eq_true, beq_iff_eq] at h
    obtain ⟨h1, h2⟩ := h
    have h1' : st = true := h1
    subst h1'
    exact ⟨x, rfl, h2⟩
  · rintro ⟨x, rfl, rfl⟩
    exact ⟨⟨x, true⟩, rfl, by simp⟩

/-- An upload of another version, or one that is not stored. -/
theorem sent_eq_false {version : ℕ} (h : ∀ x, u = some ⟨x, true⟩ → x.version ≠ version) : sent u version = false := by
  rw [Bool.eq_false_iff, ne_eq, sent_eq_true]
  rintro ⟨x, hx, hv⟩
  exact h x hx hv

end Sent

/-! ### The row of a device and its upload -/

section Device

/-- How a row relates to what was read from it for an upload that is not acknowledged. -/
def Follows (x : Item Data) : Entry jsonHash → Prop
  | none => x.content = none
  | some r => x.version < r.version ∨ r.item = x ∨
      x.version = r.version ∧ x.content = none ∧ r.content ≠ none ∧ r.changed = false

/-- Deletions are kept only until they are acknowledged, and `removed` remembers them. -/
structure Kept (e : Entry jsonHash) (u : Option (Upload (Item Data))) (removed : Bool) : Prop where
  deletion : ∀ r, e = some r → r.content = none → r.changed = true ∧ removed = true
  upload : ∀ x, u = some x → Follows x.payload e ∧ (x.payload.content = none → removed = true)

/-- The row is a deletion now, or it has been one. -/
def removedBy (removed : Bool) (e : Entry jsonHash) : Bool := removed || e.any (·.content.isNone)

variable {e e' : Entry jsonHash} {r : Row jsonHash} {u : Option (Upload (Item Data))} {x : Item Data}
  {removed : Bool}

theorem removedBy_of_removed (h : removed = true) : removedBy removed e = true := by
  unfold removedBy
  rw [h]
  rfl

theorem removedBy_of_deletion (hc : r.content = none) : removedBy removed (some r) = true := by
  unfold removedBy
  rw [Option.any_some, hc]
  exact Bool.or_true removed

/-- An unacknowledged upload is not above the row it was read from. -/
theorem Follows.version_le (h : Follows x (some r)) : x.version ≤ r.version := by
  rcases h with h | h | h
  · exact h.le
  · rw [← h]
    exact le_rfl
  · exact h.1.le

theorem Follows.of_lt (h : x.version < r.version) : Follows x (some r) := Or.inl h

theorem Kept.mono (h : Kept e u removed) : Kept e u (removedBy removed e) where
  deletion r hr hc := ⟨(h.deletion r hr hc).1, removedBy_of_removed (h.deletion r hr hc).2⟩
  upload x hx := ⟨(h.upload x hx).1, fun hc => removedBy_of_removed ((h.upload x hx).2 hc)⟩

/-- A new version of the row, marked as changed. -/
theorem Kept.raise (h : Kept e u removed) (hch : r.changed = true)
    (hu : ∀ x, u = some x → x.payload.version < r.version) : Kept (some r) u (removedBy removed (some r)) where
  deletion r' hr hc := by
    cases hr
    exact ⟨hch, removedBy_of_deletion hc⟩
  upload x hx := ⟨.of_lt (hu x hx), fun hc => removedBy_of_removed ((h.upload x hx).2 hc)⟩

theorem Kept.upload_version_le (h : Kept (some r) u removed) {y : Upload (Item Data)} (hy : u = some y) :
    y.payload.version ≤ r.version := (h.upload y hy).1.version_le

/-- Of a version above that of an upload nothing is sent. -/
theorem Kept.sent_eq_false (h : Kept (some r) u removed) {w : ℕ} (hw : r.version < w) : sent u w = false := by
  refine Lane.sent_eq_false fun x hx => ?_
  have := h.upload_version_le hx
  simp only at this
  omega

theorem Kept.save {data : Data} (h : Kept e u removed) (hr : removed = false)
    (hs : LocalStore.save e data = .ok e') : ∃ r', e' = some r' ∧ r'.changed = true ∧
      (∀ r, e = some r → r.version < r'.version) ∧ ∀ x, u = some x → x.payload.version < r'.version := by
  cases e with
  | none =>
    rw [LocalStore.save_none, Except.ok.injEq] at hs
    refine ⟨_, hs.symm, rfl, fun r h => (nomatch h), fun x hx => ?_⟩
    -- only a deletion is uploaded while there is no row
    have := (h.upload x hx).2 (h.upload x hx).1
    rw [hr] at this
    cases this
  | some r =>
    rw [LocalStore.save_some, Except.ok.injEq] at hs
    refine ⟨_, hs.symm, rfl, fun r' h => ?_, fun x hx => ?_⟩
    · cases h
      exact Nat.lt_succ_self _
    · exact Nat.lt_succ_of_le (h.upload_version_le hx)

theorem Kept.uploadDone (h : Kept e (some ⟨x, true⟩) removed) :
    Kept (LocalStore.markUnchangedImpl false e x.version x.content.isNone) none removed := by
  refine ⟨fun r' hr' hc' => ?_, fun _ hx => nomatch hx⟩
  cases e with
  | none =>
    rw [LocalStore.markUnchangedImpl_none] at hr'
    cases hr'
  | some r =>
    obtain ⟨-, hc⟩ := LocalStore.content_markUnchangedImpl hr'
    rw [hc'] at hc
    by_cases hv : r.version = x.version
    · -- the deletion of that version was acknowledged, and its row is gone
      have hx : x.content = none := by
        rcases (h.upload _ rfl).1 with hlt | heq | ⟨-, hx, -⟩
        · simp only at hlt
          omega
        · have heq' : r.item = x := heq
          rw [← heq', Row.item_content, ← hc]
        · exact hx
      have hf : r.file = none := Option.map_eq_none_iff.mp hc.symm
      rw [hx, Option.isNone_none, LocalStore.markUnchangedImpl_delete hv hf] at hr'
      cases hr'
    · rw [LocalStore.markUnchangedImpl_ne _ hv] at hr'
      exact h.deletion r' hr' hc'

variable [LinearOrder Checksum] {d : Defaults Data} {key : ObjectKey}

/-- A delivery keeps what is said of the row and the upload, unless it stores an object below the upload of an erased
row, or erases a deletion while an object is uploaded. -/
theorem Kept.deliver (hp : d.persistDeleted = false) (h : Kept e u removed)
    (o : SyncController.SyncOutcome jsonHash d (Change.ofItem key x) e e')
    (hstored : e = none → x.content ≠ none → ∀ y, u = some y → y.payload.version ≤ x.version)
    (herased : ∀ r, e = some r → e' = none → sent u r.version = false → ∀ y, u = some y → y.payload.content = none) :
    Kept e' u (removedBy removed e') := by
  have hne : ∀ {c : Option Data}, d.persistDeleted = true ∨ c ≠ none → c ≠ none := by
    intro c hc
    exact hc.resolve_left (by rw [hp]; exact Bool.false_ne_true)
  cases o with
  | newer _ => exact h.mono
  | ignored _ _ => exact h.mono
  | @taken _ r' hlt hc hi hch =>
    have hv : r'.version = x.version := congrArg Versioned.version hi
    have hc' : r'.content ≠ none := by
      have : r'.content = x.content := congrArg Versioned.content hi
      rw [this]
      exact hne hc
    refine ⟨fun r hr hn => ?_, fun y hy => ⟨?_, fun hn => removedBy_of_removed ((h.upload y hy).2 hn)⟩⟩
    · cases hr
      exact absurd hn hc'
    · cases he : e with
      | none =>
        subst he
        have hle := hstored rfl (hne hc) y hy
        rcases hle.lt_or_eq with hlt' | heq
        · exact .of_lt (by rw [hv]; exact hlt')
        · exact Or.inr (Or.inr ⟨heq.trans hv.symm, (h.upload y hy).1, hc', hch⟩)
      | some r =>
        subst he
        have h1 := h.upload_version_le hy
        have h2 : r.version < x.version := hlt r rfl
        exact .of_lt (by omega)
  | @identical r hc hv hcs =>
    have hc' : r.content ≠ none := by
      intro hn
      rw [hn, Option.map_none, eq_comm, Option.map_eq_none_iff] at hcs
      exact hne hc hcs
    refine ⟨fun r' hr hn => ?_, fun y hy => ⟨?_, fun hn => removedBy_of_removed ((h.upload y hy).2 hn)⟩⟩
    · cases hr
      exact absurd hn hc'
    · rcases (h.upload y hy).1 with hlt | heq | ⟨heq, hn, -⟩
      · exact Or.inl hlt
      · exact Or.inr (Or.inl heq)
      · exact Or.inr (Or.inr ⟨heq, hn, hc', rfl⟩)
  | @echo r r' _ _ _ hlt hi hch =>
    have hv : r'.version = x.version := congrArg Versioned.version hi
    refine h.raise hch fun y hy => ?_
    have := h.upload_version_le hy
    simp only [Change.ofItem] at hlt
    omega
  | @tie r r' hv _ _ hv' hch =>
    refine h.raise hch fun y hy => ?_
    have := h.upload_version_le hy
    omega
  | @erased r _ _ hn _ =>
    refine ⟨fun r' hr => (nomatch hr), fun y hy => ⟨?_, fun hn => removedBy_of_removed ((h.upload y hy).2 hn)⟩⟩
    show y.payload.content = none
    cases hs : sent u r.version with
    | false => exact herased r rfl rfl hs y hy
    | true =>
      obtain ⟨z, hz, hzv⟩ := sent_eq_true.mp hs
      rw [hy, Option.some.injEq] at hz
      subst hz
      rcases (h.upload _ hy).1 with hlt | heq | ⟨-, hn', -⟩
      · simp only at hlt
        omega
      · have heq' : r.item = z := heq
        rw [← heq']
        exact hn
      · exact hn'

end Device

end Lane

end QtDataSync
