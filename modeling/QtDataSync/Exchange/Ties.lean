import Mathlib.Algebra.Order.BigOperators.Group.Finset
import QtDataSync.Exchange.Convergence

/-!
# Exchange.Ties — without further edits the versions of a key are bounded

Two contents at one version produce one more version of the content that wins the tie (`tieKey`: the same order on
all devices).  The contents held or in flight are `Bounded`: a content can be `rank` many versions above the highest
version at the start, one for each content it has beaten.  Every row that is newly marked changed is a won tie and
uses up room below that bound, which bounds the number of new changes.
-/

/-- A sum loses one if no term grows and one term shrinks. -/
theorem sum_add_ite_le {ι : Type*} [Fintype ι] {f g : ι → ℕ} (hle : ∀ d, f d ≤ g d) {p : Prop}
    [Decidable p] (hlt : p → ∃ d, f d < g d) : ∑ d, f d + (if p then 1 else 0) ≤ ∑ d, g d := by
  by_cases hp : p
  · obtain ⟨d, hd⟩ := hlt hp
    rw [if_pos hp]
    exact Finset.sum_lt_sum (fun i _ => hle i) ⟨d, Finset.mem_univ d, hd⟩
  · rw [if_neg hp]
    exact Finset.sum_le_sum fun i _ => hle i

namespace QtDataSync

section Sync

variable {Data Checksum : Type*} {jsonHash : Data → Checksum} [LinearOrder Checksum]

namespace SyncController

open LocalStore

theorem TieResult.eq_or_eq {d : Defaults Data} {typeName : QByteArray} {l m c : Option Data}
    (hr : d.conflictResolver = none) (h : TieResult jsonHash d typeName l m c) :
    (c = l ∧ tieKey jsonHash d.conflictPolicy m < tieKey jsonHash d.conflictPolicy l) ∨
      (c = m ∧ tieKey jsonHash d.conflictPolicy l < tieKey jsonHash d.conflictPolicy m) := by
  cases h with
  | resolved _ _ hres => simp [resolveConflict, hr] at hres
  | keep h => exact Or.inl ⟨rfl, h⟩
  | take h => exact Or.inr ⟨rfl, h⟩

/-- Without a resolver `syncChange` does not fail. -/
theorem exists_syncChange {d : Defaults Data} (hr : d.conflictResolver = none) (e : Entry jsonHash)
    (c : Change Data) : ∃ e', syncChange d e c = .ok e' := by
  rcases e with _ | ⟨v, _ | f, ch⟩
  · cases hc : c.data with
    | none =>
      simp only [syncChange, LocalStore.loadChangeInfo, hc]
      split_ifs <;> exact ⟨_, rfl⟩
    | some data => exact ⟨_, by simp only [syncChange, LocalStore.loadChangeInfo, hc]; rfl⟩
  · cases hc : c.data <;> cases hpol : d.conflictPolicy <;>
      simp only [syncChange, LocalStore.loadChangeInfo, hc, hpol] <;> split_ifs <;> exact ⟨_, rfl⟩
  · cases hc : c.data <;> cases hpol : d.conflictPolicy <;>
      simp only [syncChange, LocalStore.loadChangeInfo, hc, hpol, resolveConflict, hr] <;> split_ifs <;>
      exact ⟨_, rfl⟩

/-- With `PersistDeleted` a change that the row has passed does not touch its item. -/
theorem syncChange_of_le {d : Defaults Data} (hp : d.persistDeleted = true) {r r' : Row jsonHash} {c : Change Data}
    (hle : c.item ≤ r.item)
    (h : syncChange d (some r) c = .ok (some r')) : r'.item = r.item := by
  generalize hs : (some r : Entry jsonHash) = e at h
  generalize he' : (some r' : Entry jsonHash) = e' at h
  have hv := Versioned.version_mono hle
  cases syncChange_outcome h with
  | newer _ => cases hs; cases he'; rfl
  | ignored _ _ => cases hs
  | taken hlt _ _ _ => exact absurd (hlt r hs.symm) (not_lt.mpr hv)
  | identical _ _ _ => cases hs; cases he'; rfl
  | echo hp' _ _ _ _ _ => rw [hp] at hp'; cases hp'
  | tie hv' hc _ _ _ =>
    cases hs
    have hi := Versioned.eq_of_le hle hv'.le
    exact absurd (congrArg Versioned.content hi).symm hc
  | erased _ _ _ _ => cases he'

/-- What `syncChange` stores of bounded contents is bounded. -/
theorem bounded_syncChange {d : Defaults Data} (hr : d.conflictResolver = none) {S : Finset (Option Data)} {V : ℕ}
    {e : Entry jsonHash}
    {c : Change Data} {r' : Row jsonHash}
    (he : ∀ r, e = some r → Versioned.Bounded (tieKey jsonHash d.conflictPolicy) S V r.item)
    (hc : Versioned.Bounded (tieKey jsonHash d.conflictPolicy) S V c.item)
    (h : syncChange d e c = .ok (some r')) :
    Versioned.Bounded (tieKey jsonHash d.conflictPolicy) S V r'.item := by
  generalize he' : (some r' : Entry jsonHash) = e' at h
  cases syncChange_outcome h with
  | newer _ => cases he'; exact he _ rfl
  | ignored _ _ => cases he'
  | taken _ _ hi _ => cases he'; rw [hi]; exact hc
  | @identical r _ _ _ => cases he'; exact he r rfl
  | echo _ _ _ _ hi _ => cases he'; rw [hi]; exact hc
  | @tie r _ hv _ ht hv' _ =>
    cases he'
    rcases ht.eq_or_eq hr with ⟨hcont, hlt⟩ | ⟨hcont, hlt⟩
    · have hb := Versioned.Bounded.tie hc (he r rfl) hlt
      have hi : r'.item = ⟨c.item.version + 1, r.item.content⟩ := Versioned.ext hv' hcont
      rw [hi]
      exact hb
    · have hb := Versioned.Bounded.tie (he r rfl) hc hlt
      have hi : r'.item = ⟨r.item.version + 1, c.item.content⟩ :=
        Versioned.ext (by simp [hv', hv]) hcont
      rw [hi]
      exact hb
  | erased _ _ _ _ => cases he'

/-- **A conflict of two devices**: both end one version higher with the same content. -/
theorem syncChange_conflict (hj : Function.Injective jsonHash) {d d' : Defaults Data}
    (hr : d.conflictResolver = none) (hr' : d'.conflictResolver = none)
    (hpol : d.conflictPolicy = d'.conflictPolicy) (key : ObjectKey) {r r' : Row jsonHash}
    (hv : r.version = r'.version) (hc : r.content ≠ r'.content) :
    ∃ q q', syncChange d (some r) (Change.ofItem key r'.item) = .ok (some q) ∧
      syncChange d' (some r') (Change.ofItem key r.item) = .ok (some q') ∧ q.item = q'.item ∧
      q.version = r.version + 1 := by
  -- the outcome of a conflict is a tie
  have hside : ∀ {d : Defaults Data} {r r' : Row jsonHash}, d.conflictResolver = none →
      r.version = r'.version → r.content ≠ r'.content →
      ∃ q, syncChange d (some r) (Change.ofItem key r'.item) = .ok (some q) ∧
        q.version = r'.version + 1 ∧
        ((q.content = r.content ∧
          tieKey jsonHash d.conflictPolicy r'.content < tieKey jsonHash d.conflictPolicy r.content) ∨
        (q.content = r'.content ∧
          tieKey jsonHash d.conflictPolicy r.content < tieKey jsonHash d.conflictPolicy r'.content)) := by
    intro d r r' hr hv hc
    obtain ⟨e', he'⟩ := exists_syncChange hr (some r) (Change.ofItem key r'.item)
    have hne : ∀ r₀ : Row jsonHash, r₀ = r → r₀.item ≠ r'.item := by
      rintro r₀ rfl hi
      exact hc (congrArg Versioned.content hi)
    generalize hs : (some r : Entry jsonHash) = e at he'
    cases syncChange_outcome he' with
    | newer h => cases hs; exact absurd h (by simp [Change.ofItem, hv])
    | ignored _ _ => cases hs
    | taken h _ _ _ => exact absurd (h r hs.symm) (by simp [Change.ofItem, hv])
    | identical _ hv' hc' => cases hs; exact absurd (item_eq_of_checksum hj hv' hc') (hne r rfl)
    | echo _ _ _ h _ _ => cases hs; exact absurd h (by simp [Change.ofItem, hv])
    | @tie r₀ q _ _ ht hv' _ =>
      cases hs
      exact ⟨q, he', hv', ht.eq_or_eq hr⟩
    | erased _ h1 h2 _ => cases hs; exact absurd (h2.trans h1.symm) hc
  obtain ⟨q, hq, hqv, hqc⟩ := hside hr hv hc
  obtain ⟨q', hq', hqv', hqc'⟩ := hside hr' hv.symm (Ne.symm hc)
  refine ⟨q, q', hq, hq', Versioned.ext (by simp [hqv, hqv', hv]) ?_, by omega⟩
  rw [← hpol] at hqc'
  rcases hqc with ⟨h1, h2⟩ | ⟨h1, h2⟩ <;> rcases hqc' with ⟨h3, h4⟩ | ⟨h3, h4⟩
  · exact absurd h2 (lt_asymm h4)
  · exact h1.trans h3.symm
  · exact h1.trans h3.symm
  · exact absurd h2 (lt_asymm h4)

end SyncController

end Sync

namespace Lane

open SyncController

variable {Dev Data Checksum : Type*} {jsonHash : Data → Checksum}

/-- `x` is held by a device or by the server, or it is on its way to one. -/
def Held (s : State Dev jsonHash) (x : Item Data) : Prop :=
  (∃ d r, s.row d = some r ∧ x = r.item) ∨ (∃ d st, s.stored d = some st ∧ x = st.payload) ∨
    (∃ d, s.upload d = some ⟨x, false⟩) ∨ ∃ f m, m ∈ s.inbox f ∧ m ∉ s.received f ∧ x = m.payload

/-- The changed row of the device waits for an upload of its own. -/
def Unsent (s : State Dev jsonHash) (d : Dev) : Prop :=
  ∃ r, s.row d = some r ∧ r.changed = true ∧ ∀ u, s.upload d = some u → u.payload ≠ r.item

/-- The version of the row, `0` if there is none. -/
def rowVersion (s : State Dev jsonHash) (d : Dev) : ℕ := ((s.row d).map (·.version)).getD 0

theorem rowVersion_of_eq {s : State Dev jsonHash} {d : Dev} {r : Row jsonHash} (h : s.row d = some r) :
    rowVersion s d = r.version := by
  simp [rowVersion, h]

variable [DecidableEq Dev] [Fintype Dev] [LinearOrder Checksum] {conf : Dev → Defaults Data}
  {key : ObjectKey} {s t : State Dev jsonHash} {a : Action Dev Data}

theorem Step.rowVersion_le (hp : ∀ d, (conf d).persistDeleted = true)
    (h : Step conf key s a t) (d : Dev) : rowVersion s d ≤ rowVersion t d := by
  have hle := h.itemOf_le hp d
  cases hs : s.row d with
  | none => simp [rowVersion, hs]
  | some r =>
    rw [hs, itemOf_some, coe_le_itemOf] at hle
    obtain ⟨r', hr', hi⟩ := hle
    rw [rowVersion_of_eq hs, rowVersion_of_eq hr']
    exact Versioned.version_mono hi

/-- Without edits a row that is changed after a step was so before, or it won a tie. -/
theorem Step.changed_cases (hp : ∀ d, (conf d).persistDeleted = true) (h : Step conf key s a t) (ha : ¬ a.IsEdit) {d : Dev}
    {r : Row jsonHash} (hr : t.row d = some r) (hch : r.changed = true) :
    s.row d = some r ∨ rowVersion s d < rowVersion t d := by
  rcases h.row d with e | ⟨data, rfl, -⟩ | ⟨rfl, -⟩ | ⟨x, -, -, e⟩ | ⟨m, -, -, e⟩
  · exact Or.inl (e ▸ hr)
  · exact absurd trivial ha
  · exact absurd trivial ha
  · rw [hr, hp d, LocalStore.markUnchangedImpl_persist] at e
    cases hs : s.row d with
    | none => rw [hs] at e; cases e
    | some r₀ =>
      rw [hs, Option.map_some, Option.some.injEq] at e
      by_cases hv : r₀.version = x.version
      · rw [if_pos hv] at e
        rw [e] at hch
        cases hch
      · rw [if_neg hv] at e
        exact Or.inl (by rw [e])
  · rw [hr] at e
    generalize hs : s.row d = es at e
    generalize he : (some r : Entry jsonHash) = er at e
    cases syncChange_outcome e with
    | newer _ => cases he; exact Or.inl rfl
    | ignored _ _ => cases he
    | taken _ _ _ hch' => cases he; rw [hch] at hch'; cases hch'
    | identical _ _ _ => cases he; cases hch
    | echo hp' _ _ _ _ _ => rw [hp d] at hp'; cases hp'
    | @tie r₀ _ hv _ _ hv' _ =>
      cases he
      refine Or.inr ?_
      rw [rowVersion_of_eq hs, rowVersion_of_eq hr]
      omega
    | erased _ _ _ _ => cases he

/-- What is held after a step without edits is bounded if everything was before it. -/
theorem Step.bounded (hp : ∀ d, (conf d).persistDeleted = true) {policy : SyncPolicy}
    (hpol : ∀ d, (conf d).conflictPolicy = policy) (hres : ∀ d, (conf d).conflictResolver = none)
    (C : Conv s) {S : Finset (Option Data)} {V : ℕ}
    (hB : ∀ x, Held s x → Versioned.Bounded (tieKey jsonHash policy) S V x)
    (h : Step conf key s a t) (ha : ¬ a.IsEdit) {x : Item Data} (hx : Held t x) :
    Versioned.Bounded (tieKey jsonHash policy) S V x := by
  have hrow : ∀ d r, s.row d = some r → Versioned.Bounded (tieKey jsonHash policy) S V r.item :=
    fun d r hr => hB _ (Or.inl ⟨d, r, hr, rfl⟩)
  rcases hx with ⟨d, r, hr, rfl⟩ | ⟨d, st', hst', rfl⟩ | ⟨d, hu⟩ | ⟨f, m, hm, hn, rfl⟩
  · rcases h.row d with e | ⟨data, rfl, -⟩ | ⟨rfl, -⟩ | ⟨x, -, -, e⟩ | ⟨m, ha', hm, e⟩
    · exact hrow d r (e ▸ hr)
    · exact absurd trivial ha
    · exact absurd trivial ha
    · have hi := LocalStore.itemOf_markUnchangedImpl (s.row d) x.version x.content.isNone
      rw [hp d] at e
      rw [← e, hr, itemOf_some, eq_comm, itemOf_eq_coe] at hi
      obtain ⟨r₀, hr₀, hi⟩ := hi
      exact hi ▸ hrow d r₀ hr₀
    · by_cases hrec : m ∈ s.received d
      · -- a redelivery finds the row above the message
        have hle := C.received_le d m hrec
        obtain ⟨r₀, hr₀, hle⟩ := coe_le_itemOf.mp hle
        rw [hr₀, hr] at e
        have hi : r.item = r₀.item := syncChange_of_le (c := Change.ofItem key m.payload) (hp d) hle e
        exact hi ▸ hrow d r₀ hr₀
      · rw [hr] at e
        rw [← hpol d] at hB ⊢
        exact bounded_syncChange (hres d)
          (fun r₀ hr₀ => hB _ (Or.inl ⟨d, r₀, hr₀, rfl⟩))
          (hB _ (Or.inr (Or.inr (Or.inr ⟨d, m, hm, hrec, rfl⟩)))) e
  · rcases h.stored_some hst' with ⟨st, hst, -, hpay, -⟩ | ⟨x, -, hu, -, rfl⟩
    · rw [hpay]
      exact hB _ (Or.inr (Or.inl ⟨d, st, hst, rfl⟩))
    · exact hB _ (Or.inr (Or.inr (Or.inl ⟨d, hu⟩)))
  · rcases h.upload_some hu with hu | ⟨r, -, hr, -, -, hu⟩ | ⟨y, -, -, hu⟩
    · exact hB _ (Or.inr (Or.inr (Or.inl ⟨d, hu⟩)))
    · cases hu
      exact hrow d r hr
    · cases hu
  · rcases h.mem_inbox hm with hm | ⟨d, st, -, hst, -, rfl⟩
    · exact hB _ (Or.inr (Or.inr (Or.inr ⟨f, m, hm, fun hr => hn (h.received_mono f hr), rfl⟩)))
    · exact hB _ (Or.inr (Or.inl ⟨d, st, hst, rfl⟩))

/-- An upload lasts until it is done. -/
theorem Step.upload_kept (h : Step conf key s a t) {d : Dev} {u : Upload (Item Data)}
    (hu : s.upload d = some u) :
    (∃ u', t.upload d = some u' ∧ u'.payload = u.payload) ∨ (a = .uploadDone d ∧ u = ⟨u.payload, true⟩) := by
  cases h with
  | @upload dev r _ _ hn =>
    by_cases hd : d = dev
    · subst hd
      rw [hn] at hu
      cases hu
    · exact Or.inl ⟨u, by simpa [Function.update_of_ne hd] using hu, rfl⟩
  | @addChange dev x hx =>
    by_cases hd : d = dev
    · subst hd
      rw [hx, Option.some.injEq] at hu
      exact Or.inl ⟨⟨x, true⟩, by simp, by rw [← hu]⟩
    · exact Or.inl ⟨u, by simpa [Function.update_of_ne hd] using hu, rfl⟩
  | @uploadDone dev x hx =>
    by_cases hd : d = dev
    · subst hd
      rw [hx, Option.some.injEq] at hu
      exact Or.inr ⟨rfl, by rw [← hu]⟩
    · exact Or.inl ⟨u, by simpa [Function.update_of_ne hd] using hu, rfl⟩
  | save _ => exact Or.inl ⟨u, hu, rfl⟩
  | remove => exact Or.inl ⟨u, hu, rfl⟩
  | deliver _ _ => exact Or.inl ⟨u, hu, rfl⟩
  | send _ _ => exact Or.inl ⟨u, hu, rfl⟩
  | complete _ => exact Or.inl ⟨u, hu, rfl⟩
  | skip => exact Or.inl ⟨u, hu, rfl⟩

/-- Without edits only a won tie makes a device wait for another upload. -/
theorem Step.unsent_cases (hp : ∀ d, (conf d).persistDeleted = true) (h : Step conf key s a t) (ha : ¬ a.IsEdit) {d : Dev}
    (hu : Unsent t d) : Unsent s d ∨ rowVersion s d < rowVersion t d := by
  obtain ⟨r, hr, hch, hne⟩ := hu
  rcases h.changed_cases hp ha hr hch with hs | hlt
  · refine Or.inl ⟨r, hs, hch, ?_⟩
    intro u hu hpay
    rcases h.upload_kept hu with ⟨u', hu', hpay'⟩ | ⟨rfl, hst⟩
    · exact hne u' hu' (hpay'.trans hpay)
    · -- the acknowledgement of this very row has cleared its flag
      cases h with
      | uploadDone hx =>
        rw [hx, Option.some.injEq] at hu
        rw [← hu] at hpay
        simp only at hpay
        subst hpay
        simp only [State.setRow_row_self, hp d, hs, Row.item_version,
          LocalStore.markUnchangedImpl_self, Option.some.injEq] at hr
        rw [← hr] at hch
        cases hch
  · exact Or.inr hlt

/-- An upload starts for a device that waits for it, which then waits no more. -/
theorem Step.unsent_upload {d : Dev} (h : Step conf key s (.upload d) t) : Unsent s d ∧ ¬ Unsent t d := by
  cases h with
  | @upload _ r hr hch hn =>
    refine ⟨⟨r, hr, hch, fun u hu => by rw [hn] at hu; cases hu⟩, ?_⟩
    rintro ⟨r', hr', -, hne⟩
    have hrr : r = r' := Option.some.inj (hr.symm.trans hr')
    exact hne ⟨r.item, false⟩ (by simp) (by rw [hrr])

/-- Some row is marked changed that was not, or that was another one. -/
def NewlyChanged (s t : State Dev jsonHash) : Prop :=
  ∃ d r, t.row d = some r ∧ r.changed = true ∧ s.row d ≠ some r

/-- The versions that are left below the bound `B`. -/
def room (B : ℕ) (s : State Dev jsonHash) : ℕ := ∑ d, (B - rowVersion s d)

open Classical in
/-- The versions that are left, with the uploads that devices wait for. -/
noncomputable def uploadRoom (B : ℕ) (s : State Dev jsonHash) : ℕ :=
  ∑ d, (B - rowVersion s d + if Unsent s d then 1 else 0)

open Classical in
/-- A row that is newly marked changed uses up a version. -/
theorem Step.room_add_le (hp : ∀ d, (conf d).persistDeleted = true) (h : Step conf key s a t) (ha : ¬ a.IsEdit) {B : ℕ}
    (hB : ∀ d, rowVersion t d ≤ B) : room B t + (if NewlyChanged s t then 1 else 0) ≤ room B s := by
  refine sum_add_ite_le (fun d => ?_) ?_
  · have := h.rowVersion_le hp d
    omega
  · rintro ⟨d, r, hr, hch, hne⟩
    have hlt := (h.changed_cases hp ha hr hch).resolve_left hne
    have := hB d
    exact ⟨d, by omega⟩

open Classical in
/-- An upload uses up a version or a device's waiting. -/
theorem Step.uploadRoom_add_le (hp : ∀ d, (conf d).persistDeleted = true) (h : Step conf key s a t) (ha : ¬ a.IsEdit)
    {B : ℕ}
    (hB : ∀ d, rowVersion t d ≤ B) :
    uploadRoom B t + (if ∃ d, a = .upload d then 1 else 0) ≤ uploadRoom B s := by
  have hle : ∀ d, B - rowVersion t d + (if Unsent t d then 1 else 0) ≤
      B - rowVersion s d + (if Unsent s d then 1 else 0) := by
    intro d
    have h1 := h.rowVersion_le hp d
    have h2 := hB d
    by_cases hu : Unsent t d
    · rcases h.unsent_cases hp ha hu with hs | hlt
      · rw [if_pos hu, if_pos hs]
        omega
      · rw [if_pos hu]
        split_ifs <;> omega
    · rw [if_neg hu]
      split_ifs <;> omega
  refine sum_add_ite_le hle ?_
  rintro ⟨d, rfl⟩
  obtain ⟨hs, ht⟩ := h.unsent_upload
  refine ⟨d, ?_⟩
  have h1 := h.rowVersion_le hp d
  rw [if_neg ht, if_pos hs]
  omega

omit [DecidableEq Dev] [Fintype Dev] in
/-- Rows are held. -/
theorem rowVersion_le_of_bounded {S : Finset (Option Data)} {V : ℕ} {policy : SyncPolicy}
    (hB : ∀ x, Held s x → Versioned.Bounded (tieKey jsonHash policy) S V x) (d : Dev) :
    rowVersion s d ≤ V + S.card - 1 := by
  cases hr : s.row d with
  | none => simp [rowVersion, hr]
  | some r =>
    rw [rowVersion_of_eq hr]
    exact (hB _ (Or.inl ⟨d, r, hr, rfl⟩)).version_le

end Lane

namespace System

section

variable {Dev Data Checksum : Type*} {jsonHash : Data → Checksum} [DecidableEq Dev] [Fintype Dev]
  [LinearOrder Checksum] {conf : Dev → Defaults Data} {hashed : ObjectKey → QByteArray}
  {K : Set ObjectKey} {s : State Dev jsonHash} {k : ObjectKey}

open Classical in
/-- The steps that mark a row of the key `k` as changed. -/
noncomputable def marksChanged (hashed : ObjectKey → QByteArray) (k : ObjectKey)
    (x : State Dev jsonHash × Action Dev Data × State Dev jsonHash) : Bool :=
  decide (Lane.NewlyChanged (lane hashed k x.1) (lane hashed k x.2.2))

omit [DecidableEq Dev] [Fintype Dev] [LinearOrder Checksum] in
theorem marksChanged_iff {x : State Dev jsonHash × Action Dev Data × State Dev jsonHash} :
    marksChanged hashed k x = true ↔ Lane.NewlyChanged (lane hashed k x.1) (lane hashed k x.2.2) := by
  simp [marksChanged]

/-- The steps that upload a change of the key `k`. -/
def uploads (k : ObjectKey) (x : State Dev jsonHash × Action Dev Data × State Dev jsonHash) : Bool :=
  match x.2.1 with
  | .upload _ key => key == k
  | _ => false

/-- What the continuation of a run without edits keeps. -/
structure TieInv (hashed : ObjectKey → QByteArray) (K : Set ObjectKey) (k : ObjectKey)
    (policy : SyncPolicy) (S : Finset (Option Data)) (V : ℕ) (s : State Dev jsonHash) : Prop where
  wellFormed : WellFormed hashed K s
  conv : Lane.Conv (lane hashed k s)
  bounded : ∀ x, Lane.Held (lane hashed k s) x →
    Versioned.Bounded (SyncController.tieKey jsonHash policy) S V x

/-- A step of the system without edits of `k`, seen on the lane of `k`. -/
theorem TieInv.lane_step (hh : Set.InjOn hashed K) (hk : k ∈ K) {policy : SyncPolicy}
    {S : Finset (Option Data)} {V : ℕ} {t : State Dev jsonHash} {a : Action Dev Data}
    (I : TieInv hashed K k policy S V s) (ha : ¬ a.Edits k) (h : step conf hashed s a = some t) :
    (lane hashed k t = lane hashed k s ∧ ∀ d, laneAction hashed k s a ≠ some (.upload d)) ∨
      ∃ b, laneAction hashed k s a = some b ∧ ¬ b.IsEdit ∧
        Lane.Step conf k (lane hashed k s) b (lane hashed k t) := by
  have hl := System.lane_step k hh hk I.wellFormed h
  cases hb : laneAction hashed k s a with
  | none =>
    rw [hb] at hl
    exact Or.inl ⟨hl, fun d hx => by cases hx⟩
  | some b =>
    rw [hb] at hl
    exact Or.inr ⟨b, rfl, fun hx => ha (edits_of_laneAction hb hx), hl⟩

theorem TieInv.step (hj : Function.Injective jsonHash) (hh : Set.InjOn hashed K) (hk : k ∈ K)
    (hp : ∀ d, (conf d).persistDeleted = true) {policy : SyncPolicy}
    (hpol : ∀ d, (conf d).conflictPolicy = policy) (hres : ∀ d, (conf d).conflictResolver = none)
    {S : Finset (Option Data)} {V : ℕ} {t : State Dev jsonHash} {a : Action Dev Data}
    (I : TieInv hashed K k policy S V s) (hK : a.Uses K) (ha : ¬ a.Edits k)
    (h : step conf hashed s a = some t) : TieInv hashed K k policy S V t := by
  have W := I.wellFormed.step hK h
  rcases I.lane_step hh hk ha h with ⟨he, -⟩ | ⟨b, -, hb, hl⟩
  · exact ⟨W, he ▸ I.conv, he ▸ I.bounded⟩
  · have hI := I.wellFormed.lane k
    exact ⟨W, I.conv.step hj hp hI hl, fun x hx => hl.bounded hp hpol hres I.conv I.bounded hb hx⟩

omit [DecidableEq Dev] [Fintype Dev] [LinearOrder Checksum] in
theorem laneAction_of_uploads {t : State Dev jsonHash} {a : Action Dev Data}
    (h : uploads k (s, a, t) = true) : ∃ d, laneAction hashed k s a = some (.upload d) := by
  cases a with
  | upload dev key =>
    have hkey : key = k := beq_iff_eq.mp h
    exact ⟨dev, if_pos hkey⟩
  | _ => cases h

/-- The invariant of a reachable state, with bounds on what is held there. -/
theorem TieInv.of_reachable (hj : Function.Injective jsonHash) (hh : Set.InjOn hashed K) (hk : k ∈ K)
    (hp : ∀ d, (conf d).persistDeleted = true) (policy : SyncPolicy)
    (hs : (lts conf hashed).Reachable (fun _ a => a.Uses K) s) {V : ℕ} {S : Finset (Option Data)}
    (hV : ∀ x, Lane.Held (lane hashed k s) x → x.version ≤ V ∧ x.content ∈ S) : TieInv hashed K k policy S V s where
  wellFormed := WellFormed.reachable (fun _ _ hg => hg) hs
  conv := conv_reachable hj hh hp (fun _ _ hg => hg) hs hk
  bounded x hx := Versioned.bounded_of_le (hV x hx).2 (hV x hx).1

/-! ### A run without edits -/

section Runs

variable {policy : SyncPolicy} {V : ℕ} {S : Finset (Option Data)} {t : State Dev jsonHash}
  {tr : List (State Dev jsonHash × Action Dev Data × State Dev jsonHash)}

theorem TieInv.run (hj : Function.Injective jsonHash) (hh : Set.InjOn hashed K) (hk : k ∈ K)
    (hp : ∀ d, (conf d).persistDeleted = true) (hpol : ∀ d, (conf d).conflictPolicy = policy)
    (hres : ∀ d, (conf d).conflictResolver = none) (I : TieInv hashed K k policy S V s)
    (hrun : LTS.Run (lts conf hashed) (fun _ a => a.Uses K ∧ ¬ a.Edits k) s tr t) : TieInv hashed K k policy S V t :=
  hrun.invariant (fun _ _ _ I hg hst => I.step hj hh hk hp hpol hres hg.1 hg.2 hst) I

omit [DecidableEq Dev] [Fintype Dev] in
theorem TieInv.version_le (I : TieInv hashed K k policy S V s) {x : Lane.Item Data} (hx : Lane.Held (lane hashed k s) x) :
    x.version ≤ V + S.card - 1 := (I.bounded x hx).version_le

/-- Every step that marks a row takes it up by a version. -/
theorem TieInv.countP_marksChanged_le (hj : Function.Injective jsonHash) (hh : Set.InjOn hashed K) (hk : k ∈ K)
    (hp : ∀ d, (conf d).persistDeleted = true) (hpol : ∀ d, (conf d).conflictPolicy = policy)
    (hres : ∀ d, (conf d).conflictResolver = none) (I : TieInv hashed K k policy S V s)
    (hrun : LTS.Run (lts conf hashed) (fun _ a => a.Uses K ∧ ¬ a.Edits k) s tr t) :
    tr.countP (marksChanged hashed k) ≤ Fintype.card Dev * (V + S.card - 1) := by
  have hcount := hrun.countP_add_le (I := TieInv hashed K k policy S V)
    (fun _ _ _ I hg hst => I.step hj hh hk hp hpol hres hg.1 hg.2 hst) (marksChanged hashed k)
    (fun s => Lane.room (V + S.card - 1) (lane hashed k s)) ?_ I
  · have hroom : Lane.room (V + S.card - 1) (lane hashed k s) ≤ Fintype.card Dev * (V + S.card - 1) := by
      refine (Finset.sum_le_card_nsmul _ _ (V + S.card - 1) fun d _ => Nat.sub_le _ _).trans ?_
      simp
    omega
  · intro s a t I hg hst
    have It := I.step hj hh hk hp hpol hres hg.1 hg.2 hst
    rcases I.lane_step hh hk hg.2 hst with ⟨he, -⟩ | ⟨b, -, hb, hl⟩
    · have hmark : marksChanged hashed k (s, a, t) ≠ true := by
        intro hm
        obtain ⟨d, r, hr, -, hne⟩ := marksChanged_iff.mp hm
        exact hne (he ▸ hr)
      simp [hmark, he]
    · have := hl.room_add_le hp hb fun d => Lane.rowVersion_le_of_bounded It.bounded d
      refine le_trans (Nat.add_le_add_left ?_ _) this
      split_ifs with h1 h2
      · exact le_rfl
      · exact absurd (marksChanged_iff.mp h1) h2
      · exact Nat.zero_le _
      · exact le_rfl

/-- Every upload is of a row that was marked, or of one that waits for it. -/
theorem TieInv.countP_uploads_le (hj : Function.Injective jsonHash) (hh : Set.InjOn hashed K) (hk : k ∈ K)
    (hp : ∀ d, (conf d).persistDeleted = true) (hpol : ∀ d, (conf d).conflictPolicy = policy)
    (hres : ∀ d, (conf d).conflictResolver = none) (I : TieInv hashed K k policy S V s)
    (hrun : LTS.Run (lts conf hashed) (fun _ a => a.Uses K ∧ ¬ a.Edits k) s tr t) :
    tr.countP (uploads k) ≤ Fintype.card Dev * (V + S.card) := by
  have hcount := hrun.countP_add_le (I := TieInv hashed K k policy S V)
    (fun _ _ _ I hg hst => I.step hj hh hk hp hpol hres hg.1 hg.2 hst) (uploads k)
    (fun s => Lane.uploadRoom (V + S.card - 1) (lane hashed k s)) ?_ I
  · have hroom : Lane.uploadRoom (V + S.card - 1) (lane hashed k s) ≤ Fintype.card Dev * (V + S.card) := by
      refine (Finset.sum_le_card_nsmul _ _ (V + S.card) fun d _ => ?_).trans (by simp)
      split_ifs with hu
      · -- a row that waits for its upload is held
        obtain ⟨r, hr, -⟩ := hu
        have hS : 0 < S.card := Finset.card_pos.mpr ⟨_, (I.bounded _ (Or.inl ⟨d, r, hr, rfl⟩)).1⟩
        omega
      · omega
    omega
  · intro s a t I hg hst
    have It := I.step hj hh hk hp hpol hres hg.1 hg.2 hst
    rcases I.lane_step hh hk hg.2 hst with ⟨he, hno⟩ | ⟨b, hbe, hb, hl⟩
    · have hmark : uploads k (s, a, t) ≠ true := by
        intro hu
        obtain ⟨d, hd⟩ := laneAction_of_uploads hu
        exact hno d hd
      simp [hmark, he]
    · have := hl.uploadRoom_add_le hp hb fun d => Lane.rowVersion_le_of_bounded It.bounded d
      refine le_trans (Nat.add_le_add_left ?_ _) this
      split_ifs with h1 h2
      · exact le_rfl
      · obtain ⟨d, hd⟩ := laneAction_of_uploads h1
        exact absurd ⟨d, Option.some.inj (hbe.symm.trans hd)⟩ h2
      · exact Nat.zero_le _
      · exact le_rfl

end Runs

/-- **Tie-breaking terminates.**  From any reachable state, with one policy and without resolvers and further edits of
`k`: if the versions of `k` held or in flight are at most `V` and their contents are in `S`, no version above
`V + |S| - 1` is ever held, and the steps that mark a row changed or upload a change are bounded in number.  Two
devices in conflict that apply each other's change end with the same content, one version higher. -/
theorem ties_terminate (hj : Function.Injective jsonHash) (hh : Set.InjOn hashed K) (hk : k ∈ K)
    (hp : ∀ d, (conf d).persistDeleted = true) {policy : SyncPolicy}
    (hpol : ∀ d, (conf d).conflictPolicy = policy) (hres : ∀ d, (conf d).conflictResolver = none)
    (hs : (lts conf hashed).Reachable (fun _ a => a.Uses K) s) {V : ℕ} {S : Finset (Option Data)}
    (hV : ∀ x, Lane.Held (lane hashed k s) x → x.version ≤ V ∧ x.content ∈ S) :
    (∀ tr t, LTS.Run (lts conf hashed) (fun _ a => a.Uses K ∧ ¬ a.Edits k) s tr t →
      (∀ x, Lane.Held (lane hashed k t) x → x.version ≤ V + S.card - 1) ∧
      tr.countP (marksChanged hashed k) ≤ Fintype.card Dev * (V + S.card - 1) ∧
      tr.countP (uploads k) ≤ Fintype.card Dev * (V + S.card)) ∧
    ∀ (d d' : Dev) (r r' : Row jsonHash), r.version = r'.version → r.content ≠ r'.content →
      ∃ q q', SyncController.syncChange (conf d) (some r) (Change.ofItem k r'.item) = .ok (some q) ∧
        SyncController.syncChange (conf d') (some r') (Change.ofItem k r.item) = .ok (some q') ∧
        q.item = q'.item ∧ q.version = r.version + 1 := by
  refine ⟨fun tr t hrun => ?_, fun d d' r r' hv hc => SyncController.syncChange_conflict hj (hres d) (hres d')
    ((hpol d).trans (hpol d').symm) k hv hc⟩
  have I := TieInv.of_reachable hj hh hk hp policy hs hV
  exact ⟨fun x hx => (I.run hj hh hk hp hpol hres hrun).version_le hx,
    I.countP_marksChanged_le hj hh hk hp hpol hres hrun, I.countP_uploads_le hj hh hk hp hpol hres hrun⟩

end

namespace Sample

/-- The versions and contents of the key on the devices, on the server and in the network. -/
def heldItems (s : State) : List (Versioned (Option ℕ)) :=
  (List.finRange 2).flatMap fun d => ((s.index d key).map Row.item).toList ++
    ((s.datachanges d (hashed key)).map (·.payload.item)).toList ++
    ((s.activeUploads d (hashed key)).map (·.payload.item)).toList ++ (s.inbox d).map (·.payload.item)

theorem mem_heldItems {s : State} {x : Versioned (Option ℕ)} (h : Lane.Held (lane hashed key s) x) :
    x ∈ heldItems s := by
  have hmem : ∀ d, x ∈ ((s.index d key).map Row.item).toList ++
      ((s.datachanges d (hashed key)).map (·.payload.item)).toList ++
      ((s.activeUploads d (hashed key)).map (·.payload.item)).toList ++
      (s.inbox d).map (·.payload.item) → x ∈ heldItems s :=
    fun d hd => List.mem_flatMap.mpr ⟨d, List.mem_finRange d, hd⟩
  rcases h with ⟨d, r, hr, rfl⟩ | ⟨d, st', hst', rfl⟩ | ⟨d, hu⟩ | ⟨d, m, ⟨m', hm', -, rfl⟩, -, rfl⟩
  · have hr' : s.index d key = some r := hr
    exact hmem d (by simp [hr'])
  · obtain ⟨st, hst, rfl⟩ := Option.map_eq_some_iff.mp hst'
    exact hmem d (by simp [hst, StoredChange.map])
  · obtain ⟨u, hu, hx⟩ := Option.map_eq_some_iff.mp hu
    have hx' : u.payload.item = x := congrArg Upload.payload hx
    exact hmem d (by simp [hu, hx'])
  · exact hmem d (List.mem_append_right _ (List.mem_map.mpr ⟨m', hm', rfl⟩))

def isEdit : Action (Fin 2) ℕ → Bool
  | .save .. => true
  | .remove .. => true
  | .clear .. => true
  | _ => false

/-- A continuation without edits. -/
def rest (s : State) (l : List (Action (Fin 2) ℕ)) : Option State :=
  LTS.exec (step (conf true) hashed) (fun _ a => !isEdit a) s l

theorem uses_of_not_isEdit {a : Action (Fin 2) ℕ} (h : (!isEdit a) = true) : a.Uses {key} ∧ ¬ a.Edits key := by
  cases a with
  | save d k data => cases h
  | remove d k => cases h
  | clear d typeName => cases h
  | _ => exact ⟨trivial, fun hx => hx⟩

theorem run_of_rest {s t : State} {l : List (Action (Fin 2) ℕ)} (h : rest s l = some t) :
    ∃ tr, LTS.Run (lts (conf true) hashed) (fun _ a => a.Uses {key} ∧ ¬ a.Edits key) s tr t :=
  LTS.exec_run _ (fun _ _ => uses_of_not_isEdit) h

end Sample

/-- The conflict of two saves at version 1, both in flight: at most version 2 is ever held. -/
theorem ties_terminate_conflict : ∃ s t : Sample.State, ∃ tr,
    LTS.Run (lts (Sample.conf true) Sample.hashed)
      (fun _ a => a.Uses {Sample.key} ∧ ¬ a.Edits Sample.key) s tr t ∧
    (t.index 0 Sample.key).map Row.item = some ⟨2, some 7⟩ ∧
    (∀ x, Lane.Held (lane Sample.hashed Sample.key t) x → x.version ≤ 2) ∧
    tr.countP (uploads Sample.key) ≤ 6 := by
  have h : (Sample.run true (Sample.conflict.take 10)).any (fun s =>
      (Sample.heldItems s).all (fun x => x.version ≤ 1 && x.content ∈ [some 5, some 7]) &&
      (Sample.rest s (Sample.conflict.drop 10)).any fun t =>
        (t.index 0 Sample.key).map Row.item == some ⟨2, some 7⟩) = true := by decide
  rw [Option.any_eq_true] at h
  obtain ⟨s, hs, hrest⟩ := h
  rw [Bool.and_eq_true, Option.any_eq_true] at hrest
  obtain ⟨hheld, t, ht, hrow⟩ := hrest
  obtain ⟨tr, htr⟩ := Sample.run_of_rest ht
  have hV : ∀ x, Lane.Held (lane Sample.hashed Sample.key s) x →
      x.version ≤ 1 ∧ x.content ∈ ({some 5, some 7} : Finset (Option ℕ)) := by
    intro x hx
    have := List.all_eq_true.mp hheld x (Sample.mem_heldItems hx)
    simpa using this
  have hT := (ties_terminate (fun _ _ h => h) Sample.injOn_hashed rfl (fun _ => rfl) (fun _ => rfl)
    (fun _ => rfl) (Sample.reachable hs) hV).1 tr t htr
  exact ⟨s, t, tr, htr, beq_iff_eq.mp hrow, hT.1, hT.2.2⟩

end System

end QtDataSync
