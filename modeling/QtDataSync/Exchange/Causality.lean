import Mathlib.Logic.Relation
import QtDataSync.Exchange.Convergence

/-!
# Exchange.Causality — edits respect causality

A history variable of a lane logs every edit (save, remove, merge or tie bump) with its parents, the edits that the
row reflected when the edit was made; a merge or a tie bump has those of the received change as well.  A row reflects
the edit that wrote it; a row that takes a change reflects what the sender's row did when it was uploaded, and a row
found identical to a change reflects the edits of both.

The invariant `Causal`: what reflects an edit has its version and content, and parents have lower versions.
-/

namespace QtDataSync

/-- A logged edit. -/
structure Edit (Data : Type*) where
  item : Lane.Item Data
  parents : Set ℕ

/-- The edits of a key in the order in which they were made, and what rows, uploads and changes reflect. -/
structure History (Dev Data : Type*) where
  log : List (Edit Data)
  row : Dev → Set ℕ
  upload : Dev → Set ℕ
  msg : ℕ → Set ℕ

namespace History

variable {Dev Data : Type*}

def empty : History Dev Data := ⟨[], fun _ => ∅, fun _ => ∅, fun _ => ∅⟩

/-- Edit `j` was made where edit `i` was reflected. -/
def Parent (h : History Dev Data) (i j : ℕ) : Prop := ∃ e, h.log[j]? = some e ∧ i ∈ e.parents

/-- Edit `j` is a successor of edit `i`. -/
def Before (h : History Dev Data) : ℕ → ℕ → Prop := Relation.TransGen h.Parent

/-- The edits of `I` all made `x`. -/
def Labels (h : History Dev Data) (I : Set ℕ) (x : Lane.Item Data) : Prop :=
  I.Nonempty ∧ ∀ i ∈ I, ∃ e, h.log[i]? = some e ∧ e.item = x

variable [DecidableEq Dev]

def setRow (h : History Dev Data) (dev : Dev) (I : Set ℕ) : History Dev Data :=
  { h with row := Function.update h.row dev I }

/-- A device makes an edit. -/
def edit (h : History Dev Data) (dev : Dev) (x : Lane.Item Data) (parents : Set ℕ) : History Dev Data :=
  { h with log := h.log ++ [⟨x, parents⟩], row := Function.update h.row dev {h.log.length} }

section Step

variable {Checksum : Type*} {jsonHash : Data → Checksum}

/-- A device makes an edit that leads to the entry `e`. -/
def editTo (h : History Dev Data) (dev : Dev) (e : Entry jsonHash) (parents : Set ℕ) : History Dev Data :=
  match e with
  | none => h
  | some r => h.edit dev r.item parents

open Classical in
/-- A message is delivered and makes the entry `old` to `new`. -/
noncomputable def delivered (h : History Dev Data) (dev : Dev) (m : Message (Lane.Item Data))
    (old new : Entry jsonHash) : History Dev Data :=
  if itemOf new = itemOf old then
    if itemOf new = (m.payload : WithBot (Lane.Item Data)) then h.setRow dev (h.row dev ∪ h.msg m.id)
    else h
  else if itemOf new = (m.payload : WithBot (Lane.Item Data)) then h.setRow dev (h.msg m.id)
  else h.editTo dev new (h.row dev ∪ h.msg m.id)

open Classical in
/-- The history after a step of the lane. -/
noncomputable def step (h : History Dev Data) (s : Lane.State Dev jsonHash) (a : Lane.Action Dev Data)
    (t : Lane.State Dev jsonHash) : History Dev Data :=
  match a with
  | .save dev _ => h.editTo dev (t.row dev) (h.row dev)
  | .remove dev => if t.row dev = s.row dev then h else h.editTo dev (t.row dev) (h.row dev)
  | .upload dev => { h with upload := Function.update h.upload dev (h.row dev) }
  | .addChange dev => { h with msg := Function.update h.msg s.nextId (h.upload dev) }
  | .deliver dev m => h.delivered dev m (s.row dev) (t.row dev)
  | .uploadDone _ => h
  | .send _ _ => h
  | .complete _ _ => h
  | .skip => h

end Step

omit [DecidableEq Dev] in
theorem Labels.union {h : History Dev Data} {I J : Set ℕ} {x : Lane.Item Data} (hI : h.Labels I x)
    (hJ : h.Labels J x) : h.Labels (I ∪ J) x := by
  refine ⟨hI.1.inl, ?_⟩
  rintro i (hi | hi)
  · exact hI.2 i hi
  · exact hJ.2 i hi

/-- The log only grows. -/
theorem getElem?_edit {h : History Dev Data} {i : ℕ} {e : Edit Data} (he : h.log[i]? = some e)
    (dev : Dev) (x : Lane.Item Data) (parents : Set ℕ) : (h.edit dev x parents).log[i]? = some e := by
  have hi : i < h.log.length := by
    by_contra hn
    rw [List.getElem?_eq_none (by omega)] at he
    cases he
  rw [edit, List.getElem?_append_left hi]
  exact he

theorem Labels.edit {h : History Dev Data} {I : Set ℕ} {y : Lane.Item Data} (hI : h.Labels I y)
    (dev : Dev) (x : Lane.Item Data) (parents : Set ℕ) : (h.edit dev x parents).Labels I y := by
  refine ⟨hI.1, fun i hi => ?_⟩
  obtain ⟨e, he, hx⟩ := hI.2 i hi
  exact ⟨e, getElem?_edit he dev x parents, hx⟩

end History

namespace Lane

variable {Dev Data Checksum : Type*} {jsonHash : Data → Checksum}

/-- The row of the entry reflects the edits of `I`. -/
def Reflects (h : History Dev Data) (e : Entry jsonHash) (I : Set ℕ) : Prop :=
  match e with
  | none => I = ∅
  | some r => h.Labels I r.item

/-- The invariant of the history. -/
structure Causal (s : State Dev jsonHash) (h : History Dev Data) : Prop where
  row : ∀ d, Reflects h (s.row d) (h.row d)
  upload : ∀ d u, s.upload d = some u → h.Labels (h.upload d) u.payload
  stored : ∀ d st, s.stored d = some st → h.Labels (h.msg st.id) st.payload
  inbox : ∀ f m, m ∈ s.inbox f → h.Labels (h.msg m.id) m.payload
  parents : ∀ (j : ℕ) (e : Edit Data), h.log[j]? = some e → ∀ i ∈ e.parents,
    ∃ e' : Edit Data, h.log[i]? = some e' ∧ e'.item.version < e.item.version

theorem Causal.init : Causal (State.empty : State Dev jsonHash) History.empty where
  row _ := rfl
  upload _ _ h := by cases h
  stored _ _ h := by cases h
  inbox _ _ h := by cases h
  parents _ _ h := by simp [History.empty] at h

/-- A successor has a higher version. -/
theorem Causal.version_lt {s : State Dev jsonHash} {h : History Dev Data} (C : Causal s h) {i j : ℕ}
    (hij : h.Before i j) {e e' : Edit Data} (he : h.log[i]? = some e) (he' : h.log[j]? = some e') :
    e.item.version < e'.item.version := by
  induction hij generalizing e' with
  | single hp =>
    obtain ⟨e₁, he₁, hi⟩ := hp
    obtain ⟨e₀, he₀, hlt⟩ := C.parents _ e₁ he₁ _ hi
    rw [he', Option.some.injEq] at he₁
    rw [he, Option.some.injEq] at he₀
    rw [he₁, he₀]
    exact hlt
  | tail _ hp ih =>
    obtain ⟨e₁, he₁, hi⟩ := hp
    obtain ⟨e₀, he₀, hlt⟩ := C.parents _ e₁ he₁ _ hi
    rw [he', Option.some.injEq] at he₁
    rw [he₁]
    exact (ih he₀).trans hlt

variable [DecidableEq Dev]

theorem Causal.setRow {s : State Dev jsonHash} {h : History Dev Data} (C : Causal s h) {dev : Dev}
    {e : Entry jsonHash} {I : Set ℕ} (he : Reflects h e I) : Causal (s.setRow dev e) (h.setRow dev I) := by
  refine ⟨?_, C.upload, C.stored, C.inbox, C.parents⟩
  intro d
  by_cases hd : d = dev
  · subst hd
    show Reflects h ((s.setRow d e).row d) (Function.update h.row d I d)
    rw [State.setRow_row_self, Function.update_self]
    exact he
  · show Reflects h ((s.setRow dev e).row d) (Function.update h.row dev I d)
    rw [State.setRow_row_of_ne s hd, Function.update_of_ne hd]
    exact C.row d

/-- A row is rewritten without an edit. -/
theorem Causal.setRow_same {s : State Dev jsonHash} {h : History Dev Data} (C : Causal s h) {dev : Dev}
    {e : Entry jsonHash} (he : itemOf e = itemOf (s.row dev)) : Causal (s.setRow dev e) h := by
  refine ⟨?_, C.upload, C.stored, C.inbox, C.parents⟩
  intro d
  by_cases hd : d = dev
  · subst hd
    rw [State.setRow_row_self]
    have hC := C.row d
    rcases hs : s.row d with _ | r <;> rcases e with _ | r' <;> rw [hs] at he hC
    · exact hC
    · cases he
    · cases he
    · have hi : r'.item = r.item := WithBot.coe_inj.mp he
      rw [Reflects, hi]
      exact hC
  · rw [State.setRow_row_of_ne s hd]
    exact C.row d

theorem Causal.edit {s : State Dev jsonHash} {h : History Dev Data} (C : Causal s h) {dev : Dev}
    {r : Row jsonHash} {P : Set ℕ}
    (hP : ∀ i ∈ P, ∃ e, h.log[i]? = some e ∧ e.item.version < r.version) :
    Causal (s.setRow dev (some r)) (h.edit dev r.item P) := by
  refine ⟨?_, ?_, ?_, ?_, ?_⟩
  · intro d
    by_cases hd : d = dev
    · subst hd
      show Reflects _ ((s.setRow d (some r)).row d) (Function.update h.row d {h.log.length} d)
      rw [State.setRow_row_self, Function.update_self]
      refine ⟨Set.singleton_nonempty _, ?_⟩
      rintro i rfl
      exact ⟨⟨r.item, P⟩, by simp [History.edit], rfl⟩
    · have hC := C.row d
      rw [State.setRow_row_of_ne s hd]
      show Reflects _ (s.row d) (Function.update h.row dev {h.log.length} d)
      rw [Function.update_of_ne hd]
      rcases hs : s.row d with _ | r' <;> rw [hs] at hC
      · exact hC
      · exact History.Labels.edit hC dev _ _
  · exact fun d u hu => (C.upload d u hu).edit dev _ _
  · exact fun d st hst => (C.stored d st hst).edit dev _ _
  · exact fun f m hm => (C.inbox f m hm).edit dev _ _
  · intro j e he i hi
    rcases Nat.lt_or_ge j h.log.length with hj | hj
    · rw [History.edit, List.getElem?_append_left hj] at he
      obtain ⟨e', he', hlt⟩ := C.parents j e he i hi
      exact ⟨e', History.getElem?_edit he' dev _ _, hlt⟩
    · rw [History.edit, List.getElem?_append_right hj] at he
      have he₁ := List.mem_of_getElem? he
      rw [List.mem_singleton] at he₁
      subst he₁
      obtain ⟨e', he', hlt⟩ := hP i hi
      exact ⟨e', History.getElem?_edit he' dev _ _, hlt⟩

omit [DecidableEq Dev] in
/-- What a row reflects has a lower version than an entry above the row. -/
theorem Causal.version_lt_of_lt {s : State Dev jsonHash} {h : History Dev Data} (C : Causal s h)
    {dev : Dev} {r : Row jsonHash} (hlt : itemOf (s.row dev) < itemOf (some r)) {i : ℕ}
    (hi : i ∈ h.row dev) : ∃ e, h.log[i]? = some e ∧ e.item.version < r.version := by
  have hC := C.row dev
  rcases hs : s.row dev with _ | r₀ <;> rw [hs] at hC hlt
  · have hC' : h.row dev = ∅ := hC
    rw [hC'] at hi
    cases hi
  · obtain ⟨e, he, hx⟩ := hC.2 i hi
    refine ⟨e, he, ?_⟩
    rw [hx]
    exact Versioned.lt_iff.mp (WithBot.coe_lt_coe.mp hlt)

variable [Fintype Dev] [LinearOrder Checksum] {conf : Dev → Defaults Data} {key : ObjectKey}
  {s t : State Dev jsonHash} {a : Action Dev Data}

omit [Fintype Dev] in
/-- A delivery: the row is kept, taken from the change, or written by an edit above both. -/
theorem Causal.deliver {h : History Dev Data} (C : Causal s h)
    {dev : Dev} (hp : (conf dev).persistDeleted = true) {m : Message (Item Data)}
    (hm : m ∈ s.inbox dev) {e : Entry jsonHash}
    (he : SyncController.syncChange (conf dev) (s.row dev) (Change.ofItem key m.payload) = .ok e) :
    Causal (s.setRow dev e) (h.delivered dev m (s.row dev) e) := by
  obtain ⟨hle, hlec⟩ := SyncController.le_itemOf_syncChange hp he
  have hmsg := C.inbox dev m hm
  have hC := C.row dev
  unfold History.delivered
  by_cases h1 : itemOf e = itemOf (s.row dev)
  · rw [if_pos h1]
    by_cases h2 : itemOf e = (m.payload : WithBot (Item Data))
    · rw [if_pos h2]
      obtain ⟨r, rfl, hr⟩ := itemOf_eq_coe.mp h2
      refine C.setRow ?_
      rw [h2, eq_comm, itemOf_eq_coe] at h1
      obtain ⟨r₀, hr₀, hi⟩ := h1
      rw [hr₀] at hC
      show h.Labels _ r.item
      rw [hr]
      exact History.Labels.union (hi ▸ hC) hmsg
    · rw [if_neg h2]
      exact C.setRow_same h1
  · rw [if_neg h1]
    by_cases h2 : itemOf e = (m.payload : WithBot (Item Data))
    · rw [if_pos h2]
      obtain ⟨r, rfl, hr⟩ := itemOf_eq_coe.mp h2
      refine C.setRow ?_
      show h.Labels _ r.item
      rw [hr]
      exact hmsg
    · rw [if_neg h2]
      have hlec := hlec.resolve_right fun hsame => h1 hsame.1
      rw [Change.item_ofItem] at hlec
      obtain ⟨r, rfl, hr⟩ := coe_le_itemOf.mp hlec
      refine C.edit ?_
      rintro i (hi | hi)
      · exact C.version_lt_of_lt (lt_of_le_of_ne hle (Ne.symm h1)) hi
      · obtain ⟨e', he', hx⟩ := hmsg.2 i hi
        refine ⟨e', he', ?_⟩
        rw [hx]
        exact Versioned.lt_iff.mp (lt_of_le_of_ne hr fun hx => h2 (by rw [itemOf_some, hx]))

omit [Fintype Dev] [LinearOrder Checksum] in
/-- A removal is an edit, unless there is nothing to remove. -/
theorem Causal.removed {h : History Dev Data} (C : Causal s h) (dev : Dev) :
    Causal (s.setRow dev (LocalStore.remove (s.row dev)).1)
      (h.step s (.remove dev) (s.setRow dev (LocalStore.remove (s.row dev)).1)) := by
  have hself : (s.setRow dev (LocalStore.remove (s.row dev)).1).row dev =
      (LocalStore.remove (s.row dev)).1 := State.setRow_row_self ..
  rcases LocalStore.itemOf_remove (s.row dev) with he | ⟨hlt, r, hr, -⟩
  · simp only [History.step]
    rw [if_pos (hself.trans he), he]
    exact C.setRow_same rfl
  · have hne : (LocalStore.remove (s.row dev)).1 ≠ s.row dev := by
      intro he
      rw [he] at hlt
      exact lt_irrefl _ hlt
    simp only [History.step]
    rw [if_neg fun he => hne (hself.symm.trans he), hself, hr]
    rw [hr] at hlt
    exact C.edit fun i hi => C.version_lt_of_lt hlt hi

omit [Fintype Dev] [LinearOrder Checksum] in
/-- An upload reflects what the row does. -/
theorem Causal.uploaded {h : History Dev Data} (C : Causal s h) {dev : Dev} {r : Row jsonHash}
    (hr : s.row dev = some r) : Causal { s with upload := Function.update s.upload dev (some ⟨r.item, false⟩) }
      { h with upload := Function.update h.upload dev (h.row dev) } := by
  refine ⟨C.row, fun d u hu => ?_, C.stored, C.inbox, C.parents⟩
  by_cases hd : d = dev
  · subst hd
    have hC := C.row d
    rw [hr] at hC
    simp only [Function.update_self, Option.some.injEq] at hu ⊢
    rw [← hu]
    exact hC
  · simp only [Function.update_of_ne hd] at hu ⊢
    exact C.upload d u hu

omit [LinearOrder Checksum] in
/-- A stored change reflects what its upload does, under an id that was not in use. -/
theorem Causal.added (I : Ids s) {h : History Dev Data} (C : Causal s h) {dev : Dev} {x : Item Data}
    (hx : s.upload dev = some ⟨x, false⟩) :
    Causal { s with
        upload := Function.update s.upload dev (some ⟨x, true⟩)
        stored := Function.update s.stored dev (StoredChange.add s.nextId x (Finset.univ.erase dev))
        nextId := s.nextId + 1 }
      { h with msg := Function.update h.msg s.nextId (h.upload dev) } := by
  have hC := C.upload dev _ hx
  refine ⟨C.row, fun d u hu => ?_, fun d st hst => ?_, fun f m hm => ?_, C.parents⟩
  · by_cases hd : d = dev
    · subst hd
      simp only [Function.update_self, Option.some.injEq] at hu
      rw [← hu]
      exact hC
    · simp only [Function.update_of_ne hd] at hu
      exact C.upload d u hu
  · by_cases hd : d = dev
    · subst hd
      simp only [Function.update_self] at hst
      rw [StoredChange.add_eq_some hst]
      simp only [Function.update_self]
      exact hC
    · simp only [Function.update_of_ne hd] at hst
      have hid := I.stored_lt d st hst
      have hlabels := C.stored d st hst
      simp only [Function.update_of_ne (show st.id ≠ s.nextId by omega)]
      exact hlabels
  · have hid := I.inbox_lt f m hm
    have hlabels := C.inbox f m hm
    simp only [Function.update_of_ne (show m.id ≠ s.nextId by omega)]
    exact hlabels

omit [Fintype Dev] [LinearOrder Checksum] in
/-- A message reflects what the stored change does. -/
theorem Causal.sent {h : History Dev Data} (C : Causal s h) {dev sender : Dev} {st : StoredChange Dev (Item Data)}
    (hst : s.stored sender = some st) :
    Causal { s with inbox := Function.update s.inbox dev (insert ⟨st.id, st.payload⟩ (s.inbox dev)) } h := by
  refine ⟨C.row, C.upload, C.stored, fun f m hm => ?_, C.parents⟩
  by_cases hf : f = dev
  · subst hf
    simp only [Function.update_self, Set.mem_insert_iff] at hm
    rcases hm with rfl | hm
    · exact C.stored sender st hst
    · exact C.inbox f m hm
  · simp only [Function.update_of_ne hf] at hm
    exact C.inbox f m hm

theorem Causal.step (hp : ∀ d, (conf d).persistDeleted = true)
    (I : Ids s) {h : History Dev Data} (C : Causal s h) (hst : Step conf key s a t) :
    Causal t (h.step s a t) := by
  cases hst with
  | @save dev data e he =>
    obtain ⟨hlt, r, rfl, -⟩ := LocalStore.itemOf_save he
    simp only [History.step, State.setRow_row_self]
    exact C.edit fun i hi => C.version_lt_of_lt hlt hi
  | @remove dev => exact C.removed dev
  | @upload dev r hr hch hn => exact C.uploaded hr
  | @addChange dev x hx => exact C.added I hx
  | @uploadDone dev x hx =>
    have hC := C.setRow_same (LocalStore.itemOf_markUnchangedImpl (s.row dev) x.version x.content.isNone)
    rw [hp dev]
    refine ⟨hC.row, fun d u hu => ?_, C.stored, C.inbox, C.parents⟩
    by_cases hd : d = dev
    · subst hd
      simp at hu
    · simp only [Function.update_of_ne hd] at hu
      exact C.upload d u hu
  | @send dev sender st hst hpend => exact C.sent hst
  | @deliver dev m e hm he =>
    have hC := C.deliver (hp dev) hm he
    simp only [History.step, State.setRow_row_self]
    exact ⟨hC.row, hC.upload, hC.stored, hC.inbox, hC.parents⟩
  | @complete dev m hm =>
    refine ⟨C.row, C.upload, fun d st' hst' => ?_, C.inbox, C.parents⟩
    obtain ⟨st, hst, hid, hpay, -⟩ := StoredChange.complete_eq_some hst'
    rw [hid, hpay]
    exact C.stored d st hst
  | skip => exact ⟨C.row, C.upload, C.stored, C.inbox, C.parents⟩

end Lane

namespace System

section

variable {Dev Data Checksum : Type*} {jsonHash : Data → Checksum} [DecidableEq Dev] [Fintype Dev]
  [LinearOrder Checksum] {conf : Dev → Defaults Data} {hashed : ObjectKey → QByteArray}
  {K : Set ObjectKey} {s t : State Dev jsonHash} {k : ObjectKey}

/-- The history of the key `k` after a step of the system. -/
noncomputable def historyStep (hashed : ObjectKey → QByteArray) (k : ObjectKey) (h : History Dev Data)
    (s : State Dev jsonHash) (a : Action Dev Data) (t : State Dev jsonHash) : History Dev Data :=
  match laneAction hashed k s a with
  | some b => h.step (lane hashed k s) b (lane hashed k t)
  | none => h

variable (conf hashed k) in
/-- The exchange with the history of the key `k`. -/
noncomputable def historyLts :
    LTS (State Dev jsonHash × History Dev Data) (Action Dev Data) :=
  (lts conf hashed).withHistory History.empty (historyStep hashed k)

theorem causal_reachable (hh : Set.InjOn hashed K) (hk : k ∈ K)
    (hp : ∀ d, (conf d).persistDeleted = true) {p : State Dev jsonHash × History Dev Data}
    (h : (historyLts conf hashed k).Reachable (fun _ a => a.Uses K) p) :
    WellFormed hashed K p.1 ∧ Lane.Causal (lane hashed k p.1) p.2 := by
  refine h.invariant (I := fun p => WellFormed hashed K p.1 ∧ Lane.Causal (lane hashed k p.1) p.2) ?_ ?_
  · rintro ⟨s, h⟩ ⟨hs, hh⟩
    have hs' : s = State.empty := hs
    have hh' : h = History.empty := hh
    subst hs' hh'
    exact ⟨.init, by rw [lane_empty]; exact .init⟩
  · rintro ⟨s, h⟩ a ⟨t, h'⟩ - ⟨W, C⟩ hK ⟨hst, hh'⟩
    have hh'' : h' = historyStep hashed k h s a t := hh'
    subst hh''
    refine ⟨W.step hK hst, ?_⟩
    have hl := lane_step k hh hk W hst
    simp only [historyStep]
    cases hb : laneAction hashed k s a with
    | none =>
      rw [hb] at hl
      rw [hl]
      exact C
    | some b =>
      rw [hb] at hl
      exact C.step hp (W.lane k) hl

/-- With `PersistDeleted` the version of a row never falls. -/
theorem version_le_of_run (hh : Set.InjOn hashed K) (hk : k ∈ K)
    (hp : ∀ d, (conf d).persistDeleted = true) (W : WellFormed hashed K s)
    {tr : List (State Dev jsonHash × Action Dev Data × State Dev jsonHash)}
    (h : LTS.Run (lts conf hashed) (fun _ a => a.Uses K) s tr t) (d : Dev) :
    itemOf (s.index d k) ≤ itemOf (t.index d k) := by
  refine LTS.Run.rel (I := WellFormed hashed K) (R := fun s t => itemOf (s.index d k) ≤ itemOf (t.index d k))
    (fun _ => le_rfl) (fun _ _ _ => le_trans) (fun _ _ _ W hK hst => W.step hK hst) ?_ h W
  intro s a t W hK hst
  have hl := lane_step k hh hk W hst
  split at hl
  · exact hl.itemOf_le hp d
  · have hrow : t.index d k = s.index d k := congrFun (congrArg Lane.State.row hl) d
    rw [hrow]

/-- Neither a message nor an acknowledgement of a lower version changes a row. -/
theorem index_eq_of_version_lt (hh : Set.InjOn hashed K) (hk : k ∈ K)
    (hp : ∀ d, (conf d).persistDeleted = true) (W : WellFormed hashed K s) {a : Action Dev Data}
    (h : step conf hashed s a = some t) {d : Dev} {r : Row jsonHash} {x : Lane.Item Data}
    (hr : s.index d k = some r) (hlt : x.version < r.version)
    (ha : (∃ id, laneAction hashed k s a = some (.deliver d ⟨id, x⟩)) ∨
      (laneAction hashed k s a = some (.uploadDone d) ∧
        ∃ u, (lane hashed k s).upload d = some u ∧ u.payload = x)) :
    t.index d k = s.index d k := by
  have hl := lane_step k hh hk W h
  have hrow : (lane hashed k s).row d = some r := hr
  show (lane hashed k t).row d = (lane hashed k s).row d
  rcases ha with ⟨id, ha⟩ | ⟨ha, u, hu, hx⟩
  · rw [ha] at hl
    rcases hl.row d with e | ⟨_, e, -⟩ | ⟨e, -⟩ | ⟨_, e, -⟩ | ⟨m, e, -, he⟩
    · exact e
    · cases e
    · cases e
    · cases e
    · cases e
      rw [hrow, SyncController.syncChange_newer _ hlt, Except.ok.injEq] at he
      rw [← he, hrow]
  · rw [ha] at hl
    rcases hl.row d with e | ⟨_, e, -⟩ | ⟨e, -⟩ | ⟨y, -, hy, he⟩ | ⟨_, e, -⟩
    · exact e
    · cases e
    · cases e
    · rw [hu, Option.some.injEq] at hy
      have hne : r.version ≠ y.version := by
        rw [hy] at hx
        simp only at hx
        rw [hx]
        exact hlt.ne'
      rw [he, hp d, hrow, LocalStore.markUnchangedImpl_ne true hne]
    · cases e

/-- **Edits respect causality.**  In the exchange with the history of the key `k`: successors have higher versions,
and every row holds what the edits it reflects have made.  If `j` is a successor of the edit `i` and the row of `d`
reflects `j` or a successor of it, then from there on the row of `d` has a higher version than `i`, and no message and
no acknowledgement of `i` changes it. -/
theorem causality (hh : Set.InjOn hashed K) (hk : k ∈ K)
    (hp : ∀ d, (conf d).persistDeleted = true) {h : History Dev Data}
    (hr : (historyLts conf hashed k).Reachable (fun _ a => a.Uses K) (s, h)) :
    (∀ i j (e e' : Edit Data), h.Before i j → h.log[i]? = some e → h.log[j]? = some e' →
      e.item.version < e'.item.version) ∧
    (∀ d r, s.index d k = some r → h.Labels (h.row d) r.item) ∧
    ∀ d i j l (e : Edit Data), h.Before i j → l ∈ h.row d → l = j ∨ h.Before j l → h.log[i]? = some e →
      ∀ tr t, LTS.Run (lts conf hashed) (fun _ a => a.Uses K) s tr t →
        (∃ r, t.index d k = some r ∧ e.item.version < r.version) ∧
        ∀ a t', step conf hashed t a = some t' →
          (∃ id, laneAction hashed k t a = some (.deliver d ⟨id, e.item⟩)) ∨
            (laneAction hashed k t a = some (.uploadDone d) ∧
              ∃ u, (lane hashed k t).upload d = some u ∧ u.payload = e.item) →
          t'.index d k = t.index d k := by
  obtain ⟨W, C⟩ := causal_reachable hh hk hp hr
  have hrow : ∀ d r, s.index d k = some r → h.Labels (h.row d) r.item := by
    intro d r hd
    have hC := C.row d
    have hd' : (lane hashed k s).row d = some r := hd
    rw [hd'] at hC
    exact hC
  refine ⟨fun i j e e' hij he he' => C.version_lt hij he he', hrow, ?_⟩
  intro d i j l e hij hl hjl he tr t hrun
  -- the row exists and has the version of `l`, a successor of `i`
  have hil : h.Before i l := by
    rcases hjl with rfl | hjl
    · exact hij
    · exact hij.trans hjl
  obtain ⟨r, hd, hlt⟩ : ∃ r, s.index d k = some r ∧ e.item.version < r.version := by
    have hC := C.row d
    rcases hd : s.index d k with _ | r
    · have hd' : (lane hashed k s).row d = none := hd
      rw [hd'] at hC
      have hC' : h.row d = ∅ := hC
      rw [hC'] at hl
      cases hl
    · obtain ⟨e', he', hx⟩ := (hrow d r hd).2 l hl
      have := C.version_lt hil he he'
      rw [hx] at this
      exact ⟨r, rfl, this⟩
  have hle := version_le_of_run hh hk hp W hrun d
  rw [hd, itemOf_some, coe_le_itemOf] at hle
  obtain ⟨r', hr', hle⟩ := hle
  have hlt' : e.item.version < r'.version := lt_of_lt_of_le hlt (Versioned.version_mono hle)
  have W' : WellFormed hashed K t := hrun.invariant (fun _ _ _ W hK hst => W.step hK hst) W
  exact ⟨⟨r', hr', hlt'⟩, fun a t' hst ha => index_eq_of_version_lt hh hk hp W' hst hr' hlt' ha⟩

end

namespace Sample

/-- An object is sent to the other device and changed there. -/
def edits : List (Action (Fin 2) ℕ) :=
  [.save 0 key 5, .upload 0 key, .addChange 0 [1], .send 1 0 [1], .deliver 1 0, .save 1 key 7]

/-- The state after the first `n` of these actions, with the history of the key. -/
noncomputable def editsAt : ℕ → State × History (Fin 2) ℕ
  | 0 => (State.empty, History.empty)
  | n + 1 =>
    let t := (run true (edits.take (n + 1))).getD State.empty
    (t, match edits[n]? with
      | some a => historyStep hashed key (editsAt n).2 (editsAt n).1 a t
      | none => (editsAt n).2)

theorem editsAt_step {n : ℕ} (hn : n < 6) : ∃ a, edits[n]? = some a ∧ a.Uses {key} ∧
    step (conf true) hashed (editsAt n).1 a = some (editsAt (n + 1)).1 := by
  match n, hn with
  | 0, _ => exact ⟨_, rfl, rfl, rfl⟩
  | 1, _ => exact ⟨_, rfl, trivial, rfl⟩
  | 2, _ => exact ⟨_, rfl, trivial, rfl⟩
  | 3, _ => exact ⟨_, rfl, trivial, rfl⟩
  | 4, _ => exact ⟨_, rfl, trivial, rfl⟩
  | 5, _ => exact ⟨_, rfl, rfl, rfl⟩

theorem editsAt_reachable {n : ℕ} (hn : n ≤ 6) :
    (historyLts (conf true) hashed key).Reachable (fun _ a => a.Uses {key}) (editsAt n) := by
  induction n with
  | zero => exact .init ⟨rfl, rfl⟩
  | succ n ih =>
    obtain ⟨a, ha, hu, hst⟩ := editsAt_step (n := n) (by omega)
    refine (ih (by omega)).step (a := a) hu ⟨hst, ?_⟩
    simp [editsAt, ha]

/-- The second edit is made where the row reflects the first one. -/
theorem editsAt_history : (editsAt 6).2 = ((editsAt 4).2.setRow 1 {0}).edit 1 ⟨2, some 7⟩ {0} := by
  have h5 : (editsAt 5).2 = (editsAt 4).2.setRow 1 {0} := by
    show History.delivered (editsAt 4).2 1 ⟨1, ⟨1, some 5⟩⟩ (none : Entry (fun n : ℕ => n))
      (some ⟨1, some (.write 5), false⟩) = _
    unfold History.delivered
    rw [if_neg (by simp), if_pos (by simp [Row.item])]
    rfl
  have h6 : (editsAt 6).2 = (editsAt 5).2.edit 1 ⟨2, some 7⟩ ((editsAt 5).2.row 1) := rfl
  rw [h6, h5]
  rfl

end Sample

/-- The changed object is not replaced by a second delivery of the object it was made from. -/
theorem causality_redelivery :
    (∃ r, (Sample.editsAt 6).1.index 1 Sample.key = some r ∧ 1 < r.version) ∧
    ∀ t', step (Sample.conf true) Sample.hashed (Sample.editsAt 6).1 (.deliver 1 0) = some t' →
      t'.index 1 Sample.key = (Sample.editsAt 6).1.index 1 Sample.key := by
  have hb : (Sample.editsAt 6).2.Before 0 1 := by
    refine .single ⟨⟨⟨2, some 7⟩, {0}⟩, ?_, rfl⟩
    rw [Sample.editsAt_history]
    rfl
  have hrow : 1 ∈ (Sample.editsAt 6).2.row 1 := by
    rw [Sample.editsAt_history]
    rfl
  have hlog : (Sample.editsAt 6).2.log[0]? = some ⟨⟨1, some 5⟩, ∅⟩ := by
    rw [Sample.editsAt_history]
    rfl
  obtain ⟨h1, h2⟩ := (causality Sample.injOn_hashed rfl (fun _ => rfl)
    (Sample.editsAt_reachable le_rfl)).2.2 1 0 1 1 ⟨⟨1, some 5⟩, ∅⟩ hb hrow (Or.inl rfl) hlog [] _ (.nil _)
  exact ⟨h1, fun t' ht => h2 _ t' ht (Or.inl ⟨1, rfl⟩)⟩

end System

end QtDataSync
