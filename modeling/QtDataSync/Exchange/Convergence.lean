import QtDataSync.Exchange.Projection

/-!
# Exchange.Convergence — with `PersistDeleted` the devices converge

The invariant `Conv` of a lane: whatever is no longer waiting to be uploaded (an unchanged row, a stored upload, a
stored change, a message) is `Covered`, i.e. every device holds it or a successor of it, or is still to be sent one.
Rows only grow, so a device leaves the pending set of a change only after its row has passed the change.
-/

namespace QtDataSync

namespace Lane

variable {Dev Data Checksum : Type*} {jsonHash : Data → Checksum}

/-- Every device holds `x` or a successor, or the server has one for it. -/
def Covered (s : State Dev jsonHash) (x : Item Data) : Prop :=
  ∀ f, (x : WithBot (Item Data)) ≤ itemOf (s.row f) ∨
    ∃ d st, s.stored d = some st ∧ f ∈ st.pending ∧ x ≤ st.payload

/-- The invariant of the exchange. -/
structure Conv (s : State Dev jsonHash) : Prop where
  upload_le : ∀ d u, s.upload d = some u → (u.payload : WithBot (Item Data)) ≤ itemOf (s.row d)
  stored_le : ∀ d st, s.stored d = some st → (st.payload : WithBot (Item Data)) ≤ itemOf (s.row d)
  stored_upload : ∀ d st u, s.stored d = some st → s.upload d = some u → st.payload ≤ u.payload
  received_le : ∀ f m, m ∈ s.received f → (m.payload : WithBot (Item Data)) ≤ itemOf (s.row f)
  cov_row : ∀ d r, s.row d = some r → r.changed = false → Covered s r.item
  cov_upload : ∀ d x, s.upload d = some ⟨x, true⟩ → Covered s x
  cov_stored : ∀ d st, s.stored d = some st → Covered s st.payload
  cov_inbox : ∀ f m, m ∈ s.inbox f → Covered s m.payload

theorem Conv.init : Conv (State.empty : State Dev jsonHash) where
  upload_le _ _ h := by cases h
  stored_le _ _ h := by cases h
  stored_upload _ _ _ h := by cases h
  received_le _ _ h := by cases h
  cov_row _ _ h := by cases h
  cov_upload _ _ h := by cases h
  cov_stored _ _ h := by cases h
  cov_inbox _ _ h := by cases h

variable [DecidableEq Dev] [Fintype Dev] [LinearOrder Checksum] {conf : Dev → Defaults Data}
  {key : ObjectKey} {s t : State Dev jsonHash} {a : Action Dev Data}

omit [DecidableEq Dev] [Fintype Dev] [LinearOrder Checksum] in
theorem Covered.mono {x y : Item Data} (h : Covered s y) (hxy : x ≤ y) : Covered s x := by
  intro f
  rcases h f with h | ⟨d, st, hst, hf, h⟩
  · exact Or.inl ((WithBot.coe_le_coe.mpr hxy).trans h)
  · exact Or.inr ⟨d, st, hst, hf, hxy.trans h⟩

/-- What is covered stays covered. -/
theorem Covered.step (hp : ∀ d, (conf d).persistDeleted = true)
    (I : Ids s) (C : Conv s) (h : Step conf key s a t) {x : Item Data} (hx : Covered s x) :
    Covered t x := by
  intro f
  rcases hx f with hx | ⟨d, st, hst, hf, hx⟩
  · exact Or.inl (hx.trans (h.itemOf_le hp f))
  · rcases h.stored_pending hst hf with ⟨st', hst', -, hpay, hf'⟩ | ⟨m, -, hm, hid⟩ | ⟨y, -, hu, hst'⟩
    · exact Or.inr ⟨d, st', hst', hf', by rw [hpay]; exact hx⟩
    · -- the receiver has processed it, and its row has passed it
      have hpay := I.inbox_stored f m d st (I.received_inbox f m hm) hst hid.symm
      have hle := C.received_le f m hm
      rw [hpay] at hle
      exact Or.inl ((WithBot.coe_le_coe.mpr hx).trans (hle.trans (h.itemOf_le hp f)))
    · -- the sender's next upload is a successor
      have hfd : f ≠ d := by
        rintro rfl
        exact I.sender _ st hst hf
      have hmem : f ∈ Finset.univ.erase d := Finset.mem_erase.mpr ⟨hfd, Finset.mem_univ f⟩
      rw [StoredChange.add_of_mem hmem] at hst'
      exact Or.inr ⟨d, _, hst', hmem, hx.trans (C.stored_upload d st _ hst hu)⟩

/-- The upload that the server stores is covered. -/
theorem covered_addChange (hp : ∀ d, (conf d).persistDeleted = true)
    (C : Conv s) (h : Step conf key s a t) {d : Dev} {x : Item Data} (ha : a = .addChange d)
    (hu : s.upload d = some ⟨x, false⟩) : Covered t x := by
  intro f
  by_cases hfd : f = d
  · subst hfd
    exact Or.inl ((C.upload_le f _ hu).trans (h.itemOf_le hp f))
  · have hmem : f ∈ Finset.univ.erase d := Finset.mem_erase.mpr ⟨hfd, Finset.mem_univ f⟩
    subst ha
    cases h with
    | addChange hu' =>
      rw [hu, Option.some.injEq] at hu'
      cases hu'
      exact Or.inr ⟨d, _, by simp only [Function.update_self]; exact StoredChange.add_of_mem hmem, hmem,
        le_rfl⟩

/-- An unchanged row after the step is covered: it was unchanged before, its upload was stored, or it is a message. -/
theorem Conv.cov_row_step (hj : Function.Injective jsonHash)
    (hp : ∀ d, (conf d).persistDeleted = true) (I : Ids s) (C : Conv s) (h : Step conf key s a t)
    {d : Dev} {r : Row jsonHash} (hr : t.row d = some r) (hch : r.changed = false) :
    Covered t r.item := by
  have hcov : ∀ {x : Item Data}, Covered s x → Covered t x := fun hx => hx.step hp I C h
  rcases h.row d with e | ⟨data, -, e⟩ | ⟨-, e⟩ | ⟨x, -, hu, e⟩ | ⟨m, -, hm, e⟩
  · exact hcov (C.cov_row d r (e ▸ hr) hch)
  · obtain ⟨-, r', hr', hch'⟩ := LocalStore.itemOf_save e
    rw [hr, Option.some.injEq] at hr'
    rw [hr', hch'] at hch
    cases hch
  · rw [hr] at e
    rcases LocalStore.itemOf_remove (s.row d) with h' | ⟨-, r', hr', hch'⟩
    · exact hcov (C.cov_row d r (by rw [← h', ← e]) hch)
    · rw [← e, Option.some.injEq] at hr'
      rw [hr', hch'] at hch
      cases hch
  · rw [hr, hp d, LocalStore.markUnchangedImpl_persist] at e
    cases hs : s.row d with
    | none => rw [hs] at e; cases e
    | some r₀ =>
      rw [hs, Option.map_some, Option.some.injEq] at e
      by_cases hv : r₀.version = x.version
      · -- the row of that version is what was uploaded
        have hle := C.upload_le d _ hu
        rw [hs, itemOf_some, WithBot.coe_le_coe] at hle
        have hxr : x = r₀.item := Versioned.eq_of_le hle hv.le
        rw [e, if_pos hv]
        exact hxr ▸ hcov (C.cov_upload d x hu)
      · rw [if_neg hv] at e
        subst e
        exact hcov (C.cov_row d r hs hch)
  · rw [hr] at e
    rcases SyncController.syncChange_unchanged hj e hch with hs | hi
    · exact hcov (C.cov_row d r hs hch)
    · rw [hi]
      exact hcov (C.cov_inbox d m hm)

theorem Conv.step (hj : Function.Injective jsonHash) (hp : ∀ d, (conf d).persistDeleted = true)
    (I : Ids s) (C : Conv s) (h : Step conf key s a t) : Conv t := by
  have hgrow := h.itemOf_le hp
  have hcov : ∀ {x : Item Data}, Covered s x → Covered t x := fun hx => hx.step hp I C h
  refine ⟨?_, ?_, ?_, ?_, fun d r hr hch => C.cov_row_step hj hp I h hr hch, ?_, ?_, ?_⟩
  · intro d u hu
    rcases h.upload_some hu with hu | ⟨r, -, -, -, hr, rfl⟩ | ⟨x, -, hx, rfl⟩
    · exact (C.upload_le d u hu).trans (hgrow d)
    · rw [hr]; exact le_rfl
    · have hle := C.upload_le d _ hx
      exact hle.trans (hgrow d)
  · intro d st' hst'
    rcases h.stored_some hst' with ⟨st, hst, -, hpay, -⟩ | ⟨x, -, hu, -, rfl⟩
    · rw [hpay]
      exact (C.stored_le d st hst).trans (hgrow d)
    · exact (C.upload_le d _ hu).trans (hgrow d)
  · intro d st' u hst' hu
    rcases h.stored_some hst' with ⟨st, hst, -, hpay, -⟩ | ⟨x, ha, hx, -, rfl⟩ <;>
      rcases h.upload_some hu with hu | ⟨r, ha', hr, -, -, rfl⟩ | ⟨y, ha', hy, rfl⟩
    · rw [hpay]
      exact C.stored_upload d st u hst hu
    · rw [hpay]
      have hle := C.stored_le d st hst
      rw [hr] at hle
      exact WithBot.coe_le_coe.mp hle
    · rw [hpay]
      have hle := C.stored_upload d st _ hst hy
      exact hle
    · -- what was just stored is the upload itself
      rw [hx, Option.some.injEq] at hu
      rw [← hu]
    · rw [ha] at ha'; cases ha'
    · rw [hx, Option.some.injEq] at hy
      cases hy
      exact le_rfl
  · intro f m hm
    rcases h.mem_received hm with hm | ⟨ha, hm⟩
    · exact (C.received_le f m hm).trans (hgrow f)
    · subst ha
      cases h with
      | deliver _ he =>
        simp only [State.setRow_row_self]
        exact (SyncController.itemOf_syncChange hj (hp f) he).2
  · intro d x hu
    rcases h.upload_some hu with hu | ⟨r, -, -, -, -, hu⟩ | ⟨y, ha, hy, hu⟩
    · exact hcov (C.cov_upload d x hu)
    · cases hu
    · cases hu
      exact covered_addChange hp C h ha hy
  · intro d st' hst'
    rcases h.stored_some hst' with ⟨st, hst, -, hpay, -⟩ | ⟨x, ha, hu, -, rfl⟩
    · rw [hpay]
      exact hcov (C.cov_stored d st hst)
    · exact covered_addChange hp C h ha hu
  · intro f m hm
    rcases h.mem_inbox hm with hm | ⟨d, st, -, hst, -, rfl⟩
    · exact hcov (C.cov_inbox f m hm)
    · exact hcov (C.cov_stored d st hst)

omit [DecidableEq Dev] [Fintype Dev] [LinearOrder Checksum] in
/-- **Convergence of a lane**: when nothing is left to be done, all devices hold the same row. -/
theorem Conv.row_eq (C : Conv s) (hq : Quiescent s) (d d' : Dev) : s.row d = s.row d' := by
  -- every row that exists is held by every other device
  have hle : ∀ d d' r, s.row d = some r → (r.item : WithBot (Item Data)) ≤ itemOf (s.row d') := by
    intro d d' r hr
    rcases C.cov_row d r hr (hq.unchanged d r hr) d' with h | ⟨e, st, hst, hf, -⟩
    · exact h
    · rw [hq.stored e st hst] at hf
      simp at hf
  have hitem : itemOf (s.row d) = itemOf (s.row d') := by
    refine le_antisymm ?_ ?_
    · cases hr : s.row d with
      | none => exact bot_le
      | some r => exact hle d d' r hr
    · cases hr : s.row d' with
      | none => exact bot_le
      | some r => exact hle d' d r hr
  cases hr : s.row d with
  | none =>
    cases hr' : s.row d' with
    | none => rfl
    | some r' => rw [hr, hr'] at hitem; cases hitem
  | some r =>
    rw [hr, itemOf_some, eq_comm, itemOf_eq_coe] at hitem
    obtain ⟨r', hr', hi⟩ := hitem
    rw [hr', Row.ext_item hi ((hq.unchanged d' r' hr').trans (hq.unchanged d r hr).symm)]

end Lane

namespace System

section

variable {Dev Data Checksum : Type*} {jsonHash : Data → Checksum} [DecidableEq Dev] [Fintype Dev]
  [LinearOrder Checksum] {conf : Dev → Defaults Data} {hashed : ObjectKey → QByteArray}
  {K : Set ObjectKey} {s : State Dev jsonHash} {G : State Dev jsonHash → Action Dev Data → Prop}

omit [DecidableEq Dev] [Fintype Dev] [LinearOrder Checksum] in
/-- A key that is never saved has no row. -/
theorem WellFormed.index_eq_none (W : WellFormed hashed K s) {k : ObjectKey} (hk : k ∉ K) (d : Dev) :
    s.index d k = none := by
  rcases hr : s.index d k with - | r
  · rfl
  · exact absurd (W.row_key d k r hr) hk

theorem conv_reachable (hj : Function.Injective jsonHash) (hh : Set.InjOn hashed K)
    (hp : ∀ d, (conf d).persistDeleted = true) (hG : ∀ s a, G s a → a.Uses K)
    (h : (lts conf hashed).Reachable G s) {k : ObjectKey} (hk : k ∈ K) : Lane.Conv (lane hashed k s) :=
  lane_invariant k hh hk hG Lane.Conv.init (fun _ _ _ _ _ _ _ I C hst => C.step hj hp I hst) h

/-- **Convergence with `PersistDeleted`**: in every reachable state in which nothing is left to be done, any two
devices have the same row for every key, whatever the policies and the conflict resolvers are. -/
theorem convergence (hj : Function.Injective jsonHash) (hh : Set.InjOn hashed K)
    (hp : ∀ d, (conf d).persistDeleted = true)
    (h : (lts conf hashed).Reachable (fun _ a => a.Uses K) s) (hq : Quiescent s) (d d' : Dev)
    (k : ObjectKey) : s.index d k = s.index d' k := by
  by_cases hk : k ∈ K
  · exact (conv_reachable hj hh hp (fun _ _ hg => hg) h hk).row_eq (hq.lane k) d d'
  · have W := WellFormed.reachable (fun _ _ hg => hg) h
    rw [W.index_eq_none hk d, W.index_eq_none hk d']

end

/-! ### A concrete account: two devices, one key -/

namespace Sample

scoped instance neZero_two : @NeZero ℕ (@Zero.ofOfNat0 ℕ (instOfNatNat 0)) 2 := ⟨Nat.succ_ne_zero 1⟩

def key : ObjectKey := ⟨[1], "a"⟩

def hashed (k : ObjectKey) : QByteArray := k.typeName

def conf (persistDeleted : Bool) : Fin 2 → Defaults ℕ := fun _ => ⟨persistDeleted, .PreferChanged, none⟩

def savesKey : Action (Fin 2) ℕ → Bool
  | .save _ k _ => k == key
  | _ => true

/-- Numbers are their own checksums. -/
abbrev State := System.State (Fin 2) (fun n : ℕ => n)

def run (persistDeleted : Bool) (l : List (Action (Fin 2) ℕ)) : Option State :=
  LTS.exec (step (conf persistDeleted) hashed) (fun _ a => savesKey a) State.empty l

/-- Nothing is left to be done for the key. -/
def settled (s : State) : Bool :=
  (List.finRange 2).all fun d => (s.datachanges d (hashed key)).isNone &&
    (s.activeUploads d (hashed key)).isNone && (s.index d key).all fun r => !r.changed

theorem uses_of_savesKey {a : Action (Fin 2) ℕ} (h : savesKey a = true) : a.Uses {key} := by
  cases a with
  | save d k data => exact beq_iff_eq.mp h
  | _ => trivial

theorem injOn_hashed : Set.InjOn hashed {key} := Set.injOn_singleton ..

theorem reachable {p : Bool} {l : List (Action (Fin 2) ℕ)} {s : State} (h : run p l = some s) :
    (lts (conf p) hashed).Reachable (fun _ a => a.Uses {key}) s :=
  LTS.exec_reachable (fun _ _ => uses_of_savesKey) rfl h

theorem quiescent {s : State} (W : WellFormed hashed {key} s) (hs : settled s = true) : Quiescent s := by
  refine Quiescent.of_lanes W ?_
  rintro k rfl
  have hd : ∀ d, ((s.datachanges d (hashed key)).isNone = true ∧
      (s.activeUploads d (hashed key)).isNone = true) ∧ (s.index d key).all (fun r => !r.changed) = true := by
    intro d
    have := List.all_eq_true.mp hs d (List.mem_finRange d)
    simpa only [Bool.and_eq_true] using this
  refine ⟨?_, ?_, ?_⟩
  · intro d st hst
    have h1 := (hd d).1.1
    rw [Option.isNone_iff_eq_none] at h1
    simp [lane, h1] at hst
  · intro d r hr
    have h1 := (hd d).2
    simp only [lane] at hr
    rw [hr] at h1
    simpa using h1
  · intro d
    have h1 := (hd d).1.2
    rw [Option.isNone_iff_eq_none] at h1
    simp [lane, h1]

/-- Both devices save the key, and the conflict is exchanged until nothing is left to be done. -/
def conflict : List (Action (Fin 2) ℕ) :=
  [.save 0 key 5, .save 1 key 7, .upload 0 key, .upload 1 key, .addChange 0 [1], .addChange 1 [1],
    .uploadDone 0 [1], .uploadDone 1 [1], .send 1 0 [1], .send 0 1 [1], .deliver 0 0, .deliver 1 0,
    .complete 0 0, .complete 1 0, .upload 0 key, .upload 1 key, .addChange 0 [1], .addChange 1 [1],
    .send 1 0 [1], .send 0 1 [1], .deliver 0 1, .deliver 1 1, .complete 0 1, .complete 1 1,
    .uploadDone 0 [1], .uploadDone 1 [1]]

end Sample

/-- The conflict of two saves ends with the object of the larger checksum, one version higher, on both devices. -/
theorem convergence_conflict : ∃ s : Sample.State,
    (s.index 0 Sample.key).map Row.item = some ⟨2, some 7⟩ ∧ s.index 0 Sample.key = s.index 1 Sample.key := by
  have h : (Sample.run true Sample.conflict).any (fun s => Sample.settled s &&
      ((s.index 0 Sample.key).map Row.item == some ⟨2, some 7⟩)) = true := by decide
  rw [Option.any_eq_true] at h
  obtain ⟨s, hs, hset⟩ := h
  rw [Bool.and_eq_true, beq_iff_eq] at hset
  exact ⟨s, hset.2, convergence (fun _ _ h => h) Sample.injOn_hashed (fun _ => rfl) (Sample.reachable hs)
    (Sample.quiescent (WellFormed.reachable (fun _ _ hg => hg) (Sample.reachable hs)) hset.1) 0 1 Sample.key⟩

end System

end QtDataSync
