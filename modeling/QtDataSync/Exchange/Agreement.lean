import QtDataSync.Exchange.Convergence
import QtDataSync.Exchange.Discard

/-!
# Exchange.Agreement — without `PersistDeleted` the devices agree, if nothing that is needed is forgotten

The exchange of all keys with the rows that have been deletions as a history.  A run in which deliveries are in order,
no deleted key is saved again and every step `Keeps` what other devices depend on ends in agreement.  Without the last
condition it need not: an unsent deletion is dropped when another deletion arrives, and the object it was to delete
stays on the other device.
-/

namespace QtDataSync

namespace System

section

variable {Dev Data Checksum : Type*} {jsonHash : Data → Checksum} [DecidableEq Dev] [Fintype Dev]
  [LinearOrder Checksum] (conf : Dev → Defaults Data) (hashed : ObjectKey → QByteArray) (K : Set ObjectKey)

/-- The exchange with a history of the rows that have been deletions. -/
def removalLts : LTS (State Dev jsonHash × (ObjectKey → Dev → Bool)) (Action Dev Data) :=
  (lts conf hashed).withHistory (fun _ _ => false) fun removed _ _ t k d => Lane.removedBy (removed k d) (t.index d k)

/-- Deliveries are in order, and no device saves a key again that it has deleted. -/
def Assumed (p : State Dev jsonHash × (ObjectKey → Dev → Bool)) (a : Action Dev Data) : Prop :=
  a.Uses K ∧ ∀ k ∈ K, ∀ b, laneAction hashed k p.1 a = some b → Lane.Assumed (lane hashed k p.1) (p.2 k) b

/-- The step forgets nothing of any key that other devices depend on. -/
def Keeps (s : State Dev jsonHash) (a : Action Dev Data) : Prop :=
  ∀ k ∈ K, ∀ b, laneAction hashed k s a = some b → Lane.Keeps conf k (lane hashed k s) b

variable {conf hashed K} {s : State Dev jsonHash} {removed : ObjectKey → Dev → Bool}

theorem discard_reachable (hj : Function.Injective jsonHash) (hh : Set.InjOn hashed K)
    (hp : ∀ d, (conf d).persistDeleted = false) {p : State Dev jsonHash × (ObjectKey → Dev → Bool)}
    (h : (removalLts conf hashed).Reachable (fun p a => Assumed hashed K p a ∧ Keeps conf hashed K p.1 a) p) :
    WellFormed hashed K p.1 ∧ ∀ k ∈ K, Lane.Discard (lane hashed k p.1) (p.2 k) := by
  refine h.invariant (I := fun p => WellFormed hashed K p.1 ∧ ∀ k ∈ K, Lane.Discard (lane hashed k p.1) (p.2 k)) ?_ ?_
  · rintro ⟨s, removed⟩ ⟨hs, hr⟩
    have hs' : s = State.empty := hs
    have hr' : removed = fun _ _ => false := hr
    subst hs' hr'
    refine ⟨.init, fun k _ => ?_⟩
    rw [lane_empty]
    exact .init
  · rintro ⟨s, removed⟩ a ⟨t, removed'⟩ - ⟨W, D⟩ ⟨⟨hK, ha⟩, hk⟩ ⟨hst, hr⟩
    have hr' : removed' = fun k d => Lane.removedBy (removed k d) (t.index d k) := hr
    subst hr'
    refine ⟨W.step hK hst, fun k hkK => ?_⟩
    show Lane.Discard (lane hashed k t) fun d => Lane.removedBy (removed k d) ((lane hashed k t).row d)
    have hl := lane_step k hh hkK W hst
    cases hb : laneAction hashed k s a with
    | none =>
      rw [hb] at hl
      rw [hl]
      exact (D k hkK).mono
    | some b =>
      rw [hb] at hl
      exact (D k hkK).step hj hp (W.lane k) (ha k hkK b hb) (hk k hkK b hb) hl

omit [DecidableEq Dev] [LinearOrder Checksum] in
/-- Where nothing is left to be done, nothing that was forgotten was needed. -/
theorem agree_of_discard (W : WellFormed hashed K s) (D : ∀ k ∈ K, Lane.Discard (lane hashed k s) (removed k))
    (hq : Quiescent s) (k : ObjectKey) :
    (∃ x : Lane.Item Data, x.content ≠ none ∧ ∀ d, (s.index d k).map Row.item = some x) ∨ ∀ d, s.index d k = none := by
  by_cases hall : ∀ d, s.index d k = none
  · exact Or.inr hall
  push Not at hall
  obtain ⟨d, hd⟩ := hall
  obtain ⟨r, hr⟩ := Option.ne_none_iff_exists'.mp hd
  have hk := W.row_key d k r hr
  have hql : Lane.Quiescent (lane hashed k s) := hq.lane k
  have hobj := (D k hk).item_eq_objectOf hql d
  have hr' : (lane hashed k s).row d = some r := hr
  rw [hr', Option.map_some, eq_comm, Lane.objectOf_eq_some] at hobj
  obtain ⟨r', hr₂, hi, hc⟩ := hobj
  cases hr₂
  refine Or.inl ⟨r.item, hc, fun d' => ?_⟩
  have heq := (D k hk).item_eq hql d' d
  rw [hr'] at heq
  exact heq

/-- **Convergence without `PersistDeleted`**: if every step keeps what other devices depend on, then in every reachable
state in which nothing is left to be done all devices hold a key with the same version and content, or none does. -/
theorem agreement (hj : Function.Injective jsonHash) (hh : Set.InjOn hashed K)
    (hp : ∀ d, (conf d).persistDeleted = false)
    (h : (removalLts conf hashed).Reachable (fun p a => Assumed hashed K p a ∧ Keeps conf hashed K p.1 a) (s, removed))
    (hq : Quiescent s) (k : ObjectKey) :
    (∃ x : Lane.Item Data, x.content ≠ none ∧ ∀ d, (s.index d k).map Row.item = some x) ∨ ∀ d, s.index d k = none := by
  obtain ⟨W, D⟩ := discard_reachable hj hh hp h
  exact agree_of_discard W D hq k

end

/-! ### The account of two devices -/

namespace Sample

/-- The device has received the message with this id. -/
def hasReceived (s : State) (d : Fin 2) (id : ℕ) : Bool :=
  (s.received d).any fun m => m.id == id && m.payload.key == key

def inOrder (s : State) (d : Fin 2) (id : ℕ) : Bool :=
  ((List.finRange 2).any fun g => (s.datachanges g (hashed key)).any fun st => decide (d ∈ st.pending) && st.id == id) &&
    (List.finRange 2).all fun g => (s.datachanges g (hashed key)).all fun st =>
      !(decide (d ∈ st.pending) && decide (st.id < id)) || hasReceived s d st.id

def assumed (p : State × (ObjectKey → Fin 2 → Bool)) : Action (Fin 2) ℕ → Bool
  | .save d k _ => k == key && !p.2 key d
  | .deliver d n => ((p.1.inbox d)[n]?).all fun m => inOrder p.1 d m.id
  | _ => true

/-- Deliveries to devices that hold an object, or neither a row nor an upload, and no change in the way of another. -/
def keeps (s : State) : Action (Fin 2) ℕ → Bool
  | .addChange d dataId => (s.datachanges d dataId).isNone
  | .deliver d n => ((s.inbox d)[n]?).all fun m => !hasReceived s d m.id &&
      match s.index d key with
      | some r => r.content.isSome
      | none => (s.activeUploads d (hashed key)).isNone
  | _ => true

def removalRun (ok : State × (ObjectKey → Fin 2 → Bool) → Action (Fin 2) ℕ → Bool) (l : List (Action (Fin 2) ℕ)) :
    Option (State × (ObjectKey → Fin 2 → Bool)) :=
  LTS.exec (fun p a => (step (conf false) hashed p.1 a).map fun t =>
    (t, fun k d => Lane.removedBy (p.2 k d) (t.index d k))) ok (State.empty, fun _ _ => false) l

theorem received_of_hasReceived {s : State} {d : Fin 2} {id : ℕ} :
    hasReceived s d id = true ↔ ∃ m ∈ (lane hashed key s).received d, m.id = id := by
  unfold hasReceived
  rw [List.any_eq_true]
  constructor
  · rintro ⟨m, hm, h⟩
    rw [Bool.and_eq_true, beq_iff_eq, beq_iff_eq] at h
    exact ⟨m.map Change.item, ⟨m, hm, h.2, rfl⟩, h.1⟩
  · rintro ⟨_, ⟨m, hm, hk, rfl⟩, hid⟩
    refine ⟨m, hm, ?_⟩
    rw [Bool.and_eq_true, beq_iff_eq, beq_iff_eq]
    exact ⟨hid, hk⟩

theorem inOrder_lane {s : State} {d : Fin 2} {m : Message (Change ℕ)} (h : inOrder s d m.id = true) :
    Lane.InOrder (lane hashed key s) d (m.map Change.item) := by
  unfold inOrder at h
  rw [Bool.and_eq_true, List.any_eq_true, List.all_eq_true] at h
  obtain ⟨⟨g, -, hg⟩, hlow⟩ := h
  refine ⟨?_, ?_⟩
  · rw [Option.any_eq_true] at hg
    obtain ⟨st, hst, hp⟩ := hg
    rw [Bool.and_eq_true, decide_eq_true_eq, beq_iff_eq] at hp
    exact ⟨g, st.map Change.item, by simp [lane, hst], hp.1, hp.2⟩
  · intro f st' hst' hp hlt
    obtain ⟨st, hst, rfl⟩ := Option.map_eq_some_iff.mp hst'
    have hall := hlow f (List.mem_finRange f)
    rw [hst, Option.all_some, Bool.or_eq_true, Bool.not_eq_true', Bool.and_eq_false_iff] at hall
    rcases hall with (h1 | h1) | h1
    · exact absurd hp (of_decide_eq_false h1)
    · exact absurd hlt (of_decide_eq_false h1)
    · exact received_of_hasReceived.mp h1

theorem assumed_of_check {p : State × (ObjectKey → Fin 2 → Bool)} {a : Action (Fin 2) ℕ} (h : assumed p a = true) :
    Assumed hashed {key} p a := by
  cases a with
  | save d k data =>
    rw [assumed, Bool.and_eq_true, beq_iff_eq, Bool.not_eq_true'] at h
    refine ⟨h.1, ?_⟩
    rintro k' rfl b hb
    cases (Option.ite_none_right_eq_some.mp hb).2
    exact h.2
  | deliver d n =>
    refine ⟨trivial, ?_⟩
    rintro k' rfl b hb
    simp only [assumed] at h
    simp only [laneAction] at hb
    split at hb
    next m hm =>
      cases (Option.ite_none_right_eq_some.mp hb).2
      rw [hm, Option.all_some] at h
      exact inOrder_lane h
    next => cases hb
  | addChange d dataId =>
    refine ⟨trivial, ?_⟩
    rintro k' rfl b hb
    simp only [laneAction] at hb
    split at hb <;> cases hb <;> trivial
  | complete d n =>
    refine ⟨trivial, ?_⟩
    rintro k' rfl b hb
    simp only [laneAction] at hb
    split at hb
    · cases (Option.ite_none_right_eq_some.mp hb).2
      trivial
    · cases hb
  | _ =>
    refine ⟨trivial, ?_⟩
    rintro k' rfl b hb
    cases (Option.ite_none_right_eq_some.mp hb).2
    trivial

theorem keeps_of_check {s : State} {a : Action (Fin 2) ℕ} (h : keeps s a = true) :
    Keeps (conf false) hashed {key} s a := by
  rintro k rfl b hb
  cases a with
  | addChange d dataId =>
    simp only [laneAction] at hb
    split at hb
    · cases hb
      rename_i hd
      intro x _ e m hm
      obtain ⟨st, hst, -⟩ := Lane.ledger_waiting.mp hm
      rw [keeps, Option.isNone_iff_eq_none, hd] at h
      simp [lane, h] at hst
    · cases hb
      trivial
  | deliver d n =>
    simp only [keeps] at h
    simp only [laneAction] at hb
    split at hb
    next m hm =>
      cases (Option.ite_none_right_eq_some.mp hb).2
      rw [hm, Option.all_some, Bool.and_eq_true, Bool.not_eq_true'] at h
      obtain ⟨hnew, hrow⟩ := h
      have hobj : ∀ r, (lane hashed key s).row d = some r → r.content ≠ none := by
        intro r hr
        have hr' : s.index d key = some r := hr
        rw [hr'] at hrow
        exact Option.isSome_iff_ne_none.mp hrow
      refine ⟨fun hrec => ?_, fun hnone _ u hu => ?_, fun _ r hr hc => absurd hc (hobj r hr),
        fun _ r hr hc => absurd hc (hobj r hr)⟩
      · have hid : (m.map Change.item).id = m.id := rfl
        rw [received_of_hasReceived.mpr ⟨_, hrec, hid⟩] at hnew
        cases hnew
      · have hnone' : s.index d key = none := hnone
        rw [hnone'] at hrow
        rw [Option.isNone_iff_eq_none] at hrow
        simp [lane, hrow] at hu
    next => cases hb
  | complete d n =>
    simp only [laneAction] at hb
    split at hb
    · cases (Option.ite_none_right_eq_some.mp hb).2
      trivial
    · cases hb
  | _ =>
    cases (Option.ite_none_right_eq_some.mp hb).2
    trivial

/-- Device 1 deletes an object of version 2 and sends the deletion; meanwhile device 0 saves an object of the key and
deletes it while it is uploaded.  The deletion of device 1 then drops that of device 0. -/
def crossing : List (Action (Fin 2) ℕ) :=
  [.save 1 key 5, .save 1 key 6, .remove 1 key, .upload 1 key, .addChange 1 [1], .uploadDone 1 [1],
    .save 0 key 7, .upload 0 key, .remove 0 key, .addChange 0 [1], .send 1 0 [1], .deliver 1 0, .complete 1 0,
    .uploadDone 0 [1], .send 0 1 [1], .deliver 0 0, .complete 0 0]

/-- An object is sent to the other device and deleted. -/
def deletion : List (Action (Fin 2) ℕ) :=
  [.save 0 key 5, .upload 0 key, .addChange 0 [1], .uploadDone 0 [1], .send 1 0 [1], .deliver 1 0, .complete 1 0,
    .remove 0 key, .upload 0 key, .addChange 0 [1], .uploadDone 0 [1], .send 1 0 [1], .deliver 1 1, .complete 1 1,
    .upload 1 key, .addChange 1 [1], .uploadDone 1 [1], .send 0 1 [1], .deliver 0 0, .complete 0 0]

theorem removalRun_reachable {ok : State × (ObjectKey → Fin 2 → Bool) → Action (Fin 2) ℕ → Bool}
    {G : State × (ObjectKey → Fin 2 → Bool) → Action (Fin 2) ℕ → Prop} (hok : ∀ p a, ok p a = true → G p a)
    {l : List (Action (Fin 2) ℕ)} {p : State × (ObjectKey → Fin 2 → Bool)} (h : removalRun ok l = some p) :
    (removalLts (conf false) hashed).Reachable G p := LTS.exec_withHistory hok rfl h

theorem removal_wellFormed {G : State × (ObjectKey → Fin 2 → Bool) → Action (Fin 2) ℕ → Prop}
    (hG : ∀ p a, G p a → Assumed hashed {key} p a) {p : State × (ObjectKey → Fin 2 → Bool)}
    (h : (removalLts (conf false) hashed).Reachable G p) : WellFormed hashed {key} p.1 :=
  WellFormed.reachable (fun _ _ hg => hg)
    (LTS.Reachable.of_withHistory (G := fun _ a => a.Uses {key}) (fun p a hg => (hG p a hg).1) h)

end Sample

/-- The object that the other device had, and its deletion, are gone on both devices. -/
theorem agreement_deletion : ∃ p : Sample.State × (ObjectKey → Fin 2 → Bool),
    p.2 Sample.key 1 = true ∧
    ((∃ x : Lane.Item ℕ, x.content ≠ none ∧ ∀ d, (p.1.index d Sample.key).map Row.item = some x) ∨
      ∀ d, p.1.index d Sample.key = none) := by
  have h : (Sample.removalRun (fun p a => Sample.assumed p a && Sample.keeps p.1 a) Sample.deletion).any
      (fun p => Sample.settled p.1 && p.2 Sample.key 1) = true := by decide
  rw [Option.any_eq_true] at h
  obtain ⟨p, hp, hset⟩ := h
  rw [Bool.and_eq_true] at hset
  have hr := Sample.removalRun_reachable (G := fun p a => Assumed Sample.hashed {Sample.key} p a ∧
    Keeps (Sample.conf false) Sample.hashed {Sample.key} p.1 a) (fun p a hok => by
      rw [Bool.and_eq_true] at hok
      exact ⟨Sample.assumed_of_check hok.1, Sample.keeps_of_check hok.2⟩) hp
  have W := Sample.removal_wellFormed (fun _ _ hg => hg.1) hr
  exact ⟨p, hset.2, agreement (fun _ _ h => h) Sample.injOn_hashed (fun _ => rfl) hr (Sample.quiescent W hset.1)
    Sample.key⟩

/-- **The devices do not agree**: in order and without saving a deleted key again, nothing is left to be done, and one
device holds an object that the other one has deleted. -/
theorem dropped_deletion : ∃ p : Sample.State × (ObjectKey → Fin 2 → Bool),
    (removalLts (Sample.conf false) Sample.hashed).Reachable (Assumed Sample.hashed {Sample.key}) p ∧
    Quiescent p.1 ∧
    ¬ ((∃ x : Lane.Item ℕ, x.content ≠ none ∧ ∀ d, (p.1.index d Sample.key).map Row.item = some x) ∨
      ∀ d, p.1.index d Sample.key = none) := by
  have h : (Sample.removalRun Sample.assumed Sample.crossing).any (fun p => Sample.settled p.1 &&
      ((p.1.index 0 Sample.key).isNone && (p.1.index 1 Sample.key).isSome)) = true := by decide
  rw [Option.any_eq_true] at h
  obtain ⟨p, hp, hset⟩ := h
  rw [Bool.and_eq_true, Bool.and_eq_true, Option.isNone_iff_eq_none] at hset
  obtain ⟨hset, h0, h1⟩ := hset
  have hr := Sample.removalRun_reachable (fun _ _ => Sample.assumed_of_check) hp
  have W := Sample.removal_wellFormed (fun _ _ hg => hg) hr
  refine ⟨p, hr, Sample.quiescent W hset, ?_⟩
  rintro (⟨x, -, hx⟩ | hnone)
  · have := hx 0
    rw [h0] at this
    cases this
  · rw [hnone 1] at h1
    cases h1

end System

end QtDataSync
