import Mathlib.Data.Finset.Max
import QtDataSync.Store.EventCursor

/-!
# Store.SkipObsolete — cursors that skip obsolete events

The query compares the version of an event with that of the row of its object.  The most recent event of an object has
the version of its row, if there is one.  So `next` visits exactly the most recent events if and only if every object
with an event has its row, and no earlier event has the version of that row; without `PersistDeleted` the rows of
deleted objects are erased, and their versions start again at 1.
-/

namespace QtDataSync

variable {Data Checksum : Type*} {jsonHash : Data → Checksum}

/-- No later event is about the same object. -/
def LoggedStore.MostRecent (db : LoggedStore jsonHash) (e : Event) : Prop :=
  ∀ e' ∈ db.eventLog, e'.key = e.key → e'.seqId ≤ e.seqId

instance (db : LoggedStore jsonHash) (e : Event) : Decidable (db.MostRecent e) :=
  inferInstanceAs (Decidable (∀ e' ∈ db.eventLog, e'.key = e.key → e'.seqId ≤ e.seqId))

/-- The most recent events of all objects that have an event after the position, in ascending order. -/
def LoggedStore.mostRecent (db : LoggedStore jsonHash) (index : ℕ) : List Event :=
  db.eventLog.filter fun e => decide (index < e.seqId ∧ db.MostRecent e)

namespace EventCursor

open LoggedStore

/-- The cursor visits exactly the most recent events. -/
def SkipsObsolete (db : LoggedStore jsonHash) (c : EventCursor) : Prop :=
  ∀ l, Scans db c l ↔ l = (db.mostRecent c.index).map c.readQuery

/-- The objects with an event after the position have their rows, and no event before the most recent one has the version
of the row. -/
structure Kept (db : LoggedStore jsonHash) (index : ℕ) : Prop where
  rows : ∀ e ∈ db.eventLog, index < e.seqId → (db.dataIndex e.key).isSome
  versions : ∀ e ∈ db.eventLog, index < e.seqId → ¬ db.MostRecent e →
    ∀ r, db.dataIndex e.key = some r → e.version ≠ r.version

/-- A row has the version of the most recent event of its object. -/
def Current (db : LoggedStore jsonHash) : Prop :=
  ∀ e ∈ db.eventLog, db.MostRecent e → ∀ r, db.dataIndex e.key = some r → r.version = e.version

section

variable {db : LoggedStore jsonHash} {c : EventCursor}

theorem exists_mostRecent {e : Event} (he : e ∈ db.eventLog) :
    ∃ e' ∈ db.eventLog, e'.key = e.key ∧ e.seqId ≤ e'.seqId ∧ db.MostRecent e' := by
  have hmem : e ∈ (db.eventLog.filter fun e' => e'.key = e.key).toFinset := by simp [he]
  obtain ⟨e', he', hmax⟩ := Finset.exists_max_image _ Event.seqId ⟨e, hmem⟩
  rw [List.mem_toFinset, List.mem_filter, decide_eq_true_eq] at he'
  refine ⟨e', he'.1, he'.2, hmax e hmem, fun x hx hkey => hmax x ?_⟩
  rw [List.mem_toFinset, List.mem_filter, decide_eq_true_eq]
  exact ⟨hx, hkey.trans he'.2⟩

/-- The events of a log are told apart by their numbers. -/
theorem eq_of_seqId (hordered : db.eventLog.Pairwise fun e e' => e.seqId < e'.seqId) {e e' : Event}
    (he : e ∈ db.eventLog) (he' : e' ∈ db.eventLog) (h : e.seqId = e'.seqId) : e = e' := by
  have hnodup : (db.eventLog.map Event.seqId).Nodup :=
    (List.pairwise_map.mpr hordered).imp fun hlt => hlt.ne
  exact List.inj_on_of_nodup_map hnodup he he' h

/-- For an object that has an event after the position, exactly one is most recent. -/
theorem existsUnique_mostRecent (hordered : db.eventLog.Pairwise fun e e' => e.seqId < e'.seqId) {index : ℕ} {e : Event}
    (he : e ∈ db.eventLog) (hindex : index < e.seqId) : ∃! e', e' ∈ db.mostRecent index ∧ e'.key = e.key := by
  obtain ⟨e', he', hkey, hle, hrecent⟩ := exists_mostRecent he
  refine ⟨e', ⟨List.mem_filter.mpr ⟨he', decide_eq_true ⟨by omega, hrecent⟩⟩, hkey⟩, ?_⟩
  rintro x ⟨hx, hxkey⟩
  obtain ⟨hxlog, hxrecent⟩ := List.mem_filter.mp hx
  have hle' := (of_decide_eq_true hxrecent).2 e' he' (hkey.trans hxkey.symm)
  exact eq_of_seqId hordered hxlog he' (le_antisymm (hrecent x hxlog (hxkey.trans hkey.symm)) hle')

theorem selects_iff (hc : c.skipObsolete = true) (e : Event) : selects db c e = true ↔
    c.index < e.seqId ∧ ∃ r, db.dataIndex e.key = some r ∧ e.version = r.version := by
  rw [selects, hc, Bool.and_eq_true, decide_eq_true_eq]
  rcases db.dataIndex e.key with - | r
  · simp
  · simp

/-- **What is skipped**, in a log whose rows are current. -/
theorem skipsObsolete_iff (hordered : db.eventLog.Pairwise fun e e' => e.seqId < e'.seqId) (hcurrent : Current db)
    (hc : c.skipObsolete = true) : SkipsObsolete db c ↔ Kept db c.index := by
  have hmem : ∀ p : Event → Bool, ∀ e ∈ db.eventLog,
      e.seqId ∈ ((db.eventLog.filter p).map c.readQuery).map EventCursor.index ↔ p e = true := by
    intro p e he
    rw [List.map_map, List.mem_map]
    constructor
    · rintro ⟨x, hx, hxe⟩
      obtain ⟨hxlog, hpx⟩ := List.mem_filter.mp hx
      rw [eq_of_seqId hordered hxlog he hxe] at hpx
      exact hpx
    · exact fun hpe => ⟨e, List.mem_filter.mpr ⟨he, hpe⟩, rfl⟩
  have hevents : SkipsObsolete db c ↔ ∀ e ∈ db.eventLog,
      (selects db c e = true ↔ c.index < e.seqId ∧ db.MostRecent e) := by
    constructor
    · intro h e he
      have hlists := (h _).mp ((scans_iff hordered).mpr rfl)
      rw [← hmem (selects db c) e he, hlists, mostRecent, hmem _ e he, decide_eq_true_eq]
    · intro h l
      rw [scans_iff hordered, mostRecent]
      rw [List.filter_congr fun e he => Bool.eq_iff_iff.mpr ((h e he).trans (decide_eq_true_iff (p := _)).symm)]
  rw [hevents]
  constructor
  · intro h
    refine ⟨fun e he hindex => ?_, fun e he hindex hold r hr hversion => ?_⟩
    · obtain ⟨e', he', hkey, hle, hrecent⟩ := exists_mostRecent he
      obtain ⟨-, r, hr, -⟩ := (selects_iff hc e').mp ((h e' he').mpr ⟨by omega, hrecent⟩)
      rw [← hkey, hr]
      rfl
    · exact hold ((h e he).mp ((selects_iff hc e).mpr ⟨hindex, r, hr, hversion⟩)).2
  · intro h e he
    rw [selects_iff hc]
    constructor
    · rintro ⟨hindex, r, hr, hversion⟩
      refine ⟨hindex, ?_⟩
      by_contra hold
      exact h.versions e he hindex hold r hr hversion
    · rintro ⟨hindex, hrecent⟩
      obtain ⟨r, hr⟩ := Option.isSome_iff_exists.mp (h.rows e he hindex)
      exact ⟨hindex, r, hr, (hcurrent e he hrecent r hr).symm⟩

end

/-! ### Rows and their most recent events -/

section

variable {db : LoggedStore jsonHash}

/-- A logged statement has written a row with the version of the event. -/
theorem row_of_triggers {e e' : Entry jsonHash} {version : ℕ} {removed : Bool}
    (h : triggers e e' = some (version, removed)) :
    ∃ r, e' = some r ∧ r.version = version ∧ ∀ r₀, e = some r₀ → r₀.version ≠ version := by
  rcases e' with - | r
  · rcases e with - | r₀ <;> cases h
  · rcases e with - | r₀
    · cases h
      exact ⟨r, rfl, rfl, nofun⟩
    · simp only [triggers, Option.ite_none_right_eq_some, Option.some.injEq, Prod.mk.injEq] at h
      obtain ⟨hne, rfl, -⟩ := h
      refine ⟨r, rfl, rfl, fun r₁ hr₁ => ?_⟩
      cases hr₁
      exact hne.symm

theorem Sequenced.lt (h : Sequenced db) {e : Event} (he : e ∈ db.eventLog) : e.seqId < db.sequence + 1 := by
  obtain ⟨s, hs, hlast⟩ := h
  have hbounds := hs.bounds e he
  omega

theorem Current.write (h : Current db) (hsequenced : Sequenced db) (now : ℕ) (key : ObjectKey) (e' : Entry jsonHash) :
    Current (db.write now key e') := by
  unfold LoggedStore.write
  rcases htriggers : triggers (db.dataIndex key) e' with - | ⟨version, removed⟩
  · intro e he hrecent r hr
    have hr' : Function.update db.dataIndex key e' e.key = some r := hr
    by_cases hkey : e.key = key
    · rw [hkey, Function.update_self] at hr'
      subst hr'
      rcases hold : db.dataIndex key with - | r₀
      · rw [hold] at htriggers
        cases htriggers
      · rw [hold] at htriggers
        have hversion : r.version = r₀.version := by
          by_contra hne
          simp [triggers, hne] at htriggers
        rw [hversion]
        exact h e he hrecent r₀ (by rw [hkey]; exact hold)
    · rw [Function.update_of_ne hkey] at hr'
      exact h e he hrecent r hr'
  · obtain ⟨r', rfl, hversion, -⟩ := row_of_triggers htriggers
    intro e he hrecent r hr
    have hr' : Function.update db.dataIndex key (some r') e.key = some r := hr
    have hlater : e.seqId < db.sequence + 1 → e.key ≠ key := fun hlt hkey =>
      absurd (hrecent _ (List.mem_append_right _ (List.mem_singleton_self _)) hkey.symm) (not_le.mpr hlt)
    rcases List.mem_append.mp he with he | he
    · have hkey := hlater (hsequenced.lt he)
      rw [Function.update_of_ne hkey] at hr'
      exact h e he (fun x hx => hrecent x (List.mem_append_left _ hx)) r hr'
    · rw [List.mem_singleton] at he
      subst he
      rw [Function.update_self, Option.some.injEq] at hr'
      rw [← hr']
      exact hversion

theorem Current.afterClear (h : Current db) (c : EventCursor) (offset : ℕ) : Current (afterClear db c offset) := by
  unfold EventCursor.afterClear clearEventLog
  split_ifs with hoffset
  · exact h
  · intro e he hrecent r hr
    rw [List.mem_filter] at he
    have hge : ¬ e.seqId < c.index - offset := by simpa using he.2
    refine h e he.1 (fun x hx hkey => ?_) r hr
    by_cases hx' : x.seqId < c.index - offset
    · omega
    · exact hrecent x (List.mem_filter.mpr ⟨hx, by simpa using hx'⟩) hkey

end

section

variable {ι : Type*} [DecidableEq ι] [LinearOrder Checksum] {d : Defaults Data} {s t : System ι jsonHash}

theorem Current.rows {db : LoggedStore jsonHash} (h : Current db) (hsequenced : Sequenced db) (op : LogOp Data) (now : ℕ)
    (rows : List ObjectKey) :
    Current (rows.foldl (fun db key => db.write now key (op.entry d (db.dataIndex key))) db) := by
  induction rows generalizing db with
  | nil => exact h
  | cons key rows ih => exact ih (h.write hsequenced now key _) (hsequenced.write now key _)

theorem Current.transact {db : LoggedStore jsonHash} (h : Current db) (hsequenced : Sequenced db)
    (a : Transaction Data) : Current (db.transact d a) := by
  obtain ⟨op, rows, now, commits⟩ := a
  cases commits with
  | false => exact h
  | true =>
    cases op with
    | store op => exact h.rows hsequenced (.store op) now rows
    | migrate key data overwrite changed => exact h.rows hsequenced (.migrate key data overwrite changed) now rows
    | reset keepData =>
      cases keepData with
      | false => exact fun e he => absurd he List.not_mem_nil
      | true =>
        intro e he hrecent r hr
        have hr' : (db.dataIndex e.key).map (fun r => { r with changed := true }) = some r := hr
        obtain ⟨r₀, hr₀, rfl⟩ := Option.map_eq_some_iff.mp hr'
        exact h e he hrecent r₀ hr₀

theorem current_of_reachable {initial : DataIndex jsonHash} (h : (lts d initial).Reachable LTS.free s) :
    Current s.store := by
  refine LTS.Reachable.invariant (I := fun s => Current s.store) ?_ ?_ h
  · rintro s ⟨hstore, -⟩
    rw [hstore]
    exact fun e he => absurd he List.not_mem_nil
  · rintro s a t hreach hs - hst
    have hplaced := placed_of_reachable hreach
    cases hst with
    | transaction htransacts =>
      obtain ⟨-, hdb, -⟩ := htransacts
      rw [hdb]
      exact hs.transact hplaced.sequenced _
    | clearEventLog => exact hs.afterClear _ _
    | _ => exact hs

/-! ### Histories that keep the rows -/

/-- Every logged object has a row with a version that is not smaller, and the versions of its events ascend. -/
structure Growing (db : LoggedStore jsonHash) : Prop where
  rows : ∀ e ∈ db.eventLog, ∃ r, db.dataIndex e.key = some r ∧ e.version ≤ r.version
  stored : ∀ e ∈ db.eventLog, ∀ r, db.dataIndex e.key = some r → column r.version = r.version
  versions : ∀ e ∈ db.eventLog, ∀ e' ∈ db.eventLog, e'.key = e.key → e.seqId < e'.seqId → e.version < e'.version

/-- A transaction deletes no row of an object that has an event. -/
def KeepsRows (d : Defaults Data) (s : System ι jsonHash) : Step ι Data → Prop
  | .transaction ⟨.store op, rows, _, commits⟩ => commits = true → ∀ key ∈ rows, (∃ e ∈ s.store.eventLog, e.key = key) →
      (s.store.dataIndex key).isSome → ((LogOp.store op).entry d (s.store.dataIndex key)).isSome
  | _ => True

/-- The row stays, and its version does not decrease. -/
def Raises (e e' : Entry jsonHash) : Prop := ∀ r, e = some r → ∃ r', e' = some r' ∧ r.version ≤ r'.version

omit [LinearOrder Checksum] in
theorem raises_of_moves {e e' : Entry jsonHash} (h : SyncController.Moves e e') : Raises e e' := by
  intro r hr
  rcases h with rfl | ⟨r₀, hr₀, rfl⟩ | ⟨r', rfl, hversion⟩
  · exact ⟨r, hr, le_rfl⟩
  · rw [hr, Option.some.injEq] at hr₀
    subst hr₀
    exact ⟨_, rfl, le_rfl⟩
  · exact ⟨r', rfl, (hversion r hr).le⟩

omit [LinearOrder Checksum] in
/-- What the column holds does not decrease either. -/
theorem Raises.stored {e e' : Entry jsonHash} (h : Raises e e') (hstored : ∀ r, e = some r → column r.version = r.version) :
    Raises e (e'.map Row.stored) := by
  intro r hr
  obtain ⟨r', rfl, hle⟩ := h r hr
  refine ⟨r'.stored, rfl, ?_⟩
  rw [← hstored r hr]
  exact column_mono hle

theorem raises_entry {e : Entry jsonHash} {op : StoreOp Data} (h : e.isSome → ((LogOp.store op).entry d e).isSome)
    (hstored : ∀ r, e = some r → column r.version = r.version) : Raises e ((LogOp.store op).entry d e) := by
  rcases DataIndex.evolves_runEntry d e (LogOp.compared op) with hmoves | ⟨-, hnone⟩
  · exact (raises_of_moves hmoves).stored hstored
  · intro r hr
    have hentry : (LogOp.store op).entry d e = none := congrArg (Option.map Row.stored) hnone
    rw [hentry, hr] at h
    exact absurd (h rfl) Bool.false_ne_true

/-- A written row holds what its column can hold. -/
theorem stored_entry {e : Entry jsonHash} {op : LogOp Data} {r : Row jsonHash} (h : op.entry d e = some r) :
    column r.version = r.version := by
  obtain ⟨r₀, -, rfl⟩ := Option.map_eq_some_iff.mp h
  exact column_column r₀.version

omit [LinearOrder Checksum] in
theorem Growing.kept {db : LoggedStore jsonHash} (h : Growing db) (index : ℕ) : Kept db index := by
  refine ⟨fun e he _ => ?_, fun e he _ hold r hr => ?_⟩
  · obtain ⟨r, hr, -⟩ := h.rows e he
    rw [hr]
    rfl
  · simp only [LoggedStore.MostRecent, not_forall, not_le] at hold
    obtain ⟨e', he', hkey, hlt⟩ := hold
    obtain ⟨r', hr', hle⟩ := h.rows e' he'
    rw [hkey, hr, Option.some.injEq] at hr'
    subst hr'
    exact ((h.versions e he e' he' hkey hlt).trans_le hle).ne

omit [LinearOrder Checksum] in
/-- **One statement** that keeps the row of a logged object. -/
theorem Growing.write {db : LoggedStore jsonHash} (h : Growing db) (hsequenced : Sequenced db) {key : ObjectKey}
    {e' : Entry jsonHash} (hraises : (∃ e ∈ db.eventLog, e.key = key) → Raises (db.dataIndex key) e')
    (hstored : ∀ r, e' = some r → column r.version = r.version) (now : ℕ) : Growing (db.write now key e') := by
  have hrows : ∀ e ∈ db.eventLog, ∃ r, Function.update db.dataIndex key e' e.key = some r ∧ e.version ≤ r.version := by
    intro e he
    obtain ⟨r, hr, hle⟩ := h.rows e he
    by_cases hkey : e.key = key
    · rw [hkey] at hr ⊢
      obtain ⟨r', hr', hle'⟩ := hraises ⟨e, he, hkey⟩ r hr
      rw [Function.update_self]
      exact ⟨r', hr', hle.trans hle'⟩
    · rw [Function.update_of_ne hkey]
      exact ⟨r, hr, hle⟩
  have hcolumns : ∀ e ∈ db.eventLog, ∀ r, Function.update db.dataIndex key e' e.key = some r →
      column r.version = r.version := by
    intro e he r hr
    by_cases hkey : e.key = key
    · rw [hkey, Function.update_self] at hr
      exact hstored r hr
    · rw [Function.update_of_ne hkey] at hr
      exact h.stored e he r hr
  unfold LoggedStore.write
  rcases htriggers : triggers (db.dataIndex key) e' with - | ⟨version, removed⟩
  · exact ⟨hrows, hcolumns, h.versions⟩
  · obtain ⟨r', rfl, rfl, hnew⟩ := row_of_triggers htriggers
    refine ⟨fun e he => ?_, fun e he r hr => ?_, fun e he x hx hkey hlt => ?_⟩
    · rcases List.mem_append.mp he with he | he
      · exact hrows e he
      · rw [List.mem_singleton.mp he]
        exact ⟨r', Function.update_self .., le_rfl⟩
    · rcases List.mem_append.mp he with he | he
      · exact hcolumns e he r hr
      · rw [List.mem_singleton] at he
        subst he
        exact hstored r ((Function.update_self (f := db.dataIndex) key (some r')).symm.trans hr)
    · rcases List.mem_append.mp he with hold | hlast <;> rcases List.mem_append.mp hx with hold' | hlast'
      · exact h.versions e hold x hold' hkey hlt
      · rw [List.mem_singleton] at hlast'
        subst hlast'
        have hkey' : e.key = key := hkey.symm
        obtain ⟨r, hr, hle⟩ := h.rows e hold
        rw [hkey'] at hr
        obtain ⟨r₁, hr₁, hle₁⟩ := hraises ⟨e, hold, hkey'⟩ r hr
        cases hr₁
        exact hle.trans_lt (lt_of_le_of_ne hle₁ (hnew r hr))
      · have hbefore := hsequenced.lt hold'
        rw [List.mem_singleton.mp hlast] at hlt
        exact absurd hbefore (not_lt.mpr hlt.le)
      · rw [List.mem_singleton.mp hlast, List.mem_singleton.mp hlast'] at hlt
        exact absurd hlt (lt_irrefl _)

omit [LinearOrder Checksum] in
/-- A statement logs events of its own object only. -/
theorem mem_eventLog_write {db : LoggedStore jsonHash} {now : ℕ} {key : ObjectKey} {e' : Entry jsonHash} {e : Event}
    (he : e ∈ (db.write now key e').eventLog) : e ∈ db.eventLog ∨ e.key = key := by
  unfold LoggedStore.write at he
  split at he
  · rcases List.mem_append.mp he with he | he
    · exact Or.inl he
    · rw [List.mem_singleton.mp he]
      exact Or.inr rfl
  · exact Or.inl he

theorem Growing.rows_foldl {db : LoggedStore jsonHash} (h : Growing db) (op : LogOp Data) {now : ℕ}
    {rows : List ObjectKey} (hnodup : rows.Nodup) (hsequenced : Sequenced db)
    (hraises : ∀ key ∈ rows, (∃ e ∈ db.eventLog, e.key = key) → Raises (db.dataIndex key) (op.entry d (db.dataIndex key))) :
    Growing (rows.foldl (fun db key => db.write now key (op.entry d (db.dataIndex key))) db) := by
  induction rows generalizing db with
  | nil => exact h
  | cons key rows ih =>
    obtain ⟨hkey, hnodup⟩ := List.nodup_cons.mp hnodup
    rw [List.foldl_cons]
    refine ih (h.write hsequenced (hraises key List.mem_cons_self) (fun _ => stored_entry) now) hnodup
      (hsequenced.write now key _) ?_
    rintro k hk ⟨e, he, rfl⟩
    have hne : e.key ≠ key := fun heq => hkey (heq ▸ hk)
    rw [write_dataIndex, Function.update_of_ne hne]
    exact hraises e.key (List.mem_cons_of_mem _ hk) ⟨e, (mem_eventLog_write he).resolve_right hne, rfl⟩

/-- **One step** that deletes no row of a logged object. -/
theorem Growing.takes {a : Step ι Data} (h : Growing s.store) (hsequenced : Sequenced s.store) (hkeeps : KeepsRows d s a)
    (hst : Takes d s a t) : Growing t.store := by
  have hcolumn : ∀ key, (∃ e ∈ s.store.eventLog, e.key = key) → ∀ r, s.store.dataIndex key = some r →
      column r.version = r.version := by
    rintro key ⟨e, he, rfl⟩ r hr
    exact h.stored e he r hr
  cases hst with
  | @transaction a db htransacts =>
    obtain ⟨hselects, hdb, -⟩ := htransacts
    rw [hdb]
    obtain ⟨op, rows, now, commits⟩ := a
    cases commits with
    | false => exact h
    | true =>
      cases op with
      | store op =>
        exact h.rows_foldl (.store op) (nodup_of_selects hselects) hsequenced
          fun key hkey hlogged => raises_entry (hkeeps rfl key hkey hlogged) (hcolumn key hlogged)
      | migrate key data overwrite changed =>
        have hrows : rows = [key] := hselects
        subst hrows
        exact h.rows_foldl (.migrate key data overwrite changed) (List.nodup_singleton key) hsequenced
          fun k _ hlogged => (raises_of_moves (moves_migrate overwrite _ data changed)).stored (hcolumn k hlogged)
      | reset keepData =>
        cases keepData with
        | false => exact ⟨nofun, nofun, nofun⟩
        | true =>
          refine ⟨fun e he => ?_, fun e he r hr => ?_, h.versions⟩
          · obtain ⟨r, hr, hle⟩ := h.rows e he
            refine ⟨{ r with changed := true }, ?_, hle⟩
            show (s.store.dataIndex e.key).map (fun r => { r with changed := true }) = _
            rw [hr]
            rfl
          · have hr' : (s.store.dataIndex e.key).map (fun r => { r with changed := true }) = some r := hr
            obtain ⟨r₀, hr₀, rfl⟩ := Option.map_eq_some_iff.mp hr'
            exact h.stored e he r₀ hr₀
  | clearEventLog =>
    unfold afterClear clearEventLog
    split_ifs with hoffset
    · exact h
    · exact ⟨fun e he => h.rows e (List.mem_of_mem_filter he), fun e he => h.stored e (List.mem_of_mem_filter he),
        fun e he e' he' => h.versions e (List.mem_of_mem_filter he) e' (List.mem_of_mem_filter he')⟩
  | _ => exact h

theorem growing_of_reachable {initial : DataIndex jsonHash} (h : (lts d initial).Reachable (KeepsRows d) s) :
    Growing s.store := by
  have hboth : Placed s ∧ Growing s.store := by
    refine LTS.Reachable.invariant (I := fun s => Placed s ∧ Growing s.store) ?_ ?_ h
    · rintro s hs
      refine ⟨placed_of_reachable (.init hs), ?_⟩
      rw [hs.1]
      exact ⟨nofun, nofun, nofun⟩
    · rintro s a t - ⟨hplaced, hgrowing⟩ hkeeps hst
      exact ⟨(hplaced.takes hst).1, hgrowing.takes hplaced.sequenced hkeeps hst⟩
  exact hboth.2

omit [DecidableEq ι] in
/-- With `PersistDeleted` no row is ever deleted. -/
theorem keepsRows_of_persistDeleted (hd : d.persistDeleted = true) (a : Step ι Data) : KeepsRows d s a := by
  rcases a with ⟨op | - | -, rows, now, commits⟩ | _
  · rintro - key - - hsome
    have hevolves := DataIndex.evolves_runEntry d (s.store.dataIndex key) (LogOp.compared op)
    rw [hd] at hevolves
    obtain ⟨r, hr⟩ := Option.isSome_iff_exists.mp hsome
    obtain ⟨r', hr', -⟩ := raises_of_moves hevolves.moves r hr
    have hentry : (LogOp.store op).entry d (s.store.dataIndex key) = some r'.stored := congrArg (Option.map Row.stored) hr'
    rw [hentry]
    rfl
  all_goals trivial

theorem skipsObsolete_of_persistDeleted (hd : d.persistDeleted = true) {initial : DataIndex jsonHash}
    (h : (lts d initial).Reachable LTS.free s) {c : EventCursor} (hc : c.skipObsolete = true) : SkipsObsolete s.store c :=
  (skipsObsolete_iff (placed_of_reachable h).sequenced.ordered (current_of_reachable h) hc).mpr
    ((growing_of_reachable (h.mono fun _ a _ => keepsRows_of_persistDeleted hd a)).kept c.index)

/-- **When skipping visits exactly the most recent events**: for any history and any position of the cursor if and only
if the rows are kept, and so for any history that deletes no row of an object that has an event. -/
theorem skipsObsolete_iff_kept {initial : DataIndex jsonHash} (h : (lts d initial).Reachable LTS.free s)
    {c : EventCursor} (hc : c.skipObsolete = true) : (SkipsObsolete s.store c ↔ Kept s.store c.index) ∧
      ((lts d initial).Reachable (KeepsRows d) s → SkipsObsolete s.store c) := by
  have hiff := skipsObsolete_iff (placed_of_reachable h).sequenced.ordered (current_of_reachable h) hc
  exact ⟨hiff, fun hkeeps => hiff.mpr ((growing_of_reachable hkeeps).kept c.index)⟩

end

namespace Sample

/-- The object is saved in the transaction. -/
def savesAs (id : String) (now : ℕ) : LoggedStore.Transaction ℕ := ⟨.store (.save ⟨[1], id⟩ 5), [⟨[1], id⟩], now, true⟩

theorem takes_transacted (s : System Bool fun n : ℕ => n) (a : LoggedStore.Transaction ℕ)
    (hrows : a.op.Selects s.store.dataIndex a.rows) (hsequence : (s.store.transact defaults a).sequence < 2 ^ 63) :
    (lts defaults fun _ => none).step s (.transaction a) { s with store := s.store.transact defaults a } :=
  .transaction ⟨hrows, rfl, hsequence⟩

theorem keepsRows_savesAs (s : System Bool fun n : ℕ => n) (id : String) (now : ℕ) :
    KeepsRows defaults s (.transaction (savesAs id now)) := by
  rintro - key - - -
  rcases s.store.dataIndex key with - | r
  · rfl
  · rfl

/-- Two objects are saved, one of them twice. -/
def both : System Bool fun n : ℕ => n :=
  let db : LoggedStore fun n : ℕ => n := ⟨fun _ => none, [], 0⟩
  ⟨((db.transact defaults (savesAs "a" 7)).transact defaults (savesAs "b" 8)).transact defaults (savesAs "a" 9),
    fun _ => new⟩

theorem both_reachable : (lts (ι := Bool) defaults fun _ => none).Reachable (KeepsRows defaults) both := by
  have hstart : (lts (ι := Bool) defaults fun _ => (none : Entry fun n : ℕ => n)).Reachable (KeepsRows defaults)
      ⟨⟨fun _ => none, [], 0⟩, fun _ => new⟩ := .init ⟨rfl, fun _ => rfl⟩
  have hfirst := hstart.step (keepsRows_savesAs _ "a" 7) (.transaction ⟨rfl, rfl, by decide +kernel⟩)
  have hother := hfirst.step (keepsRows_savesAs _ "b" 8) (.transaction ⟨rfl, rfl, by decide +kernel⟩)
  exact hother.step (keepsRows_savesAs _ "a" 9) (.transaction ⟨rfl, rfl, by decide +kernel⟩)

/-- An object is saved and removed, and its tombstone is acknowledged. -/
def erased : System Bool fun n : ℕ => n :=
  let s := saved ⟨⟨fun _ => none, [], 0⟩, fun _ => new⟩ 5 7
  let db := s.store.transact defaults ⟨.store (.remove key), [key], 8, true⟩
  { s with store := db.transact defaults ⟨.store (.markUnchanged key 2 true), [key], 9, true⟩ }

theorem erased_reachable : (lts (ι := Bool) defaults fun _ => none).Reachable LTS.free erased := by
  have hstart : (lts (ι := Bool) defaults fun _ => (none : Entry fun n : ℕ => n)).Reachable LTS.free
      ⟨⟨fun _ => none, [], 0⟩, fun _ => new⟩ := .init ⟨rfl, fun _ => rfl⟩
  have hsaved := hstart.step (a := .transaction (saves 5 7)) trivial (takes_saved _ (by decide +kernel))
  have hremoved := hsaved.step trivial
    (takes_transacted _ ⟨.store (.remove key), [key], 8, true⟩ rfl (by decide +kernel))
  exact hremoved.step trivial
    (takes_transacted _ ⟨.store (.markUnchanged key 2 true), [key], 9, true⟩ rfl (by decide +kernel))

end Sample

theorem skipsObsolete_both : (SkipsObsolete Sample.both.store new ↔ Kept Sample.both.store 0) ∧
    SkipsObsolete Sample.both.store new ∧ (Sample.both.store.mostRecent 0).map (·.seqId) = [2, 3] := by
  have hreach := Sample.both_reachable
  have hboth := skipsObsolete_iff_kept (hreach.mono fun _ _ _ => trivial) (c := new) rfl
  exact ⟨hboth.1, hboth.2 hreach, by decide +kernel⟩

/-- The removal of the erased object is its most recent event, and is not visited. -/
theorem not_skipsObsolete : ¬ ∀ (s : System Bool fun n : ℕ => n) (c : EventCursor),
    (lts Sample.defaults fun _ => none).Reachable LTS.free s → c.skipObsolete = true → SkipsObsolete s.store c := by
  intro h
  have hnone : next Sample.erased.store new = none := by decide +kernel
  have hlists := (h Sample.erased new Sample.erased_reachable rfl []).mp (.done hnone)
  have hrecent : (Sample.erased.store.mostRecent new.index).map Event.seqId = [2] := by decide +kernel
  rw [List.map_eq_nil_iff.mp hlists.symm] at hrecent
  cases hrecent

end EventCursor

end QtDataSync
