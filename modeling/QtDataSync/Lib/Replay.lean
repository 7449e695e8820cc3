import Mathlib.Logic.Function.Basic
import Mathlib.Data.List.Induction

/-!
# Lib.Replay — a log of assignments and the views at its positions

An event gives a key a value, or takes it away.  A log that is applied to a view leaves of each key what its last event
says (`replay_apply`).  `Traced` says that from the view at any position of a log, the rest of the log leads to the
present one; it is kept by a change of the view that is logged (`Traced.snoc`).
-/

namespace Replay

variable {K V : Type*} [DecidableEq K]

/-- The view after an event. -/
def assign (view : K → Option V) (e : K × Option V) : K → Option V := Function.update view e.1 e.2

/-- The view after the events of a log. -/
def replay (view : K → Option V) (l : List (K × Option V)) : K → Option V := l.foldl assign view

/-- The last event of a key. -/
def last (l : List (K × Option V)) (k : K) : Option (K × Option V) := (l.filter fun e => e.1 = k).getLast?

theorem replay_snoc (view : K → Option V) (l : List (K × Option V)) (e : K × Option V) :
    replay view (l ++ [e]) = assign (replay view l) e := List.foldl_append

theorem last_snoc (l : List (K × Option V)) (e : K × Option V) (k : K) :
    last (l ++ [e]) k = if e.1 = k then some e else last l k := by
  unfold last
  rw [List.filter_append]
  by_cases hk : e.1 = k
  · simp [hk]
  · simp [hk]

/-- **The last event of a key wins.** -/
theorem replay_apply (view : K → Option V) (l : List (K × Option V)) (k : K) :
    replay view l k = ((last l k).map Prod.snd).getD (view k) := by
  induction l using List.reverseRecOn with
  | nil => rfl
  | append_singleton l e ih =>
    rw [replay_snoc, last_snoc, assign]
    by_cases hk : e.1 = k
    · rw [hk, Function.update_self, if_pos rfl]
      rfl
    · rw [Function.update_of_ne (Ne.symm hk), if_neg hk, ih]

theorem last_eq_some {l : List (K × Option V)} {k : K} {e : K × Option V} (h : last l k = some e) :
    e ∈ l ∧ e.1 = k := by
  have hmem := List.mem_of_getLast? h
  rw [List.mem_filter, decide_eq_true_eq] at hmem
  exact hmem

/-- A key that the log takes away has the removal as its last event. -/
theorem last_of_removed {view : K → Option V} {l : List (K × Option V)} {k : K} (hview : view k ≠ none)
    (h : replay view l k = none) : last l k = some (k, none) := by
  rw [replay_apply] at h
  rcases hl : last l k with - | ⟨k', v⟩
  · rw [hl] at h
    exact absurd h hview
  · obtain ⟨-, rfl⟩ := last_eq_some hl
    rw [hl] at h
    rw [show v = none from h]

/-! ### The views at the positions of a log -/

/-- From the view at each position of the log, the rest of it leads to the present view. -/
structure Traced (past : List (K → Option V)) (l : List (K × Option V)) (view : K → Option V) : Prop where
  length : past.length = l.length + 1
  replay : ∀ n v, past[n]? = some v → replay v (l.drop n) = view

namespace Traced

variable {past : List (K → Option V)} {l : List (K × Option V)} {view : K → Option V}

theorem start (view : K → Option V) : Traced [view] [] view := by
  refine ⟨rfl, fun n v hv => ?_⟩
  obtain ⟨hn, rfl⟩ := List.getElem?_eq_some_iff.mp hv
  rw [List.drop_nil]
  simp [Replay.replay]

/-- An event is logged, and the view has followed it. -/
theorem snoc (h : Traced past l view) (e : K × Option V) : Traced (past ++ [assign view e]) (l ++ [e]) (assign view e) := by
  have hlength := h.length
  refine ⟨by simp [hlength], fun n v hv => ?_⟩
  by_cases hn : n < past.length
  · rw [List.getElem?_append_left hn] at hv
    rw [List.drop_append_of_le_length (by omega), replay_snoc, h.replay n v hv]
  · rw [List.getElem?_append_right (by omega)] at hv
    obtain ⟨hzero, rfl⟩ := List.getElem?_eq_some_iff.mp hv
    have hend : n = l.length + 1 := by
      rw [List.length_singleton] at hzero
      omega
    rw [List.drop_of_length_le (by simp [hend])]
    simp [Replay.replay]

end Traced

end Replay
