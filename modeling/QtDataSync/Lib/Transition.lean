import Mathlib.Data.List.Basic

/-!
# Lib.Transition — labelled transition systems with guarded runs

A system `LTS σ α` has start states and labelled steps.  `Run L G s tr t` is a finite run from `s` to `t`
whose steps all satisfy the guard `G` (read before the step), with its trace `tr` of
`(source, label, target)` triples; `Reachable L G` collects the ends of the runs from start states.

* `Run.invariant`, `Reachable.invariant`: what every step keeps, every run keeps.
* `Run.rel`: a reflexive transitive relation kept by every step relates the ends of a run.
* `Run.exists_step`: the step of a run in which something becomes true.
* `Run.forall_iff`, `Run.forall_iff_of_guard`: the exact condition on the steps for a property of all states.
* `Run.countP_add_le`: a measure that every marked step decreases bounds the number of marked steps.
* `Run.sim`, `Reachable.sim`: functional simulation with stuttering.
* `withHistory`: a history variable, written by the steps and read by guards and proofs only.
* `ofStep`, `exec`: systems whose steps are computed by a partial function, and their concrete runs.
-/

universe u v w x

/-- A labelled transition system. -/
structure LTS (σ : Type u) (α : Type v) where
  init : σ → Prop
  step : σ → α → σ → Prop

namespace LTS

variable {σ : Type u} {α : Type v} {τ : Type w} {β : Type x}

/-- The guard that allows every step. -/
def free : σ → α → Prop := fun _ _ => True

/-- Finite runs whose steps satisfy the guard `G`, with their traces. -/
inductive Run (L : LTS σ α) (G : σ → α → Prop) : σ → List (σ × α × σ) → σ → Prop
  | nil (s : σ) : Run L G s [] s
  | snoc {s t t' : σ} {tr : List (σ × α × σ)} {a : α} :
      Run L G s tr t → G t a → L.step t a t' → Run L G s (tr ++ [(t, a, t')]) t'

/-- The ends of the guarded runs from start states. -/
def Reachable (L : LTS σ α) (G : σ → α → Prop) (s : σ) : Prop :=
  ∃ s₀ tr, L.init s₀ ∧ Run L G s₀ tr s

variable {L : LTS σ α} {G : σ → α → Prop} {M : LTS τ β} {H : τ → β → Prop}

theorem Reachable.init {s : σ} (h : L.init s) : L.Reachable G s := ⟨s, [], h, .nil s⟩

theorem Reachable.step {s t : σ} {a : α} (h : L.Reachable G s) (hg : G s a) (hst : L.step s a t) :
    L.Reachable G t := by
  obtain ⟨s₀, tr, h0, hr⟩ := h
  exact ⟨s₀, _, h0, hr.snoc hg hst⟩

theorem Run.trans {s t t' : σ} {tr tr' : List (σ × α × σ)} (h : Run L G s tr t)
    (h' : Run L G t tr' t') : Run L G s (tr ++ tr') t' := by
  induction h' with
  | nil => simpa using h
  | snoc _ hg hst ih => rw [← List.append_assoc]; exact ih.snoc hg hst

theorem Reachable.run {s t : σ} {tr : List (σ × α × σ)} (h : L.Reachable G s) (hr : Run L G s tr t) :
    L.Reachable G t := by
  obtain ⟨s₀, tr₀, h0, hr₀⟩ := h
  exact ⟨s₀, _, h0, hr₀.trans hr⟩

/-- A weaker guard allows the same runs. -/
theorem Run.mono {G' : σ → α → Prop} (hG : ∀ s a, G s a → G' s a) {s t : σ}
    {tr : List (σ × α × σ)} (h : Run L G s tr t) : Run L G' s tr t := by
  induction h with
  | nil => exact .nil _
  | snoc _ hg hst ih => exact ih.snoc (hG _ _ hg) hst

theorem Reachable.mono {G' : σ → α → Prop} (hG : ∀ s a, G s a → G' s a) {s : σ}
    (h : L.Reachable G s) : L.Reachable G' s := by
  obtain ⟨s₀, tr, h0, hr⟩ := h
  exact ⟨s₀, tr, h0, hr.mono hG⟩

/-! ### Invariants -/

/-- A property kept by every guarded step of reachable states holds in every reachable state. -/
theorem Reachable.invariant {I : σ → Prop} (h0 : ∀ s, L.init s → I s)
    (hs : ∀ s a t, L.Reachable G s → I s → G s a → L.step s a t → I t) {s : σ}
    (h : L.Reachable G s) : I s := by
  obtain ⟨s₀, tr, hi, hr⟩ := h
  induction hr with
  | nil => exact h0 _ hi
  | snoc hr hg hst ih => exact hs _ _ _ ⟨_, _, hi, hr⟩ ih hg hst

/-- A property kept by every guarded step holds at the end of a run that starts with it. -/
theorem Run.invariant {I : σ → Prop} (hs : ∀ s a t, I s → G s a → L.step s a t → I t) {s t : σ}
    {tr : List (σ × α × σ)} (h : Run L G s tr t) (hI : I s) : I t := by
  induction h with
  | nil => exact hI
  | snoc _ hg hst ih => exact hs _ _ _ ih hg hst

/-- A reflexive transitive relation kept by every step relates the two ends of a run; `I` is an
invariant the steps may use. -/
theorem Run.rel {I : σ → Prop} {R : σ → σ → Prop} (hR : ∀ s, R s s)
    (hT : ∀ s t t', R s t → R t t' → R s t') (hI : ∀ s a t, I s → G s a → L.step s a t → I t)
    (hs : ∀ s a t, I s → G s a → L.step s a t → R s t) {s t : σ} {tr : List (σ × α × σ)}
    (h : Run L G s tr t) (h0 : I s) : R s t := by
  induction h with
  | nil => exact hR _
  | snoc hr hg hst ih => exact hT _ _ _ ih (hs _ _ _ (hr.invariant hI h0) hg hst)

/-- Every step of a trace starts and ends at states of the invariant. -/
theorem Run.mem_invariant {I : σ → Prop} (hs : ∀ s a t, I s → G s a → L.step s a t → I t) {s t : σ}
    {tr : List (σ × α × σ)} (h : Run L G s tr t) (hI : I s) {x : σ × α × σ} (hx : x ∈ tr) :
    I x.1 ∧ I x.2.2 ∧ L.step x.1 x.2.1 x.2.2 := by
  induction h with
  | nil => simp at hx
  | snoc hr hg hst ih =>
    rcases List.mem_append.mp hx with hx | hx
    · exact ih hx
    · rw [List.mem_singleton] at hx
      subst hx
      have h1 := hr.invariant hs hI
      exact ⟨h1, hs _ _ _ h1 hg hst, hst⟩

/-- What does not hold before a run and holds after it has become true in one of its steps. -/
theorem Run.exists_step {P : σ → Prop} {s t : σ} {tr : List (σ × α × σ)} (h : Run L G s tr t) (hs : ¬ P s) (ht : P t) :
    ∃ x ∈ tr, ¬ P x.1 ∧ P x.2.2 ∧ L.step x.1 x.2.1 x.2.2 := by
  induction h with
  | nil => exact absurd ht hs
  | @snoc u t' tr a _ _ hst ih =>
    by_cases hu : P u
    · obtain ⟨x, hx, hgain⟩ := ih hu
      exact ⟨x, List.mem_append_left _ hx, hgain⟩
    · exact ⟨(u, a, t'), List.mem_append_right _ (List.mem_singleton_self _), hu, ht, hst⟩

/-- The steps of a guarded run satisfy the guard. -/
theorem Run.guard {s t : σ} {tr : List (σ × α × σ)} (h : Run L G s tr t) : ∀ x ∈ tr, G x.1 x.2.1 := by
  induction h with
  | nil => exact fun _ hx => absurd hx List.not_mem_nil
  | snoc _ hg _ ih => exact List.forall_mem_append.mpr ⟨ih, List.forall_mem_singleton.mpr hg⟩

/-- A property that holds after a step exactly under the condition `C`, which keeps the invariant, holds in all states of
a run if and only if all its steps meet `C`. -/
theorem Run.forall_iff_of_guard {I P : σ → Prop} {C : σ → α → Prop} {s t : σ} {tr : List (σ × α × σ)}
    (h : Run L G s tr t) (hI : I s) (hkeeps : ∀ s a t, I s → G s a → L.step s a t → C s a → I t)
    (hs : ∀ s a t, I s → G s a → L.step s a t → (P t ↔ C s a)) :
    (∀ x ∈ tr, P x.2.2) ↔ ∀ x ∈ tr, C x.1 x.2.1 := by
  have hlast : ((∀ x ∈ tr, P x.2.2) ↔ ∀ x ∈ tr, C x.1 x.2.1) ∧ ((∀ x ∈ tr, C x.1 x.2.1) → I t) := by
    induction h with
    | nil => exact ⟨by simp, fun _ => hI⟩
    | snoc _ hg hst ih =>
      simp only [List.forall_mem_append, List.forall_mem_singleton]
      refine ⟨?_, fun h => hkeeps _ _ _ (ih.2 h.1) hg hst h.2⟩
      rw [ih.1]
      exact and_congr_right fun hall => hs _ _ _ (ih.2 hall) hg hst
  exact hlast.1

theorem Run.forall_iff_of_keeps {I P : σ → Prop} {C : σ → α → Prop} {s t : σ} {tr : List (σ × α × σ)}
    (h : Run L G s tr t) (hI : I s) (hkeeps : ∀ s a t, I s → L.step s a t → C s a → I t)
    (hs : ∀ s a t, I s → L.step s a t → (P t ↔ C s a)) :
    (∀ x ∈ tr, P x.2.2) ↔ ∀ x ∈ tr, C x.1 x.2.1 :=
  h.forall_iff_of_guard hI (fun s a t hI _ => hkeeps s a t hI) fun s a t hI _ => hs s a t hI

/-- A property that a step keeps exactly under the condition `C` holds in all states of a run if and only if all its
steps meet `C`. -/
theorem Run.forall_iff {I : σ → Prop} {C : σ → α → Prop} {s t : σ} {tr : List (σ × α × σ)} (h : Run L G s tr t)
    (hI : I s) (hs : ∀ s a t, I s → L.step s a t → (I t ↔ C s a)) :
    (∀ x ∈ tr, I x.2.2) ↔ ∀ x ∈ tr, C x.1 x.2.1 :=
  h.forall_iff_of_keeps hI (fun s a t hI hst hC => (hs s a t hI hst).mpr hC) hs

/-- A measure that no step raises and that every marked step lowers bounds the marked steps. -/
theorem Run.countP_add_le {I : σ → Prop} (hI : ∀ s a t, I s → G s a → L.step s a t → I t)
    (mark : σ × α × σ → Bool) (μ : σ → ℕ)
    (hs : ∀ s a t, I s → G s a → L.step s a t → μ t + (if mark (s, a, t) then 1 else 0) ≤ μ s)
    {s t : σ} {tr : List (σ × α × σ)} (h : Run L G s tr t) (h0 : I s) :
    tr.countP mark + μ t ≤ μ s := by
  induction h with
  | nil => simp
  | @snoc t t' tr a hr hg hst ih =>
    have h1 := hs _ _ _ (hr.invariant hI h0) hg hst
    simp only [List.countP_append, List.countP_cons, List.countP_nil]
    omega

/-! ### Simulation -/

/-- A function under which every step is a step or a stutter maps runs to runs; a mark that the
function carries over and that no stutter bears is counted the same. -/
theorem Run.sim {I : σ → Prop} (f : σ → τ) (mark : σ × α × σ → Bool) (mark' : τ × β × τ → Bool)
    (hI : ∀ s a t, I s → G s a → L.step s a t → I t)
    (hs : ∀ s a t, I s → G s a → L.step s a t → (f t = f s ∧ mark (s, a, t) = false) ∨
      ∃ b, H (f s) b ∧ M.step (f s) b (f t) ∧ mark (s, a, t) = mark' (f s, b, f t))
    {s t : σ} {tr : List (σ × α × σ)} (h : Run L G s tr t) (h0 : I s) :
    ∃ tr', Run M H (f s) tr' (f t) ∧ tr.countP mark = tr'.countP mark' := by
  induction h with
  | nil => exact ⟨[], .nil _, rfl⟩
  | @snoc t t' tr a hr hg hst ih =>
    obtain ⟨tr', hr', hc⟩ := ih
    rcases hs _ _ _ (hr.invariant hI h0) hg hst with ⟨he, hm⟩ | ⟨b, hb, hst', hm⟩
    · refine ⟨tr', by rw [he]; exact hr', ?_⟩
      simp [List.countP_append, hc, hm]
    · refine ⟨tr' ++ [(f t, b, f t')], hr'.snoc hb hst', ?_⟩
      simp [List.countP_append, List.countP_cons, hc, hm]

theorem Reachable.sim (f : σ → τ) (h0 : ∀ s, L.init s → M.init (f s))
    (hs : ∀ s a t, L.Reachable G s → G s a → L.step s a t →
      f t = f s ∨ ∃ b, H (f s) b ∧ M.step (f s) b (f t))
    {s : σ} (h : L.Reachable G s) : M.Reachable H (f s) := by
  refine Reachable.invariant (I := fun s => M.Reachable H (f s)) (fun s hi => .init (h0 s hi)) ?_ h
  intro s a t hr hI hg hst
  rcases hs s a t hr hg hst with he | ⟨b, hb, hst'⟩
  · rw [he]; exact hI
  · exact hI.step hb hst'

/-! ### History variables -/

section History

variable {η : Type x}

/-- `L` with a history variable that starts as `h₀` and is updated by `upd` at every step. -/
def withHistory (L : LTS σ α) (h₀ : η) (upd : η → σ → α → σ → η) : LTS (σ × η) α where
  init p := L.init p.1 ∧ p.2 = h₀
  step p a q := L.step p.1 a q.1 ∧ q.2 = upd p.2 p.1 a q.1

/-- A history variable restricts no run. -/
theorem Reachable.withHistory {h₀ : η} {upd : η → σ → α → σ → η} {s : σ} (h : L.Reachable G s) :
    ∃ y, (L.withHistory h₀ upd).Reachable (fun p a => G p.1 a) (s, y) := by
  refine Reachable.invariant (I := fun s => ∃ y, (L.withHistory h₀ upd).Reachable
    (fun p a => G p.1 a) (s, y)) (fun s hi => ⟨h₀, Reachable.init ⟨hi, rfl⟩⟩) ?_ h
  rintro s a t - ⟨y, hy⟩ hg hst
  exact ⟨upd y s a t, hy.step (a := a) hg ⟨hst, rfl⟩⟩

/-- Forgetting the history gives a run of the system. -/
theorem Reachable.of_withHistory {h₀ : η} {upd : η → σ → α → σ → η} {G' : σ × η → α → Prop}
    (hG : ∀ p a, G' p a → G p.1 a) {p : σ × η} (h : (L.withHistory h₀ upd).Reachable G' p) :
    L.Reachable G p.1 := by
  refine Reachable.sim (L := L.withHistory h₀ upd) (M := L) (H := G) Prod.fst ?_ ?_ h
  · rintro p ⟨h0, -⟩
    exact h0
  · rintro p a q - hg ⟨hst, -⟩
    exact Or.inr ⟨a, hG p a hg, hst⟩

end History

/-! ### Computed systems -/

/-- The system whose steps are computed by `next`. -/
def ofStep (init : σ → Prop) (next : σ → α → Option σ) : LTS σ α where
  init := init
  step s a t := next s a = some t

/-- Runs a list of labels, each checked by `ok` before it is taken. -/
def exec (next : σ → α → Option σ) (ok : σ → α → Bool) : σ → List α → Option σ
  | s, [] => some s
  | s, a :: as => if ok s a then (next s a).bind fun t => exec next ok t as else none

theorem exec_run (init : σ → Prop) {next : σ → α → Option σ} {ok : σ → α → Bool}
    (hok : ∀ s a, ok s a = true → G s a) {as : List α} {s t : σ} (h : exec next ok s as = some t) :
    ∃ tr, Run (ofStep init next) G s tr t := by
  induction as generalizing s with
  | nil =>
    simp only [exec, Option.some.injEq] at h
    subst h
    exact ⟨[], .nil _⟩
  | cons a as ih =>
    simp only [exec, Option.ite_none_right_eq_some, Option.bind_eq_some_iff] at h
    obtain ⟨ha, u, hu, hr⟩ := h
    obtain ⟨tr, hrun⟩ := ih hr
    exact ⟨_, (Run.snoc (.nil s) (hok _ _ ha) hu).trans hrun⟩

/-- A history is computed along with the run. -/
theorem exec_withHistory {η : Type x} {init : σ → Prop} {next : σ → α → Option σ} {h₀ : η}
    {upd : η → σ → α → σ → η} {G : σ × η → α → Prop} {ok : σ × η → α → Bool}
    (hok : ∀ p a, ok p a = true → G p a) {as : List α} {s : σ} {q : σ × η} (h0 : init s)
    (h : exec (fun p a => (next p.1 a).map fun t => (t, upd p.2 p.1 a t)) ok (s, h₀) as = some q) :
    ((ofStep init next).withHistory h₀ upd).Reachable G q := by
  obtain ⟨tr, hr⟩ := exec_run (fun _ => True) hok h
  refine Run.invariant (I := fun p => ((ofStep init next).withHistory h₀ upd).Reachable G p) ?_ hr
    (.init ⟨h0, rfl⟩)
  intro p a q hp hg hst
  have hst' : (next p.1 a).map (fun t => (t, upd p.2 p.1 a t)) = some q := hst
  rw [Option.map_eq_some_iff] at hst'
  obtain ⟨t, ht, rfl⟩ := hst'
  exact hp.step (a := a) hg ⟨ht, rfl⟩

theorem exec_reachable {init : σ → Prop} {next : σ → α → Option σ} {ok : σ → α → Bool}
    (hok : ∀ s a, ok s a = true → G s a) {as : List α} {s t : σ} (h0 : init s)
    (h : exec next ok s as = some t) : (ofStep init next).Reachable G t := by
  obtain ⟨tr, hr⟩ := exec_run init hok h
  exact ⟨s, tr, h0, hr⟩

end LTS
