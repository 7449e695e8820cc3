import QtDataSync.Lib.Transition

/-!
# Lib.Past — what has happened in a run

`Since P Q tr` says that some step of the trace satisfies `P`, together with the trace before it, and that all later
ones satisfy `Q`.  It is kept step by step (`Since.snoc`), starts with a step that satisfies `P` (`Since.now`), and is
thereby the natural invariant for a value that one step stores and that others may overwrite.
-/

universe u v

namespace LTS

variable {σ : Type u} {α : Type v}

/-- `P` at some step, and `Q` ever since. -/
def Since (P : List (σ × α × σ) → σ × α × σ → Prop) (Q : σ × α × σ → Prop) (tr : List (σ × α × σ)) : Prop :=
  ∃ b y c, tr = b ++ y :: c ∧ P b y ∧ ∀ w ∈ c, Q w

namespace Since

variable {P P' : List (σ × α × σ) → σ × α × σ → Prop} {Q Q' : σ × α × σ → Prop} {tr : List (σ × α × σ)}
  {x : σ × α × σ}

theorem now (h : P tr x) : Since P Q (tr ++ [x]) := ⟨tr, x, [], rfl, h, by simp⟩

theorem snoc (h : Since P Q tr) (hx : Q x) : Since P Q (tr ++ [x]) := by
  obtain ⟨b, y, c, rfl, hp, hq⟩ := h
  refine ⟨b, y, c ++ [x], by simp, hp, fun w hw => ?_⟩
  rcases List.mem_append.mp hw with hw | hw
  · exact hq w hw
  · rw [List.mem_singleton] at hw
    subst hw
    exact hx

theorem mono (h : Since P Q tr) (hP : ∀ b y, P b y → P' b y) (hQ : ∀ w, Q w → Q' w) : Since P' Q' tr := by
  obtain ⟨b, y, c, he, hp, hq⟩ := h
  exact ⟨b, y, c, he, hP b y hp, fun w hw => hQ w (hq w hw)⟩

theorem not_nil : ¬ Since P Q [] := by
  rintro ⟨b, y, c, he, -⟩
  simp at he

/-- Either the last step is the one, or it was before and the last step is as all since. -/
theorem snoc_iff : Since P Q (tr ++ [x]) ↔ P tr x ∨ Since P Q tr ∧ Q x := by
  constructor
  · rintro ⟨b, y, c, he, hp, hq⟩
    rcases List.eq_nil_or_concat' c with rfl | ⟨c, w, rfl⟩
    · obtain ⟨rfl, rfl⟩ := List.append_singleton_inj.mp he
      exact Or.inl hp
    · have he' : tr ++ [x] = (b ++ y :: c) ++ [w] := by simpa using he
      obtain ⟨rfl, rfl⟩ := List.append_singleton_inj.mp he'
      exact Or.inr ⟨⟨b, y, c, rfl, hp, fun v hv => hq v (List.mem_append_left _ hv)⟩,
        hq x (List.mem_append_right _ (List.mem_singleton_self x))⟩
  · rintro (hp | ⟨h, hx⟩)
    · exact now hp
    · exact h.snoc hx

end Since

/-- The part of a run before one of its steps. -/
theorem Run.before {L : LTS σ α} {G : σ → α → Prop} {s t : σ} {b c : List (σ × α × σ)} {y : σ × α × σ}
    (h : Run L G s (b ++ y :: c) t) : Run L G s b y.1 ∧ G y.1 y.2.1 ∧ L.step y.1 y.2.1 y.2.2 := by
  generalize he : b ++ y :: c = tr at h
  induction h generalizing c with
  | nil => simp at he
  | @snoc t t' tr a hr hg hst ih =>
    rcases List.eq_nil_or_concat' c with rfl | ⟨c, x, rfl⟩
    · obtain ⟨rfl, rfl⟩ := List.append_singleton_inj.mp he
      exact ⟨hr, hg, hst⟩
    · refine ih (c := c) ?_
      have he' : (b ++ y :: c) ++ [x] = tr ++ [(t, a, t')] := by simpa using he
      exact (List.append_singleton_inj.mp he').1

end LTS
