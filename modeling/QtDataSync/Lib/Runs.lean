import Mathlib.Logic.Basic
import Mathlib.Tactic.Common

/-!
# Lib.Runs — a small program logic for computations that throw and keep what they have done

`Runs m s Q E` says that `m` started in `s` returns a value and a state with `Q`, or throws an exception in a state
with `E`.  A state that was changed before an exception stays changed, so a `catch` block sees it.  One rule for every
form of statement; the rules take the facts about the states that follow, so that a program is run step by step.
-/

namespace QtDataSync

variable {ε σ α β : Type}

/-- The result of a computation and the state it ends in. -/
def exec (m : ExceptT ε (StateM σ) α) (s : σ) : Except ε α × σ := m.run.run s

/-- `m` started in `s` ends in a state satisfying `Q`, or with an exception in a state satisfying `E`. -/
def Runs (m : ExceptT ε (StateM σ) α) (s : σ) (Q : α → σ → Prop) (E : ε → σ → Prop) : Prop :=
  match exec m s with
  | (.ok a, t) => Q a t
  | (.error e, t) => E e t

variable {m : ExceptT ε (StateM σ) α} {s t : σ} {Q : α → σ → Prop} {E : ε → σ → Prop}

theorem Runs.mono {Q' : α → σ → Prop} {E' : ε → σ → Prop} (h : Runs m s Q E) (hQ : ∀ a t, Q a t → Q' a t)
    (hE : ∀ e t, E e t → E' e t) : Runs m s Q' E' := by
  unfold Runs at h ⊢
  generalize exec m s = r at h ⊢
  obtain ⟨e | a, t⟩ := r
  · exact hE e t h
  · exact hQ a t h

theorem Runs.ok {a : α} (h : Runs m s Q E) (hr : exec m s = (.ok a, t)) : Q a t := by
  unfold Runs at h
  rwa [hr] at h

theorem Runs.error {e : ε} (h : Runs m s Q E) (hr : exec m s = (.error e, t)) : E e t := by
  unfold Runs at h
  rwa [hr] at h

/-- A computation that throws nothing returns. -/
theorem Runs.exists_ok (h : Runs m s Q fun _ _ => False) : ∃ a t, exec m s = (.ok a, t) ∧ Q a t := by
  unfold Runs at h
  generalize exec m s = r at h ⊢
  obtain ⟨e | a, t⟩ := r
  · exact h.elim
  · exact ⟨a, t, rfl, h⟩

theorem exec_bind (m : ExceptT ε (StateM σ) α) (f : α → ExceptT ε (StateM σ) β) (s : σ) :
    exec (m >>= f) s = match exec m s with
      | (.ok a, t) => exec (f a) t
      | (.error e, t) => (.error e, t) := by
  show (ExceptT.bindCont f (exec m s).1).run (exec m s).2 = _
  rcases exec m s with ⟨_ | _, _⟩ <;> rfl

theorem exec_tryCatch (m : ExceptT ε (StateM σ) α) (handle : ε → ExceptT ε (StateM σ) α) (s : σ) :
    exec (tryCatch m handle) s = match exec m s with
      | (.ok a, t) => (.ok a, t)
      | (.error e, t) => exec (handle e) t := by
  show ((match (exec m s).1 with
    | .ok a => pure (Except.ok a)
    | .error e => handle e : StateM σ (Except ε α))).run (exec m s).2 = _
  rcases exec m s with ⟨_ | _, _⟩ <;> rfl

theorem runs_pure {a : α} (hQ : Q a s) : Runs (pure a) s Q E := hQ

theorem runs_throw {e : ε} (hE : E e s) : Runs (throw e) s Q E := hE

theorem runs_bind {f : α → ExceptT ε (StateM σ) β} {R : β → σ → Prop}
    (h : Runs m s (fun a t => Runs (f a) t R E) E) : Runs (m >>= f) s R E := by
  unfold Runs at h ⊢
  rw [exec_bind]
  generalize exec m s = r at h ⊢
  obtain ⟨e | a, t⟩ := r
  · exact h
  · exact h

theorem runs_tryCatch {handle : ε → ExceptT ε (StateM σ) α}
    (h : Runs m s Q fun e t => Runs (handle e) t Q E) : Runs (tryCatch m handle) s Q E := by
  unfold Runs at h ⊢
  rw [exec_tryCatch]
  generalize exec m s = r at h ⊢
  obtain ⟨e | a, t⟩ := r
  · exact h
  · exact h

theorem runs_modify {f : σ → σ} {Q : Unit → σ → Prop} (hQ : Q () (f s)) :
    Runs (modify f : ExceptT ε (StateM σ) Unit) s Q E := hQ

theorem runs_get {Q : σ → σ → Prop} (hQ : Q s s) : Runs (get : ExceptT ε (StateM σ) σ) s Q E := hQ

theorem runs_ite {c : Prop} [Decidable c] {m' : ExceptT ε (StateM σ) α} (hp : c → Runs m s Q E)
    (hn : ¬ c → Runs m' s Q E) : Runs (if c then m else m') s Q E := by
  by_cases h : c
  · rw [if_pos h]
    exact hp h
  · rw [if_neg h]
    exact hn h

/-! ### Relations that a computation keeps -/

/-- However `m` ends, `R` relates the state it starts in to the state it ends in. -/
def Relates (R : σ → σ → Prop) (m : ExceptT ε (StateM σ) α) : Prop :=
  ∀ s, Runs m s (fun _ t => R s t) (fun _ t => R s t)

namespace Relates

variable {R : σ → σ → Prop}

theorem runs (h : Relates R m) (s : σ) : Runs m s (fun _ t => R s t) (fun _ t => R s t) := h s

theorem exec (h : Relates R m) (s : σ) : R s (exec m s).2 := by
  have hs := h s
  unfold Runs at hs
  generalize QtDataSync.exec m s = r at hs ⊢
  obtain ⟨e | a, t⟩ := r
  · exact hs
  · exact hs

theorem pure (hR : ∀ s, R s s) (a : α) : Relates (ε := ε) R (Pure.pure a : ExceptT ε (StateM σ) α) :=
  fun s => runs_pure (hR s)

theorem throw (hR : ∀ s, R s s) (e : ε) : Relates (α := α) R (MonadExcept.throw e : ExceptT ε (StateM σ) α) :=
  fun s => runs_throw (hR s)

theorem get (hR : ∀ s, R s s) : Relates R (MonadState.get : ExceptT ε (StateM σ) σ) := fun s => runs_get (hR s)

theorem modify {f : σ → σ} (hf : ∀ s, R s (f s)) : Relates R (modify f : ExceptT ε (StateM σ) Unit) :=
  fun s => runs_modify (hf s)

theorem bind (hT : ∀ s t u, R s t → R t u → R s u) {f : α → ExceptT ε (StateM σ) β} (h : Relates R m)
    (hf : ∀ a, Relates R (f a)) : Relates R (m >>= f) := fun s =>
  runs_bind ((h s).mono (fun a t ht => (hf a t).mono (fun _ u hu => hT s t u ht hu) fun _ u hu => hT s t u ht hu)
    fun _ _ ht => ht)

theorem ite {c : Prop} [Decidable c] {m' : ExceptT ε (StateM σ) α} (hp : c → Relates R m) (hn : ¬ c → Relates R m') :
    Relates R (if c then m else m') := fun s => runs_ite (fun hc => hp hc s) fun hc => hn hc s

theorem tryCatch (hT : ∀ s t u, R s t → R t u → R s u) {handle : ε → ExceptT ε (StateM σ) α} (h : Relates R m)
    (hh : ∀ e, Relates R (handle e)) : Relates R (MonadExcept.tryCatch m handle) := fun s =>
  runs_tryCatch ((h s).mono (fun _ _ ht => ht) fun e t ht =>
    (hh e t).mono (fun _ u hu => hT s t u ht hu) fun _ u hu => hT s t u ht hu)

end Relates

end QtDataSync
