import Mathlib.Data.List.Basic

/-!
# Lib.Codec — parsers that read what they consume, and self-delimiting encodings

A parser is *local* if what it reads depends only on the symbols it consumes.  A `Codec` is an encoder with a local
parser that reads every encoding back, whatever follows it, or refuses it; it may accept other spellings of a value,
but never takes an encoding for another value.  So two strings of which one begins with the other cannot hold
different values (`Codec.eq_of_comparable`), although the encoding is not the only spelling the parser accepts.

* `Codec.pmap`, `Codec.prod`, `Codec.tagged`, `Codec.vector`: how encodings are put together.
* `Codec.decode_append`, `Codec.decode_truncated`: trailing symbols are left alone, missing ones are noticed.
-/

universe u

/-- A parser of a beginning of the input. -/
abbrev Parser (β α : Type u) := StateT (List β) Option α

namespace Parser

variable {β α γ : Type u}

theorem run_bind_eq_some {p : Parser β α} {q : α → Parser β γ} {s t : List β} {c : γ} :
    (p >>= q).run s = some (c, t) ↔ ∃ a r, p.run s = some (a, r) ∧ (q a).run r = some (c, t) := by
  rw [StateT.run_bind, Option.bind_eq_bind, Option.bind_eq_some_iff]
  constructor
  · rintro ⟨⟨a, r⟩, h, h'⟩
    exact ⟨a, r, h, h'⟩
  · rintro ⟨a, r, h, h'⟩
    exact ⟨(a, r), h, h'⟩

theorem run_bind_some {p : Parser β α} {q : α → Parser β γ} {s r : List β} {a : α} (h : p.run s = some (a, r)) :
    (p >>= q).run s = (q a).run r := by
  rw [StateT.run_bind, h]
  rfl

theorem run_bind_none {p : Parser β α} {q : α → Parser β γ} {s : List β} (h : p.run s = none) :
    (p >>= q).run s = none := by
  rw [StateT.run_bind, h]
  rfl

theorem run_pure_eq_some {a b : α} {s r : List β} :
    (pure a : Parser β α).run s = some (b, r) ↔ a = b ∧ s = r := by
  rw [StateT.run_pure]
  exact ⟨fun h => by simpa using h, fun ⟨h, h'⟩ => by rw [h, h']; rfl⟩

/-- Reads nothing, and fails without a value. -/
def ofOption (o : Option α) : Parser β α := StateT.lift o

@[simp] theorem run_ofOption_some (a : α) (s : List β) : (ofOption (some a) : Parser β α).run s = some (a, s) := rfl

@[simp] theorem run_ofOption_none (s : List β) : (ofOption none : Parser β α).run s = none := rfl

theorem run_ofOption_eq_some {o : Option α} {b : α} {s r : List β} :
    (ofOption o : Parser β α).run s = some (b, r) ↔ o = some b ∧ s = r := by
  rcases o with _ | a
  · simp
  · simp

/-- The next `n` symbols. -/
def take (n : ℕ) : Parser β (List β) := fun s => if n ≤ s.length then some (s.take n, s.drop n) else none

theorem run_take_eq_some {n : ℕ} {s w r : List β} :
    (take n : Parser β (List β)).run s = some (w, r) ↔ s = w ++ r ∧ w.length = n := by
  show (if n ≤ s.length then some (s.take n, s.drop n) else none) = some (w, r) ↔ _
  constructor
  · intro h
    split at h
    · rename_i hn
      rw [Option.some.injEq, Prod.mk.injEq] at h
      obtain ⟨rfl, rfl⟩ := h
      exact ⟨(List.take_append_drop n s).symm, List.length_take_of_le hn⟩
    · exact absurd h (by simp)
  · rintro ⟨rfl, rfl⟩
    simp

theorem run_take_eq_none {n : ℕ} {s : List β} : (take n : Parser β (List β)).run s = none ↔ s.length < n := by
  show (if n ≤ s.length then some (s.take n, s.drop n) else none) = none ↔ _
  split <;> simp <;> omega

/-- What is read depends only on what is consumed. -/
def Local (p : Parser β α) : Prop :=
  ∀ ⦃s a r⦄, p.run s = some (a, r) → ∃ w, s = w ++ r ∧ ∀ r', p.run (w ++ r') = some (a, r')

theorem Local.pure (a : α) : Local (pure a : Parser β α) := by
  intro s b r h
  obtain ⟨rfl, rfl⟩ := run_pure_eq_some.mp h
  exact ⟨[], rfl, fun _ => rfl⟩

theorem Local.ofOption (o : Option α) : Local (ofOption o : Parser β α) := by
  intro s b r h
  obtain ⟨rfl, rfl⟩ := run_ofOption_eq_some.mp h
  exact ⟨[], rfl, fun _ => rfl⟩

theorem Local.take (n : ℕ) : Local (take n : Parser β (List β)) := by
  intro s w r h
  obtain ⟨hs, hw⟩ := run_take_eq_some.mp h
  exact ⟨w, hs, fun r' => run_take_eq_some.mpr ⟨rfl, hw⟩⟩

theorem Local.bind {p : Parser β α} {q : α → Parser β γ} (hp : Local p) (hq : ∀ a, Local (q a)) :
    Local (p >>= q) := by
  intro s c t h
  obtain ⟨a, r, ha, hc⟩ := run_bind_eq_some.mp h
  obtain ⟨w, rfl, hw⟩ := hp ha
  obtain ⟨w', rfl, hw'⟩ := hq a hc
  refine ⟨w ++ w', (List.append_assoc w w' t).symm, fun r' => ?_⟩
  rw [List.append_assoc, run_bind_some (hw _)]
  exact hw' r'

end Parser

/-- An encoder with a local parser that reads its encodings back or refuses them. -/
structure Codec (β α : Type u) where
  encode : α → List β
  decode : Parser β α
  /-- The values whose encodings are accepted. -/
  valid : α → Bool
  decode_local : decode.Local
  decode_encode : ∀ a r, decode.run (encode a ++ r) = if valid a then some (a, r) else none
  valid_of_decode : ∀ {s a r}, decode.run s = some (a, r) → valid a = true

namespace Codec

open Parser

variable {β α γ : Type u}

theorem decode_append (c : Codec β α) {a : α} (h : c.valid a) (r : List β) :
    c.decode.run (c.encode a ++ r) = some (a, r) := by
  rw [c.decode_encode, if_pos h]

theorem eq_of_decode_encode (c : Codec β α) {a b : α} {r t : List β}
    (h : c.decode.run (c.encode a ++ r) = some (b, t)) : b = a ∧ t = r := by
  rw [c.decode_encode] at h
  split at h
  · rw [Option.some.injEq, Prod.mk.injEq] at h
    exact ⟨h.1.symm, h.2.symm⟩
  · exact absurd h (by simp)

/-- No value is read from an encoding that has lost its end. -/
theorem decode_truncated (c : Codec β α) {a : α} {p x : List β} (h : p ++ x = c.encode a) (hx : x ≠ []) :
    c.decode.run p = none := by
  rcases hp : c.decode.run p with _ | ⟨b, r⟩
  · rfl
  · obtain ⟨w, rfl, hread⟩ := c.decode_local hp
    have hall : c.decode.run (c.encode a ++ []) = some (b, r ++ x) := by
      rw [List.append_nil, ← h, List.append_assoc]
      exact hread (r ++ x)
    exact absurd (List.append_eq_nil_iff.mp (c.eq_of_decode_encode hall).2).2 hx

/-- No symbols. -/
def unit : Codec β PUnit.{u + 1} where
  encode _ := []
  decode := pure ⟨⟩
  valid _ := true
  decode_local := Local.pure _
  decode_encode _ _ := rfl
  valid_of_decode _ := rfl

/-- So many symbols. -/
def block (n : ℕ) : Codec β {l : List β // l.length = n} where
  encode l := l.1
  decode := do
    let l ← take n
    ofOption (if h : l.length = n then some ⟨l, h⟩ else none)
  valid _ := true
  decode_local := (Local.take n).bind fun _ => Local.ofOption _
  decode_encode l r := by
    rw [run_bind_some (run_take_eq_some.mpr ⟨rfl, l.2⟩), dif_pos l.2]
    rfl
  valid_of_decode _ := rfl

theorem run_block_eq_some {n : ℕ} {s r : List β} {l : {l : List β // l.length = n}} :
    (block n).decode.run s = some (l, r) ↔ s = l.1 ++ r := by
  constructor
  · intro h
    obtain ⟨w, t, hw, h⟩ := run_bind_eq_some.mp h
    obtain ⟨hs, hn⟩ := run_take_eq_some.mp hw
    obtain ⟨ho, rfl⟩ := run_ofOption_eq_some.mp h
    rw [dif_pos hn, Option.some.injEq] at ho
    rw [← ho]
    exact hs
  · rintro rfl
    exact (block n).decode_append (a := l) rfl r

theorem run_block_eq_none {n : ℕ} {s : List β} : (block n : Codec β _).decode.run s = none ↔ s.length < n := by
  constructor
  · intro h
    by_contra hn
    have hlen : (s.take n).length = n := List.length_take_of_le (Nat.not_lt.mp hn)
    have hs : (block n).decode.run s = some (⟨s.take n, hlen⟩, s.drop n) :=
      run_block_eq_some.mpr (List.take_append_drop n s).symm
    rw [h] at hs
    exact absurd hs (by simp)
  · intro h
    exact run_bind_none (run_take_eq_none.mpr h)

/-- Values that are spelled as other values.  A spelling may be refused, but never read as another value. -/
def pmap (c : Codec β α) (f : α → Option γ) (g : γ → α) (hfg : ∀ x y, f (g x) = some y → y = x)
    (hgf : ∀ a x, f a = some x → c.valid a → f (g x) = some x ∧ c.valid (g x) = true) : Codec β γ where
  encode x := c.encode (g x)
  decode := do
    let a ← c.decode
    ofOption (f a)
  valid x := c.valid (g x) && (f (g x)).isSome
  decode_local := c.decode_local.bind fun _ => Local.ofOption _
  decode_encode x r := by
    have h := c.decode_encode (g x) r
    split at h
    · rename_i hv
      rw [run_bind_some h, hv, Bool.true_and]
      rcases hf : f (g x) with _ | y
      · rfl
      · rw [hfg x y hf]
        rfl
    · rename_i hv
      rw [Bool.not_eq_true] at hv
      rw [run_bind_none h, hv]
      rfl
  valid_of_decode := by
    intro s x r h
    obtain ⟨a, t, ha, hx⟩ := run_bind_eq_some.mp h
    obtain ⟨hg, hv⟩ := hgf a x (run_ofOption_eq_some.mp hx).1 (c.valid_of_decode ha)
    rw [hv, hg]
    rfl

/-- Values under other names. -/
def iso (c : Codec β α) (f : α → γ) (g : γ → α) (hfg : ∀ x, f (g x) = x) (hgf : ∀ a, g (f a) = a) : Codec β γ :=
  c.pmap (fun a => some (f a)) g (fun x y h => by rw [← Option.some.inj h, hfg])
    (fun a x h hv => by rw [← Option.some.inj h, hfg, hgf]; exact ⟨rfl, hv⟩)

/-- One after the other. -/
def prod (c : Codec β α) (d : Codec β γ) : Codec β (α × γ) where
  encode x := c.encode x.1 ++ d.encode x.2
  decode := do
    let a ← c.decode
    let b ← d.decode
    return (a, b)
  valid x := c.valid x.1 && d.valid x.2
  decode_local := c.decode_local.bind fun _ => d.decode_local.bind fun _ => Local.pure _
  decode_encode x r := by
    have hc := c.decode_encode x.1 (d.encode x.2 ++ r)
    have hd := d.decode_encode x.2 r
    rw [List.append_assoc]
    rcases hx : c.valid x.1 with _ | _
    · rw [hx] at hc
      exact run_bind_none hc
    · rw [hx] at hc
      rw [run_bind_some hc]
      rcases hy : d.valid x.2 with _ | _
      · rw [hy] at hd
        exact run_bind_none hd
      · rw [hy] at hd
        rw [run_bind_some hd]
        rfl
  valid_of_decode := by
    intro s x r h
    obtain ⟨a, t, ha, h⟩ := run_bind_eq_some.mp h
    obtain ⟨b, t', hb, h⟩ := run_bind_eq_some.mp h
    rw [← (run_pure_eq_some.mp h).1, c.valid_of_decode ha, d.valid_of_decode hb]
    rfl

/-- A tag, and what the tag announces. -/
def tagged {ι : Type u} (c : Codec β ι) (tag : α → ι) (d : (i : ι) → Codec β {a // tag a = i}) : Codec β α where
  encode a := c.encode (tag a) ++ (d (tag a)).encode ⟨a, rfl⟩
  decode := do
    let i ← c.decode
    let a ← (d i).decode
    return a.1
  valid a := c.valid (tag a) && (d (tag a)).valid ⟨a, rfl⟩
  decode_local := c.decode_local.bind fun i => (d i).decode_local.bind fun _ => Local.pure _
  decode_encode a r := by
    have hc := c.decode_encode (tag a) ((d (tag a)).encode ⟨a, rfl⟩ ++ r)
    have hd := (d (tag a)).decode_encode ⟨a, rfl⟩ r
    rw [List.append_assoc]
    rcases hx : c.valid (tag a) with _ | _
    · rw [hx] at hc
      exact run_bind_none hc
    · rw [hx] at hc
      rw [run_bind_some hc]
      rcases hy : (d (tag a)).valid ⟨a, rfl⟩ with _ | _
      · rw [hy] at hd
        exact run_bind_none hd
      · rw [hy] at hd
        rw [run_bind_some hd]
        rfl
  valid_of_decode := by
    intro s a r h
    obtain ⟨i, t, hi, h⟩ := run_bind_eq_some.mp h
    obtain ⟨⟨b, hb⟩, t', hd, h⟩ := run_bind_eq_some.mp h
    obtain ⟨rfl, -⟩ := run_pure_eq_some.mp h
    subst hb
    rw [c.valid_of_decode hi, (d (tag b)).valid_of_decode hd]
    rfl

/-- Values of which there are none. -/
def never (h : α → False) : Codec β α where
  encode a := (h a).elim
  decode := ofOption none
  valid _ := true
  decode_local := Local.ofOption _
  decode_encode a := (h a).elim
  valid_of_decode _ := rfl

/-- So many values of one kind. -/
def vector (c : Codec β α) : (n : ℕ) → Codec β {l : List α // l.length = n}
  | 0 => unit.iso (fun _ => ⟨[], rfl⟩) (fun _ => ⟨⟩)
      (fun l => Subtype.ext (List.length_eq_zero_iff.mp l.2).symm) (fun _ => rfl)
  | n + 1 => (c.prod (c.vector n)).iso (fun x => ⟨x.1 :: x.2.1, by rw [List.length_cons, x.2.2]⟩)
      (fun l => (l.1.head (List.ne_nil_of_length_eq_add_one l.2),
        ⟨l.1.tail, by rw [List.length_tail, l.2, Nat.add_sub_cancel]⟩))
      (fun l => Subtype.ext (List.cons_head_tail _)) (fun _ => rfl)

theorem iso_decode (c : Codec β α) (f : α → γ) (g : γ → α) (hfg : ∀ x, f (g x) = x) (hgf : ∀ a, g (f a) = a) :
    (c.iso f g hfg hgf).decode = c.decode >>= fun a => pure (f a) := rfl

theorem vector_succ_decode (c : Codec β α) (n : ℕ) :
    (c.vector (n + 1)).decode = c.decode >>= fun a => (c.vector n).decode >>= fun l =>
      pure ⟨a :: l.1, by rw [List.length_cons, l.2]⟩ := by
  show (c.decode >>= fun a => (c.vector n).decode >>= fun l => pure (a, l)) >>= _ = _
  simp only [bind_assoc, pure_bind]
  rfl

end Codec
