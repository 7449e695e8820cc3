import Mathlib.Data.Finset.Max
import QtDataSync.Exchange.Lane

/-!
# Exchange.Ledger — when an object that is nowhere deleted is everywhere

A ledger says of one key which object each device holds, which version it still has to send, and which change of each
sender it is still to receive.  It is `Sound` if every object that a device holds for good or is still to receive
will be superseded or is held by all other devices (`Just`).  Five kinds of steps keep that: a new version to be sent
(`raise`), an object received (`settle`), a deletion given up before it was sent (`forget`), a change that is
taken from the server (`receive`) and one that is stored there (`store`).
-/

namespace QtDataSync

namespace Lane

/-- What the devices hold, have to send and are to receive. -/
structure Ledger (Dev Data : Type*) where
  object : Dev → Option (Item Data)
  unsent : Dev → Option ℕ
  waiting : Dev → Dev → Option (Message (Item Data))

namespace Ledger

variable {Dev Data : Type*}

section

variable (L : Ledger Dev Data)

/-- The device holds `x` and has nothing to send. -/
def Settled (d : Dev) (x : Item Data) : Prop := L.object d = some x ∧ L.unsent d = none

/-- The device holds the object `x` for good, or is still to receive it as the change `i`. -/
def Bears (d : Dev) (x : Item Data) (i : ℕ) : Prop :=
  L.Settled d x ∧ i = 0 ∨
    ∃ f m, L.waiting f d = some m ∧ m.payload = x ∧ x.content ≠ none ∧ m.id = i

/-- A higher version is to be received: an object, or a deletion that was stored after the change `i`. -/
def Awaits (d : Dev) (v i : ℕ) : Prop :=
  ∃ f m, L.waiting f d = some m ∧ v < m.payload.version ∧ (m.payload.content ≠ none ∨ i < m.id)

/-- A higher version is to be received that was stored after the change `i`. -/
def AwaitsLater (d : Dev) (v i : ℕ) : Prop :=
  ∃ f m, L.waiting f d = some m ∧ v < m.payload.version ∧ i < m.id

/-- A deletion of a higher version is to be received. -/
def AwaitsDeletion (d : Dev) (v : ℕ) : Prop :=
  ∃ f m, L.waiting f d = some m ∧ m.payload.content = none ∧ v < m.payload.version

/-- A higher version is to be sent. -/
def UnsentAbove (v : ℕ) : Prop := ∃ d w, L.unsent d = some w ∧ v < w

/-- An object of this version or a higher one is to be deleted, and its device will then send the deletion. -/
def Doomed (v : ℕ) : Prop := ∃ d x, L.object d = some x ∧ v ≤ x.version ∧ L.AwaitsDeletion d v

/-- The device holds `x` or a successor, or is to receive one. -/
def Holds (d : Dev) (x : Item Data) : Prop :=
  (∃ y, L.object d = some y ∧ x ≤ y) ∨
    ∃ f m, L.waiting f d = some m ∧ m.payload.content ≠ none ∧ x ≤ m.payload

def Spread (d : Dev) (x : Item Data) : Prop := ∀ f, f ≠ d → L.Holds f x

/-- Why the object of a device does not stay there alone. -/
def Just (d : Dev) (x : Item Data) (i : ℕ) : Prop :=
  L.Awaits d x.version i ∨ L.UnsentAbove x.version ∨ L.Doomed x.version ∨ L.Spread d x

/-- Why the object that a device is to receive does not come back after another device has deleted it. -/
def Backed (d : Dev) (v i : ℕ) : Prop :=
  L.AwaitsLater d v i ∨ (∃ f w, f ≠ d ∧ L.unsent f = some w ∧ v < w) ∨
    ∃ f x, f ≠ d ∧ L.Settled f x ∧ v ≤ x.version

structure Sound : Prop where
  just : ∀ d x i, L.Bears d x i → L.Just d x i
  backed : ∀ f d m, L.waiting f d = some m → m.payload.content ≠ none →
    L.Backed d m.payload.version m.id

end

variable {L L' : Ledger Dev Data} {d f : Dev} {x y : Item Data} {v w i : ℕ}

theorem ext_some (ho : ∀ d, L.object d = L'.object d) (hu : ∀ d, L.unsent d = L'.unsent d)
    (hw : ∀ f d m, L.waiting f d = some m ↔ L'.waiting f d = some m) : L = L' := by
  obtain ⟨o, u, w⟩ := L
  obtain ⟨o', u', w'⟩ := L'
  have ho' : o = o' := funext ho
  have hu' : u = u' := funext hu
  have hw' : w = w' := by
    ext f d m
    exact hw f d m
  subst ho' hu' hw'
  rfl

theorem AwaitsLater.awaits (h : L.AwaitsLater d v i) : L.Awaits d v i := by
  obtain ⟨f, m, hm, hv, hi⟩ := h
  exact ⟨f, m, hm, hv, Or.inr hi⟩

theorem AwaitsDeletion.mono (h : L.AwaitsDeletion d w) (hv : v ≤ w) : L.AwaitsDeletion d v := by
  obtain ⟨f, m, hm, hc, hw⟩ := h
  exact ⟨f, m, hm, hc, hv.trans_lt hw⟩

theorem UnsentAbove.mono (h : L.UnsentAbove w) (hv : v ≤ w) : L.UnsentAbove v := by
  obtain ⟨d, u, hu, hw⟩ := h
  exact ⟨d, u, hu, hv.trans_lt hw⟩

theorem Doomed.mono (h : L.Doomed w) (hv : v ≤ w) : L.Doomed v := by
  obtain ⟨d, x, hx, hw, ha⟩ := h
  exact ⟨d, x, hx, hv.trans hw, ha.mono hv⟩

theorem Holds.mono (h : L.Holds d y) (hxy : x ≤ y) : L.Holds d x := by
  rcases h with ⟨z, hz, hy⟩ | ⟨f, m, hm, hc, hy⟩
  · exact Or.inl ⟨z, hz, hxy.trans hy⟩
  · exact Or.inr ⟨f, m, hm, hc, hxy.trans hy⟩

theorem Bears.holds (h : L.Bears d x i) : L.Holds d x := by
  rcases h with ⟨⟨hx, -⟩, -⟩ | ⟨f, m, hm, rfl, hc, -⟩
  · exact Or.inl ⟨x, hx, le_rfl⟩
  · exact Or.inr ⟨f, m, hm, hc, le_rfl⟩

/-- Among what a device bears there is a highest version. -/
theorem Bears.exists_max [Fintype Dev] (h : L.Bears d x i) : ∃ y j, L.Bears d y j ∧ x ≤ y ∧
    ∀ f m, L.waiting f d = some m → m.payload.content ≠ none → m.payload.version ≤ y.version := by
  classical
  let above := Finset.univ.filter fun f : Dev =>
    ∃ m, L.waiting f d = some m ∧ m.payload.content ≠ none ∧ x.version < m.payload.version
  rcases above.eq_empty_or_nonempty with hempty | hne
  · refine ⟨x, i, h, le_rfl, fun f m hm hc => ?_⟩
    by_contra hlt
    have hf : f ∈ above := Finset.mem_filter.mpr ⟨Finset.mem_univ f, m, hm, hc, not_le.mp hlt⟩
    rw [hempty] at hf
    exact absurd hf (Finset.notMem_empty f)
  · obtain ⟨f, hf, hmax⟩ := Finset.exists_max_image above
      (fun f => ((L.waiting f d).map fun m => m.payload.version).getD 0) hne
    obtain ⟨-, m, hm, hc, hlt⟩ := Finset.mem_filter.mp hf
    refine ⟨m.payload, m.id, Or.inr ⟨f, m, hm, rfl, hc, rfl⟩, Versioned.le_of_version_lt hlt,
      fun f' m' hm' hc' => ?_⟩
    by_contra hlt'
    have hf' : f' ∈ above :=
      Finset.mem_filter.mpr ⟨Finset.mem_univ f', m', hm', hc', hlt.trans (not_le.mp hlt')⟩
    have hle := hmax f' hf'
    rw [hm, hm', Option.map_some, Option.map_some, Option.getD_some, Option.getD_some] at hle
    exact hlt' hle

/-- What becomes of the highest version a device bears. -/
theorem Sound.exists_max [Fintype Dev] (h : L.Sound) (hb : L.Bears d x i) : ∃ y j, L.Bears d y j ∧ x ≤ y ∧
    (L.AwaitsLater d y.version j → L.AwaitsDeletion d y.version) ∧
    (L.AwaitsDeletion d y.version ∨ L.UnsentAbove y.version ∨ L.Doomed y.version ∨ L.Spread d y) := by
  obtain ⟨y, j, hy, hxy, hmax⟩ := hb.exists_max
  -- what is awaited is not an object
  have hdel : L.Awaits d y.version j → L.AwaitsDeletion d y.version := by
    rintro ⟨f, m, hm, hv, -⟩
    refine ⟨f, m, hm, ?_, hv⟩
    by_contra hc
    have := hmax f m hm hc
    omega
  exact ⟨y, j, hy, hxy, fun ha => hdel ha.awaits, (h.just d y j hy).imp_left hdel⟩

/-- **Agreement**: when nothing is to be sent or received, all devices hold the same. -/
theorem Sound.object_eq (h : L.Sound) (hw : ∀ f d, L.waiting f d = none) (hu : ∀ d, L.unsent d = none)
    (d f : Dev) : L.object d = L.object f := by
  have hle : ∀ d f x, L.object d = some x → ∃ y, L.object f = some y ∧ x ≤ y := by
    intro d f x hx
    rcases eq_or_ne f d with rfl | hne
    · exact ⟨x, hx, le_rfl⟩
    · rcases h.just d x 0 (Or.inl ⟨⟨hx, hu d⟩, rfl⟩) with ⟨g, m, hm, -⟩ | ⟨g, w, hg, -⟩ |
        ⟨g, z, -, -, e, m, hm, -⟩ | hs
      · rw [hw] at hm; cases hm
      · rw [hu] at hg; cases hg
      · rw [hw] at hm; cases hm
      · rcases hs f hne with hy | ⟨g, m, hm, -⟩
        · exact hy
        · rw [hw] at hm; cases hm
  rcases hd : L.object d with _ | x
  · rcases hf : L.object f with _ | y
    · rfl
    · obtain ⟨z, hz, -⟩ := hle f d y hf
      rw [hd] at hz
      cases hz
  · obtain ⟨y, hy, hxy⟩ := hle d f x hd
    obtain ⟨z, hz, hyz⟩ := hle f d y hy
    rw [hd, Option.some.injEq] at hz
    subst hz
    rw [hy, le_antisymm hxy hyz]

/-! ### What is superseded -/

/-- The objects below a bound on other devices will be superseded by what those devices are to receive. -/
def Superseded (L : Ledger Dev Data) (d : Dev) (below : Item Data → Prop) : Prop :=
  ∀ e, e ≠ d → ∀ x i, L.Bears e x i → below x → L.AwaitsLater e x.version i

/-- If everything below a bound is superseded, what a device is to receive is justified without the device. -/
theorem Sound.just_of_backed [Fintype Dev] (h : L.Sound) {below : Item Data → Prop} (hs : L.Superseded d below)
    (hbelow : ∀ y, ¬ below y → v < y.version) (hb : L.Backed d v i) :
    L.AwaitsLater d v i ∨ (∃ f w, f ≠ d ∧ L.unsent f = some w ∧ v < w) ∨
      (∃ f z, f ≠ d ∧ L.object f = some z ∧ v ≤ z.version ∧ L.AwaitsDeletion f v) ∨
      ∃ y, ¬ below y ∧ v < y.version ∧
        (L.UnsentAbove y.version ∨ L.Doomed y.version ∨ ∀ f, f ≠ d → L.Holds f y) := by
  rcases hb with ha | hu | ⟨f, r, hfd, hr, hvr⟩
  · exact Or.inl ha
  · exact Or.inr (Or.inl hu)
  · obtain ⟨y, j, hy, hry, hmax, hj⟩ := h.exists_max (Or.inl ⟨hr, rfl⟩)
    have hvy := hvr.trans (Versioned.version_mono hry)
    have hdel : L.AwaitsDeletion f y.version → ∃ f z, f ≠ d ∧ L.object f = some z ∧ v ≤ z.version ∧
        L.AwaitsDeletion f v := fun ha => ⟨f, r, hfd, hr.1, hvr, ha.mono hvy⟩
    by_cases hyb : below y
    · exact Or.inr (Or.inr (Or.inl (hdel (hmax (hs f hfd y j hy hyb)))))
    · rcases hj with ha | hu | hd | hsp
      · exact Or.inr (Or.inr (Or.inl (hdel ha)))
      · exact Or.inr (Or.inr (Or.inr ⟨y, hyb, hbelow y hyb, Or.inl hu⟩))
      · exact Or.inr (Or.inr (Or.inr ⟨y, hyb, hbelow y hyb, Or.inr (Or.inl hd)⟩))
      · refine Or.inr (Or.inr (Or.inr ⟨y, hyb, hbelow y hyb, Or.inr (Or.inr fun g _ => ?_)⟩))
        rcases eq_or_ne g f with rfl | hgf
        · exact hy.holds
        · exact hsp g hgf

/-! ### Writing the row of a device -/

section Write

variable [DecidableEq Dev]

/-- The device holds another object and has another version to send. -/
def write (L : Ledger Dev Data) (d : Dev) (o : Option (Item Data)) (u : Option ℕ) : Ledger Dev Data :=
  { L with object := Function.update L.object d o, unsent := Function.update L.unsent d u }

@[simp] theorem write_waiting (d : Dev) (o : Option (Item Data)) (u : Option ℕ) :
    (L.write d o u).waiting = L.waiting := rfl

@[simp] theorem write_object_self (d : Dev) (o : Option (Item Data)) (u : Option ℕ) :
    (L.write d o u).object d = o := Function.update_self ..

@[simp] theorem write_unsent_self (d : Dev) (o : Option (Item Data)) (u : Option ℕ) :
    (L.write d o u).unsent d = u := Function.update_self ..

theorem write_object_of_ne (h : f ≠ d) (o : Option (Item Data)) (u : Option ℕ) :
    (L.write d o u).object f = L.object f := Function.update_of_ne h ..

theorem write_unsent_of_ne (h : f ≠ d) (o : Option (Item Data)) (u : Option ℕ) :
    (L.write d o u).unsent f = L.unsent f := Function.update_of_ne h ..

@[simp] theorem write_self (d : Dev) : L.write d (L.object d) (L.unsent d) = L := by
  unfold write
  rw [Function.update_eq_self, Function.update_eq_self]

theorem settled_write_of_ne (h : f ≠ d) (o : Option (Item Data)) (u : Option ℕ) :
    (L.write d o u).Settled f x ↔ L.Settled f x := by
  unfold Settled
  rw [write_object_of_ne h, write_unsent_of_ne h]

theorem Holds.write_of_ne (h : L.Holds f x) (hne : f ≠ d) (o : Option (Item Data)) (u : Option ℕ) :
    (L.write d o u).Holds f x := by
  rcases h with ⟨y, hy, hxy⟩ | h
  · exact Or.inl ⟨y, by rw [write_object_of_ne hne, hy], hxy⟩
  · exact Or.inr h

/-- **A new version that is to be sent.** -/
theorem Sound.raise (h : L.Sound) {o : Option (Item Data)} (ho : ∀ x, L.object d = some x → x.version < w)
    (hu : ∀ v, L.unsent d = some v → v < w) : (L.write d o (some w)).Sound := by
  have habove : ∀ {v}, v < w → (L.write d o (some w)).UnsentAbove v :=
    fun hv => ⟨d, w, write_unsent_self .., hv⟩
  refine ⟨fun e x i hb => ?_, fun f e m hm hc => ?_⟩
  · have hb' : L.Bears e x i := by
      rcases hb with ⟨hs, hi⟩ | hb
      · have hed : e ≠ d := by
          rintro rfl
          rw [Settled, write_unsent_self] at hs
          cases hs.2
        exact Or.inl ⟨(settled_write_of_ne hed ..).mp hs, hi⟩
      · exact Or.inr hb
    by_cases hv : x.version < w
    · exact Or.inr (Or.inl (habove hv))
    -- from the new version on nothing has changed
    rcases h.just e x i hb' with ha | ⟨g, u, hg, hxu⟩ | ⟨g, z, hz, hxz, ha⟩ | hs
    · exact Or.inl ha
    · have hgd : g ≠ d := by
        rintro rfl
        have := hu u hg
        omega
      exact Or.inr (Or.inl ⟨g, u, by rw [write_unsent_of_ne hgd, hg], hxu⟩)
    · have hgd : g ≠ d := by
        rintro rfl
        have := ho z hz
        omega
      exact Or.inr (Or.inr (Or.inl ⟨g, z, by rw [write_object_of_ne hgd, hz], hxz, ha⟩))
    · refine Or.inr (Or.inr (Or.inr fun g hg => ?_))
      rcases eq_or_ne g d with rfl | hgd
      · rcases hs g hg with ⟨y, hy, hxy⟩ | hw
        · have h1 := ho y hy
          have h2 := Versioned.version_mono hxy
          omega
        · exact Or.inr hw
      · exact (hs g hg).write_of_ne hgd ..
  · rcases h.backed f e m hm hc with ha | ⟨g, u, hge, hg, hv⟩ | ⟨g, z, hge, hz, hv⟩
    · exact Or.inl ha
    · rcases eq_or_ne g d with rfl | hgd
      · exact Or.inr (Or.inl ⟨g, w, hge, write_unsent_self .., hv.trans (hu u hg)⟩)
      · exact Or.inr (Or.inl ⟨g, u, hge, by rw [write_unsent_of_ne hgd, hg], hv⟩)
    · rcases eq_or_ne g d with rfl | hgd
      · exact Or.inr (Or.inl ⟨g, w, hge, write_unsent_self .., hv.trans_lt (ho z hz.1)⟩)
      · exact Or.inr (Or.inr ⟨g, z, hge, (settled_write_of_ne hgd ..).mpr hz, hv⟩)

/-- A device that is to receive `y` takes it over: what is not above `y` stays justified. -/
theorem Sound.just_settle [Fintype Dev] (h : L.Sound) (hb : L.Bears d y i)
    (ho : ∀ x, L.object d = some x → x ≤ y) (hu : ∀ v, L.unsent d = some v → v ≤ y.version) (e : Dev) (j : ℕ)
    (hxy : x ≤ y) : (L.write d (some y) none).Just e x j := by
  have hxv := Versioned.version_mono hxy
  obtain ⟨q, k, -, hyq, -, hq⟩ := h.exists_max hb
  have hqv := Versioned.version_mono hyq
  have hdoomed : L.AwaitsDeletion d q.version → (L.write d (some y) none).Doomed x.version :=
    fun ha => ⟨d, y, write_object_self .., hxv, ha.mono (hxv.trans hqv)⟩
  rcases hq with ha | ⟨g, u, hg, hlt⟩ | ⟨g, z, hz, hle, ha⟩ | hs
  · exact Or.inr (Or.inr (Or.inl (hdoomed ha)))
  · have hgd : g ≠ d := by
      rintro rfl
      have := hu u hg
      omega
    exact Or.inr (Or.inl ⟨g, u, by rw [write_unsent_of_ne hgd, hg], by omega⟩)
  · rcases eq_or_ne g d with rfl | hgd
    · exact Or.inr (Or.inr (Or.inl (hdoomed ha)))
    · refine Or.inr (Or.inr (Or.inl ⟨g, z, by rw [write_object_of_ne hgd, hz], by omega, ?_⟩))
      exact ha.mono (hxv.trans hqv)
  · refine Or.inr (Or.inr (Or.inr fun g _ => ?_))
    rcases eq_or_ne g d with rfl | hgd
    · exact Or.inl ⟨y, write_object_self .., hxy⟩
    · exact ((hs g hgd).mono (hxy.trans hyq)).write_of_ne hgd ..

/-- **A received object is stored**, while it still counts as to be received. -/
theorem Sound.settle [Fintype Dev] (h : L.Sound) {m : Message (Item Data)} (hm : L.waiting f d = some m)
    (hc : m.payload.content ≠ none) (ho : ∀ x, L.object d = some x → x ≤ m.payload)
    (hu : ∀ v, L.unsent d = some v → v ≤ m.payload.version) : (L.write d (some m.payload) none).Sound := by
  have hb : L.Bears d m.payload m.id := Or.inr ⟨f, m, hm, rfl, hc, rfl⟩
  have hjust := fun {x} e j => h.just_settle (x := x) hb ho hu e j
  refine ⟨fun e x i hx => ?_, fun g e m' hm' hc' => ?_⟩
  · have hx' : x ≤ m.payload ∨ L.Bears e x i := by
      rcases hx with ⟨hs, hi⟩ | hx
      · rcases eq_or_ne e d with rfl | hed
        · rw [Settled, write_object_self, Option.some.injEq] at hs
          exact Or.inl hs.1.ge
        · exact Or.inr (Or.inl ⟨(settled_write_of_ne hed ..).mp hs, hi⟩)
      · exact Or.inr (Or.inr hx)
    rcases hx' with hxy | hx'
    · exact hjust e i hxy
    rcases h.just e x i hx' with ha | ⟨g, u, hg, hlt⟩ | ⟨g, z, hz, hle, ha⟩ | hs
    · exact Or.inl ha
    · rcases eq_or_ne g d with rfl | hgd
      · exact hjust e i (Versioned.le_of_version_lt (hlt.trans_le (hu u hg)))
      · exact Or.inr (Or.inl ⟨g, u, by rw [write_unsent_of_ne hgd, hg], hlt⟩)
    · rcases eq_or_ne g d with rfl | hgd
      · have hzy := Versioned.version_mono (ho z hz)
        exact Or.inr (Or.inr (Or.inl ⟨g, m.payload, write_object_self .., hle.trans hzy, ha⟩))
      · exact Or.inr (Or.inr (Or.inl ⟨g, z, by rw [write_object_of_ne hgd, hz], hle, ha⟩))
    · refine Or.inr (Or.inr (Or.inr fun g hg => ?_))
      rcases eq_or_ne g d with rfl | hgd
      · rcases hs g hg with ⟨z, hz, hxz⟩ | hw
        · exact Or.inl ⟨m.payload, write_object_self .., hxz.trans (ho z hz)⟩
        · exact Or.inr hw
      · exact (hs g hg).write_of_ne hgd ..
  · have hself : (L.write d (some m.payload) none).Settled d m.payload :=
      ⟨write_object_self .., write_unsent_self ..⟩
    rcases h.backed g e m' hm' hc' with ha | ⟨k, u, hke, hk, hv⟩ | ⟨k, z, hke, hz, hv⟩
    · exact Or.inl ha
    · rcases eq_or_ne k d with rfl | hkd
      · exact Or.inr (Or.inr ⟨k, m.payload, hke, hself, (hv.trans_le (hu u hk)).le⟩)
      · exact Or.inr (Or.inl ⟨k, u, hke, by rw [write_unsent_of_ne hkd, hk], hv⟩)
    · rcases eq_or_ne k d with rfl | hkd
      · exact Or.inr (Or.inr ⟨k, m.payload, hke, hself, hv.trans (Versioned.version_mono (ho z hz.1))⟩)
      · exact Or.inr (Or.inr ⟨k, z, hke, (settled_write_of_ne hkd ..).mpr hz, hv⟩)

/-- **A deletion is given up before it was sent**: what it would have deleted on other devices is superseded. -/
theorem Sound.forget [Fintype Dev] (h : L.Sound) (ho : L.object d = none)
    (hs : ∀ w, L.unsent d = some w → L.Superseded d fun x => x.version < w) : (L.write d none none).Sound := by
  have hnot : ∀ g x, L.object g = some x → g ≠ d := by
    rintro g x hx rfl
    rw [ho] at hx
    cases hx
  have hdoomed : ∀ {v}, L.Doomed v → (L.write d none none).Doomed v := by
    rintro v ⟨g, z, hz, hv, ha⟩
    exact ⟨g, z, by rw [write_object_of_ne (hnot g z hz), hz], hv, ha⟩
  refine ⟨fun e x i hb => ?_, fun f e m hm hc => ?_⟩
  · have hb' : L.Bears e x i := by
      rcases hb with ⟨hx, hi⟩ | hb
      · have hed : e ≠ d := by
          rintro rfl
          rw [Settled, write_object_self] at hx
          cases hx.1
        exact Or.inl ⟨(settled_write_of_ne hed ..).mp hx, hi⟩
      · exact Or.inr hb
    rcases h.just e x i hb' with ha | ⟨g, w, hg, hlt⟩ | ha | hsp
    · exact Or.inl ha
    · rcases eq_or_ne g d with rfl | hgd
      · rcases eq_or_ne e g with rfl | heg
        · -- what the device is still to receive itself
          obtain ⟨f, m, hm, rfl, hc, rfl⟩ := hb'.resolve_left fun hx => hnot e x hx.1.1 rfl
          rcases h.just_of_backed (hs w hg) (fun y hy => hlt.trans_le (not_lt.mp hy)) (h.backed f e m hm hc) with
            ha | ⟨k, u, hke, hk, hu⟩ | ⟨k, z, hke, hz, hv, ha⟩ | ⟨y, hy, hv, hy'⟩
          · exact Or.inl ha.awaits
          · exact Or.inr (Or.inl ⟨k, u, by rw [write_unsent_of_ne hke, hk], hu⟩)
          · exact Or.inr (Or.inr (Or.inl (hdoomed ⟨k, z, hz, hv, ha⟩)))
          · rcases hy' with ⟨k, u, hk, hu⟩ | hd | hh
            · have hke : k ≠ e := by
                rintro rfl
                rw [hg, Option.some.injEq] at hk
                omega
              exact Or.inr (Or.inl ⟨k, u, by rw [write_unsent_of_ne hke, hk], hv.trans hu⟩)
            · exact Or.inr (Or.inr (Or.inl ((hdoomed hd).mono hv.le)))
            · exact Or.inr (Or.inr (Or.inr fun k hk =>
                ((hh k hk).mono (Versioned.le_of_version_lt hv)).write_of_ne hk ..))
        · have ha := hs w hg e heg x i hb' hlt
          exact Or.inl ha.awaits
      · exact Or.inr (Or.inl ⟨g, w, by rw [write_unsent_of_ne hgd, hg], hlt⟩)
    · exact Or.inr (Or.inr (Or.inl (hdoomed ha)))
    · refine Or.inr (Or.inr (Or.inr fun g hg => ?_))
      rcases hsp g hg with ⟨y, hy, hxy⟩ | hw
      · exact Or.inl ⟨y, by rw [write_object_of_ne (hnot g y hy), hy], hxy⟩
      · exact Or.inr hw
  · rcases h.backed f e m hm hc with ha | ⟨g, w, hge, hg, hv⟩ | ⟨g, z, hge, hz, hv⟩
    · exact Or.inl ha
    · rcases eq_or_ne g d with rfl | hgd
      · exact Or.inl (hs w hg e hge.symm m.payload m.id (Or.inr ⟨f, m, hm, rfl, hc, rfl⟩) hv)
      · exact Or.inr (Or.inl ⟨g, w, hge, by rw [write_unsent_of_ne hgd, hg], hv⟩)
    · exact Or.inr (Or.inr ⟨g, z, hge, (settled_write_of_ne (hnot g z hz.1) ..).mpr hz, hv⟩)

end Write

/-! ### Taking a change from the server -/

section Drop

variable [DecidableEq Dev]

/-- The change of a sender is no longer to be received. -/
def drop (L : Ledger Dev Data) (f d : Dev) : Ledger Dev Data :=
  { L with waiting := Function.update L.waiting f (Function.update (L.waiting f) d none) }

@[simp] theorem drop_object (f d : Dev) : (L.drop f d).object = L.object := rfl

@[simp] theorem drop_unsent (f d : Dev) : (L.drop f d).unsent = L.unsent := rfl

theorem waiting_drop_of_ne {g e : Dev} (h : ¬ (g = f ∧ e = d)) : (L.drop f d).waiting g e = L.waiting g e := by
  unfold drop
  by_cases hg : g = f
  · subst hg
    have he : e ≠ d := fun he => h ⟨rfl, he⟩
    show Function.update L.waiting g _ g e = _
    rw [Function.update_self, Function.update_of_ne he]
  · show Function.update L.waiting f _ g e = _
    rw [Function.update_of_ne hg]

theorem of_waiting_drop {g e : Dev} {m : Message (Item Data)} (h : (L.drop f d).waiting g e = some m) :
    L.waiting g e = some m := by
  by_cases hge : g = f ∧ e = d
  · obtain ⟨rfl, rfl⟩ := hge
    simp [drop] at h
  · rwa [waiting_drop_of_ne hge] at h

variable {m₀ : Message (Item Data)} (hm₀ : L.waiting f d = some m₀)
include hm₀

/-- What waits still does, or it was taken. -/
theorem waiting_drop {g e : Dev} {m : Message (Item Data)} (h : L.waiting g e = some m) :
    (L.drop f d).waiting g e = some m ∨ e = d ∧ m = m₀ := by
  by_cases hge : g = f ∧ e = d
  · obtain ⟨rfl, rfl⟩ := hge
    rw [hm₀, Option.some.injEq] at h
    exact Or.inr ⟨rfl, h.symm⟩
  · exact Or.inl (by rw [waiting_drop_of_ne hge, h])

theorem Awaits.drop {e : Dev} (h : L.Awaits e v i) : (L.drop f d).Awaits e v i ∨
    e = d ∧ v < m₀.payload.version ∧ (m₀.payload.content ≠ none ∨ i < m₀.id) := by
  obtain ⟨g, m, hm, hv, hc⟩ := h
  rcases waiting_drop hm₀ hm with hm | ⟨he, rfl⟩
  · exact Or.inl ⟨g, m, hm, hv, hc⟩
  · exact Or.inr ⟨he, hv, hc⟩

theorem AwaitsLater.drop {e : Dev} (h : L.AwaitsLater e v i) (hi : e = d → m₀.id ≤ i) :
    (L.drop f d).AwaitsLater e v i := by
  obtain ⟨g, m, hm, hv, hlt⟩ := h
  rcases waiting_drop hm₀ hm with hm | ⟨he, rfl⟩
  · exact ⟨g, m, hm, hv, hlt⟩
  · have := hi he
    omega

theorem AwaitsDeletion.drop {e : Dev} (h : L.AwaitsDeletion e v) : (L.drop f d).AwaitsDeletion e v ∨
    e = d ∧ m₀.payload.content = none ∧ v < m₀.payload.version := by
  obtain ⟨g, m, hm, hc, hv⟩ := h
  rcases waiting_drop hm₀ hm with hm | ⟨he, rfl⟩
  · exact Or.inl ⟨g, m, hm, hc, hv⟩
  · exact Or.inr ⟨he, hc, hv⟩

theorem Doomed.drop (h : L.Doomed v) : (L.drop f d).Doomed v ∨
    m₀.payload.content = none ∧ v < m₀.payload.version ∧ ∃ z, L.object d = some z ∧ v ≤ z.version := by
  obtain ⟨g, z, hz, hv, ha⟩ := h
  rcases ha.drop hm₀ with ha | ⟨rfl, hc, hlt⟩
  · exact Or.inl ⟨g, z, hz, hv, ha⟩
  · exact Or.inr ⟨hc, hlt, z, hz, hv⟩

theorem Holds.drop {e : Dev} (h : L.Holds e x) : (L.drop f d).Holds e x ∨
    e = d ∧ m₀.payload.content ≠ none ∧ x ≤ m₀.payload := by
  rcases h with hy | ⟨g, m, hm, hc, hx⟩
  · exact Or.inl (Or.inl hy)
  · rcases waiting_drop hm₀ hm with hm | ⟨he, rfl⟩
    · exact Or.inl (Or.inr ⟨g, m, hm, hc, hx⟩)
    · exact Or.inr ⟨he, hc, hx⟩

/-- A device takes a change that is not above what it holds for good: what is not above that stays justified. -/
theorem Sound.just_drop [Fintype Dev] (h : L.Sound) (hs : L.Settled d y)
    (hy : m₀.payload.content = none → m₀.payload.version < y.version) (e : Dev) (hxy : x ≤ y) :
    (L.drop f d).Just e x i := by
  have hxv := Versioned.version_mono hxy
  obtain ⟨q, k, -, hyq, -, hq⟩ := h.exists_max (Or.inl ⟨hs, rfl⟩)
  have hqv := Versioned.version_mono hyq
  have hdeletion : ∀ {g}, L.AwaitsDeletion g q.version → (L.drop f d).AwaitsDeletion g x.version := by
    intro g ha
    rcases ha.drop hm₀ with ha | ⟨-, hc, hlt⟩
    · exact ha.mono (hxv.trans hqv)
    · have := hy hc
      omega
  rcases hq with ha | hu | ⟨g, z, hz, hle, ha⟩ | hsp
  · exact Or.inr (Or.inr (Or.inl ⟨d, y, hs.1, hxv, hdeletion ha⟩))
  · exact Or.inr (Or.inl (hu.mono (hxv.trans hqv)))
  · exact Or.inr (Or.inr (Or.inl ⟨g, z, hz, by omega, hdeletion ha⟩))
  · refine Or.inr (Or.inr (Or.inr fun g _ => ?_))
    rcases eq_or_ne g d with rfl | hgd
    · exact Or.inl ⟨y, hs.1, hxy⟩
    · rcases (hsp g hgd).drop hm₀ with hh | ⟨hg, -⟩
      · exact hh.mono (hxy.trans hyq)
      · exact absurd hg hgd

/-- **A change is received** that is not above what the device holds for good or has to send; if the device holds
no object it drops a deletion, and an object only if all that is not above it is superseded. -/
theorem Sound.receive [Fintype Dev] (h : L.Sound) (horder : ∀ g m, L.waiting g d = some m → m₀.id ≤ m.id)
    (hspent : (∃ y, L.Settled d y ∧ y.content ≠ none ∧ m₀.payload ≤ y) ∨
      (∃ w, L.unsent d = some w ∧ m₀.payload.version ≤ w ∧
        (m₀.payload.content ≠ none → m₀.payload.version < w)) ∨
      L.object d = none ∧ (m₀.payload.content ≠ none → L.Superseded d (· ≤ m₀.payload))) :
    (L.drop f d).Sound := by
  have hdel : ∀ {y : Item Data}, y.content ≠ none → m₀.payload ≤ y → m₀.payload.content = none →
      m₀.payload.version < y.version := by
    rintro y hy (hlt | rfl) hc
    · exact hlt
    · exact absurd hc hy
  refine ⟨fun e x i hb' => ?_, fun g e m hm hc => ?_⟩
  · have hb : L.Bears e x i := by
      rcases hb' with hs | ⟨g, m, hm, hb⟩
      · exact Or.inl hs
      · exact Or.inr ⟨g, m, of_waiting_drop hm, hb⟩
    -- the taken change was the first of those to be received
    have hid : e = d → L.Settled d x ∨ m₀.id ≤ i ∧ L.Backed d x.version i := by
      rintro rfl
      rcases hb with ⟨hs, -⟩ | ⟨g, m, hm, rfl, hc, rfl⟩
      · exact Or.inl hs
      · exact Or.inr ⟨horder g m hm, h.backed g e m hm hc⟩
    rcases h.just e x i hb with ha | hu | hd | hsp
    · rcases ha.drop hm₀ with ha | ⟨rfl, hv, hc⟩
      · exact Or.inl ha
      rcases hspent with ⟨y, hs, hy, hle⟩ | ⟨w, hw, hle, -⟩ | ⟨ho, hsup⟩
      · exact h.just_drop hm₀ hs (hdel hy hle) e
          (Versioned.le_of_version_lt (hv.trans_le (Versioned.version_mono hle)))
      · exact Or.inr (Or.inl ⟨e, w, hw, hv.trans_le hle⟩)
      · -- only the device itself has received it
        rcases hid rfl with hs | ⟨hi, hbk⟩
        · rw [Settled, ho] at hs
          cases hs.1
        have hc' := hc.resolve_right (by omega)
        have hbelow : ∀ y : Item Data, ¬ y ≤ m₀.payload → x.version < y.version := by
          intro y hy
          by_contra hlt
          exact hy (Versioned.le_of_version_lt ((not_lt.mp hlt).trans_lt hv))
        rcases h.just_of_backed (hsup hc') hbelow hbk with ha | ⟨k, u, -, hk, hu⟩ | ⟨k, z, hk, hz, hxz, ha⟩ |
          ⟨y, -, hxy, hy⟩
        · exact Or.inl (ha.drop hm₀ fun _ => hi).awaits
        · exact Or.inr (Or.inl ⟨k, u, hk, hu⟩)
        · rcases ha.drop hm₀ with ha | ⟨hke, -⟩
          · exact Or.inr (Or.inr (Or.inl ⟨k, z, hz, hxz, ha⟩))
          · exact absurd hke hk
        · rcases hy with hu | hd | hh
          · exact Or.inr (Or.inl (hu.mono hxy.le))
          · rcases hd.drop hm₀ with hd | ⟨hn, -⟩
            · exact Or.inr (Or.inr (Or.inl (hd.mono hxy.le)))
            · exact absurd hn hc'
          · refine Or.inr (Or.inr (Or.inr fun k hk => ?_))
            rcases (hh k hk).drop hm₀ with hh | ⟨hke, -⟩
            · exact hh.mono (Versioned.le_of_version_lt hxy)
            · exact absurd hke hk
    · exact Or.inr (Or.inl hu)
    · rcases hd.drop hm₀ with hd | ⟨hn, hv, z, hz, -⟩
      · exact Or.inr (Or.inr (Or.inl hd))
      rcases hspent with ⟨y, hs, hy, hle⟩ | ⟨w, hw, hle, -⟩ | ⟨ho, -⟩
      · exact h.just_drop hm₀ hs (hdel hy hle) e
          (Versioned.le_of_version_lt (hv.trans_le (Versioned.version_mono hle)))
      · exact Or.inr (Or.inl ⟨d, w, hw, hv.trans_le hle⟩)
      · rw [ho] at hz
        cases hz
    · by_cases hall : ∀ g, g ≠ e → (L.drop f d).Holds g x
      · exact Or.inr (Or.inr (Or.inr hall))
      -- another device was to hold it by the taken change
      push Not at hall
      obtain ⟨g, hge, hg⟩ := hall
      obtain ⟨rfl, hc, hx⟩ := ((hsp g hge).drop hm₀).resolve_left hg
      rcases hspent with ⟨y, hs, -, hle⟩ | ⟨w, hw, -, hlt⟩ | ⟨-, hsup⟩
      · exact absurd (Or.inl ⟨y, hs.1, hx.trans hle⟩) hg
      · exact Or.inr (Or.inl ⟨g, w, hw, (Versioned.version_mono hx).trans_lt (hlt hc)⟩)
      · have ha := hsup hc e hge.symm x i hb hx
        exact Or.inl (ha.drop hm₀ fun he => absurd he.symm hge).awaits
  · have hm' := of_waiting_drop hm
    rcases h.backed g e m hm' hc with ha | hu | hs
    · refine Or.inl (ha.drop hm₀ ?_)
      rintro rfl
      exact horder g m hm'
    · exact Or.inr (Or.inl hu)
    · exact Or.inr (Or.inr hs)

end Drop

/-! ### Storing a change on the server -/

section Store

variable [DecidableEq Dev]

/-- The server stores a change of a device for all other devices, instead of the one stored before. -/
def store (L : Ledger Dev Data) (d : Dev) (m : Message (Item Data)) : Ledger Dev Data where
  object := L.object
  unsent := Function.update L.unsent d (if L.unsent d = some m.payload.version then none else L.unsent d)
  waiting := Function.update L.waiting d fun e => if e = d then none else some m

variable {m₀ : Message (Item Data)}

@[simp] theorem store_object : (L.store d m₀).object = L.object := rfl

theorem unsent_store_of_ne (h : f ≠ d) : (L.store d m₀).unsent f = L.unsent f := Function.update_of_ne h ..

theorem unsent_store_self (h : L.unsent d ≠ some m₀.payload.version) :
    (L.store d m₀).unsent d = L.unsent d := by
  show Function.update L.unsent d _ d = _
  rw [Function.update_self, if_neg h]

theorem unsent_store_sent (h : L.unsent d = some m₀.payload.version) : (L.store d m₀).unsent d = none := by
  show Function.update L.unsent d _ d = _
  rw [Function.update_self, if_pos h]

theorem waiting_store_of_ne (h : f ≠ d) (e : Dev) : (L.store d m₀).waiting f e = L.waiting f e := by
  show Function.update L.waiting d _ f e = _
  rw [Function.update_of_ne h]

theorem waiting_store_self {e : Dev} (h : e ≠ d) : (L.store d m₀).waiting d e = some m₀ := by
  show Function.update L.waiting d _ d e = _
  rw [Function.update_self, if_neg h]

theorem of_waiting_store {g e : Dev} {m : Message (Item Data)} (h : (L.store d m₀).waiting g e = some m) :
    g ≠ d ∧ L.waiting g e = some m ∨ g = d ∧ e ≠ d ∧ m = m₀ := by
  rcases eq_or_ne g d with rfl | hg
  · rcases eq_or_ne e g with rfl | he
    · simp [store] at h
    · rw [waiting_store_self he, Option.some.injEq] at h
      exact Or.inr ⟨rfl, he, h.symm⟩
  · rw [waiting_store_of_ne hg] at h
    exact Or.inl ⟨hg, h⟩

/-- What the device has to send above the stored version stays. -/
theorem unsent_store_of_lt {g : Dev} {w : ℕ} (hg : L.unsent g = some w) (hw : m₀.payload.version < w) :
    (L.store d m₀).unsent g = some w := by
  rcases eq_or_ne g d with rfl | hgd
  · rw [unsent_store_self, hg]
    rw [hg, ne_eq, Option.some.injEq]
    omega
  · rw [unsent_store_of_ne hgd, hg]

theorem Settled.store (h : L.Settled f x) : (L.store d m₀).Settled f x := by
  refine ⟨h.1, ?_⟩
  rcases eq_or_ne f d with rfl | hf
  · rw [unsent_store_self, h.2]
    rw [h.2]
    exact (nomatch ·)
  · rw [unsent_store_of_ne hf, h.2]

theorem of_settled_store (h : (L.store d m₀).Settled f x) :
    L.Settled f x ∨ f = d ∧ L.unsent d = some m₀.payload.version := by
  rcases eq_or_ne f d with rfl | hf
  · by_cases hu : L.unsent f = some m₀.payload.version
    · exact Or.inr ⟨rfl, hu⟩
    · rw [Settled, unsent_store_self hu] at h
      exact Or.inl h
  · rw [Settled, unsent_store_of_ne hf] at h
    exact Or.inl h

/-- How a change that is about to be stored relates to its device and to the change it replaces. -/
structure Storable (L : Ledger Dev Data) (d : Dev) (m : Message (Item Data)) : Prop where
  id_pos : 0 < m.id
  waiting_lt : ∀ f e m', L.waiting f e = some m' → m'.id < m.id
  waiting_self : L.waiting d d = none
  /-- What still waits is replaced by a successor only. -/
  replaces : ∀ e m', L.waiting d e = some m' → m'.payload ≤ m.payload
  unsent_le : ∀ w, L.unsent d = some w → m.payload.version ≤ w
  object_le : ∀ y, L.object d = some y → m.payload.version ≤ y.version
  unsent_object : L.unsent d = some m.payload.version →
    L.object d = if m.payload.content.isSome then some m.payload else none
  object : m.payload.content ≠ none → (∃ y, L.object d = some y ∧ m.payload ≤ y) ∨
    ∃ w, L.unsent d = some w ∧ m.payload.version < w

variable (hm : L.Storable d m₀)
include hm

/-- What waited still does, or its successor has taken its place. -/
theorem Storable.waiting {g e : Dev} {m : Message (Item Data)} (h : L.waiting g e = some m) :
    (L.store d m₀).waiting g e = some m ∨
      (L.store d m₀).waiting d e = some m₀ ∧ e ≠ d ∧ m.payload ≤ m₀.payload ∧ m.id < m₀.id := by
  rcases eq_or_ne g d with rfl | hg
  · have he : e ≠ g := by
      rintro rfl
      rw [hm.waiting_self] at h
      cases h
    exact Or.inr ⟨waiting_store_self he, he, hm.replaces e m h, hm.waiting_lt g e m h⟩
  · exact Or.inl (by rw [waiting_store_of_ne hg, h])

theorem Storable.awaitsLater {e : Dev} (h : L.AwaitsLater e v i) : (L.store d m₀).AwaitsLater e v i := by
  obtain ⟨g, m, hgm, hv, hi⟩ := h
  rcases hm.waiting hgm with hgm | ⟨hgm, -, hle, hlt⟩
  · exact ⟨g, m, hgm, hv, hi⟩
  · exact ⟨d, m₀, hgm, hv.trans_le (Versioned.version_mono hle), hi.trans hlt⟩

/-- Above the stored change nothing was replaced. -/
theorem Storable.awaits {e : Dev} (h : L.Awaits e v i) (hv : m₀.payload.version ≤ v) :
    (L.store d m₀).Awaits e v i := by
  obtain ⟨g, m, hgm, hlt, hc⟩ := h
  rcases hm.waiting hgm with hgm | ⟨-, -, hle, -⟩
  · exact ⟨g, m, hgm, hlt, hc⟩
  · have := Versioned.version_mono hle
    omega

theorem Storable.awaitsDeletion {e : Dev} (h : L.AwaitsDeletion e v) (hv : m₀.payload.version ≤ v) :
    (L.store d m₀).AwaitsDeletion e v := by
  obtain ⟨g, m, hgm, hc, hlt⟩ := h
  rcases hm.waiting hgm with hgm | ⟨-, -, hle, -⟩
  · exact ⟨g, m, hgm, hc, hlt⟩
  · have := Versioned.version_mono hle
    omega

theorem Storable.holds {e : Dev} (h : L.Holds e x) (hv : m₀.payload.version ≤ x.version) :
    (L.store d m₀).Holds e x := by
  rcases h with hy | ⟨g, m, hgm, hc, hx⟩
  · exact Or.inl hy
  rcases hm.waiting hgm with hgm | ⟨hgm, -, hle, -⟩
  · exact Or.inr ⟨g, m, hgm, hc, hx⟩
  · have hxm := Versioned.version_mono hx
    have heq := Versioned.eq_of_le hle (hv.trans hxm)
    exact Or.inr ⟨d, m₀, hgm, heq ▸ hc, hx.trans hle⟩

/-- The object of the stored change is held by its device and will be by the others, unless a newer one is sent. -/
theorem Storable.just_self (hc : m₀.payload.content ≠ none) (hx : x ≤ m₀.payload) (e : Dev) (i : ℕ) :
    (L.store d m₀).Just e x i := by
  have hxv := Versioned.version_mono hx
  rcases hm.object hc with ⟨y, hy, hle⟩ | ⟨w, hw, hlt⟩
  · refine Or.inr (Or.inr (Or.inr fun g _ => ?_))
    rcases eq_or_ne g d with rfl | hg
    · exact Or.inl ⟨y, hy, hx.trans hle⟩
    · exact Or.inr ⟨d, m₀, waiting_store_self hg, hc, hx⟩
  · exact Or.inr (Or.inl ⟨d, w, unsent_store_of_lt hw hlt, by omega⟩)

/-- After storing the change its device holds the object for good or has a newer version to send. -/
theorem Storable.backed_self (hc : m₀.payload.content ≠ none) {e : Dev} (he : e ≠ d) :
    (L.store d m₀).Backed e m₀.payload.version i := by
  rcases hm.object hc with ⟨y, hy, hle⟩ | ⟨w, hw, hlt⟩
  · have hyv := Versioned.version_mono hle
    cases hu : L.unsent d with
    | none => exact Or.inr (Or.inr ⟨d, y, he.symm, Settled.store ⟨hy, hu⟩, hyv⟩)
    | some w =>
      rcases (hm.unsent_le w hu).eq_or_lt with heq | hlt
      · exact Or.inr (Or.inr ⟨d, y, he.symm, ⟨hy, unsent_store_sent (by rw [hu, heq])⟩, hyv⟩)
      · exact Or.inr (Or.inl ⟨d, w, he.symm, unsent_store_of_lt hu hlt, hlt⟩)
  · exact Or.inr (Or.inl ⟨d, w, he.symm, unsent_store_of_lt hw hlt, hlt⟩)

/-- What the devices bear after the step: what they bore before, or the object of the stored change. -/
theorem Storable.of_bears {e : Dev} (h : (L.store d m₀).Bears e x i) :
    L.Bears e x i ∧ i < m₀.id ∨ m₀.payload.content ≠ none ∧ x = m₀.payload := by
  rcases h with ⟨hs, rfl⟩ | ⟨g, m, hgm, rfl, hc, rfl⟩
  · rcases of_settled_store hs with hs' | ⟨rfl, hu⟩
    · exact Or.inl ⟨Or.inl ⟨hs', rfl⟩, hm.id_pos⟩
    · have ho : L.object e = some x := hs.1
      rw [hm.unsent_object hu] at ho
      split_ifs at ho with hc
      cases ho
      exact Or.inr ⟨Option.isSome_iff_ne_none.mp hc, rfl⟩
  · rcases of_waiting_store hgm with ⟨-, hgm⟩ | ⟨-, -, rfl⟩
    · exact Or.inl ⟨Or.inr ⟨g, m, hgm, rfl, hc, rfl⟩, hm.waiting_lt g e m hgm⟩
    · exact Or.inr ⟨hc, rfl⟩

/-- A deletion is stored above what its device still has to receive. -/
theorem Storable.just_below (hn : m₀.payload.content = none) (hv : v < m₀.payload.version) (hb : L.Backed d v i) :
    (L.store d m₀).AwaitsLater d v i ∨ (L.store d m₀).UnsentAbove v ∨ (L.store d m₀).Doomed v := by
  rcases hb with ha | ⟨f, w, hfd, hw, hlt⟩ | ⟨f, z, hfd, hz, hle⟩
  · exact Or.inl (hm.awaitsLater ha)
  · exact Or.inr (Or.inl ⟨f, w, by rw [unsent_store_of_ne hfd, hw], hlt⟩)
  · exact Or.inr (Or.inr ⟨f, z, hz.1, hle, d, m₀, waiting_store_self hfd, hn, hv⟩)

theorem Storable.just (h : L.Sound) {e : Dev} (hb : L.Bears e x i) (hi : i < m₀.id) :
    (L.store d m₀).Just e x i := by
  rcases lt_or_ge x.version m₀.payload.version with hv | hv
  · by_cases hc : m₀.payload.content = none
    · rcases eq_or_ne e d with rfl | he
      · rcases hb with ⟨hs, -⟩ | ⟨g, m, hgm, rfl, hcm, rfl⟩
        · have := hm.object_le x hs.1
          omega
        · rcases hm.just_below hc hv (h.backed g e m hgm hcm) with ha | hu | hd
          · exact Or.inl ha.awaits
          · exact Or.inr (Or.inl hu)
          · exact Or.inr (Or.inr (Or.inl hd))
      · exact Or.inl ⟨d, m₀, waiting_store_self he, hv, Or.inr hi⟩
    · exact hm.just_self hc (Versioned.le_of_version_lt hv) e i
  · rcases h.just e x i hb with ha | ⟨g, w, hg, hlt⟩ | ⟨g, z, hz, hle, ha⟩ | hs
    · exact Or.inl (hm.awaits ha hv)
    · exact Or.inr (Or.inl ⟨g, w, unsent_store_of_lt hg (hv.trans_lt hlt), hlt⟩)
    · exact Or.inr (Or.inr (Or.inl ⟨g, z, hz, hle, hm.awaitsDeletion ha hv⟩))
    · exact Or.inr (Or.inr (Or.inr fun g hg => hm.holds (hs g hg) hv))

/-- **A change is stored** for the other devices. -/
theorem Sound.store (h : L.Sound) : (L.store d m₀).Sound := by
  refine ⟨fun e x i hb => ?_, fun g e m hgm hc => ?_⟩
  · rcases hm.of_bears hb with ⟨hb, hi⟩ | ⟨hc, rfl⟩
    · exact hm.just h hb hi
    · exact hm.just_self hc le_rfl e i
  · rcases of_waiting_store hgm with ⟨-, hgm'⟩ | ⟨-, he, rfl⟩
    · rcases h.backed g e m hgm' hc with ha | ⟨f, w, hfe, hw, hlt⟩ | ⟨f, z, hfe, hz, hle⟩
      · exact Or.inl (hm.awaitsLater ha)
      · by_cases hwx : f = d ∧ w = m₀.payload.version
        · -- the deletion the device had to send is now to be received, its object is now held for good
          obtain ⟨rfl, rfl⟩ := hwx
          by_cases hcx : m₀.payload.content = none
          · exact Or.inl ⟨f, m₀, waiting_store_self hfe.symm, hlt, hm.waiting_lt g e m hgm'⟩
          · have ho := hm.unsent_object hw
            rw [if_pos (Option.isSome_iff_ne_none.mpr hcx)] at ho
            exact Or.inr (Or.inr ⟨f, m₀.payload, hfe, ⟨ho, unsent_store_sent hw⟩, hlt.le⟩)
        · refine Or.inr (Or.inl ⟨f, w, hfe, ?_, hlt⟩)
          rcases eq_or_ne f d with rfl | hfd
          · rw [unsent_store_self, hw]
            rw [hw, ne_eq, Option.some.injEq]
            exact fun heq => hwx ⟨rfl, heq⟩
          · rw [unsent_store_of_ne hfd, hw]
      · exact Or.inr (Or.inr ⟨f, z, hfe, hz.store, hle⟩)
    · exact hm.backed_self hc he

end Store

end Ledger

end Lane

end QtDataSync
