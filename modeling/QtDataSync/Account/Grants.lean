import Mathlib.Data.Option.Basic
import QtDataSync.Account.Import

/-!
# Account.Grants — the exchange key goes to proven keys only

What the caches hold is what some step of the run has put there: an export that nothing has taken since, and the keys
of a proof whose login request is the last one shown for the device id.  Every accept message is read off these two.
-/

namespace QtDataSync.Account

open RemoteConnector LTS

variable {Dev Info : Type} [DecidableEq Dev] {crypto : Crypto Dev Info}

section Trace

variable (crypto)

/-- The export of the key under the nonce. -/
def Exports (pNonce key : QByteArray) (x : RemoteConnector Dev Info × Step Dev × RemoteConnector Dev Info) : Prop :=
  ∃ hasPassword scheme salt, x.2.1 = .exportAccount pNonce hasPassword scheme salt key

/-- An export under the nonce, or a proof that takes it. -/
def Touches (pNonce : QByteArray) (x : RemoteConnector Dev Info × Step Dev × RemoteConnector Dev Info) : Prop :=
  (∃ key, Exports pNonce key x) ∨ ∃ message, x.2.1 = .proof message ∧ message.pNonce = pNonce ∧ x.1.idle = true

/-- No login is requested or accepted for the device id. -/
def Quiet (deviceId : Dev) (x : RemoteConnector Dev Info × Step Dev × RemoteConnector Dev Info) : Prop :=
  ∀ e ∈ events crypto x, (∀ info, e = .loginRequested info → info.deviceId ≠ deviceId) ∧
    ∀ message, e = .accept message → message.deviceId ≠ deviceId

/-- The step `x` after the trace `b` handles a proof for the keys `info`.  Its nonce is that of an export which nothing
has taken before, and the macs verify under the key of this export. -/
structure Proven (b : List (RemoteConnector Dev Info × Step Dev × RemoteConnector Dev Info))
    (x : RemoteConnector Dev Info × Step Dev × RemoteConnector Dev Info) (message : ProofMessage Dev) (info : Info)
    (trusted : Bool) : Prop where
  step : x.2.1 = .proof message
  idle : x.1.idle = true
  keys : crypto.create message.signAlgorithm message.signKey message.cryptAlgorithm message.cryptKey = some info
  trusted_eq : trusted = message.trustmac.isSome
  exported : ∃ key, Since (fun _ z => Exports message.pNonce key z) (fun w => ¬ Touches message.pNonce w) b ∧
    crypto.cmac message.macscheme key (message.pNonce ++ crypto.toRfc4122 x.1.deviceId ++ message.macscheme) =
      some message.cmac ∧
    ∀ trustmac ∈ message.trustmac, crypto.cmac message.macscheme key (crypto.trustMessage info) = some trustmac

/-- The login request of an untrusted proof. -/
def Requested (deviceId : Dev) (info : Info) (b : List (RemoteConnector Dev Info × Step Dev × RemoteConnector Dev Info))
    (x : RemoteConnector Dev Info × Step Dev × RemoteConnector Dev Info) : Prop :=
  ∃ message, Proven crypto b x message info false ∧ message.deviceId = deviceId ∧
    events crypto x = [.loginRequested ⟨deviceId, message.deviceName, crypto.fingerprint info⟩]

/-- What the caches say about the run. -/
structure Recorded (tr : List (RemoteConnector Dev Info × Step Dev × RemoteConnector Dev Info))
    (s : RemoteConnector Dev Info) : Prop where
  exported : ∀ pNonce key, s.exportsCache pNonce = some key →
    Since (fun _ z => Exports pNonce key z) (fun w => ¬ Touches pNonce w) tr
  requested : ∀ deviceId info, s.activeProofs deviceId = some info →
    Since (Requested crypto deviceId info) (Quiet crypto deviceId) tr

end Trace

/-! ### What the steps do to the caches -/

section Steps

variable {s t : RemoteConnector Dev Info} {a : Step Dev}

/-- An export, exactly. -/
theorem exportAccount_ok {pNonce scheme salt key : QByteArray} {hasPassword : Bool}
    {evs : List (Event Dev Info)} (h : run crypto s (.exportAccount pNonce hasPassword scheme salt key) = some (t, evs)) :
    t = { s with exportsCache := Function.update s.exportsCache pNonce (some key) } ∧
      ∃ data, evs = [.exported data salt key] := by
  simp only [run, RemoteConnector.exportAccount, Option.map_eq_some_iff, Option.bind_eq_bind,
    Option.bind_eq_some_iff, Option.some.injEq] at h
  obtain ⟨r, ⟨partnerId, -, cmac, -, rfl⟩, hr⟩ := h
  cases hr
  exact ⟨rfl, _, rfl⟩

theorem loginReply_exportsCache (s : RemoteConnector Dev Info) (deviceId : Dev) (accept : Bool) :
    (loginReply s deviceId accept).1.exportsCache = s.exportsCache := by
  unfold loginReply
  split
  · rfl
  · split <;> rfl

theorem onProof_exportsCache (crypto : Crypto Dev Info) (s : RemoteConnector Dev Info) (message : ProofMessage Dev) :
    (onProof crypto s message).1.exportsCache =
      if s.idle then Function.update s.exportsCache message.pNonce none else s.exportsCache := by
  unfold onProof
  rcases s.idle with _ | _
  · rfl
  · simp only [Bool.not_true, Bool.false_eq_true, if_false, if_true]
    split
    · rfl
    · split
      · exact loginReply_exportsCache _ _ _
      · rfl

/-- An export that is cached was cached before, and is not touched, or is made now. -/
theorem exportsCache_step (hst : (lts crypto).step s a t) {pNonce key : QByteArray}
    (h : t.exportsCache pNonce = some key) :
    (s.exportsCache pNonce = some key ∧ ¬ Touches pNonce (s, a, t)) ∨ Exports pNonce key (s, a, t) := by
  have hkeep (hc : t.exportsCache = s.exportsCache) (ha : ∀ key, ¬ Exports pNonce key (s, a, t))
      (hp : ∀ message, a = .proof message → s.idle = false) :
      (s.exportsCache pNonce = some key ∧ ¬ Touches pNonce (s, a, t)) ∨ Exports pNonce key (s, a, t) := by
    rw [hc] at h
    refine Or.inl ⟨h, ?_⟩
    rintro (⟨key', he⟩ | ⟨message, he, -, hi⟩)
    · exact ha key' he
    · rw [hp message he] at hi
      cases hi
  obtain ⟨⟨t', evs⟩, hrun, ht⟩ := Option.map_eq_some_iff.mp hst
  have ht' : t' = t := ht
  subst ht'
  cases a with
  | exportAccount n hasPassword scheme salt k =>
    obtain ⟨rfl, -⟩ := exportAccount_ok hrun
    change Function.update s.exportsCache n (some k) pNonce = some key at h
    by_cases hn : pNonce = n
    · subst hn
      rw [Function.update_self] at h
      cases h
      exact Or.inr ⟨hasPassword, scheme, salt, rfl⟩
    · rw [Function.update_of_ne hn] at h
      refine Or.inl ⟨h, ?_⟩
      rintro (⟨key', _, _, _, he⟩ | ⟨message, he, -⟩)
      · cases he
        exact hn rfl
      · cases he
  | proof message =>
    have hcache := onProof_exportsCache crypto s message
    have he : onProof crypto s message = (t', evs) := Option.some.inj hrun
    rw [he] at hcache
    rcases hi : s.idle with _ | _
    · rw [hi] at hcache
      exact hkeep hcache (fun _ ⟨_, _, _, he⟩ => by cases he) fun _ _ => hi
    · rw [hi, if_pos rfl] at hcache
      rw [hcache] at h
      by_cases hn : pNonce = message.pNonce
      · subst hn
        rw [Function.update_self] at h
        cases h
      · rw [Function.update_of_ne hn] at h
        refine Or.inl ⟨h, ?_⟩
        rintro (⟨key', _, _, _, he⟩ | ⟨message', he, hn', -⟩)
        · cases he
        · cases he
          exact hn hn'.symm
  | loginReply deviceId accept =>
    have he : RemoteConnector.loginReply s deviceId accept = (t', evs) := Option.some.inj hrun
    have hcache := loginReply_exportsCache s deviceId accept
    rw [he] at hcache
    exact hkeep hcache (fun _ ⟨_, _, _, he⟩ => by cases he) fun _ he => by cases he
  | timeout deviceId =>
    simp only [run, RemoteConnector.timeout, Option.ite_none_right_eq_some] at hrun
    obtain ⟨-, he⟩ := hrun
    cases he
    exact hkeep rfl (fun _ ⟨_, _, _, he⟩ => by cases he) fun _ he => by cases he
  | resetAccount =>
    cases hrun
    cases h
  | _ =>
    cases hrun
    exact hkeep rfl (fun _ ⟨_, _, _, he⟩ => by cases he) fun _ he => by cases he

/-- The steps are what `run` computes. -/
theorem events_eq {t : RemoteConnector Dev Info} {evs : List (Event Dev Info)} (hrun : run crypto s a = some (t, evs))
    (t' : RemoteConnector Dev Info) : events crypto (s, a, t') = evs := by
  unfold events
  rw [hrun]
  rfl

theorem quiet_of_events {t : RemoteConnector Dev Info} {evs : List (Event Dev Info)}
    (hrun : run crypto s a = some (t, evs)) {deviceId : Dev} (h : ∀ e ∈ evs, (∀ info, e ≠ .loginRequested info) ∧
      ∀ message, e ≠ .accept message) (t' : RemoteConnector Dev Info) : Quiet crypto deviceId (s, a, t') := by
  intro e he
  rw [events_eq hrun] at he
  exact ⟨fun info hi => absurd hi ((h e he).1 info), fun message hm => absurd hm ((h e he).2 message)⟩

/-- A reply to a proof that waits for it. -/
theorem loginReply_of_active {s : RemoteConnector Dev Info} {deviceId : Dev} {info : Info} (hi : s.idle = true)
    (ha : s.activeProofs deviceId = some info) (accept : Bool) :
    (loginReply s deviceId accept).1.activeProofs = Function.update s.activeProofs deviceId none ∧
      ((loginReply s deviceId accept).2 = [.deny deviceId] ∨
        accept = true ∧ ∃ index scheme key, s.localCipher = some (index, scheme, key) ∧
          (loginReply s deviceId accept).2 = [.accept ⟨deviceId, index, scheme, ⟨info, key⟩⟩]) := by
  unfold loginReply
  rw [if_neg (by simp [hi]), ha]
  refine ⟨rfl, ?_⟩
  rcases accept with _ | _
  · exact Or.inl rfl
  · rcases s.localCipher with _ | ⟨index, scheme, key⟩
    · exact Or.inl rfl
    · exact Or.inr ⟨rfl, index, scheme, key, rfl, rfl⟩

/-- Any other reply is ignored. -/
theorem loginReply_of_not_active {s : RemoteConnector Dev Info} {deviceId : Dev}
    (h : s.idle = false ∨ s.activeProofs deviceId = none) (accept : Bool) :
    loginReply s deviceId accept = (s, []) := by
  unfold loginReply
  split
  · rfl
  · rename_i hi
    rcases h with h | h
    · rw [h] at hi
      exact absurd rfl hi
    · rw [h]

/-- A proof, exactly: it is denied, its login is requested, or it is trusted and answered at once. -/
theorem onProof_cases (crypto : Crypto Dev Info) (s : RemoteConnector Dev Info) (message : ProofMessage Dev) :
    s.idle = false ∧ onProof crypto s message = (s, [.triggerError]) ∨
    s.idle = true ∧
      (verifyProof crypto s message = none ∧ (onProof crypto s message).1.activeProofs = s.activeProofs ∧
          (onProof crypto s message).2 = [.deny message.deviceId] ∨
        ∃ info, verifyProof crypto s message = some (info, false) ∧
            (onProof crypto s message).1.activeProofs = Function.update s.activeProofs message.deviceId (some info) ∧
            (onProof crypto s message).2 =
              [.loginRequested ⟨message.deviceId, message.deviceName, crypto.fingerprint info⟩] ∨
          verifyProof crypto s message = some (info, true) ∧
            (onProof crypto s message).1.activeProofs = Function.update s.activeProofs message.deviceId none ∧
            ((onProof crypto s message).2 = [.deny message.deviceId] ∨
              ∃ index scheme key, s.localCipher = some (index, scheme, key) ∧
                (onProof crypto s message).2 = [.accept ⟨message.deviceId, index, scheme, ⟨info, key⟩⟩])) := by
  rcases hi : s.idle with _ | _
  · refine Or.inl ⟨rfl, ?_⟩
    unfold onProof
    rw [hi]
    rfl
  · refine Or.inr ⟨rfl, ?_⟩
    unfold onProof
    rw [if_neg (by simp [hi])]
    rcases hv : verifyProof crypto s message with _ | ⟨info, _ | _⟩
    · exact Or.inl ⟨rfl, rfl, rfl⟩
    · exact Or.inr ⟨info, Or.inl ⟨rfl, rfl, rfl⟩⟩
    · -- the reply takes the keys that have just been cached
      have hreply := loginReply_of_active (s := { s with
        exportsCache := Function.update s.exportsCache message.pNonce none
        activeProofs := Function.update s.activeProofs message.deviceId (some info)
        timers := s.timers ++ [message.deviceId] }) hi (Function.update_self _ _ _) true
      rw [Function.update_idem] at hreply
      refine Or.inr ⟨info, Or.inr ⟨rfl, hreply.1, ?_⟩⟩
      rcases hreply.2 with hdeny | ⟨-, haccept⟩
      · exact Or.inl hdeny
      · exact Or.inr haccept

/-- Keys that wait for the user have waited before, and the device id is quiet, or they are cached now. -/
theorem activeProofs_step (hst : (lts crypto).step s a t) {deviceId : Dev} {info : Info}
    (h : t.activeProofs deviceId = some info) :
    (s.activeProofs deviceId = some info ∧ Quiet crypto deviceId (s, a, t)) ∨
      ∃ message, a = .proof message ∧ s.idle = true ∧ message.deviceId = deviceId ∧
        verifyProof crypto s message = some (info, false) ∧ events crypto (s, a, t) =
          [.loginRequested ⟨message.deviceId, message.deviceName, crypto.fingerprint info⟩] := by
  obtain ⟨⟨t', evs⟩, hrun, ht⟩ := Option.map_eq_some_iff.mp hst
  have ht' : t' = t := ht
  subst ht'
  have hother {d : Dev} {o : Option Info} (hc : t'.activeProofs = Function.update s.activeProofs d o)
      (hne : deviceId ≠ d) : s.activeProofs deviceId = some info := by
    rw [hc, Function.update_of_ne hne] at h
    exact h
  cases a with
  | exportAccount n hasPassword scheme salt k =>
    obtain ⟨rfl, data, rfl⟩ := exportAccount_ok hrun
    exact Or.inl ⟨h, quiet_of_events hrun (by simp) _⟩
  | proof message =>
    have he : onProof crypto s message = (t', evs) := Option.some.inj hrun
    rcases onProof_cases crypto s message with ⟨-, hp⟩ | ⟨hi, ⟨-, hc, hevs⟩ | ⟨info', hnew⟩⟩
    · rw [he] at hp
      cases hp
      exact Or.inl ⟨h, quiet_of_events hrun (by simp) _⟩
    · rw [he] at hc hevs
      have hc' : t'.activeProofs = s.activeProofs := hc
      rw [hc'] at h
      have hevs' : evs = [.deny message.deviceId] := hevs
      subst hevs'
      exact Or.inl ⟨h, quiet_of_events hrun (by simp) _⟩
    · rw [he] at hnew
      rcases eq_or_ne deviceId message.deviceId with hd | hne
      · rcases hnew with ⟨hv, hc, hevs⟩ | ⟨-, hc, -⟩
        · have hc' : t'.activeProofs = Function.update s.activeProofs message.deviceId (some info') := hc
          rw [hc', hd, Function.update_self] at h
          cases h
          exact Or.inr ⟨message, rfl, hi, hd.symm, hv, (events_eq hrun _).trans hevs⟩
        · have hc' : t'.activeProofs = Function.update s.activeProofs message.deviceId none := hc
          rw [hc', hd, Function.update_self] at h
          cases h
      · -- what is sent and shown is about another device
        have hquiet : Quiet crypto deviceId (s, Step.proof message, t') := by
          intro e hmem
          rw [events_eq hrun] at hmem
          rcases hnew with ⟨-, -, hevs⟩ | ⟨-, -, hevs | ⟨index, scheme, key, -, hevs⟩⟩
          all_goals
            have hevs' : evs = _ := hevs
            rw [hevs', List.mem_singleton] at hmem
            subst hmem
          · refine ⟨fun i hi => ?_, fun _ hm => (nomatch hm)⟩
            cases hi
            exact hne.symm
          · exact ⟨fun _ hi => (nomatch hi), fun _ hm => (nomatch hm)⟩
          · refine ⟨fun _ hi => (nomatch hi), fun m hm => ?_⟩
            cases hm
            exact hne.symm
        rcases hnew with ⟨-, hc, -⟩ | ⟨-, hc, -⟩
        · exact Or.inl ⟨hother hc hne, hquiet⟩
        · exact Or.inl ⟨hother hc hne, hquiet⟩
  | loginReply d accept =>
    have he : RemoteConnector.loginReply s d accept = (t', evs) := Option.some.inj hrun
    by_cases hact : s.idle = true ∧ ∃ i, s.activeProofs d = some i
    · obtain ⟨hi, info', ha⟩ := hact
      obtain ⟨hc, hevs⟩ := loginReply_of_active hi ha accept
      rw [he] at hc hevs
      have hne : deviceId ≠ d := by
        rintro rfl
        have hc' : t'.activeProofs = Function.update s.activeProofs deviceId none := hc
        rw [hc', Function.update_self] at h
        cases h
      refine Or.inl ⟨hother hc hne, fun e hmem => ?_⟩
      rw [events_eq hrun] at hmem
      rcases hevs with hevs | ⟨-, index, scheme, key, -, hevs⟩
      all_goals
        have hevs' : evs = _ := hevs
        rw [hevs', List.mem_singleton] at hmem
        subst hmem
      · exact ⟨fun _ hi => (nomatch hi), fun _ hm => (nomatch hm)⟩
      · refine ⟨fun _ hi => (nomatch hi), fun m hm => ?_⟩
        cases hm
        exact hne.symm
    · have hact' : s.idle = false ∨ s.activeProofs d = none := by
        by_contra hcon
        push Not at hcon
        exact hact ⟨by simpa using hcon.1, Option.ne_none_iff_exists'.mp hcon.2⟩
      rw [loginReply_of_not_active hact'] at he
      cases he
      exact Or.inl ⟨h, quiet_of_events hrun (by simp) _⟩
  | timeout d =>
    simp only [run, RemoteConnector.timeout, Option.ite_none_right_eq_some] at hrun
    obtain ⟨hmem, he⟩ := hrun
    cases he
    have hne : deviceId ≠ d := by
      rintro rfl
      change Function.update s.activeProofs deviceId none deviceId = some info at h
      rw [Function.update_self] at h
      cases h
    refine Or.inl ⟨hother rfl hne, fun e he => ?_⟩
    have he' : e ∈ if (s.activeProofs d).isSome then [Event.deny d] else [] := by
      simpa [events, run, RemoteConnector.timeout, hmem] using he
    split at he'
    · rw [List.mem_singleton] at he'
      subst he'
      exact ⟨fun _ hi => (nomatch hi), fun _ hm => (nomatch hm)⟩
    · cases he'
  | onExitActiveState | resetAccount =>
    cases hrun
    cases h
  | _ =>
    cases hrun
    refine Or.inl ⟨h, fun e he => ?_⟩
    cases he

end Steps

/-! ### What a run says about its accept messages -/

section Runs

variable {s t : RemoteConnector Dev Info} {a : Step Dev}
  {tr : List (RemoteConnector Dev Info × Step Dev × RemoteConnector Dev Info)}

theorem Recorded.proven (h : Recorded crypto tr s) {message : ProofMessage Dev} (hi : s.idle = true) {info : Info}
    {trusted : Bool} (hv : verifyProof crypto s message = some (info, trusted)) (t : RemoteConnector Dev Info) :
    Proven crypto tr (s, Step.proof message, t) message info trusted := by
  simp only [verifyProof, Option.bind_eq_bind, Option.bind_eq_some_iff, Option.guard_eq_some'] at hv
  obtain ⟨key, hkey, -, -, -, hcmac, info', hcreate, hv⟩ := hv
  have hexp := h.exported message.pNonce key hkey
  rcases hm : message.trustmac with _ | trustmac
  · rw [hm] at hv
    cases hv
    exact ⟨rfl, hi, hcreate, by rw [hm]; rfl, key, hexp, hcmac, by simp [hm]⟩
  · simp only [hm, Option.bind_eq_some_iff, Option.guard_eq_some'] at hv
    obtain ⟨-, htrust, hv⟩ := hv
    cases hv
    refine ⟨rfl, hi, hcreate, by rw [hm]; rfl, key, hexp, hcmac, fun m hmem => ?_⟩
    rw [hm, Option.mem_some_iff] at hmem
    subst hmem
    exact htrust

/-- **One step** keeps the record. -/
theorem Recorded.step (h : Recorded crypto tr s) (hst : (lts crypto).step s a t) :
    Recorded crypto (tr ++ [(s, a, t)]) t where
  exported pNonce key hkey := by
    rcases exportsCache_step hst hkey with ⟨hkey, hx⟩ | hx
    · exact (h.exported pNonce key hkey).snoc hx
    · exact Since.now hx
  requested deviceId info hinfo := by
    rcases activeProofs_step hst hinfo with ⟨hinfo, hx⟩ | ⟨message, rfl, hi, rfl, hv, hevs⟩
    · exact (h.requested deviceId info hinfo).snoc hx
    · exact Since.now ⟨message, h.proven hi hv t, rfl, hevs⟩

/-- **Every run** is recorded. -/
theorem Recorded.run {s₀ : RemoteConnector Dev Info} (h0 : (lts crypto).init s₀)
    (hr : LTS.Run (lts crypto) LTS.free s₀ tr s) : Recorded crypto tr s := by
  induction hr with
  | nil =>
    constructor
    · intro pNonce key hkey
      rw [h0.1] at hkey
      cases hkey
    · intro deviceId info hinfo
      rw [h0.2] at hinfo
      cases hinfo
  | snoc hr hg hst ih => exact ih.step hst

end Runs

/-! ### A device whose keys the user has seen -/

namespace Sample

/-- Macs and keys that show what they are made of. -/
def library : Crypto ℕ QByteArray where
  cmac scheme key data := some (scheme ++ key ++ data)
  create signAlgorithm signKey cryptAlgorithm cryptKey := some (signAlgorithm ++ signKey ++ cryptAlgorithm ++ cryptKey)
  trustMessage info := info
  fingerprint info := info
  toRfc4122 _ := []

def start : RemoteConnector ℕ QByteArray where
  idle := true
  deviceId := some 1
  exportsCache _ := none
  activeProofs _ := none
  timers := []
  localCipher := some (0, [9], [5])

def proof : ProofMessage ℕ := ⟨[1], 2, "device", [], [3], [], [4], [9], [9, 6, 1, 9], none⟩

def after (s : RemoteConnector ℕ QByteArray) (a : Step ℕ) : RemoteConnector ℕ QByteArray :=
  ((run library s a).map (·.1)).getD s

def exported : RemoteConnector ℕ QByteArray := after start (.exportAccount [1] false [9] [] [6])

def shown : RemoteConnector ℕ QByteArray := after exported (.proof proof)

theorem snoc {s t : RemoteConnector ℕ QByteArray}
    {tr : List (RemoteConnector ℕ QByteArray × Step ℕ × RemoteConnector ℕ QByteArray)}
    (h : LTS.Run (lts library) LTS.free s tr t) (a : Step ℕ) (ha : (run library t a).isSome = true) :
    LTS.Run (lts library) LTS.free s (tr ++ [(t, a, after t a)]) (after t a) := by
  refine h.snoc trivial ?_
  obtain ⟨r, hr⟩ := Option.isSome_iff_exists.mp ha
  show (run library t a).map (·.1) = some (((run library t a).map (·.1)).getD t)
  rw [hr]
  rfl

end Sample

end QtDataSync.Account
