import QtDataSync.Server.Sessions

/-!
# Server.Registry — the live connection of a device

The map `clients` of `clientconnector.cpp` over every run of the server.  A client is registered when its signal
`connected` has been handled, and stays so until it is destroyed, long after its socket has been closed.  The map names
live clients only; but the destruction of a client removes its device, whoever is registered for it by then.
-/

namespace QtDataSync.Server

variable {Dev B : Type}

/-- The connection `c` is alive, and has completed its login as the device `d`. -/
def IsRegistered (s : ClientConnector Dev B) (c : ℕ) (d : Dev) : Prop :=
  ∃ x, s.connections c = some x ∧ x.registered = some d

variable [DecidableEq Dev]

/-- What concerns the device gets to a client that is registered for it. -/
def Reaches [DecidableEq B] [Inhabited Dev] [Inhabited B] (ownFingerprint : B → B → B → B → Option B)
    (s : ClientConnector Dev B) (d : Dev) : Prop :=
  ∃ c x, s.connections c = some x ∧ x.registered = some d ∧ x.client.deviceId = d ∧
    s.next ownFingerprint (.notifyChanged d) = some (s.modify c (·.enqueue .notifyChanged)) ∧
    s.dropConnection d = s.modify c Connection.close ∧
    ∀ sender message, (s.connections sender).isSome →
      (s.proofRequested sender d message).connections = (s.modify c (·.enqueue (.sendProof message))).connections

/-- No other connection is registered for the device of a client that is destroyed. -/
def DestroysLast (s : ClientConnector Dev B) : ClientConnector.Step Dev B → Prop
  | .destroyed c => ∀ d, IsRegistered s c d → ∀ c', IsRegistered s c' d → c' = c
  | _ => True

/-- The map names registered clients, and a client is registered for its own device. -/
structure Registry (s : ClientConnector Dev B) : Prop where
  mapped : ∀ d c, s.clients d = some c → IsRegistered s c d
  known : ∀ c d, IsRegistered s c d → KnownAs s c d

/-- Every device with a registered client is in the map. -/
def Listed (s : ClientConnector Dev B) : Prop := ∀ c d, IsRegistered s c d → (s.clients d).isSome

/-! ### Steps -/

/-- What a step does to the map and to the registered clients. -/
inductive RegistryStep (s t : ClientConnector Dev B) : ClientConnector.Step Dev B → Prop
  | same {a : ClientConnector.Step Dev B} (hdestroys : DestroysLast s a) (hclients : t.clients = s.clients)
      (hregistered : ∀ c d, IsRegistered t c d ↔ IsRegistered s c d) : RegistryStep s t a
  | connected {sender : ℕ} {deviceId : Dev} (hknown : KnownAs s sender deviceId)
      (hclients : t.clients = Function.update s.clients deviceId (some sender))
      (hregistered : ∀ c d, IsRegistered t c d ↔ c = sender ∧ d = deviceId ∨ c ≠ sender ∧ IsRegistered s c d) :
      RegistryStep s t .event
  | destroyed {c : ℕ} (hclients : ∀ d, t.clients d = if ∃ x ∈ s.connections c, x.registered = some d then none
        else s.clients d)
      (hregistered : ∀ c' d, IsRegistered t c' d ↔ c' ≠ c ∧ IsRegistered s c' d) : RegistryStep s t (.destroyed c)

section

variable {s t : ClientConnector Dev B}

omit [DecidableEq Dev] in
theorem isRegistered_of_eq (h : t.connections = s.connections) (c : ℕ) (d : Dev) :
    IsRegistered t c d ↔ IsRegistered s c d := by
  unfold IsRegistered
  rw [h]

omit [DecidableEq Dev] in
theorem isRegistered_modify (f : Connection Dev B → Connection Dev B) (hf : ∀ x, (f x).registered = x.registered)
    (c c' : ℕ) (d : Dev) :
    IsRegistered (s.modify c f) c' d ↔ IsRegistered s c' d := by
  constructor
  · rintro ⟨x', hx', hd⟩
    obtain ⟨x, hx, rfl | ⟨-, rfl⟩⟩ := connections_modify hx'
    · exact ⟨x', hx, hd⟩
    · exact ⟨x, hx, (hf x).symm.trans hd⟩
  · rintro ⟨x, hx, hd⟩
    by_cases hc : c' = c
    · subst hc
      refine ⟨f x, ?_, (hf x).trans hd⟩
      show Function.update _ _ _ _ = _
      rw [Function.update_self, hx, Option.map_some]
    · refine ⟨x, ?_, hd⟩
      show Function.update _ _ _ _ = _
      rw [Function.update_of_ne hc, hx]

omit [DecidableEq Dev] in
theorem isRegistered_clientConnected {sender : ℕ} {deviceId : Dev} (hsender : (s.connections sender).isSome) (c : ℕ)
    (d : Dev) : IsRegistered (s.modify sender fun x => { x with registered := some deviceId }) c d ↔
      c = sender ∧ d = deviceId ∨ c ≠ sender ∧ IsRegistered s c d := by
  by_cases hc : c = sender
  · subst hc
    obtain ⟨x, hx⟩ := Option.isSome_iff_exists.mp hsender
    have hmod : (s.modify c fun x => { x with registered := some deviceId }).connections c =
        some { x with registered := some deviceId } := by
      show Function.update _ _ _ _ = _
      rw [Function.update_self, hx, Option.map_some]
    constructor
    · rintro ⟨x', hx', hd⟩
      rw [hmod] at hx'
      obtain rfl := Option.some.inj hx'
      exact Or.inl ⟨rfl, (Option.some.inj hd).symm⟩
    · rintro (⟨-, rfl⟩ | ⟨hne, -⟩)
      · exact ⟨_, hmod, rfl⟩
      · exact absurd rfl hne
  · have hmod : (s.modify sender fun x => { x with registered := some deviceId }).connections c = s.connections c :=
      Function.update_of_ne hc ..
    unfold IsRegistered
    rw [hmod]
    simp [hc]

theorem isRegistered_destroy {c : ℕ} {x : Connection Dev B} (c' : ℕ) (d : Dev) :
    IsRegistered (s.destroy c x) c' d ↔ c' ≠ c ∧ IsRegistered s c' d := by
  unfold IsRegistered
  show (∃ x', Function.update s.connections c none c' = some x' ∧ _) ↔ _
  by_cases hc : c' = c
  · subst hc
    simp
  · simp [hc]

theorem clients_destroy {c : ℕ} {x : Connection Dev B} (hx : s.connections c = some x) (d : Dev) :
    (s.destroy c x).clients d = if ∃ x ∈ s.connections c, x.registered = some d then none else s.clients d := by
  have hex : (∃ y ∈ s.connections c, y.registered = some d) ↔ x.registered = some d := by simp [hx]
  unfold ClientConnector.destroy
  rcases hr : x.registered with _ | deviceId
  · rw [if_neg (by rw [hex, hr]; simp)]
  · by_cases hd : d = deviceId
    · subst hd
      rw [if_pos (hex.mpr hr)]
      exact Function.update_self ..
    · rw [if_neg (by rw [hex, hr]; simpa using Ne.symm hd)]
      exact Function.update_of_ne hd ..

/-- A queued signal. -/
theorem registryStep_handle {tr : List (Transition Dev B)} (h : Sound tr s) {e : Event Dev B}
    {events : List (Event Dev B)} (hev : s.events = e :: events) :
    RegistryStep s (ClientConnector.handle { s with events := events } e) .event := by
  have hmodify : ∀ {c : ℕ} {f : Connection Dev B → Connection Dev B} {t : ClientConnector Dev B},
      (∀ x, (f x).registered = x.registered) →
      t.clients = s.clients → t.connections = (s.modify c f).connections → RegistryStep s t .event := by
    intro c f t hf hclients ht
    refine .same trivial hclients fun c' d => ?_
    rw [isRegistered_of_eq ht, isRegistered_modify _ hf]
  have hsame : RegistryStep s { s with events := events } .event := .same trivial rfl fun _ _ => Iff.rfl
  cases e with
  | clientConnected sender deviceId =>
    have hknown : KnownAs s sender deviceId := h.events (.clientConnected sender deviceId) (by
      rw [hev]
      exact List.mem_cons_self)
    show RegistryStep s (ClientConnector.clientConnected _ _ _) _
    unfold ClientConnector.clientConnected
    split_ifs with hnone
    · exact hsame
    · refine .connected hknown rfl fun c d => ?_
      exact isRegistered_clientConnected (by simpa [Option.isSome_iff_ne_none] using hnone) c d
  | proofRequested sender partner message =>
    show RegistryStep s (ClientConnector.proofRequested _ _ _ _) _
    unfold ClientConnector.proofRequested
    split_ifs
    · exact hsame
    · split
      · exact hmodify (f := (·.enqueue (.proofResult none))) (fun _ => rfl) rfl rfl
      · exact hmodify (f := (·.enqueue (.sendProof message))) (fun _ => rfl) rfl rfl
  | proofDone l partner message =>
    show RegistryStep s (ClientConnector.proofDone _ _ _ _) _
    unfold ClientConnector.proofDone
    split_ifs
    · exact hmodify (f := (·.enqueue (.proofResult message))) (fun _ => rfl) rfl rfl
    · exact hmodify (f := (·.enqueue (.proofResult message))) (fun _ => rfl) rfl rfl
    · exact hsame
  | acceptDone pClient partner => exact hmodify (f := (·.enqueue (.acceptDone partner))) (fun _ => rfl) rfl rfl
  | forceDisconnect partner =>
    show RegistryStep s (ClientConnector.dropConnection _ _) _
    unfold ClientConnector.dropConnection
    split
    · exact hsame
    · exact hmodify (f := Connection.close) (fun _ => rfl) rfl rfl

end

section

variable [DecidableEq B] [Inhabited Dev] [Inhabited B] {ownFingerprint : B → B → B → B → Option B}
  {tr : List (Transition Dev B)} {s t : ClientConnector Dev B} {a : ClientConnector.Step Dev B}

/-- **Inversion of a step** on the map and the registered clients. -/
theorem registryStep_next (h : Sound tr s) (hst : (ClientConnector.lts ownFingerprint).step s a t) :
    RegistryStep s t a := by
  have hnext : ClientConnector.next ownFingerprint s a = some t := hst
  cases a with
  | newConnection limits =>
    cases hnext
    refine .same trivial rfl fun c d => ⟨?_, ?_⟩
    · rintro ⟨x, hx, hd⟩
      rcases connections_newConnection hx with ⟨-, rfl⟩ | hx
      · cases hd
      · exact ⟨x, hx, hd⟩
    · rintro ⟨x, hx, hd⟩
      have hne : c ≠ s.nextConnection := (h.fresh c x hx).ne
      exact ⟨x, (Function.update_of_ne hne ..).trans hx, hd⟩
  | binaryMessageReceived c message =>
    cases hnext
    exact .same trivial rfl (isRegistered_modify (·.enqueue (.binaryMessageReceived message)) (fun _ => rfl) c)
  | task c env =>
    simp only [ClientConnector.next] at hnext
    split at hnext
    · cases hnext
    · rename_i x hx
      split at hnext
      · cases hnext
      · rename_i task q hq
        cases hnext
        refine .same trivial rfl fun c' d => ⟨?_, ?_⟩
        · rintro ⟨x', hx', hd⟩
          rcases connections_ran hq hx' with ⟨rfl, rfl⟩ | ⟨-, hx'⟩
          · exact ⟨x, hx, hd⟩
          · exact ⟨x', hx', hd⟩
        · rintro ⟨x', hx', hd⟩
          by_cases hc : c' = c
          · subst hc
            obtain rfl := Option.some.inj (hx.symm.trans hx')
            exact ⟨_, Function.update_self .., hd⟩
          · exact ⟨x', (Function.update_of_ne hc ..).trans hx', hd⟩
  | event =>
    simp only [ClientConnector.next] at hnext
    split at hnext
    · cases hnext
    · rename_i e events hev
      cases hnext
      exact registryStep_handle h hev
  | notifyChanged deviceId =>
    simp only [ClientConnector.next] at hnext
    split at hnext
    · cases hnext
      exact .same trivial rfl fun _ _ => Iff.rfl
    · rename_i c hc
      cases hnext
      exact .same trivial rfl (isRegistered_modify (·.enqueue .notifyChanged) (fun _ => rfl) c)
  | fail c =>
    cases hnext
    exact .same trivial rfl (isRegistered_modify Connection.fail (fun _ => rfl) c)
  | disconnected c =>
    cases hnext
    exact .same trivial rfl (isRegistered_modify Connection.closeClient (fun _ => rfl) c)
  | destroyed c =>
    simp only [ClientConnector.next] at hnext
    split at hnext
    · cases hnext
    · rename_i x hx
      split_ifs at hnext
      cases hnext
      exact .destroyed (clients_destroy hx) isRegistered_destroy
  | cleanupDevices today days =>
    simp only [ClientConnector.next] at hnext
    split at hnext
    · cases hnext
      exact .same trivial rfl fun _ _ => Iff.rfl
    · cases hnext
      exact .same trivial rfl fun _ _ => Iff.rfl

theorem Registry.step (hs : Sound tr s) (h : Registry s) (hst : (ClientConnector.lts ownFingerprint).step s a t) :
    Registry t := by
  have hevolves := hs.evolves hst
  cases registryStep_next hs hst with
  | same _ hclients hregistered =>
    refine ⟨fun d c hc => ?_, fun c d hd => ?_⟩
    · rw [hclients] at hc
      exact (hregistered c d).mpr (h.mapped d c hc)
    · exact (h.known c d ((hregistered c d).mp hd)).evolves hevolves
  | connected hknown hclients hregistered =>
    rename_i sender deviceId
    refine ⟨fun d c hc => ?_, fun c d hd => ?_⟩
    · rw [hclients] at hc
      by_cases hd : d = deviceId
      · subst hd
        rw [Function.update_self] at hc
        exact (hregistered c d).mpr (Or.inl ⟨(Option.some.inj hc).symm, rfl⟩)
      · rw [Function.update_of_ne hd] at hc
        have hreg := h.mapped d c hc
        refine (hregistered c d).mpr (Or.inr ⟨fun he => hd ?_, hreg⟩)
        -- a client is known as one device
        have hdev := (h.known c d hreg).2
        obtain ⟨x, hx, -⟩ := hreg
        rw [he] at hx hdev
        exact (hdev x hx).1.symm.trans (hknown.2 x hx).1
    · rcases (hregistered c d).mp hd with ⟨rfl, rfl⟩ | ⟨-, hreg⟩
      · exact hknown.evolves hevolves
      · exact (h.known c d hreg).evolves hevolves
  | destroyed hclients hregistered =>
    rename_i c₀
    refine ⟨fun d c hc => ?_, fun c d hd => ?_⟩
    · rw [hclients] at hc
      split_ifs at hc with hex
      have hreg := h.mapped d c hc
      refine (hregistered c d).mpr ⟨fun he => hex ?_, hreg⟩
      subst he
      obtain ⟨x, hx, hd⟩ := hreg
      exact ⟨x, hx, hd⟩
    · exact (h.known c d ((hregistered c d).mp hd).2).evolves hevolves

/-- A step keeps all devices listed exactly if it destroys no client of a device that another one is registered for. -/
theorem listed_step_iff (hs : Sound tr s) (h : Listed s) (hst : (ClientConnector.lts ownFingerprint).step s a t) :
    Listed t ↔ DestroysLast s a := by
  cases registryStep_next hs hst with
  | same hdestroys hclients hregistered =>
    refine iff_of_true (fun c d hd => ?_) hdestroys
    rw [hclients]
    exact h c d ((hregistered c d).mp hd)
  | connected hknown hclients hregistered =>
    rename_i sender deviceId
    refine iff_of_true (fun c d hd => ?_) trivial
    rw [hclients]
    by_cases he : d = deviceId
    · rw [he, Function.update_self]
      rfl
    · rw [Function.update_of_ne he]
      rcases (hregistered c d).mp hd with ⟨-, hd⟩ | ⟨-, hreg⟩
      · exact absurd hd he
      · exact h c d hreg
  | destroyed hclients hregistered =>
    rename_i c₀
    constructor
    · intro ht d hd c hc
      by_contra hne
      have hlisted := ht c d ((hregistered c d).mpr ⟨hne, hc⟩)
      obtain ⟨x, hx, hr⟩ := hd
      rw [hclients, if_pos ⟨x, hx, hr⟩] at hlisted
      cases hlisted
    · intro hlast c d hd
      obtain ⟨hne, hc⟩ := (hregistered c d).mp hd
      rw [hclients, if_neg]
      · exact h c d hc
      · rintro ⟨x, hx, hr⟩
        exact hne (hlast d ⟨x, hx, hr⟩ c hc)

/-- A device that is reached is in the map. -/
theorem isSome_of_reaches {d : Dev} (h : Reaches ownFingerprint s d) : (s.clients d).isSome := by
  obtain ⟨c, x, hx, -, -, hnotify, -⟩ := h
  rcases hd : s.clients d with _ | c'
  · -- nobody has been notified
    simp only [ClientConnector.next, hd, Option.some.injEq] at hnotify
    have hsame := congrArg (fun s => (s.connections c).map fun x => x.queue.length) hnotify
    simp only [ClientConnector.modify, Function.update_self, hx, Option.map_some, Option.some.injEq,
      Connection.enqueue, List.length_append, List.length_singleton] at hsame
    omega
  · rfl

/-- Listed devices are reached. -/
theorem Registry.reaches_iff (h : Registry s) :
    (∀ d, (∃ c, IsRegistered s c d) → Reaches ownFingerprint s d) ↔ Listed s := by
  constructor
  · exact fun hreaches c d hc => isSome_of_reaches (hreaches d ⟨c, hc⟩)
  · rintro hlisted d ⟨c, hc⟩
    obtain ⟨c', hd⟩ := Option.isSome_iff_exists.mp (hlisted c d hc)
    obtain ⟨x, hx, hr⟩ := h.mapped d c' hd
    refine ⟨c', x, hx, hr, ((h.known c' d ⟨x, hx, hr⟩).2 x hx).1, ?_, ?_, fun sender message hsender => ?_⟩
    · simp only [ClientConnector.next, hd]
    · simp only [ClientConnector.dropConnection, hd]
    · simp only [ClientConnector.proofRequested, hd]
      rw [if_neg (by simpa [Option.isSome_iff_ne_none] using hsender)]

variable {s₀ : ClientConnector Dev B}

omit [DecidableEq Dev] [DecidableEq B] [Inhabited Dev] [Inhabited B] in
theorem Registry.init (h0 : ClientConnector.Init s₀) : Registry s₀ := by
  obtain ⟨hconn, hclients, -⟩ := h0
  refine ⟨fun d c hc => ?_, fun c d hd => ?_⟩
  · rw [hclients d] at hc
    cases hc
  · obtain ⟨x, hx, -⟩ := hd
    rw [hconn c] at hx
    cases hx

/-- **The registry of live connections**, over every run of the server: the map never names a destroyed client, and
every device with a registered client is reached in all states if and only if no client is destroyed while another one
is registered for its device. -/
theorem registry_reaches (h0 : ClientConnector.Init s₀)
    (hr : LTS.Run (ClientConnector.lts ownFingerprint) LTS.free s₀ tr s) :
    (∀ y ∈ tr, ∀ d c, y.2.2.clients d = some c → ∃ x, y.2.2.connections c = some x ∧ x.registered = some d ∧
      x.client.deviceId = d) ∧
    ((∀ y ∈ tr, ∀ d, (∃ c, IsRegistered y.2.2 c d) → Reaches ownFingerprint y.2.2 d) ↔
      ∀ y ∈ tr, DestroysLast y.1 y.2.1) := by
  have hinv : ∀ y ∈ tr, Registry y.2.2 := by
    intro y hy
    refine (LTS.Run.mem_invariant (I := fun s => Registry s ∧ ∃ tr, Sound tr s) ?_ hr
      ⟨.init h0, [], .init h0⟩ hy).2.1.1
    rintro s a t ⟨h, tr, hs⟩ - hst
    exact ⟨h.step hs hst, _, hs.step hst⟩
  refine ⟨fun y hy d c hc => ?_, ?_⟩
  · obtain ⟨x, hx, hreg⟩ := (hinv y hy).mapped d c hc
    exact ⟨x, hx, hreg, (((hinv y hy).known c d ⟨x, hx, hreg⟩).2 x hx).1⟩
  · have hlisted : Listed s₀ := by
      rintro c d ⟨x, hx, -⟩
      rw [h0.1 c] at hx
      cases hx
    have hsound : ∀ y ∈ tr, (Listed y.2.2 ∧ ∃ tr, Sound tr y.2.2) ↔ Listed y.2.2 := by
      intro y hy
      refine and_iff_left (LTS.Run.mem_invariant (I := fun s => ∃ tr, Sound tr s) ?_ hr ⟨[], .init h0⟩ hy).2.1
      rintro s a t ⟨tr, hs⟩ - hst
      exact ⟨_, hs.step hst⟩
    rw [← hr.forall_iff (I := fun s => Listed s ∧ ∃ tr, Sound tr s) ⟨hlisted, [], .init h0⟩
      fun s a t ⟨h, tr, hs⟩ hst => (and_iff_left ⟨_, hs.step hst⟩).trans (listed_step_iff hs h hst)]
    refine forall₂_congr fun y hy => ?_
    rw [(hinv y hy).reaches_iff, hsound y hy]

end

namespace Sample

/-- Device 1 logs in on a second connection, before its first one is gone. -/
def relogin : List (ClientConnector.Step ℕ ℕ) :=
  [.newConnection ⟨10, 20, 10⟩, .task 1 (env [2] 0),
    .binaryMessageReceived 1 (.message (.login ⟨[2], 1, "first"⟩) (.genuine ⟨0, 5⟩)), .task 1 (env [] 0), .event]

/-- The steps that destroy no client. -/
def keeps : ClientConnector.Step ℕ ℕ → Bool
  | .destroyed _ => false
  | _ => true

theorem destroysLast_of_keeps (s : ClientConnector ℕ ℕ) (a : ClientConnector.Step ℕ ℕ) (h : keeps a = true) :
    DestroysLast s a := by
  cases a with
  | destroyed c => cases h
  | _ => trivial

end Sample

/-- Both connections of the device are alive. -/
theorem registry_relogin : ∃ s tr, LTS.Run (ClientConnector.lts Sample.fingerprint) LTS.free Sample.start tr s ∧
    IsRegistered s 0 1 ∧ IsRegistered s 1 1 ∧
    ∀ y ∈ tr, ∀ d, (∃ c, IsRegistered y.2.2 c d) → Reaches Sample.fingerprint y.2.2 d := by
  have hrun : ((LTS.exec (ClientConnector.next Sample.fingerprint) (fun _ => Sample.keeps) Sample.start
      (Sample.registration ++ Sample.relogin)).map fun s =>
        ((s.connections 0).map (·.registered), (s.connections 1).map (·.registered))) =
      some (some (some 1), some (some 1)) := by
    decide +kernel
  obtain ⟨s, hs, he⟩ := Option.map_eq_some_iff.mp hrun
  obtain ⟨hzero, hone⟩ := Prod.mk.inj he
  obtain ⟨tr, hr⟩ := LTS.exec_run ClientConnector.Init Sample.destroysLast_of_keeps hs
  have hfree : LTS.Run (ClientConnector.lts Sample.fingerprint) LTS.free Sample.start tr s :=
    hr.mono fun _ _ _ => trivial
  exact ⟨s, tr, hfree, Option.map_eq_some_iff.mp hzero, Option.map_eq_some_iff.mp hone,
    (registry_reaches ⟨fun _ => rfl, fun _ => rfl, rfl, rfl, rfl⟩ hfree).2.mpr hr.guard⟩

/-- The first connection is destroyed, and the device is not reached any more. -/
theorem destroyed_unlists_device : ClientConnector.Init Sample.start ∧
    ∃ s tr, LTS.Run (ClientConnector.lts Sample.fingerprint) LTS.free Sample.start tr s ∧
      IsRegistered s 1 1 ∧ ¬ Reaches Sample.fingerprint s 1 := by
  have hrun : ((LTS.exec (ClientConnector.next Sample.fingerprint) (fun _ _ => true) Sample.start
      (Sample.registration ++ Sample.relogin ++ [.disconnected 0, .destroyed 0])).map fun s =>
        ((s.connections 1).map (·.registered), s.clients 1)) = some (some (some 1), none) := by
    decide +kernel
  obtain ⟨s, hs, he⟩ := Option.map_eq_some_iff.mp hrun
  obtain ⟨hconn, hclients⟩ := Prod.mk.inj he
  obtain ⟨x, hx, hreg⟩ := Option.map_eq_some_iff.mp hconn
  obtain ⟨tr, hr⟩ := LTS.exec_run ClientConnector.Init (G := LTS.free) (fun _ _ _ => trivial) hs
  refine ⟨⟨fun _ => rfl, fun _ => rfl, rfl, rfl, rfl⟩, s, tr, hr, ⟨x, hx, hreg⟩, fun h => ?_⟩
  have hlisted := isSome_of_reaches h
  rw [hclients] at hlisted
  cases hlisted

end QtDataSync.Server
