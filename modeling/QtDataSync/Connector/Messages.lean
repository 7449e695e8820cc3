import QtDataSync.Connector.RemoteConnector

/-!
# Connector.Messages — messages keep their order and their connection

A message that cannot be handled waits in the buffer, so every message is handled once and in order.  That it waits as
long as an event is pending, and that it is not handled for another socket, depends on the event loop: `machineReady`
belongs to some event, not to the last one, and the buffer outlives its socket.
-/

namespace QtDataSync.Connector

variable {Dev : Type*} [DecidableEq Dev]

namespace RemoteConnector

/-- Messages are handled once and in order, all of them when nothing is left to be done, while no event is pending, and
before a newer socket is created. -/
structure Orderly (s : RemoteConnector Dev) : Prop where
  order : s.handled.map (·.message) ++ s.messageBuffer = s.received
  complete : s.pending = false → s.readies = 0 → s.draining = false → s.messageBuffer = []
  settled : ∀ x ∈ s.handled, x.pending = false
  current : ∀ x ∈ s.handled, x.message.socket = x.sockets

/-- The turn of the machine creates a socket. -/
def Creates (s : RemoteConnector Dev) (env : Env) : Prop :=
  env.canSync = true ∧ s.isClosing = false ∧ ∃ event ∈ s.events.head?, s.machine.transition event.1 = some .Connecting

/-- `machineReady` and messages that are not held back come while no event is pending, and a socket is created when no
message is buffered. -/
def Serialised (s : RemoteConnector Dev) : Step Dev → Prop
  | .machineReady => s.pending = true → s.messageBuffer = []
  | .message content => s.pending = true → content ≠ .Ping → s.messageProcessingBlocked = true
  | .turn env => s.Creates env → s.messageBuffer = []
  | _ => True

instance (s : RemoteConnector Dev) (env : Env) : Decidable (s.Creates env) := inferInstanceAs (Decidable (_ ∧ _ ∧ _))

instance (s : RemoteConnector Dev) : (a : Step Dev) → Decidable (s.Serialised a)
  | .machineReady => inferInstanceAs (Decidable (_ → _))
  | .message _ => inferInstanceAs (Decidable (_ → _ → _))
  | .turn _ => inferInstanceAs (Decidable (_ → _))
  | .start _ | .call _ | .ping | .proofTimeout _ | .retry | .specialOperationTimeout | .connected
  | .socketDisconnected | .disconnected | .tryClose | .dequeue | .drained => isTrue trivial

/-- The invariant of the runs. -/
structure Lined (s : RemoteConnector Dev) : Prop where
  order : s.handled.map (·.message) ++ s.messageBuffer = s.received
  settled : ∀ x ∈ s.handled, x.pending = false
  current : ∀ x ∈ s.handled, x.message.socket = x.sockets
  buffered : ∀ m ∈ s.messageBuffer, m.socket = s.sockets
  socket : ∀ k, s.socket = some k → k.id = s.sockets ∧ s.machine ≠ .NotRunning
  waits : s.messageProcessingBlocked = true → s.pending = true ∨ s.readies ≠ 0
  flag : s.messageProcessingBlocked = false → s.draining = false → s.messageBuffer = []
  calm : s.draining = true → s.messageProcessingBlocked = false → s.pending = true → s.messageBuffer = []
  fresh : s.machine = .NotRunning → s.messageBuffer = [] ∧ s.readies = 0 ∧ s.draining = false

section

variable {s t : RemoteConnector Dev}

/-- What the invariant is about. -/
def queues (s : RemoteConnector Dev) :=
  (s.handled, s.messageBuffer, s.received, s.sockets, s.messageProcessingBlocked, s.events, s.readies, s.draining,
    s.machine)

omit [DecidableEq Dev] in
theorem Lined.congr (h : s.Lined) (hq : t.queues = s.queues)
    (hsocket : ∀ k, t.socket = some k → k.id = t.sockets ∧ t.machine ≠ .NotRunning) : t.Lined := by
  simp only [queues, Prod.mk.injEq] at hq
  obtain ⟨h1, h2, h3, h4, h5, h6, h7, h8, h9⟩ := hq
  have hpending : t.pending = s.pending := by rw [pending, pending, h6]
  refine ⟨?_, ?_, ?_, ?_, hsocket, ?_, ?_, ?_, ?_⟩
  · rw [h1, h2, h3]
    exact h.order
  · rw [h1]
    exact h.settled
  · rw [h1]
    exact h.current
  · rw [h2, h4]
    exact h.buffered
  · rw [h5, hpending, h7]
    exact h.waits
  · rw [h5, h8, h2]
    exact h.flag
  · rw [h8, h5, hpending, h2]
    exact h.calm
  · rw [h9, h2, h7, h8]
    exact h.fresh

omit [DecidableEq Dev] in
theorem Lined.orderly (h : s.Lined) : s.Orderly := by
  refine ⟨h.order, fun hp hr hd => h.flag ?_ hd, h.settled, h.current⟩
  by_contra hb
  rcases h.waits (by simpa using hb) with hw | hw
  · exact absurd (hp.symm.trans hw) Bool.false_ne_true
  · exact hw hr

omit [DecidableEq Dev] in
theorem pending_submitEventSync {e : Event} (he : e ≠ .doDisconnect) : (s.submitEventSync e).pending = true := by
  simp [pending, submitEventSync, he]

omit [DecidableEq Dev] in
theorem Lined.submit (h : s.Lined) {e : Event} (he : e ≠ .doDisconnect) : (s.submitEventSync e).Lined :=
  ⟨h.order, h.settled, h.current, h.buffered, h.socket, fun _ => Or.inl (pending_submitEventSync he),
    fun hb => absurd hb (by simp [submitEventSync]), fun _ hb => absurd hb (by simp [submitEventSync]), h.fresh⟩

omit [DecidableEq Dev] in
theorem IsRequest.ne_doDisconnect {e : Event} (h : IsRequest e) : e ≠ .doDisconnect := by
  rcases h with rfl | rfl | rfl | rfl <;> simp

theorem Lined.call (h : s.Lined) (c : Call Dev) : (s.call c).Lined := by
  refine call_rule (P := Lined) h ?_ ?_ ?_ ?_
  · exact fun u e he hu => hu.submit he.ne_doDisconnect
  · exact fun u kind _ _ hu => hu.congr rfl hu.socket
  · exact fun u l _ hu => hu.congr rfl hu.socket
  · exact fun u closing hu => hu.congr rfl hu.socket

/-- A message that is handled while no event is pending, on its socket. -/
theorem Lined.handle {m : Received Dev}
    (h : ({ s with handled := s.handled ++ [⟨m, s.pending, s.sockets⟩] } : RemoteConnector Dev).Lined) :
    (s.handle m).Lined := by
  refine handle_rule (P := Lined) h ?_ ?_ ?_ ?_ ?_
  · exact fun u e he hu => hu.submit he.ne_doDisconnect
  · exact fun u l _ hu => hu.congr rfl hu.socket
  · exact fun u kind _ _ _ hu => hu.congr rfl hu.socket
  · intro u request _ _ hu
    have hlogin : ({ u with login := some m.socket }.sendSignedMessage : RemoteConnector Dev).Lined :=
      hu.congr rfl hu.socket
    exact hlogin.submit (by cases request <;> simp [Request.awaits])
  · intro u _ _ hu
    have haccount : ({ u with account := some m.socket } : RemoteConnector Dev).Lined := hu.congr rfl hu.socket
    exact haccount.submit (by simp)

/-- A message that arrives. -/
theorem Lined.receive (h : s.Lined) {m : Received Dev} (hm : m.socket = s.sockets) (hrunning : s.machine ≠ .NotRunning)
    (hdraining : s.draining = false)
    (hserial : s.pending = true → m.content ≠ .Ping → s.messageProcessingBlocked = true) :
    (s.binaryMessageReceived m).Lined := by
  unfold binaryMessageReceived
  simp only
  split_ifs with hping hblocked
  · exact h.congr rfl h.socket
  · refine ⟨?_, h.settled, h.current, ?_, h.socket, h.waits, ?_, ?_, fun hn => absurd hn hrunning⟩
    · rw [← List.append_assoc, h.order]
    · exact List.forall_mem_append.mpr ⟨h.buffered, List.forall_mem_singleton.mpr hm⟩
    · exact fun hb => absurd (hblocked.symm.trans hb) (by simp)
    · exact fun hd => absurd (hd.symm.trans hdraining) (by simp)
  · have hpending : s.pending = false := by
      by_contra hp
      exact hblocked (hserial (by simpa using hp) hping)
    have hbuffer : s.messageBuffer = [] := h.flag (by simpa using hblocked) hdraining
    refine Lined.handle ⟨?_, ?_, ?_, h.buffered, h.socket, h.waits, h.flag, h.calm, h.fresh⟩
    · have horder := h.order
      rw [hbuffer] at horder ⊢
      simpa using horder
    · exact List.forall_mem_append.mpr ⟨h.settled, List.forall_mem_singleton.mpr hpending⟩
    · exact List.forall_mem_append.mpr ⟨h.current, List.forall_mem_singleton.mpr hm⟩

/-! ### Turns of the machine -/

/-- The connector in the middle of a turn, which ends with a call of `machineReady`. -/
structure Turning (s : RemoteConnector Dev) : Prop where
  lined : s.reachedStableState.Lined
  draining : s.draining = false

omit [DecidableEq Dev] in
theorem Turning.submit (h : s.Turning) {e : Event} (he : e ≠ .doDisconnect) : (s.submitEventSync e).Turning :=
  ⟨h.lined.submit he, h.draining⟩

omit [DecidableEq Dev] in
theorem Turning.congr (h : s.Turning) (hq : t.queues = s.queues)
    (hsocket : ∀ k, t.socket = some k → k.id = t.sockets ∧ t.machine ≠ .NotRunning) : t.Turning := by
  have hq' := hq
  simp only [queues, Prod.mk.injEq] at hq'
  obtain ⟨h1, h2, h3, h4, h5, h6, h7, h8, h9⟩ := hq'
  refine ⟨h.lined.congr ?_ hsocket, h8.trans h.draining⟩
  simp [queues, reachedStableState, h1, h2, h3, h4, h5, h6, h7, h8, h9]

omit [DecidableEq Dev] in
/-- The first socket, or a new one when no message is buffered. -/
theorem Turning.doConnect {env : Env} (h : s.Turning) (hrunning : s.machine ≠ .NotRunning)
    (hempty : env.canSync = true → s.isClosing = false → s.messageBuffer = []) : (s.doConnect env).Turning := by
  rcases doConnect_eq s env with ⟨hsync, hclosing, ping, awaiting, he, -⟩ | he
  · have hbuffer := hempty hsync hclosing
    have hl := h.lined
    rw [he]
    refine ⟨⟨hl.order, hl.settled, hl.current, ?_, ?_, hl.waits, hl.flag, hl.calm, fun hn => absurd hn hrunning⟩,
      h.draining⟩
    · intro m hm
      rw [hbuffer] at hm
      cases hm
    · intro k hk
      obtain rfl := Option.some.inj hk
      exact ⟨rfl, hrunning⟩
  · rw [he]
    exact h.submit (by simp)

omit [DecidableEq Dev] in
theorem Turning.doDisconnect (h : s.Turning) : s.doDisconnect.Turning := by
  have hclosing : ∀ id keepalive, s.socket = some ⟨id, .Connected, keepalive⟩ →
      ({ s with socket := some ⟨id, .Closing, keepalive⟩ } : RemoteConnector Dev).Turning := by
    intro id keepalive hs
    refine h.congr rfl ?_
    intro k hk
    obtain rfl := Option.some.inj hk
    have hsocket := h.lined.socket _ hs
    exact hsocket
  have hdropped : ({ s with socket := none } : RemoteConnector Dev).Turning := h.congr rfl (by simp)
  unfold RemoteConnector.doDisconnect
  split
  · exact hclosing _ _ (by assumption)
  · exact h
  · exact hdropped.submit (by simp)
  · exact h.submit (by simp)

omit [DecidableEq Dev] in
/-- The machine changes its state and sends at most `doDisconnect`. -/
theorem Turning.transition (h : s.Turning) {u : State} (hu : u ≠ .NotRunning) (l : List Dev) (b : Bool) :
    ({ s with
      activeProofs := l
      machine := u
      events := s.events ++ if b then [(Event.doDisconnect, s.sockets)] else [] } : RemoteConnector Dev).Turning := by
  have hl := h.lined
  refine ⟨⟨hl.order, hl.settled, hl.current, hl.buffered, fun k hk => ⟨(hl.socket k hk).1, hu⟩,
    fun _ => Or.inr (Nat.succ_ne_zero _), hl.flag, fun hd => ?_, fun hn => absurd hn hu⟩, h.draining⟩
  exact absurd (h.draining.symm.trans hd) (by simp)

omit [DecidableEq Dev] in
/-- A state is entered. -/
theorem Turning.enter {env : Env} {u : State} (h : s.Turning) (hu : u ≠ .NotRunning)
    (hempty : u = .Connecting → env.canSync = true → s.isClosing = false → s.messageBuffer = []) :
    (s.enter env u).Turning := by
  let P (v : RemoteConnector Dev) : Prop := v.Turning ∧ v.machine ≠ .NotRunning ∧
    (u = .Connecting → env.canSync = true → v.isClosing = false → v.messageBuffer = [])
  have hP : P (s.enter env u) := by
    refine enter_rule (P := P) ?_ ?_ ?_ ?_
    · intro l _ _
      exact ⟨h.transition hu l _, hu, hempty⟩
    · intro v retrying hv
      exact ⟨hv.1.congr rfl hv.1.lined.socket, hv.2⟩
    · intro hc v hv
      refine ⟨hv.1.doConnect hv.2.1 (hv.2.2 hc), ?_⟩
      rcases doConnect_eq v env with ⟨-, -, ping, awaiting, he, -⟩ | he
      · rw [he]
        exact hv.2
      · rw [he]
        exact hv.2
    · intro _ _ v hv
      exact ⟨hv.1.congr rfl hv.1.lined.socket, hv.2⟩
  exact hP.1

omit [DecidableEq Dev] in
theorem enter_isClosing {env : Env} {u : State} : (s.enter env u).isClosing = s.isClosing := by
  refine enter_rule (P := fun v => v.isClosing = s.isClosing) ?_ ?_ ?_ ?_
  · exact fun _ _ _ => rfl
  · exact fun _ _ hv => hv
  · intro _ v hv
    rcases doConnect_eq v env with ⟨-, -, ping, awaiting, he, -⟩ | he
    · rw [he]
      exact hv
    · rw [he]
      exact hv
  · exact fun _ _ _ hv => hv

omit [DecidableEq Dev] in
theorem Turning.enterClosing (h : s.Turning) (env : Env) :
    (s.enterClosing env).Turning ∧ (s.enterClosing env).isClosing = s.isClosing ∧
      (s.isClosing = false → s.enterClosing env = s) := by
  unfold RemoteConnector.enterClosing
  split_ifs with hc
  · refine ⟨?_, ?_, fun hf => absurd (hc.symm.trans hf) (by simp)⟩
    · split
      · rename_i u hu
        refine h.enter (State.closingTransition_ne hu) ?_
        rintro rfl
        exact absurd (State.closingTransition_isActive hu) (by simp [State.isActive])
      · exact h
    · split
      · exact enter_isClosing
      · rfl
  · exact ⟨h, rfl, fun _ => rfl⟩

omit [DecidableEq Dev] in
/-- An event is taken. -/
theorem Turning.process {env : Env} {e : Event} (h : s.Turning)
    (hempty : s.machine.transition e = some .Connecting → env.canSync = true → s.isClosing = false →
      s.messageBuffer = []) : (s.process env e).Turning := by
  unfold RemoteConnector.process
  by_cases he : e = .doDisconnect
  · subst he
    simp only [if_true, State.transition_doDisconnect]
    exact h.doDisconnect
  · simp only [if_neg he]
    split
    · rename_i u hu
      refine h.enter (State.transition_ne hu) ?_
      rintro rfl
      exact hempty hu
    · exact h

omit [DecidableEq Dev] in
/-- A turn of the machine. -/
theorem Lined.turn {env : Env} {e : Event} {tag : ℕ} {events : List (Event × ℕ)} (h : s.Lined)
    (hdraining : s.draining = false) (hevents : s.events = (e, tag) :: events)
    (hserial : s.Creates env → s.messageBuffer = []) (hrunning : s.machine ≠ .NotRunning) :
    ((({ s with events := events } : RemoteConnector Dev).enterClosing env).process env e).Turning := by
  have hstart : ({ s with events := events } : RemoteConnector Dev).Turning := by
    refine ⟨⟨h.order, h.settled, h.current, h.buffered, h.socket, fun _ => Or.inr (Nat.succ_ne_zero _), h.flag, fun hd => ?_,
      fun hn => absurd hn hrunning⟩, hdraining⟩
    exact absurd (hdraining.symm.trans hd) (by simp)
  obtain ⟨hclosed, hflag, hsame⟩ := hstart.enterClosing env
  refine hclosed.process fun ht hsync hopen => ?_
  have hopen' : s.isClosing = false := hflag.symm.trans hopen
  rw [hsame hopen'] at ht ⊢
  exact hserial ⟨hsync, hopen', (e, tag), by simp [hevents], ht⟩

omit [DecidableEq Dev] in
/-- The first turn of the machine. -/
theorem Lined.start {env : Env} (h : s.Lined) (hstopped : s.machine = .NotRunning) :
    (s.enter env .Connecting).Turning := by
  obtain ⟨hbuffer, hreadies, hdraining⟩ := h.fresh hstopped
  have henter : s.enter env .Connecting =
      ({ s with machine := .Disconnected } : RemoteConnector Dev).enter env .Connecting := by
    simp [enter, hstopped, State.isActive, State.sendsDisconnect]
  have hturning : ({ s with machine := .Disconnected } : RemoteConnector Dev).Turning := by
    refine ⟨⟨h.order, h.settled, h.current, h.buffered, fun k hk => ⟨(h.socket k hk).1, State.noConfusion⟩,
      fun _ => Or.inr (Nat.succ_ne_zero _), h.flag, fun hd => ?_, State.noConfusion⟩, hdraining⟩
    exact absurd (hdraining.symm.trans hd) (by simp)
  rw [henter]
  exact hturning.enter (by simp) fun _ _ _ => hbuffer

omit [DecidableEq Dev] in
theorem Lined.machineReady (h : s.Lined) (hserial : s.pending = true → s.messageBuffer = [])
    (hreadies : s.readies ≠ 0) :
    ({ s with
      readies := s.readies - 1
      messageProcessingBlocked := false
      draining := true } : RemoteConnector Dev).Lined :=
  ⟨h.order, h.settled, h.current, h.buffered, h.socket, by simp, by simp, fun _ _ => hserial,
    fun hn => absurd (h.fresh hn).2.1 hreadies⟩

/-- The first message of the buffer is handled. -/
theorem Lined.dequeue {m : Received Dev} {buffer : List (Received Dev)} (h : s.Lined) (hdraining : s.draining = true)
    (hblocked : s.messageProcessingBlocked = false) (hbuffer : s.messageBuffer = m :: buffer) :
    (({ s with messageBuffer := buffer } : RemoteConnector Dev).handle m).Lined := by
  have hpending : s.pending = false := by
    by_contra hp
    have hempty := h.calm hdraining hblocked (by simpa using hp)
    simp [hbuffer] at hempty
  have hm : m.socket = s.sockets := h.buffered m (by simp [hbuffer])
  refine Lined.handle ⟨?_, ?_, ?_, ?_, h.socket, h.waits, ?_, ?_, ?_⟩
  · have horder := h.order
    rw [hbuffer] at horder
    simpa using horder
  · exact List.forall_mem_append.mpr ⟨h.settled, List.forall_mem_singleton.mpr hpending⟩
  · exact List.forall_mem_append.mpr ⟨h.current, List.forall_mem_singleton.mpr hm⟩
  · exact fun x hx => h.buffered x (by simp [hbuffer, hx])
  · exact fun _ hd => absurd (hdraining.symm.trans hd) (by simp)
  · exact fun _ _ hp => absurd (hpending.symm.trans hp) (by simp)
  · exact fun hn => absurd (hdraining.symm.trans (h.fresh hn).2.2) (by simp)

omit [DecidableEq Dev] in
theorem Lined.disconnected (h : s.Lined) : s.disconnected.Lined := by
  have hdropped : ∀ ping, ({ s with pingTimer := ping, socket := none } : RemoteConnector Dev).Lined :=
    fun ping => h.congr rfl (by simp)
  unfold RemoteConnector.disconnected
  rcases hs : s.socket with - | k
  · exact h.submit (by simp)
  · simp only [deleteSocket]
    split_ifs
    · exact (hdropped false).submit (by simp)
    · exact (hdropped s.pingTimer).submit (by simp)

omit [DecidableEq Dev] in
theorem Lined.tryClose (h : s.Lined) : s.tryClose.Lined := by
  unfold RemoteConnector.tryClose
  split
  · rename_i hs
    refine h.congr rfl ?_
    intro k hk
    obtain rfl := Option.some.inj hk
    have hsocket := h.socket _ hs
    exact hsocket
  · exact h

/-- Every step that meets the condition keeps the invariant. -/
theorem Lined.next {a : Step Dev} (h : s.Lined) (hg : s.Serialised a) (ht : s.next a = some t) : t.Lined := by
  cases a with
  | call c =>
    obtain rfl := Option.some.inj ht
    exact h.call c
  | start env =>
    simp only [RemoteConnector.next, Option.ite_none_right_eq_some, Option.some.injEq] at ht
    obtain ⟨hstopped, rfl⟩ := ht
    exact (h.start hstopped).lined
  | ping =>
    simp only [RemoteConnector.next, Option.ite_none_left_eq_some, Option.some.injEq] at ht
    obtain ⟨-, rfl⟩ := ht
    unfold RemoteConnector.ping
    split_ifs
    · have hawaiting : ({ s with awaitingPing := false } : RemoteConnector Dev).Lined := h.congr rfl h.socket
      exact hawaiting.submit (by simp)
    · exact h.congr rfl h.socket
  | proofTimeout deviceId =>
    simp only [RemoteConnector.next, Option.ite_none_left_eq_some, Option.some.injEq] at ht
    obtain ⟨-, rfl⟩ := ht
    unfold RemoteConnector.proofTimeout
    split_ifs
    · exact h.congr rfl h.socket
    · exact h
  | retry =>
    simp only [RemoteConnector.next, Option.ite_none_left_eq_some, Option.some.injEq] at ht
    obtain ⟨-, rfl⟩ := ht
    unfold RemoteConnector.retry
    split_ifs
    · exact h.submit (by simp)
    · exact h
  | specialOperationTimeout =>
    simp only [RemoteConnector.next, Option.ite_none_left_eq_some, Option.some.injEq] at ht
    obtain ⟨-, rfl⟩ := ht
    exact h.submit (by simp)
  | connected =>
    simp only [RemoteConnector.next] at ht
    split at ht
    · rename_i hs
      obtain rfl := Option.some.inj ht
      refine (h.submit (by simp : Event.connected ≠ .doDisconnect)).congr rfl ?_
      intro k hk
      obtain rfl := Option.some.inj hk
      have hsocket := h.socket _ hs
      exact hsocket
    · simp at ht
  | socketDisconnected =>
    simp only [RemoteConnector.next] at ht
    split at ht
    · rename_i k _ hs
      simp only [Option.ite_none_left_eq_some, Option.some.injEq] at ht
      obtain ⟨-, rfl⟩ := ht
      refine h.congr rfl ?_
      intro k' hk
      obtain rfl := Option.some.inj hk
      have hsocket := h.socket _ hs
      exact hsocket
    · simp at ht
  | disconnected =>
    simp only [RemoteConnector.next, Option.ite_none_left_eq_some, Option.some.injEq] at ht
    obtain ⟨-, rfl⟩ := ht
    exact Lined.disconnected (h.congr rfl h.socket)
  | tryClose =>
    simp only [RemoteConnector.next, Option.ite_none_left_eq_some, Option.some.injEq] at ht
    obtain ⟨-, rfl⟩ := ht
    exact h.tryClose
  | message content =>
    simp only [RemoteConnector.next] at ht
    split at ht
    · rename_i k hdraining hs
      simp only [Option.ite_none_right_eq_some, Option.some.injEq] at ht
      obtain ⟨-, rfl⟩ := ht
      exact h.receive (h.socket k hs).1 (h.socket k hs).2 hdraining hg
    · simp at ht
  | turn env =>
    simp only [RemoteConnector.next] at ht
    split at ht
    · rename_i e tag events hidle hevents
      rw [Bool.or_eq_false_iff, Bool.not_eq_false'] at hidle
      obtain rfl := Option.some.inj ht
      have hrunning : s.machine ≠ .NotRunning := by
        intro hn
        simp [hn, State.isRunning] at hidle
      exact ((h.turn hidle.1 hevents hg hrunning).enterClosing env).1.lined
    · simp at ht
  | machineReady =>
    simp only [RemoteConnector.next, Option.ite_none_left_eq_some, Option.some.injEq] at ht
    obtain ⟨hready, rfl⟩ := ht
    exact h.machineReady hg (by simp at hready; exact hready.2)
  | dequeue =>
    simp only [RemoteConnector.next] at ht
    split at ht
    · rename_i m buffer hready hbuffer
      rw [Bool.and_eq_true, Bool.not_eq_true'] at hready
      obtain rfl := Option.some.inj ht
      exact h.dequeue hready.1 hready.2 hbuffer
    · simp at ht
  | drained =>
    simp only [RemoteConnector.next, Option.ite_none_right_eq_some, Option.some.injEq] at ht
    obtain ⟨hdone, rfl⟩ := ht
    rw [Bool.and_eq_true, Bool.or_eq_true, List.isEmpty_iff] at hdone
    refine ⟨h.order, h.settled, h.current, h.buffered, h.socket, h.waits, ?_, by simp, ?_⟩
    · intro hb _
      rcases hdone.2 with hd | hd
      · exact absurd (hb.symm.trans hd) (by simp)
      · exact hd
    · intro hn
      exact absurd (hdone.1.symm.trans (h.fresh hn).2.2) (by simp)

omit [DecidableEq Dev] in
theorem Lined.init (h : Init s) : s.Lined := by
  obtain ⟨hsocket, -, hmachine, -, hevents, hblocked, hbuffer, hreadies, hdraining, -, -, -, -, -, -, hreceived,
    hhandled⟩ := h
  refine ⟨?_, ?_, ?_, ?_, ?_, ?_, ?_, ?_, ?_⟩ <;>
    simp_all

end

/-- If `machineReady` and messages that are not held back come while no event is pending, and a socket is created when
no message is buffered, messages keep their order and their connection. -/
theorem messages_orderly {s : RemoteConnector Dev} (h : lts.Reachable Serialised s) : s.Orderly := by
  refine Lined.orderly (LTS.Reachable.invariant (I := Lined) ?_ ?_ h)
  · exact fun _ h0 => Lined.init h0
  · exact fun s a t _ hs hg hst => hs.next hg hst

namespace Sample

def idle : RemoteConnector ℕ := (LTS.exec next (fun s a => decide (s.Serialised a)) stopped login).get (by decide +kernel)

/-- The connection is lost before `machineReady`, and a new one is opened. -/
def reconnected : List (Step ℕ) :=
  identified ++ [.socketDisconnected, .disconnected, .turn env, .call .reconnect, .turn env, .turn env, .machineReady,
    .dequeue]

end Sample

theorem messages_orderly_idle : Sample.idle.machine = .Idle ∧ Sample.idle.handled.length = 2 ∧ Sample.idle.Orderly :=
  ⟨by decide +kernel, by decide +kernel, messages_orderly
    (LTS.exec_reachable (fun _ _ => of_decide_eq_true) Sample.init_stopped (Option.some_get _).symm)⟩

/-- The message of the first socket is handled for the second one. -/
theorem reconnect_handles_old : ¬ ∀ s : RemoteConnector ℕ, lts.Reachable LTS.free s → s.Orderly := by
  intro h
  have hrun : ((LTS.exec next (fun _ _ => true) Sample.stopped Sample.reconnected).map fun s =>
      s.handled.map fun x => (x.message.socket, x.sockets)) = some [(1, 2)] := by decide +kernel
  obtain ⟨s, hs, he⟩ := Option.map_eq_some_iff.mp hrun
  have hcurrent := (h s (LTS.exec_reachable (fun _ _ _ => trivial) Sample.init_stopped hs)).current
  obtain ⟨x, hx, hsockets⟩ := List.mem_map.mp (he ▸ List.mem_singleton_self (1, 2))
  rw [Prod.mk.injEq] at hsockets
  have := hcurrent x hx
  omega

end RemoteConnector

end QtDataSync.Connector
