import QtDataSync.Connector.RemoteConnector

/-!
# Connector.Sockets — what is sent goes to the socket of the login

The socket is lost before the machine takes the event that says so.  As long as it has not, `Idle` is active without a
socket, and an event of the login that was submitted for an older socket may come after a new one was created.
-/

namespace QtDataSync.Connector

variable {Dev : Type*}

/-- It was sent on a socket, the one of the login; only the keepalive pings start before the login. -/
def Sent.Authenticated (x : Sent) : Prop :=
  ∃ id, x.socket = some id ∧ (x.login = some id ∨ x.login = none ∧ x.kind = .ping) ∧
    (x.idle = true → x.account = some id)

/-- The socket was lost after the events up to here, and no event of a connection comes later. -/
def Covered (lost : Event × ℕ) : List (Event × ℕ) → Prop
  | [] => True
  | e :: events => (e.1 = .connected → lost ∈ events) ∧ Covered lost events

/-- An event of the login. -/
def IsAwait (e : Event) : Prop := e = .awaitRegister ∨ e = .awaitLogin ∨ e = .awaitGranted

theorem covered_append {lost e : Event × ℕ} {l : List (Event × ℕ)} (h : Covered lost l) (he : e.1 ≠ .connected) :
    Covered lost (l ++ [e]) := by
  induction l with
  | nil => exact ⟨fun hc => absurd hc he, trivial⟩
  | cons x l ih => exact ⟨fun hx => List.mem_append_left _ (h.1 hx), ih h.2⟩

theorem covered_append_self {lost : Event × ℕ} (l : List (Event × ℕ)) (he : lost.1 ≠ .connected) :
    Covered lost (l ++ [lost]) := by
  induction l with
  | nil => exact ⟨fun hc => absurd hc he, trivial⟩
  | cons x l ih => exact ⟨fun _ => by simp, ih⟩

namespace RemoteConnector

/-- The event of a socket that was lost. -/
def lost (s : RemoteConnector Dev) : Event × ℕ := (.disconnected, s.sockets)

/-- What is sent goes to the socket of the login, and `Idle` has one as long as it is not lost. -/
structure Secured (s : RemoteConnector Dev) : Prop where
  sent : ∀ x ∈ s.sent, x.Authenticated
  idle : s.isIdle = true → s.lost ∉ s.events →
    ∃ k, s.socket = some k ∧ s.login = some k.id ∧ s.account = some k.id

variable [DecidableEq Dev]

/-- In `Idle` nothing is sent while the event of the lost socket is pending, the events of a login are those of the
newest socket, buffered messages that go on with it are of the current one, and a server only answers pings. -/
def Attached (s : RemoteConnector Dev) : Step Dev → Prop
  | .call c => s.isIdle = true → s.Sends c → s.lost ∉ s.events
  | .proofTimeout deviceId => deviceId ∈ s.activeProofs → s.lost ∉ s.events
  | .message content => content = .Ping → ∀ k ∈ s.socket, k.keepalive = true
  | .turn env => s.isClosing = false → ∀ e ∈ s.events.head?, ∀ t ∈ s.machine.transition e.1, t.isIdentified = true →
    e.2 = s.sockets ∧ (t = .Idle → env.hasKeyUpdate = true → s.lost ∉ s.events.tail)
  | .dequeue => ∀ m ∈ s.messageBuffer.head?, m.content.reaches s.machine = true →
    s.socket.map (·.id) = some m.socket
  | _ => True

instance (s : RemoteConnector Dev) : (a : Step Dev) → Decidable (s.Attached a)
  | .call _ => inferInstanceAs (Decidable (_ → _ → _))
  | .proofTimeout _ => inferInstanceAs (Decidable (_ → _))
  | .message _ => inferInstanceAs (Decidable (_ → _))
  | .turn _ => inferInstanceAs (Decidable (_ → _))
  | .dequeue => inferInstanceAs (Decidable (∀ m ∈ s.messageBuffer.head?, _ → _))
  | .start _ | .ping | .retry | .specialOperationTimeout | .connected | .socketDisconnected | .disconnected
  | .tryClose | .machineReady | .drained => isTrue trivial

/-- The invariant of the socket and the queued events. -/
structure Wired (s : RemoteConnector Dev) : Prop where
  socket : ∀ k, s.socket = some k → k.id = s.sockets
  timer : s.pingTimer = true → ∃ k, s.socket = some k ∧ k.keepalive = true ∧ k.state.isOpen = true
  covered : s.socket = none → Covered s.lost s.events
  tags : ∀ e ∈ s.events, e.2 ≤ s.sockets
  login : s.login = none ∨ s.login = some s.sockets
  awaits : ∀ e, IsAwait e → (e, s.sockets) ∈ s.events → s.login = some s.sockets
  account : (.account, s.sockets) ∈ s.events → s.account = some s.sockets
  sent : ∀ x ∈ s.sent, x.Authenticated

/-- The invariant of the machine. -/
structure Plugged (s : RemoteConnector Dev) : Prop extends Wired s where
  lost : s.machine.isConnected = true → s.socket = none → s.lost ∈ s.events
  identified : s.machine.isIdentified = true → s.login = some s.sockets
  idle : s.machine = .Idle → s.account = some s.sockets
  proofs : s.activeProofs ≠ [] → s.machine = .Idle

section

variable {s t : RemoteConnector Dev}

/-- What the invariant of the socket is about. -/
def wires (s : RemoteConnector Dev) := (s.socket, s.sockets, s.events, s.login, s.account, s.sent)

omit [DecidableEq Dev] in
theorem Wired.congr (h : s.Wired) (hw : t.wires = s.wires) (htimer : t.pingTimer = true → s.pingTimer = true) :
    t.Wired := by
  simp only [wires, Prod.mk.injEq] at hw
  obtain ⟨h1, h2, h3, h4, h5, h6⟩ := hw
  obtain ⟨hsocket, hping, hcovered, htags, hlogin, hawaits, haccount, hsent⟩ := h
  refine ⟨?_, ?_, ?_, ?_, ?_, ?_, ?_, ?_⟩
  · rwa [h1, h2]
  · rw [h1]
    exact fun hp => hping (htimer hp)
  · rwa [RemoteConnector.lost, h1, h2, h3]
  · rwa [h2, h3]
  · rwa [h2, h4]
  · rwa [h2, h3, h4]
  · rwa [h2, h3, h5]
  · rwa [h6]

omit [DecidableEq Dev] in
theorem Plugged.congr (h : s.Plugged) (hw : t.wires = s.wires) (htimer : t.pingTimer = true → s.pingTimer = true)
    (hmachine : t.machine = s.machine) (hproofs : t.activeProofs ⊆ s.activeProofs ∨ s.machine = .Idle) :
    t.Plugged := by
  have hw' := hw
  simp only [wires, Prod.mk.injEq] at hw'
  obtain ⟨h1, h2, h3, h4, h5, -⟩ := hw'
  refine ⟨h.toWired.congr hw htimer, ?_, ?_, ?_, ?_⟩
  · rw [hmachine, h1, RemoteConnector.lost, h2, h3]
    exact h.lost
  · rw [hmachine, h2, h4]
    exact h.identified
  · rw [hmachine, h2, h5]
    exact h.idle
  · rw [hmachine]
    intro ht
    rcases hproofs with hsub | hidle
    · exact h.proofs fun hs => ht (List.subset_nil.mp (hs ▸ hsub))
    · exact hidle

/-! ### Events and sending -/

omit [DecidableEq Dev] in
/-- An event is submitted. -/
theorem Wired.submit (h : s.Wired) {e : Event} (hconnected : e = .connected → s.socket ≠ none)
    (hawaits : IsAwait e → s.login = some s.sockets) (haccount : e = .account → s.account = some s.sockets) :
    (s.submitEventSync e).Wired := by
  refine ⟨h.socket, h.timer, ?_, ?_, h.login, ?_, ?_, h.sent⟩
  · intro hs
    exact covered_append (h.covered hs) fun he => hconnected he hs
  · exact List.forall_mem_append.mpr ⟨h.tags, List.forall_mem_singleton.mpr (Nat.le_refl _)⟩
  · intro e' he' hm
    rcases List.mem_append.mp hm with hm | hm
    · exact h.awaits e' he' hm
    · rw [List.mem_singleton, Prod.mk.injEq] at hm
      exact hawaits (hm.1 ▸ he')
  · intro hm
    rcases List.mem_append.mp hm with hm | hm
    · exact h.account hm
    · rw [List.mem_singleton, Prod.mk.injEq] at hm
      exact haccount hm.1.symm

omit [DecidableEq Dev] in
theorem Plugged.submit (h : s.Plugged) {e : Event} (hconnected : e = .connected → s.socket ≠ none)
    (hawaits : IsAwait e → s.login = some s.sockets) (haccount : e = .account → s.account = some s.sockets) :
    (s.submitEventSync e).Plugged :=
  ⟨h.toWired.submit hconnected hawaits haccount, fun hm hs => List.mem_append_left _ (h.lost hm hs), h.identified,
    h.idle, h.proofs⟩

omit [DecidableEq Dev] in
theorem Plugged.request (h : s.Plugged) {e : Event} (he : IsRequest e) : (s.submitEventSync e).Plugged := by
  refine h.submit ?_ ?_ ?_ <;> rcases he with rfl | rfl | rfl | rfl <;> simp [IsAwait]

omit [DecidableEq Dev] in
/-- What is sent after the login goes to its socket. -/
theorem Wired.send (h : s.Wired) {kind : SendKind} (hs : s.socket ≠ none)
    (hlogin : s.login = some s.sockets ∨ kind = .ping) (hidle : s.machine = .Idle → s.account = some s.sockets) :
    (s.send kind).Wired := by
  obtain ⟨k, hk⟩ := Option.ne_none_iff_exists'.mp hs
  refine ⟨h.socket, h.timer, h.covered, h.tags, h.login, h.awaits, h.account, ?_⟩
  refine List.forall_mem_append.mpr ⟨h.sent, List.forall_mem_singleton.mpr ?_⟩
  refine ⟨s.sockets, by simp [hk, h.socket k hk], ?_, fun hi => hidle (beq_iff_eq.mp hi)⟩
  rcases hlogin with hl | hp
  · exact Or.inl hl
  · exact h.login.elim (fun hn => Or.inr ⟨hn, hp⟩) Or.inl

omit [DecidableEq Dev] in
theorem Plugged.send (h : s.Plugged) {kind : SendKind} (hs : s.socket ≠ none)
    (hlogin : s.login = some s.sockets ∨ kind = .ping) : (s.send kind).Plugged :=
  ⟨h.toWired.send hs hlogin h.idle, h.lost, h.identified, h.idle, h.proofs⟩

omit [DecidableEq Dev] in
theorem Plugged.setLogin (h : s.Plugged) : ({ s with login := some s.sockets } : RemoteConnector Dev).Plugged :=
  ⟨⟨h.socket, h.timer, h.covered, h.tags, Or.inr rfl, fun _ _ _ => rfl, h.account, h.sent⟩, h.lost, fun _ => rfl,
    h.idle, h.proofs⟩

omit [DecidableEq Dev] in
theorem Plugged.setAccount (h : s.Plugged) : ({ s with account := some s.sockets } : RemoteConnector Dev).Plugged :=
  ⟨⟨h.socket, h.timer, h.covered, h.tags, h.login, h.awaits, fun _ => rfl, h.sent⟩, h.lost, h.identified,
    fun _ => rfl, h.proofs⟩

omit [DecidableEq Dev] in
/-- `Idle` has a socket until the event of the lost one. -/
theorem Plugged.socket_ne_none (h : s.Plugged) (hm : s.machine = .Idle) (hlost : s.lost ∉ s.events) :
    s.socket ≠ none := by
  intro hs
  exact hlost (h.lost (by rw [hm]; rfl) hs)

theorem Plugged.call {c : Call Dev} (h : s.Plugged) (hg : s.Attached (.call c)) : (s.call c).Plugged := by
  have hP := call_rule (P := fun u => u.Plugged ∧ u.socket = s.socket ∧ u.machine = s.machine) (c := c)
    ⟨h, rfl, rfl⟩ ?_ ?_ ?_ ?_
  · exact hP.1
  · exact fun u e he hu => ⟨hu.1.request he, hu.2⟩
  · intro u kind hsends hi hu
    have hidle : u.machine = .Idle := beq_iff_eq.mp hi
    have hm : s.machine = .Idle := hu.2.2.symm.trans hidle
    have hsocket := h.socket_ne_none hm (hg (beq_iff_eq.mpr hm) hsends)
    exact ⟨hu.1.send (hu.2.1 ▸ hsocket) (Or.inl (hu.1.identified (by rw [hidle]; rfl))), hu.2⟩
  · exact fun u l hl hu => ⟨hu.1.congr rfl id rfl (Or.inl hl), hu.2⟩
  · exact fun u closing hu => ⟨hu.1.congr rfl (by simp) rfl (Or.inl (List.Subset.refl _)), hu.2⟩

/-- A message of the current socket, if the handler goes on with the login or sends. -/
theorem Plugged.handle {m : Received Dev} (h : s.Plugged)
    (hm : m.content.reaches s.machine = true → s.socket.map (·.id) = some m.socket) : (s.handle m).Plugged := by
  have hsocket : m.content.reaches s.machine = true → s.socket ≠ none ∧ m.socket = s.sockets := by
    intro hr
    obtain ⟨k, hk, hid⟩ := Option.map_eq_some_iff.mp (hm hr)
    exact ⟨by simp [hk], hid.symm.trans (h.socket k hk)⟩
  have hP := handle_rule (P := fun u => u.Plugged ∧ u.socket = s.socket ∧ u.sockets = s.sockets) (m := m) (s := s)
    ⟨h.congr rfl id rfl (Or.inl (List.Subset.refl _)), rfl, rfl⟩ ?_ ?_ ?_ ?_ ?_
  · exact hP.1
  · exact fun u e he hu => ⟨hu.1.request he, hu.2⟩
  · exact fun u l hi hu => ⟨hu.1.congr rfl id rfl (Or.inr hi), hu.2⟩
  · intro u kind hr hmachine hidentified hu
    exact ⟨hu.1.send (hu.2.1 ▸ (hsocket hr).1) (Or.inl (hu.1.identified (hmachine ▸ hidentified))), hu.2⟩
  · intro u request hr hmachine hu
    obtain ⟨hs, hid⟩ := hsocket hr
    have hlogin : ({ u with login := some m.socket } : RemoteConnector Dev).Plugged ∧
        some m.socket = some u.sockets := by
      rw [hid, ← hu.2.2]
      exact ⟨hu.1.setLogin, rfl⟩
    have hsent : ({ u with login := some m.socket }.sendSignedMessage : RemoteConnector Dev).Plugged :=
      hlogin.1.send (hu.2.1 ▸ hs) (Or.inl hlogin.2)
    exact ⟨hsent.submit (by cases request <;> simp [Request.awaits]) (fun _ => hlogin.2)
      (by cases request <;> simp [Request.awaits]), hu.2⟩
  · intro u hr _ hu
    obtain ⟨hs, hid⟩ := hsocket hr
    have haccount : ({ u with account := some m.socket } : RemoteConnector Dev).Plugged ∧
        some m.socket = some u.sockets := by
      rw [hid, ← hu.2.2]
      exact ⟨hu.1.setAccount, rfl⟩
    exact ⟨haccount.1.submit (by simp) (by simp [IsAwait]) (fun _ => haccount.2), hu.2⟩

/-! ### The socket -/

omit [DecidableEq Dev] in
/-- The socket is lost, with the event that says so. -/
theorem Plugged.drop (h : s.Plugged) : ({ s with socket := none, pingTimer := false }.submitEventSync .disconnected :
    RemoteConnector Dev).Plugged := by
  refine ⟨⟨by simp [submitEventSync], by simp [submitEventSync], ?_, ?_, h.login, ?_, ?_, h.sent⟩, ?_, h.identified,
    h.idle, h.proofs⟩
  · exact fun _ => covered_append_self _ (by simp [RemoteConnector.lost])
  · exact List.forall_mem_append.mpr ⟨h.tags, List.forall_mem_singleton.mpr (Nat.le_refl _)⟩
  · intro e he hm
    rcases List.mem_append.mp hm with hm | hm
    · exact h.awaits e he hm
    · rw [List.mem_singleton, Prod.mk.injEq] at hm
      exact absurd (hm.1 ▸ he) (by simp [IsAwait])
  · intro hm
    rcases List.mem_append.mp hm with hm | hm
    · exact h.account hm
    · simp at hm
  · intro _ _
    exact List.mem_append_right _ (List.mem_singleton_self _)

omit [DecidableEq Dev] in
/-- The ping timer only runs while the socket is open. -/
theorem Wired.timer_of_not_open (h : s.Wired) {k : Socket} (hk : s.socket = some k)
    (hopen : ¬ (k.keepalive = true ∧ k.state.isOpen = true)) : s.pingTimer = false := by
  by_contra hp
  obtain ⟨k', hk', hopen'⟩ := h.timer (by simpa using hp)
  obtain rfl := Option.some.inj (hk.symm.trans hk')
  exact hopen hopen'

omit [DecidableEq Dev] in
theorem Wired.timer_of_none (h : s.Wired) (hs : s.socket = none) : s.pingTimer = false := by
  by_contra hp
  obtain ⟨k, hk, -⟩ := h.timer (by simpa using hp)
  simp [hs] at hk

omit [DecidableEq Dev] in
theorem Plugged.disconnected (h : s.Plugged) : s.disconnected.Plugged := by
  have hdrop := h.drop
  unfold RemoteConnector.disconnected
  rcases hs : s.socket with - | k
  · have htimer := h.timer_of_none hs
    simpa only [← hs, ← htimer] using hdrop
  · simp only [deleteSocket]
    split_ifs with hopen
    · exact hdrop
    · have htimer := h.timer_of_not_open hs (by simpa using hopen)
      simpa only [htimer] using hdrop

omit [DecidableEq Dev] in
/-- The state of the socket changes; if it is not open any more, the ping timer stops. -/
theorem Plugged.setSocket (h : s.Plugged) {k k' : Socket} (pingTimer : Bool) (hk : s.socket = some k)
    (hid : k'.id = k.id) (htimer : pingTimer = true → k'.keepalive = true ∧ k'.state.isOpen = true) :
    ({ s with socket := some k', pingTimer := pingTimer } : RemoteConnector Dev).Plugged := by
  refine ⟨⟨?_, fun hp => ⟨k', rfl, htimer hp⟩, by simp, h.tags, h.login, h.awaits, h.account, h.sent⟩, by simp,
    h.identified, h.idle, h.proofs⟩
  intro k'' hk''
  obtain rfl := Option.some.inj hk''
  exact hid.trans (h.socket k hk)

omit [DecidableEq Dev] in
theorem Plugged.close (h : s.Plugged) {id : ℕ} {keepalive : Bool} (hk : s.socket = some ⟨id, .Connected, keepalive⟩) :
    ({ s with socket := some ⟨id, .Closing, keepalive⟩ } : RemoteConnector Dev).Plugged := by
  refine h.setSocket s.pingTimer hk rfl fun hp => ?_
  obtain ⟨k, hk', hkeepalive, -⟩ := h.timer hp
  obtain rfl := Option.some.inj (hk.symm.trans hk')
  exact ⟨hkeepalive, rfl⟩

omit [DecidableEq Dev] in
theorem Plugged.tryClose (h : s.Plugged) : s.tryClose.Plugged := by
  unfold RemoteConnector.tryClose
  split
  · exact h.close (by assumption)
  · exact h

omit [DecidableEq Dev] in
theorem Plugged.doDisconnect (h : s.Plugged) : s.doDisconnect.Plugged := by
  have hdrop := h.drop
  unfold RemoteConnector.doDisconnect
  split
  · exact h.close (by assumption)
  · exact h
  · rename_i k hconnected hclosing hk
    have htimer := h.timer_of_not_open hk ?_
    · simpa only [htimer] using hdrop
    · rintro ⟨-, hopen⟩
      obtain ⟨id, state, keepalive⟩ := k
      cases state <;> simp_all [SocketState.isOpen]
  · rename_i hs
    have htimer := h.timer_of_none hs
    simpa only [← hs, ← htimer] using hdrop

omit [DecidableEq Dev] in
/-- A new socket, which no event in the queue is about. -/
theorem Plugged.doConnect {env : Env} (h : s.Plugged) (hm : s.machine = .Connecting) : (s.doConnect env).Plugged := by
  rcases doConnect_eq s env with ⟨-, -, ping, awaiting, he, htimer⟩ | he
  · have hping : ping = false := by
      by_contra hp
      obtain ⟨hs, hopen⟩ := htimer (by simpa using hp)
      obtain ⟨k, hk, hkeepalive, hstate⟩ := h.timer hs
      rcases hopen k hk with hunconnected | hclosed
      · rw [hunconnected] at hstate
        exact absurd hstate (by simp [SocketState.isOpen])
      · exact hclosed ⟨hkeepalive, hstate⟩
    have hnew : ∀ e, (e, s.sockets + 1) ∉ s.events := fun e hmem => absurd (h.tags _ hmem) (by simp)
    rw [he]
    refine ⟨⟨?_, by simp [hping], by simp, ?_, Or.inl rfl, ?_, ?_, h.sent⟩, by simp, ?_, ?_, h.proofs⟩
    · intro k hk
      obtain rfl := Option.some.inj hk
      rfl
    · exact fun e hmem => Nat.le_succ_of_le (h.tags e hmem)
    · exact fun e _ hmem => absurd hmem (hnew e)
    · exact fun hmem => absurd hmem (hnew _)
    · simp [hm, State.isIdentified]
    · simp [hm]
  · rw [he]
    exact h.submit (by simp) (by simp [IsAwait]) (by simp)

/-! ### Turns of the machine -/

omit [DecidableEq Dev] in
theorem enter_machine {env : Env} {u : State} : (s.enter env u).machine = u := by
  refine enter_rule (P := fun v => v.machine = u) ?_ ?_ ?_ ?_
  · exact fun _ _ _ => rfl
  · exact fun _ _ hv => hv
  · intro _ v hv
    rcases doConnect_eq v env with ⟨-, -, ping, awaiting, he, -⟩ | he
    · rw [he]
      exact hv
    · rw [he]
      exact hv
  · exact fun _ _ _ hv => hv

omit [DecidableEq Dev] in
/-- A state is entered; what the invariant says of it must hold before. -/
theorem Wired.enter {env : Env} {u : State} (h : s.Wired)
    (hlost : u.isConnected = true → s.socket = none → s.lost ∈ s.events)
    (hidentified : u.isIdentified = true → s.login = some s.sockets)
    (hidle : u = .Idle → s.account = some s.sockets) (hproofs : s.activeProofs ≠ [] → s.machine = .Idle)
    (hleave : s.machine = .Idle → u.isActive = false)
    (hkey : u = .Idle → env.hasKeyUpdate = true → s.socket ≠ none) : (s.enter env u).Plugged := by
  let P (v : RemoteConnector Dev) : Prop := v.Plugged ∧ v.machine = u ∧
    (u = .Idle → env.hasKeyUpdate = true → v.socket ≠ none)
  have hP : P (s.enter env u) := by
    refine enter_rule (P := P) ?_ ?_ ?_ ?_
    · intro l hsub hl
      have hwired : ({ s with
          activeProofs := l
          machine := u
          events := s.events ++ if s.machine.sendsDisconnect u then [(Event.doDisconnect, s.sockets)] else [] } :
            RemoteConnector Dev).Wired := by
        cases s.machine.sendsDisconnect u with
        | false => exact h.congr (by simp [wires]) id
        | true =>
          have hsubmit : (s.submitEventSync .doDisconnect).Wired := h.submit (by simp) (by simp [IsAwait]) (by simp)
          exact hsubmit.congr rfl id
      refine ⟨⟨hwired, ?_, hidentified, hidle, ?_⟩, rfl, hkey⟩
      · exact fun hc hs => List.mem_append_left _ (hlost hc hs)
      · intro hne
        have hm := hproofs fun hnil => hne (List.subset_nil.mp (hnil ▸ hsub))
        exact absurd (hl (by rw [hm]; rfl) (hleave hm)) hne
    · exact fun v retrying hv => ⟨hv.1.congr rfl id rfl (Or.inl (List.Subset.refl _)), hv.2⟩
    · intro hc v hv
      refine ⟨hv.1.doConnect (hv.2.1.trans hc), ?_, by simp [hc]⟩
      rcases doConnect_eq v env with ⟨-, -, ping, awaiting, he, -⟩ | he
      · rw [he]
        exact hv.2.1
      · rw [he]
        exact hv.2.1
    · intro hi hupdate v hv
      exact ⟨hv.1.send (hv.2.2 hi hupdate) (Or.inl (hv.1.identified (by rw [hv.2.1, hi]; rfl))), hv.2⟩
  exact hP.1

omit [DecidableEq Dev] in
/-- The transition without an event leaves the active states. -/
theorem Wired.closing (h : s.Wired) (env : Env) (hproofs : s.activeProofs ≠ [] → s.machine = .Idle)
    (hc : s.isClosing = true) : (s.enterClosing env).Plugged ∧ (s.enterClosing env).machine.isActive = false := by
  have hconnected : ∀ u : State, u.isActive = false → ¬ u.isConnected = true :=
    fun u hu hc => absurd (hu.symm.trans (State.isActive_of_isConnected hc)) (by simp)
  have hidentified : ∀ u : State, u.isActive = false → ¬ u.isIdentified = true :=
    fun u hu hi => hconnected u hu (State.isConnected_of_isIdentified hi)
  have hidle : ∀ u : State, u.isActive = false → u ≠ .Idle := by
    rintro u hu rfl
    simp [State.isActive] at hu
  unfold RemoteConnector.enterClosing
  rw [if_pos hc]
  split
  · rename_i u hu
    have hactive := State.closingTransition_isActive hu
    refine ⟨h.enter ?_ ?_ ?_ hproofs (fun _ => hactive) ?_, by rw [enter_machine]; exact hactive⟩
    · exact fun hu' => absurd hu' (hconnected u hactive)
    · exact fun hu' => absurd hu' (hidentified u hactive)
    · exact fun hu' => absurd hu' (hidle u hactive)
    · exact fun hu' => absurd hu' (hidle u hactive)
  · rename_i hu
    have hactive := State.isActive_of_closingTransition hu
    refine ⟨⟨h, ?_, ?_, ?_, hproofs⟩, hactive⟩
    · exact fun hu' => absurd hu' (hconnected _ hactive)
    · exact fun hu' => absurd hu' (hidentified _ hactive)
    · exact fun hu' => absurd hu' (hidle _ hactive)

omit [DecidableEq Dev] in
theorem Plugged.enterClosing {env : Env} (h : s.Plugged) : (s.enterClosing env).Plugged := by
  by_cases hc : s.isClosing = true
  · exact (h.toWired.closing env h.proofs hc).1
  · unfold RemoteConnector.enterClosing
    rwa [if_neg hc]

omit [DecidableEq Dev] in
/-- An event is taken; without a transition the invariant must still hold. -/
theorem Wired.process {env : Env} {e : Event} (h : s.Wired) (hproofs : s.activeProofs ≠ [] → s.machine = .Idle)
    (hlost : ∀ u, s.machine.transition e = some u → u.isConnected = true → s.socket = none → s.lost ∈ s.events)
    (hidentified : ∀ u, s.machine.transition e = some u → u.isIdentified = true → s.login = some s.sockets ∧
      (u = .Idle → s.account = some s.sockets ∧ (env.hasKeyUpdate = true → s.socket ≠ none)))
    (hstays : s.machine.transition e = none → s.Plugged) : (s.process env e).Plugged := by
  unfold RemoteConnector.process
  by_cases he : e = .doDisconnect
  · subst he
    simp only [if_true, State.transition_doDisconnect]
    exact (hstays (State.transition_doDisconnect _)).doDisconnect
  · simp only [if_neg he]
    split
    · rename_i u hu
      have hleave : s.machine = .Idle → u.isActive = false := by
        intro hm
        by_contra hactive
        exact State.transition_idle hu (by simpa using hactive) hm
      refine h.enter (hlost u hu) (fun hi => (hidentified u hu hi).1) ?_ hproofs hleave ?_
      · rintro rfl
        exact ((hidentified _ hu rfl).2 rfl).1
      · rintro rfl
        exact ((hidentified _ hu rfl).2 rfl).2
    · rename_i hu
      exact hstays hu

omit [DecidableEq Dev] in
/-- The first event leaves the queue. -/
theorem Plugged.pop {e : Event × ℕ} {events : List (Event × ℕ)} (h : s.Plugged) (he : s.events = e :: events) :
    ({ s with events := events } : RemoteConnector Dev).Wired := by
  have hmem : ∀ x, x ∈ events → x ∈ s.events := fun x hx => he ▸ List.mem_cons_of_mem _ hx
  refine ⟨h.socket, h.timer, fun hs => ?_, fun x hx => h.tags x (hmem x hx), h.login,
    fun x hx hm => h.awaits x hx (hmem _ hm), fun hm => h.account (hmem _ hm), h.sent⟩
  have hcovered := h.covered hs
  rw [he] at hcovered
  exact hcovered.2

omit [DecidableEq Dev] in
/-- A state with a socket is only left for one without by the event of the socket that was lost. -/
theorem Plugged.lost_of_pop {e : Event × ℕ} {events : List (Event × ℕ)} (h : s.Plugged) (he : s.events = e :: events)
    (hs : s.socket = none) (hm : s.machine.isConnected = true) (hne : e.1 ≠ .disconnected) : s.lost ∈ events := by
  have hlost := h.lost hm hs
  rw [he] at hlost
  rcases List.mem_cons.mp hlost with rfl | hlost
  · exact absurd rfl hne
  · exact hlost

omit [DecidableEq Dev] in
theorem Plugged.turn {env : Env} {e : Event × ℕ} {events : List (Event × ℕ)} (h : s.Plugged)
    (hg : s.Attached (.turn env)) (he : s.events = e :: events) :
    ((({ s with events := events } : RemoteConnector Dev).enterClosing env).process env e.1).Plugged := by
  have hpop := h.pop he
  by_cases hc : s.isClosing = true
  · obtain ⟨hclosed, hactive⟩ := hpop.closing env h.proofs hc
    have hinactive : ∀ u, (({ s with events := events } : RemoteConnector Dev).enterClosing env).machine.transition
        e.1 = some u → ¬ u.isConnected = true := by
      intro u hu hconnected
      exact absurd (hactive.symm.trans (State.transition_isActive hu hconnected)) (by simp)
    refine hclosed.toWired.process hclosed.proofs ?_ ?_ fun _ => hclosed
    · exact fun u hu hconnected => absurd hconnected (hinactive u hu)
    · exact fun u hu hi => absurd (State.isConnected_of_isIdentified hi) (hinactive u hu)
  · have hopen : ({ s with events := events } : RemoteConnector Dev).enterClosing env = { s with events := events } := by
      unfold RemoteConnector.enterClosing
      exact if_neg hc
    have hguard := hg (by simpa using hc) e (by simp [he])
    rw [he, List.tail_cons] at hguard
    rw [hopen]
    refine hpop.process h.proofs ?_ ?_ ?_
    · intro u hu hconnected hs
      have hcovered := h.covered hs
      rw [he] at hcovered
      rcases State.transition_connected hu hconnected with hconnect | hm
      · exact hcovered.1 hconnect
      · refine h.lost_of_pop he hs hm fun hd => ?_
        rw [hd] at hu
        rw [State.transition_disconnected (State.isActive_of_isConnected hm) hu] at hconnected
        simp [State.isConnected] at hconnected
    · intro u hu hi
      obtain ⟨htag, hkey⟩ := hguard u hu hi
      have hmem : (e.1, s.sockets) ∈ s.events := by
        rw [he, ← htag]
        exact List.mem_cons_self
      rcases State.transition_identified hu hi with ⟨-, hawait, hne⟩ | ⟨hidentified, hne, haccount, -⟩
      · exact ⟨h.awaits e.1 hawait hmem, fun hidle => absurd hidle hne⟩
      · rw [haccount] at hmem
        refine ⟨h.identified hidentified, fun hidle => ⟨h.account hmem, fun hupdate hs => ?_⟩⟩
        refine hkey hidle hupdate (h.lost_of_pop he hs (State.isConnected_of_isIdentified hidentified) ?_)
        rw [haccount]
        simp
    · intro hnone
      refine ⟨hpop, fun hm hs => h.lost_of_pop he hs hm fun hd => ?_, h.identified, h.idle, h.proofs⟩
      rw [hd] at hnone
      exact absurd hnone (State.transition_disconnected_ne (State.isActive_of_isConnected hm))

omit [DecidableEq Dev] in
theorem Plugged.start {env : Env} (h : s.Plugged) (hstopped : s.machine = .NotRunning) :
    (s.enter env .Connecting).Plugged := by
  refine h.toWired.enter ?_ ?_ ?_ h.proofs ?_ ?_
  · simp [State.isConnected]
  · simp [State.isIdentified]
  · simp
  · simp [hstopped]
  · simp

/-- A message of the socket that arrives. -/
theorem Plugged.receive {m : Received Dev} {k : Socket} (h : s.Plugged) (hk : s.socket = some k)
    (hm : m.socket = k.id) (hopen : k.state.isOpen = true) (hping : m.content = .Ping → k.keepalive = true) :
    (s.binaryMessageReceived m).Plugged := by
  unfold binaryMessageReceived
  simp only
  split_ifs with hp
  · have htimer := h.setSocket true hk rfl fun _ => ⟨hping hp, hopen⟩
    rw [← hk] at htimer
    exact htimer.congr rfl id rfl (Or.inl (List.Subset.refl _))
  · exact h.congr rfl id rfl (Or.inl (List.Subset.refl _))
  · refine Plugged.handle (h.congr rfl id rfl (Or.inl (List.Subset.refl _))) fun _ => ?_
    show s.socket.map (·.id) = some m.socket
    rw [hk, hm]
    rfl

/-- Every step that meets the condition keeps the invariant. -/
theorem Plugged.next {a : Step Dev} (h : s.Plugged) (hg : s.Attached a) (ht : s.next a = some t) : t.Plugged := by
  have hsame : ∀ u : RemoteConnector Dev, u.wires = s.wires → u.pingTimer = s.pingTimer → u.machine = s.machine →
      u.activeProofs = s.activeProofs → u.Plugged := fun u hw hp hm ha =>
    h.congr hw (fun hu => hp ▸ hu) hm (Or.inl (ha ▸ List.Subset.refl _))
  cases a with
  | call c =>
    obtain rfl := Option.some.inj ht
    exact h.call hg
  | start env =>
    simp only [RemoteConnector.next, Option.ite_none_right_eq_some, Option.some.injEq] at ht
    obtain ⟨hstopped, rfl⟩ := ht
    exact (h.start hstopped).congr rfl id rfl (Or.inl (List.Subset.refl _))
  | ping =>
    simp only [RemoteConnector.next, Option.ite_none_left_eq_some, Option.some.injEq] at ht
    obtain ⟨hrunning, rfl⟩ := ht
    obtain ⟨k, hk, -⟩ := h.timer (by simp at hrunning; exact hrunning.2)
    unfold RemoteConnector.ping
    split_ifs
    · exact Plugged.request (hsame { s with awaitingPing := false } rfl rfl rfl rfl) (Or.inl rfl)
    · have hsend := Plugged.send (hsame { s with awaitingPing := true } rfl rfl rfl rfl) (by simp [hk]) (Or.inr rfl)
      exact hsend
  | proofTimeout deviceId =>
    simp only [RemoteConnector.next, Option.ite_none_left_eq_some, Option.some.injEq] at ht
    obtain ⟨-, rfl⟩ := ht
    unfold RemoteConnector.proofTimeout
    split_ifs with hknown
    · have hm := h.proofs (List.ne_nil_of_mem hknown)
      have hproofs : ({ s with activeProofs := s.activeProofs.filter (· ≠ deviceId) } : RemoteConnector Dev).Plugged :=
        h.congr rfl id rfl (Or.inl (List.filter_subset_self _))
      exact hproofs.send (h.socket_ne_none hm (hg hknown)) (Or.inl (h.identified (by rw [hm]; rfl)))
    · exact h
  | retry =>
    simp only [RemoteConnector.next, Option.ite_none_left_eq_some, Option.some.injEq] at ht
    obtain ⟨-, rfl⟩ := ht
    unfold RemoteConnector.retry
    split_ifs
    · exact h.request (Or.inl rfl)
    · exact h
  | specialOperationTimeout =>
    simp only [RemoteConnector.next, Option.ite_none_left_eq_some, Option.some.injEq] at ht
    obtain ⟨-, rfl⟩ := ht
    exact h.request (Or.inr (Or.inl rfl))
  | connected =>
    simp only [RemoteConnector.next] at ht
    split at ht
    · rename_i id keepalive _ hs
      obtain rfl := Option.some.inj ht
      have hstopped := h.timer_of_not_open hs (by simp [SocketState.isOpen])
      have hid : Socket.id ⟨id, .Connected, keepalive⟩ = id := rfl
      have hopened := h.setSocket (keepalive || s.pingTimer) hs hid ?_
      · exact (hopened.submit (by simp) (by simp [IsAwait]) (by simp)).congr rfl (fun hp => hp) rfl
          (Or.inl (List.Subset.refl _))
      · rw [hstopped, Bool.or_false]
        exact fun hp => ⟨hp, rfl⟩
    · simp at ht
  | socketDisconnected =>
    simp only [RemoteConnector.next] at ht
    split at ht
    · rename_i k _ hs
      simp only [Option.ite_none_left_eq_some, Option.some.injEq] at ht
      obtain ⟨-, rfl⟩ := ht
      have hid : Socket.id ⟨k.id, .Unconnected, k.keepalive⟩ = k.id := rfl
      have hclosed := h.setSocket (!k.keepalive && s.pingTimer) hs hid ?_
      · exact hclosed.congr rfl id rfl (Or.inl (List.Subset.refl _))
      · intro hp
        rw [Bool.and_eq_true, Bool.not_eq_true'] at hp
        have hstopped := h.timer_of_not_open hs (by simp [hp.1])
        exact absurd (hp.2.symm.trans hstopped) (by simp)
    · simp at ht
  | disconnected =>
    simp only [RemoteConnector.next, Option.ite_none_left_eq_some, Option.some.injEq] at ht
    obtain ⟨-, rfl⟩ := ht
    exact (hsame { s with disconnects := s.disconnects - 1 } rfl rfl rfl rfl).disconnected
  | tryClose =>
    simp only [RemoteConnector.next, Option.ite_none_left_eq_some, Option.some.injEq] at ht
    obtain ⟨-, rfl⟩ := ht
    exact h.tryClose
  | message content =>
    simp only [RemoteConnector.next] at ht
    split at ht
    · rename_i k _ hs
      simp only [Option.ite_none_right_eq_some, Option.some.injEq] at ht
      obtain ⟨hopen, rfl⟩ := ht
      exact h.receive hs rfl hopen fun hp => hg hp k hs
    · simp at ht
  | turn env =>
    simp only [RemoteConnector.next] at ht
    split at ht
    · rename_i e tag events _ hevents
      obtain rfl := Option.some.inj ht
      exact (h.turn hg hevents).enterClosing.congr rfl id rfl (Or.inl (List.Subset.refl _))
    · simp at ht
  | machineReady =>
    simp only [RemoteConnector.next, Option.ite_none_left_eq_some, Option.some.injEq] at ht
    obtain ⟨-, rfl⟩ := ht
    exact hsame _ rfl rfl rfl rfl
  | dequeue =>
    simp only [RemoteConnector.next] at ht
    split at ht
    · rename_i m buffer _ hbuffer
      obtain rfl := Option.some.inj ht
      refine Plugged.handle (hsame { s with messageBuffer := buffer } rfl rfl rfl rfl) fun hr => ?_
      exact hg m (by simp [hbuffer]) hr
    · simp at ht
  | drained =>
    simp only [RemoteConnector.next, Option.ite_none_right_eq_some, Option.some.injEq] at ht
    obtain ⟨-, rfl⟩ := ht
    exact hsame _ rfl rfl rfl rfl

omit [DecidableEq Dev] in
theorem Plugged.init (h : Init s) : s.Plugged := by
  obtain ⟨hsocket, -, hmachine, -, hevents, -, -, -, -, -, hping, hproofs, hlogin, -, hsent, -, -⟩ := h
  refine ⟨⟨?_, ?_, ?_, ?_, ?_, ?_, ?_, ?_⟩, ?_, ?_, ?_, ?_⟩ <;>
    simp [hsocket, hmachine, hevents, hping, hproofs, hlogin, hsent, Covered, State.isConnected, State.isIdentified]

omit [DecidableEq Dev] in
theorem Plugged.secured (h : s.Plugged) : s.Secured := by
  refine ⟨h.sent, fun hi hlost => ?_⟩
  have hm : s.machine = .Idle := beq_iff_eq.mp hi
  obtain ⟨k, hk⟩ := Option.ne_none_iff_exists'.mp (h.socket_ne_none hm hlost)
  rw [hk, h.identified (by rw [hm]; rfl), h.idle hm, ← h.socket k hk]
  exact ⟨k, rfl, rfl, rfl⟩

end

/-- In runs that meet the condition nothing is sent without a socket, or on another one than that of the login. -/
theorem sends_secured {s : RemoteConnector Dev} (h : lts.Reachable Attached s) : s.Secured := by
  refine Plugged.secured (LTS.Reachable.invariant (I := Plugged) ?_ ?_ h)
  · exact fun _ h0 => Plugged.init h0
  · exact fun s a t _ hs hg hst => hs.next hg hst

namespace Sample

/-- A device is uploaded to, and a ping is sent. -/
def used : List (Step ℕ) := login ++ [.call (.uploadData false), .ping]

def inUse : RemoteConnector ℕ := (LTS.exec next (fun s a => decide (s.Attached a)) stopped used).get (by decide +kernel)

/-- The socket is lost, and a change is uploaded before the machine has taken the event. -/
def lost : List (Step ℕ) := login ++ [.socketDisconnected, .disconnected, .call (.uploadData false)]

end Sample

theorem sends_secured_inUse : Sample.inUse.sent.map (·.kind) = [.sendSignedMessage, .sendMessage, .ping] ∧
    Sample.inUse.Secured :=
  ⟨by decide +kernel, sends_secured
    (LTS.exec_reachable (fun _ _ => of_decide_eq_true) Sample.init_stopped (Option.some_get _).symm)⟩

/-- `Idle` is active, but the socket is gone. -/
theorem uploadData_sends_nowhere : ¬ ∀ s : RemoteConnector ℕ, lts.Reachable LTS.free s → s.Secured := by
  intro h
  have hrun : ((LTS.exec next (fun _ _ => true) Sample.stopped Sample.lost).map fun s =>
      s.sent.map fun x => (x.kind, x.socket)) = some [(.sendSignedMessage, some 1), (.sendMessage, none)] := by
    decide +kernel
  obtain ⟨s, hs, he⟩ := Option.map_eq_some_iff.mp hrun
  have hsent := (h s (LTS.exec_reachable (fun _ _ _ => trivial) Sample.init_stopped hs)).sent
  obtain ⟨x, hx, hnone⟩ := List.mem_map.mp (he ▸ List.mem_cons_of_mem _ (List.mem_singleton_self (SendKind.sendMessage, none)))
  rw [Prod.mk.injEq] at hnone
  obtain ⟨id, hid, -⟩ := hsent x hx
  simp [hnone.2] at hid

end RemoteConnector

end QtDataSync.Connector
