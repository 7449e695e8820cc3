import Mathlib.Data.List.Basic

/-!
# Connector.StateMachine — `ConnectorStateMachine`

The states, events and transitions of `connectorstatemachine.scxml`.  The children of `Active` are states of their own;
`Connecting` is the first of them, so a transition to `Active` enters it.
-/

namespace QtDataSync.Connector

/-- `NotRunning` is the machine before it is started. -/
inductive State where
  | NotRunning
  | Connecting
  | Connected
  | Registering
  | LoggingIn
  | Granting
  | Idle
  | Disconnected
  | Reconnecting
  | Retry
  | BasicError
  | FatalError
  | Closing
  | Final
deriving DecidableEq, Repr

inductive Event where
  | connected
  | noConnect
  | reconnect
  | disconnected
  | basicError
  | fatalError
  | account
  | awaitRegister
  | awaitLogin
  | awaitGranted
  | close
  | doDisconnect
deriving DecidableEq, Repr

namespace State

/-- A child of `Active`. -/
def isActive : State → Bool
  | Connecting | Connected | Registering | LoggingIn | Granting | Idle => true
  | _ => false

/-- The socket has been connected. -/
def isConnected : State → Bool
  | Connected | Registering | LoggingIn | Granting | Idle => true
  | _ => false

/-- A login request has been sent. -/
def isIdentified : State → Bool
  | Registering | LoggingIn | Granting | Idle => true
  | _ => false

def isRunning : State → Bool
  | NotRunning | Final => false
  | _ => true

/-- The transitions of `Active` itself. -/
def activeTransition : Event → Option State
  | .reconnect => some Reconnecting
  | .disconnected => some Retry
  | .basicError => some BasicError
  | .fatalError => some FatalError
  | _ => none

/-- The target of the transition that an event enables; those of a child come before those of `Active`. -/
def transition : State → Event → Option State
  | Connecting, .connected => some Connected
  | Connecting, .noConnect => some Disconnected
  | Connected, .awaitRegister => some Registering
  | Connected, .awaitLogin => some LoggingIn
  | Connected, .awaitGranted => some Granting
  | Registering, .account => some Idle
  | LoggingIn, .account => some Idle
  | Granting, .account => some Idle
  | Disconnected, .reconnect => some Connecting
  | Reconnecting, .disconnected => some Connecting
  | Retry, .reconnect => some Connecting
  | BasicError, .disconnected => some Retry
  | BasicError, .reconnect => some Reconnecting
  | FatalError, .disconnected => some Disconnected
  | FatalError, .reconnect => some Reconnecting
  | Closing, .disconnected => some Final
  | s, e => if s.isActive then activeTransition e else none

/-- The transitions without an event, which `isClosing` enables. -/
def closingTransition : State → Option State
  | Disconnected => some Final
  | Retry => some Final
  | s => if s.isActive then some Closing else none

/-- `doDisconnect` is sent by the transition from `Active` to `Reconnecting`, and on entry of three states. -/
def sendsDisconnect (s t : State) : Bool :=
  (s.isActive && t == Reconnecting) || t == BasicError || t == FatalError || t == Closing

/-! ### What transitions do -/

theorem isActive_of_isConnected {s : State} (h : s.isConnected = true) : s.isActive = true := by
  cases s <;> simp_all [isActive, isConnected]

theorem isConnected_of_isIdentified {s : State} (h : s.isIdentified = true) : s.isConnected = true := by
  cases s <;> simp_all [isIdentified, isConnected]

/-- `Connected` is only entered by the event of the socket. -/
theorem transition_connected {s t : State} {e : Event} (h : s.transition e = some t) (ht : t.isConnected = true) :
    e = .connected ∨ s.isConnected = true := by
  revert h ht
  cases s <;> cases e <;> rintro ⟨⟩ ⟨⟩ <;> first | exact Or.inl rfl | exact Or.inr rfl

theorem transition_isActive {s t : State} {e : Event} (h : s.transition e = some t) (ht : t.isConnected = true) :
    s.isActive = true := by
  revert h ht
  cases s <;> cases e <;> rintro ⟨⟩ ⟨⟩ <;> rfl

/-- A login is awaited after its event, and `Idle` is entered from there. -/
theorem transition_identified {s t : State} {e : Event} (h : s.transition e = some t) (ht : t.isIdentified = true) :
    s = Connected ∧ (e = .awaitRegister ∨ e = .awaitLogin ∨ e = .awaitGranted) ∧ t ≠ Idle ∨
      s.isIdentified = true ∧ s ≠ Idle ∧ e = .account ∧ t = Idle := by
  revert h ht
  cases s <;> cases e <;> rintro ⟨⟩ ⟨⟩ <;> simp [isIdentified]

theorem transition_disconnected {s t : State} (hs : s.isActive = true) (h : s.transition .disconnected = some t) :
    t = Retry := by
  revert h hs
  cases s <;> rintro ⟨⟩ ⟨⟩ <;> rfl

theorem transition_disconnected_ne {s : State} (hs : s.isActive = true) : s.transition .disconnected ≠ none := by
  revert hs
  cases s <;> rintro ⟨⟩ ⟨⟩

theorem transition_idle {s t : State} {e : Event} (h : s.transition e = some t) (ht : t.isActive = true) :
    s ≠ Idle := by
  rintro rfl
  revert h
  cases e <;> rintro ⟨⟩ <;> cases ht

theorem transition_doDisconnect (s : State) : s.transition .doDisconnect = none := by
  cases s <;> rfl

theorem transition_ne {s t : State} {e : Event} (h : s.transition e = some t) : t ≠ NotRunning := by
  rintro rfl
  revert h
  cases s <;> cases e <;> rintro ⟨⟩

theorem closingTransition_ne {s t : State} (h : s.closingTransition = some t) : t ≠ NotRunning := by
  rintro rfl
  revert h
  cases s <;> rintro ⟨⟩

theorem isActive_of_closingTransition {s : State} (h : s.closingTransition = none) : s.isActive = false := by
  revert h
  cases s <;> rintro ⟨⟩ <;> rfl

theorem closingTransition_isActive {s t : State} (h : s.closingTransition = some t) : t.isActive = false := by
  revert h
  cases s <;> rintro ⟨⟩ <;> rfl

end State

end QtDataSync.Connector
