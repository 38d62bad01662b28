import Mymuduo.Channel

namespace Mymuduo.Net

inductive States
  | kDisConnected | kConnecting | kConnected
deriving DecidableEq, Repr

inductive Attempt
  | noSocket
  | socket (fd : ℕ) (saveErrno : Option Errno)
deriving DecidableEq, Repr

/-- The functors that a connector queues. `resetChannel` binds only the
connector; `queuedBy` tells which channel was to be reset. -/
inductive ConnectorFunctor
  | resetChannel (queuedBy : ℕ)
  | stopInLoop
deriving DecidableEq, Repr

/-- What a connector does to sockets and channels. A channel that is destroyed is
noted with whether the poller still knows it, whether its `handleEvent` is
running, and, in `resetChannel`, with the channel that was to be reset. -/
inductive ConnectorAction
  | createNonBlocking (fd : Option ℕ)
  | close (fd : ℕ)
  | newConnection (fd : ℕ)
  | sleep (ms : ℕ)
  | destroyChannel (ptr : ℕ) (registered running : Bool) (queuedBy : Option ℕ)
deriving DecidableEq, Repr

inductive ConnectorCall
  | start (attempts : List Attempt)
  | restart (attempts : List Attempt)
  | stop
deriving DecidableEq, Repr

/-- `running` is the channel whose `handleEvent` is on the stack, `nextPtr` the
next address for a channel; `log` has the latest action first. -/
structure Connector where
  connect_ : Bool
  state : States
  channel : Option Channel
  retryDelayMs : ℤ
  poller : EpollPoller
  pending : List ConnectorFunctor
  running : Option ℕ
  nextPtr : ℕ
  log : List ConnectorAction

/-- The sockets that are neither closed nor passed on, the latest first. -/
def openSockets : List ConnectorAction → List ℕ
  | [] => []
  | .createNonBlocking (some fd) :: log => fd :: openSockets log
  | .close fd :: log | .newConnection fd :: log => (openSockets log).erase fd
  | _ :: log => openSockets log

namespace Attempt

inductive Outcome
  | connecting | retry | close
deriving DecidableEq, Repr

def outcome : Option Errno → Outcome
  | none | some .EINPROGRESS | some .EINTR | some .EISCONN => .connecting
  | some .EAGAIN | some .EADDRINUSE | some .EADDRNOTAVAIL | some .ECONNREFUSED
  | some .ENETUNREACH => .retry
  | some _ => .close

end Attempt

namespace Connector

def kMaxRetryDelayMs : ℤ := 30 * 1000
def kInitRetryDelayMs : ℤ := 500

/-- The constructor; it leaves `retryDelayMs_` as it finds it. -/
def new (retryDelayMs : ℤ) : Connector where
  connect_ := false
  state := .kDisConnected
  channel := none
  retryDelayMs := retryDelayMs
  poller := .empty
  pending := []
  running := none
  nextPtr := 0
  log := []

variable (c : Connector)

def setStates (s : States) : Connector := { c with state := s }

def did (a : ConnectorAction) : Connector := { c with log := a :: c.log }

def queueInLoop (f : ConnectorFunctor) : Connector := { c with pending := c.pending ++ [f] }

def registered (ch : Channel) : Bool :=
  c.poller.channels ch.fd == some ch.ptr || (c.poller.epoll ch.fd).any (·.2 == ch.ptr)

def destroyChannel (queuedBy : Option ℕ) : Connector :=
  match c.channel with
  | some ch =>
    { c with channel := none }.did
      (.destroyChannel ch.ptr (c.registered ch) (c.running == some ch.ptr) queuedBy)
  | none => c

def connecting (sockfd : ℕ) : Connector :=
  let c := (c.setStates .kConnecting).destroyChannel none
  let (poller, ch) := (Channel.new sockfd c.nextPtr).enableWriting c.poller
  { c with poller := poller, channel := some ch, nextPtr := c.nextPtr + 1 }

def removeAndResetChannel : Option (ℕ × Connector) := do
  let ch ← c.channel
  let (poller, ch) := ch.disableAll c.poller
  let (poller, ch) := ch.remove poller
  let c := { c with poller := poller, channel := some ch }
  return (ch.fd, c.queueInLoop (.resetChannel ch.ptr))

def resetChannel (queuedBy : ℕ) : Connector := c.destroyChannel (some queuedBy)

/-- `retry`, given the call of `startInLoop`. The sleep does not depend on
`retryDelayMs_`. -/
def retryWith (startInLoop : Connector → Option (Connector × List Attempt)) (sockfd : ℕ)
    (attempts : List Attempt) : Option (Connector × List Attempt) :=
  let c := (c.did (.close sockfd)).setStates .kDisConnected
  if c.connect_ then do
    let (c, attempts) ← startInLoop (c.did (.sleep 50000))
    return ({ c with retryDelayMs := min (c.retryDelayMs * 2) kMaxRetryDelayMs }, attempts)
  else some (c, attempts)

/-- `connect`, with the answers that are left; `none` when there are too few or
when the kernel would hand out a socket that is open. -/
def connect : List Attempt → Connector → Option (Connector × List Attempt)
  | [], _ => none
  -- `connect` and `close` of -1 fail with `EBADF`
  | .noSocket :: attempts, c => some (c.did (.createNonBlocking none), attempts)
  | .socket sockfd saveErrno :: attempts, c =>
    if sockfd ∈ openSockets c.log then none
    else
      let c := c.did (.createNonBlocking (some sockfd))
      match Attempt.outcome saveErrno with
      | .connecting => some (c.connecting sockfd, attempts)
      | .retry =>
        c.retryWith (fun c ↦ if c.connect_ then connect attempts c else some (c, attempts)) sockfd
          attempts
      | .close => some (c.did (.close sockfd), attempts)

def startInLoop (attempts : List Attempt) : Option (Connector × List Attempt) :=
  if c.connect_ then connect attempts c else some (c, attempts)

def retry (sockfd : ℕ) (attempts : List Attempt) : Option (Connector × List Attempt) :=
  c.retryWith (fun c ↦ c.startInLoop attempts) sockfd attempts

def start (attempts : List Attempt) : Option (Connector × List Attempt) :=
  { c with connect_ := true }.startInLoop attempts

def restart (attempts : List Attempt) : Option (Connector × List Attempt) :=
  let c := c.setStates .kDisConnected
  { c with retryDelayMs := kInitRetryDelayMs, connect_ := true }.startInLoop attempts

def stop : Connector := { c with connect_ := false }.queueInLoop .stopInLoop

def call : ConnectorCall → Option Connector
  | .start attempts => (c.start attempts).map Prod.fst
  | .restart attempts => (c.restart attempts).map Prod.fst
  | .stop => some c.stop

def stopInLoop (attempts : List Attempt) : Option Connector :=
  if c.state = .kConnecting then do
    let (sockfd, c) ← (c.setStates .kDisConnected).removeAndResetChannel
    (c.retry sockfd attempts).map Prod.fst
  else some c

/-- `handleWrite`; `calls` are those that the user makes in `newConnectionCallback_`. -/
def handleWrite (err : Option Errno) (selfConnect : Bool) (attempts : List Attempt)
    (calls : List ConnectorCall) : Option Connector :=
  if c.state = .kConnecting then do
    let (sockfd, c) ← c.removeAndResetChannel
    if err.isSome then (c.retry sockfd attempts).map Prod.fst
    else if selfConnect then (c.retry sockfd attempts).map Prod.fst
    else
      let c := c.setStates .kConnected
      if c.connect_ then calls.foldlM call (c.did (.newConnection sockfd))
      else some (c.did (.close sockfd))
  else some c

/-- `handleError` only logs the socket's error. -/
def handleError (attempts : List Attempt) : Option Connector :=
  if c.state = .kConnecting then do
    let (sockfd, c) ← c.removeAndResetChannel
    (c.retry sockfd attempts).map Prod.fst
  else some c

structure EventAnswers where
  readAttempts : List Attempt
  err : Option Errno
  selfConnect : Bool
  writeAttempts : List Attempt
  calls : List ConnectorCall

/-- `Channel::handleEvent` of the channel at `ptr`: the read callback is
`handleError`, the write callback `handleWrite`; there are no others. -/
def handleEvent (ptr : ℕ) (revents : BitVec 32) (r : EventAnswers) : Option Connector :=
  let c := { c with running := some ptr }
  (if revents &&& Channel.kReadEvent != 0 then c.handleError r.readAttempts else some c).bind
    fun c ↦ (if revents &&& Channel.kWriteEvent != 0 then
      c.handleWrite r.err r.selfConnect r.writeAttempts r.calls else some c).map
        fun c ↦ { c with running := none }

def callFunctor (attempts : List Attempt) : ConnectorFunctor → Option Connector
  | .resetChannel queuedBy => some (c.resetChannel queuedBy)
  | .stopInLoop => c.stopInLoop attempts

/-- `retry` up to its test of `connect_`. -/
def gaveUp (sockfd : ℕ) : Connector := (c.did (.close sockfd)).setStates .kDisConnected

def slept (sockfd : ℕ) : Connector := (c.gaveUp sockfd).did (.sleep 50000)

def slowedDown : Connector :=
  { c with retryDelayMs := min (c.retryDelayMs * 2) kMaxRetryDelayMs }

/-- The ways that a call of `connect` can go. -/
inductive Tries : List Attempt → Connector → Connector → Prop
  | noSocket {attempts : List Attempt} {c : Connector} :
      Tries (.noSocket :: attempts) c (c.did (.createNonBlocking none))
  | connecting {sockfd : ℕ} {saveErrno : Option Errno} {attempts : List Attempt} {c : Connector}
      (ho : Attempt.outcome saveErrno = .connecting) :
      Tries (.socket sockfd saveErrno :: attempts) c
        ((c.did (.createNonBlocking (some sockfd))).connecting sockfd)
  | close {sockfd : ℕ} {saveErrno : Option Errno} {attempts : List Attempt} {c : Connector}
      (ho : Attempt.outcome saveErrno = .close) :
      Tries (.socket sockfd saveErrno :: attempts) c
        ((c.did (.createNonBlocking (some sockfd))).did (.close sockfd))
  | giveUp {sockfd : ℕ} {saveErrno : Option Errno} {attempts : List Attempt} {c : Connector}
      (ho : Attempt.outcome saveErrno = .retry) (hconnect : c.connect_ = false) :
      Tries (.socket sockfd saveErrno :: attempts) c
        ((c.did (.createNonBlocking (some sockfd))).gaveUp sockfd)
  | again {sockfd : ℕ} {saveErrno : Option Errno} {attempts : List Attempt} {c c' : Connector}
      (ho : Attempt.outcome saveErrno = .retry) (hconnect : c.connect_ = true)
      (h : Tries attempts ((c.did (.createNonBlocking (some sockfd))).slept sockfd) c') :
      Tries (.socket sockfd saveErrno :: attempts) c c'.slowedDown

variable {c} {c' : Connector} {attempts rest : List Attempt}

theorem retryWith_cases {start : Connector → Option (Connector × List Attempt)} {sockfd : ℕ}
    (heq : c.retryWith start sockfd attempts = some (c', rest)) :
    c.connect_ = false ∧ c' = c.gaveUp sockfd ∨
      c.connect_ = true ∧ ∃ c₂, start (c.slept sockfd) = some (c₂, rest) ∧ c' = c₂.slowedDown := by
  simp only [retryWith] at heq
  split_ifs at heq with hconnect
  · obtain ⟨⟨c₂, rest'⟩, hc₂, heq⟩ := Option.bind_eq_some_iff.mp heq
    cases Option.some.inj heq
    exact .inr ⟨hconnect, c₂, hc₂, rfl⟩
  · cases Option.some.inj heq
    exact .inl ⟨by simpa [did, setStates] using hconnect, rfl⟩

theorem tries_of_connect (heq : connect attempts c = some (c', rest)) : Tries attempts c c' := by
  induction attempts generalizing c c' with
  | nil => simp [connect] at heq
  | cons a attempts ih =>
    cases a with
    | noSocket =>
      cases Option.some.inj heq
      exact .noSocket
    | socket sockfd saveErrno =>
      simp only [connect] at heq
      split_ifs at heq
      cases ho : Attempt.outcome saveErrno with
      | connecting =>
        simp only [ho] at heq
        cases Option.some.inj heq
        exact .connecting ho
      | close =>
        simp only [ho] at heq
        cases Option.some.inj heq
        exact .close ho
      | retry =>
        simp only [ho] at heq
        rcases retryWith_cases heq with ⟨hconnect, rfl⟩ | ⟨hconnect, c₂, hc₂, rfl⟩
        · exact .giveUp ho hconnect
        · rw [if_pos (show ((c.did _).slept sockfd).connect_ = true from hconnect)] at hc₂
          exact .again ho hconnect (ih hc₂)

/-- `retry` gives up or starts one attempt after the other. -/
theorem retry_cases {sockfd : ℕ} (heq : c.retry sockfd attempts = some (c', rest)) :
    c.connect_ = false ∧ c' = c.gaveUp sockfd ∨
      c.connect_ = true ∧ ∃ c₂, Tries attempts (c.slept sockfd) c₂ ∧ c' = c₂.slowedDown := by
  refine (retryWith_cases heq).imp_right fun ⟨hconnect, c₂, hc₂, hc'⟩ ↦ ⟨hconnect, c₂, ?_, hc'⟩
  rw [startInLoop, if_pos (show (c.slept sockfd).connect_ = true from hconnect)] at hc₂
  exact tries_of_connect hc₂

theorem startInLoop_cases (heq : c.startInLoop attempts = some (c', rest)) :
    c' = c ∨ Tries attempts c c' := by
  rw [startInLoop] at heq
  split_ifs at heq
  · exact .inr (tries_of_connect heq)
  · cases Option.some.inj heq
    exact .inl rfl

theorem removeAndResetChannel_setStates (s : States) : (c.setStates s).removeAndResetChannel =
    c.removeAndResetChannel.map fun r ↦ (r.1, r.2.setStates s) := by
  simp only [removeAndResetChannel]
  simp only [setStates]
  cases c.channel <;> rfl

/-- `retry` sets the state that `stopInLoop` has set already. -/
theorem stopInLoop_eq : c.stopInLoop attempts = c.handleError attempts := by
  simp only [stopInLoop, handleError, removeAndResetChannel_setStates]
  cases c.removeAndResetChannel <;> rfl

end Connector

/-- Where the loop stands: events left to handle, or functors left of the batch. -/
inductive LoopPhase
  | handling (active : List (ℕ × BitVec 32))
  | draining (batch : ℕ)
deriving DecidableEq, Repr

structure ConnectorLoop where
  conn : Connector
  phase : LoopPhase

/-- What happens in the loop thread. A call may come at any time. -/
inductive ConnectorEvent
  | call (k : ConnectorCall)
  | poll (ready : List (ℕ × BitVec 32))
  | handleEvent (r : Connector.EventAnswers)
  | doPendingFunctors
  | runFunctor (attempts : List Attempt)

namespace ConnectorLoop

def start (retryDelayMs : ℤ) : ConnectorLoop := ⟨.new retryDelayMs, .draining 0⟩

variable (s : ConnectorLoop)

/-- The step of an event, where it can happen. `poll` turns the ready descriptors into the
channel addresses that are stored with them in the epoll set. The event of a channel that
was destroyed while registered is handled as if the channel were there. -/
def step : ConnectorEvent → Option ConnectorLoop
  | .call k => (s.conn.call k).map fun c ↦ { s with conn := c }
  | .poll ready =>
    if s.phase = .draining 0 then do
      let active ← ready.mapM fun (fd, revents) ↦
        (s.conn.poller.epoll fd).map fun (_, ptr) ↦ (ptr, revents)
      return { s with phase := .handling active }
    else none
  | .handleEvent r =>
    match s.phase with
    | .handling ((ptr, revents) :: active) =>
      (s.conn.handleEvent ptr revents r).map fun c ↦ ⟨c, .handling active⟩
    | _ => none
  | .doPendingFunctors =>
    if s.phase = .handling [] then
      some { s with phase := .draining s.conn.pending.length }
    else none
  | .runFunctor attempts =>
    match s.phase, s.conn.pending with
    | .draining (n + 1), f :: rest =>
      ({ s.conn with pending := rest }.callFunctor attempts f).map fun c ↦ ⟨c, .draining n⟩
    | _, _ => none

inductive Steps : ConnectorEvent → ConnectorLoop → Prop
  | call {k : ConnectorCall} {c : Connector} (h : s.conn.call k = some c) :
      Steps (.call k) { s with conn := c }
  | poll {ready active : List (ℕ × BitVec 32)} :
      Steps (.poll ready) { s with phase := .handling active }
  | handleEvent {r : Connector.EventAnswers} {ptr : ℕ} {revents : BitVec 32}
      {active : List (ℕ × BitVec 32)} {c : Connector}
      (hphase : s.phase = .handling ((ptr, revents) :: active))
      (h : s.conn.handleEvent ptr revents r = some c) :
      Steps (.handleEvent r) ⟨c, .handling active⟩
  | doPendingFunctors : Steps .doPendingFunctors
      { s with phase := .draining s.conn.pending.length }
  | runFunctor {attempts : List Attempt} {n : ℕ} {f : ConnectorFunctor}
      {rest : List ConnectorFunctor} {c : Connector} (hpending : s.conn.pending = f :: rest)
      (h : { s.conn with pending := rest }.callFunctor attempts f = some c) :
      Steps (.runFunctor attempts) ⟨c, .draining n⟩

variable {s} {s' : ConnectorLoop}

theorem steps_of_step {e : ConnectorEvent} (h : s.step e = some s') : s.Steps e s' := by
  cases e with
  | call k =>
    obtain ⟨c, hc, rfl⟩ := Option.map_eq_some_iff.mp h
    exact .call hc
  | poll ready =>
    simp only [step] at h
    split_ifs at h
    obtain ⟨active, -, h⟩ := Option.bind_eq_some_iff.mp h
    cases Option.some.inj h
    exact .poll
  | handleEvent r =>
    simp only [step] at h
    split at h
    next hphase =>
      obtain ⟨c, hc, rfl⟩ := Option.map_eq_some_iff.mp h
      exact .handleEvent hphase hc
    next => cases h
  | doPendingFunctors =>
    simp only [step] at h
    split_ifs at h
    cases Option.some.inj h
    exact .doPendingFunctors
  | runFunctor attempts =>
    simp only [step] at h
    split at h
    next hpending =>
      obtain ⟨c, hc, rfl⟩ := Option.map_eq_some_iff.mp h
      exact .runFunctor hpending hc
    next => cases h

end ConnectorLoop

end Mymuduo.Net
