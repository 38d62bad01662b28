import Mymuduo.ConnectionThreads
import Mymuduo.PollerAgreement

namespace Mymuduo.Net

inductive EventCallback
  | close | error | read | write
deriving DecidableEq, Repr

namespace Channel

def handleEventWithGuard (revents : BitVec 32) : List EventCallback :=
  (if revents &&& EPOLLHUP != 0 && revents &&& EPOLLIN == 0 then [.close] else []) ++
  (if revents &&& EPOLLERR != 0 then [.error] else []) ++
  (if revents &&& (EPOLLIN ||| EPOLLPRI) != 0 then [.read] else []) ++
  (if revents &&& EPOLLOUT != 0 then [.write] else [])

end Channel

namespace TcpConnection

variable (c : TcpConnection)

def eventCallback (r : ReadResult) (w : WriteResult) : EventCallback → TcpConnection
  | .close => c.handleClose
  | .error => c
  | .read => c.handleRead r
  | .write => c.handleWrite w

/-- `connectDestroyed` after its test of `state_`. -/
def destroyTested (connected : Bool) : TcpConnection :=
  let c := if connected then
      let c := c.setState .kDisconnected
      let c := c.setChannel (c.channel.disableAll c.poller)
      c.did (.called (.connection false))
    else c
  c.setChannel (c.channel.remove c.poller)

theorem connectDestroyed_eq : c.connectDestroyed = c.destroyTested (c.state = .kConnected) := by
  simp only [connectDestroyed, destroyTested, decide_eq_true_eq]

end TcpConnection

/-- Where another thread stands inside `send`, `shutdown` or `forceClose`. -/
inductive LifeCaller
  | idle
  | sendTested (call : Call) (arg : SendArg)
  | shutdownTested
  | shutdownStored
  | forceCloseTested
  | forceCloseStored
deriving DecidableEq

/-- `ready` is what `poll` has reported, `dispatching` the callbacks left of it, and
`destroying` what the test of a running `connectDestroyed` has found. Calls of other
threads are cut between the test of `state_`, the store in `setState` and the push on the
queue. -/
structure Life where
  conn : TcpConnection
  mem : Mem
  ready : Option (BitVec 32)
  dispatching : List EventCallback
  destroying : Option Bool
  caller : ℕ → LifeCaller

/-- What the loop thread does. Between callbacks and functors comes user code, of
this connection or of another one. -/
inductive LoopStep
  | poll (revents : BitVec 32)
  | handleEvent
  | callback (r : ReadResult) (w : WriteResult)
  | runFunctor (n : WriteResult)
  | send (call : Call) (arg : SendArg) (n : WriteResult)
  | shutdown
  | forceClose
  | connectDestroyed

inductive ThreadStep
  | sendTest (call : Call) (arg : SendArg)
  | sendQueue
  | shutdownTest
  | shutdownStore
  | shutdownQueue
  | forceCloseTest
  | forceCloseStore
  | forceCloseQueue

def ThreadStep.isTest : ThreadStep → Bool
  | sendTest _ _ | shutdownTest | forceCloseTest => true
  | _ => false

inductive LifeEvent
  | loop (e : LoopStep)
  | destroyTested
  | thread (t : ℕ) (e : ThreadStep)
  | queueConnectDestroyed
  | write (mem : Mem)

namespace Life

def start (conn : TcpConnection) (mem : Mem) : Life :=
  ⟨conn, mem, none, [], none, fun _ ↦ .idle⟩

variable (s : Life)

def setConn (conn : TcpConnection) : Life := { s with conn := conn }

def setCaller (t : ℕ) (p : LifeCaller) : Life :=
  { s with caller := Function.update s.caller t p }

/-- A functor that is taken off the queue. `connectDestroyed` starts with its test. -/
def runFunctor (f : Functor) (rest : List Functor) (n : WriteResult) : Life :=
  let c := { s.conn with pending := rest }
  match f with
  | .connectDestroyed => { s with conn := c, destroying := some (c.state = .kConnected) }
  | f => s.setConn (c.call f s.mem n)

/-- Steps of the loop thread. Functors are not tied to the phases of an iteration:
they may also come between two callbacks. -/
def loopStep : LoopStep → Option Life
  | .poll revents =>
    if s.ready = none ∧ s.dispatching = [] ∧ (s.conn.poller.epoll s.conn.channel.fd).isSome then
      some { s with ready := some revents }
    else none
  | .handleEvent =>
    match s.ready, s.dispatching with
    | some revents, [] =>
      some { s with ready := none, dispatching := Channel.handleEventWithGuard revents }
    | _, _ => none
  | .callback r w =>
    match s.dispatching with
    | cb :: rest =>
      if r.Possible s.conn.inputBuffer.val.readvLength ∧
          w.Possible s.conn.outputBuffer.readableBytes then
        some { s with conn := s.conn.eventCallback r w cb, dispatching := rest }
      else none
    | [] => none
  | .runFunctor n =>
    match s.conn.pending with
    | f :: rest => if Threads.Possible f n then some (s.runFunctor f rest n) else none
    | [] => none
  | .send call arg n =>
    if n.Possible arg.len then
      if s.conn.state = .kConnected then some (s.setConn (s.conn.send true call s.mem n arg).1)
      else some s
    else none
  | .shutdown => some (s.setConn s.conn.shutdown)
  | .forceClose => some (s.setConn s.conn.forceClose)
  | .connectDestroyed => some { s with destroying := some (s.conn.state = .kConnected) }

def threadStep (t : ℕ) : ThreadStep → Option Life
  | .sendTest call arg =>
    if s.caller t = .idle then
      if s.conn.state = .kConnected then some (s.setCaller t (.sendTested call arg)) else some s
    else none
  | .sendQueue =>
    match s.caller t with
    | .sendTested call arg =>
      some ((s.setConn (s.conn.send false call s.mem (.wrote 0) arg).1).setCaller t .idle)
    | _ => none
  | .shutdownTest =>
    if s.caller t = .idle then
      if s.conn.state = .kConnected then some (s.setCaller t .shutdownTested) else some s
    else none
  | .shutdownStore =>
    if s.caller t = .shutdownTested then
      some ((s.setConn (s.conn.setState .kDisconnecting)).setCaller t .shutdownStored)
    else none
  | .shutdownQueue =>
    if s.caller t = .shutdownStored then
      some ((s.setConn (s.conn.queueInLoop .shutdownInLoop)).setCaller t .idle)
    else none
  | .forceCloseTest =>
    if s.caller t = .idle then
      if s.conn.state = .kConnected ∨ s.conn.state = .kDisconnecting then
        some (s.setCaller t .forceCloseTested)
      else some s
    else none
  | .forceCloseStore =>
    if s.caller t = .forceCloseTested then
      some ((s.setConn (s.conn.setState .kDisconnecting)).setCaller t .forceCloseStored)
    else none
  | .forceCloseQueue =>
    if s.caller t = .forceCloseStored then
      some ((s.setConn (s.conn.queueInLoop .forceCloseInLoop)).setCaller t .idle)
    else none

def step : LifeEvent → Option Life
  | .loop e => if s.destroying = none then s.loopStep e else none
  | .destroyTested =>
    s.destroying.map fun connected ↦
      { s with conn := s.conn.destroyTested connected, destroying := none }
  | .thread t e => s.threadStep t e
  | .queueConnectDestroyed => some (s.setConn (s.conn.queueInLoop .connectDestroyed))
  | .write mem => some { s with mem := mem }

inductive Steps : LifeEvent → Life → Prop
  | poll {revents : BitVec 32} (hd : s.destroying = none)
      (h : s.ready = none ∧ s.dispatching = [] ∧
        (s.conn.poller.epoll s.conn.channel.fd).isSome) :
      Steps (.loop (.poll revents)) { s with ready := some revents }
  | handleEvent {revents : BitVec 32} (hd : s.destroying = none) (h : s.ready = some revents) :
      Steps (.loop .handleEvent)
        { s with ready := none, dispatching := Channel.handleEventWithGuard revents }
  | callback {r : ReadResult} {w : WriteResult} {cb : EventCallback} {rest : List EventCallback}
      (hd : s.destroying = none) (h : s.dispatching = cb :: rest) :
      Steps (.loop (.callback r w))
        { s with conn := s.conn.eventCallback r w cb, dispatching := rest }
  | destroyFunctor {n : WriteResult} {rest : List Functor} (hd : s.destroying = none)
      (h : s.conn.pending = .connectDestroyed :: rest) :
      Steps (.loop (.runFunctor n))
        { s with
          conn := { s.conn with pending := rest }, destroying := some (s.conn.state = .kConnected) }
  | runFunctor {n : WriteResult} {f : Functor} {rest : List Functor} (hd : s.destroying = none)
      (h : s.conn.pending = f :: rest) (hf : f ≠ .connectDestroyed) :
      Steps (.loop (.runFunctor n)) (s.setConn ({ s.conn with pending := rest }.call f s.mem n))
  | send {call : Call} {arg : SendArg} {n : WriteResult} (hd : s.destroying = none)
      (h : s.conn.state = .kConnected) :
      Steps (.loop (.send call arg n)) (s.setConn (s.conn.send true call s.mem n arg).1)
  | sendIgnored {call : Call} {arg : SendArg} {n : WriteResult} (hd : s.destroying = none)
      (h : s.conn.state ≠ .kConnected) : Steps (.loop (.send call arg n)) s
  | shutdown (hd : s.destroying = none) : Steps (.loop .shutdown) (s.setConn s.conn.shutdown)
  | forceClose (hd : s.destroying = none) : Steps (.loop .forceClose) (s.setConn s.conn.forceClose)
  | connectDestroyed (hd : s.destroying = none) :
      Steps (.loop .connectDestroyed) { s with destroying := some (s.conn.state = .kConnected) }
  | destroyTested {connected : Bool} (hd : s.destroying = some connected) :
      Steps .destroyTested
        { s with conn := s.conn.destroyTested connected, destroying := none }
  | sendTest {t : ℕ} {call : Call} {arg : SendArg} (h : s.conn.state = .kConnected) :
      Steps (.thread t (.sendTest call arg)) (s.setCaller t (.sendTested call arg))
  | sendQueue {t : ℕ} {call : Call} {arg : SendArg} (h : s.caller t = .sendTested call arg) :
      Steps (.thread t .sendQueue)
        ((s.setConn (s.conn.send false call s.mem (.wrote 0) arg).1).setCaller t .idle)
  | shutdownTest {t : ℕ} (h : s.conn.state = .kConnected) :
      Steps (.thread t .shutdownTest) (s.setCaller t .shutdownTested)
  | shutdownStore {t : ℕ} (h : s.caller t = .shutdownTested) :
      Steps (.thread t .shutdownStore)
        ((s.setConn (s.conn.setState .kDisconnecting)).setCaller t .shutdownStored)
  | shutdownQueue {t : ℕ} (h : s.caller t = .shutdownStored) :
      Steps (.thread t .shutdownQueue)
        ((s.setConn (s.conn.queueInLoop .shutdownInLoop)).setCaller t .idle)
  | forceCloseTest {t : ℕ} (h : s.conn.state = .kConnected ∨ s.conn.state = .kDisconnecting) :
      Steps (.thread t .forceCloseTest) (s.setCaller t .forceCloseTested)
  | forceCloseStore {t : ℕ} (h : s.caller t = .forceCloseTested) :
      Steps (.thread t .forceCloseStore)
        ((s.setConn (s.conn.setState .kDisconnecting)).setCaller t .forceCloseStored)
  | forceCloseQueue {t : ℕ} (h : s.caller t = .forceCloseStored) :
      Steps (.thread t .forceCloseQueue)
        ((s.setConn (s.conn.queueInLoop .forceCloseInLoop)).setCaller t .idle)
  | testFailed {t : ℕ} {e : ThreadStep} (h : s.conn.state ≠ .kConnected)
      (he : e.isTest = true) : Steps (.thread t e) s
  | queueConnectDestroyed :
      Steps .queueConnectDestroyed (s.setConn (s.conn.queueInLoop .connectDestroyed))
  | write {mem : Mem} : Steps (.write mem) { s with mem := mem }

variable {s} {s' : Life}

theorem steps_of_loopStep {e : LoopStep} (hd : s.destroying = none)
    (h : s.loopStep e = some s') : s.Steps (.loop e) s' := by
  cases e with
  | poll revents =>
    simp only [loopStep] at h
    split_ifs at h with hc
    cases Option.some.inj h
    exact .poll hd hc
  | handleEvent =>
    simp only [loopStep] at h
    split at h
    next hready _ =>
      cases Option.some.inj h
      exact .handleEvent hd hready
    next => cases h
  | callback r w =>
    simp only [loopStep] at h
    split at h
    next hdispatching =>
      split_ifs at h
      cases Option.some.inj h
      exact .callback hd hdispatching
    next => cases h
  | runFunctor n =>
    simp only [loopStep] at h
    split at h
    next f rest hpending =>
      split_ifs at h
      cases Option.some.inj h
      by_cases hf : f = .connectDestroyed
      · subst hf
        exact .destroyFunctor hd hpending
      · have hcall : s.runFunctor f rest n =
            s.setConn ({ s.conn with pending := rest }.call f s.mem n) := by
          cases f with
          | connectDestroyed => exact (hf rfl).elim
          | _ => rfl
        rw [hcall]
        exact .runFunctor hd hpending hf
    next => cases h
  | send call arg n =>
    simp only [loopStep] at h
    split_ifs at h with _ hc
    · cases Option.some.inj h
      exact .send hd hc
    · cases Option.some.inj h
      exact .sendIgnored hd hc
  | shutdown =>
    cases Option.some.inj h
    exact .shutdown hd
  | forceClose =>
    cases Option.some.inj h
    exact .forceClose hd
  | connectDestroyed =>
    cases Option.some.inj h
    exact .connectDestroyed hd

theorem steps_of_threadStep {t : ℕ} {e : ThreadStep} (h : s.threadStep t e = some s') :
    s.Steps (.thread t e) s' := by
  cases e with
  | sendTest | shutdownTest =>
    simp only [threadStep] at h
    split_ifs at h with _ hc
    · cases Option.some.inj h
      constructor
      exact hc
    · cases Option.some.inj h
      exact .testFailed hc rfl
  | forceCloseTest =>
    simp only [threadStep] at h
    split_ifs at h with _ hc
    · cases Option.some.inj h
      exact .forceCloseTest hc
    · cases Option.some.inj h
      exact .testFailed (fun hs ↦ hc (.inl hs)) rfl
  | sendQueue =>
    simp only [threadStep] at h
    split at h
    next hcaller =>
      cases Option.some.inj h
      exact .sendQueue hcaller
    next => cases h
  | shutdownStore | shutdownQueue | forceCloseStore | forceCloseQueue =>
    simp only [threadStep] at h
    split_ifs at h with hcaller
    cases Option.some.inj h
    constructor
    exact hcaller

theorem steps_of_step {e : LifeEvent} (h : s.step e = some s') : s.Steps e s' := by
  cases e with
  | loop e =>
    simp only [step] at h
    split_ifs at h with hd
    exact steps_of_loopStep hd h
  | destroyTested =>
    obtain ⟨connected, hd, rfl⟩ := Option.map_eq_some_iff.mp h
    exact .destroyTested hd
  | thread t e => exact steps_of_threadStep h
  | queueConnectDestroyed =>
    cases Option.some.inj h
    exact .queueConnectDestroyed
  | write mem =>
    cases Option.some.inj h
    exact .write

end Life

end Mymuduo.Net
