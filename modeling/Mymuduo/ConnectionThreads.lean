import Mymuduo.TcpConnection
import Mymuduo.Lib.Execution

namespace Mymuduo.Net

namespace TcpConnection

def send (c : TcpConnection) (inLoop : Bool) (call : Call) (mem : Mem) (n : WriteResult) :
    SendArg → TcpConnection × SendArg
  | .string data len => (c.sendString inLoop call mem data len n, .string data len)
  | .buffer base buf =>
    let (c, buf) := c.sendBuffer inLoop call mem base buf n
    (c, .buffer base buf)

end TcpConnection

/-- Where another thread stands inside `send` or `shutdown`. -/
inductive Caller
  | idle
  | sendTested (call : Call) (arg : SendArg)
  | shutdownTested
  | shutdownStored
deriving DecidableEq

/-- What the threads have seen of their calls; `none` is the loop thread. Only
calls of `send` on an established connection are marked. -/
inductive Mark
  | sendReturned (t : Option ℕ) (call : Call) (arg : SendArg)
  | shutdownCalled (t : Option ℕ)
deriving DecidableEq

/-- A connection, its loop thread and the other threads. A call from another thread is cut
where it touches what the threads share: `state_`, then the functor queue. `calls` counts
the calls of `send` that found the connection established, `marks` has the latest first. -/
structure Threads where
  conn : TcpConnection
  mem : Mem
  caller : ℕ → Caller
  calls : ℕ
  marks : List Mark

/-- A step of some thread `t`, or, in the second half, of the loop thread.
`TcpServer` queues `connectDestroyed`. -/
inductive ThreadEvent
  | write (mem : Mem)
  | sendTest (t : ℕ) (arg : SendArg)
  | sendQueue (t : ℕ)
  | shutdownTest (t : ℕ)
  | shutdownStore (t : ℕ)
  | shutdownQueue (t : ℕ)
  | queueConnectDestroyed
  | send (arg : SendArg) (n : WriteResult)
  | shutdown
  | forceClose
  | handleRead (n : ReadResult)
  | handleWrite (n : WriteResult)
  | runFunctor (n : WriteResult)

def ThreadEvent.thread? : ThreadEvent → Option ℕ
  | sendTest t _ | sendQueue t | shutdownTest t | shutdownStore t | shutdownQueue t => some t
  | _ => none

namespace Threads

def start (fd ptr : ℕ) (poller : EpollPoller) (callbacks : Callbacks) (mem : Mem) : Threads where
  conn := (TcpConnection.new fd ptr poller callbacks).connectEstablished
  mem := mem
  caller := fun _ ↦ .idle
  calls := 0
  marks := []

variable (s : Threads)

def setCaller (t : ℕ) (p : Caller) : Threads :=
  { s with caller := Function.update s.caller t p }

def mark (m : Mark) : Threads := { s with marks := m :: s.marks }

def newCall (arg : SendArg) : Call := ⟨s.calls, arg, arg.held s.mem⟩

def sendTest (t : ℕ) (arg : SendArg) : Threads :=
  if s.conn.state = .kConnected then
    { s with calls := s.calls + 1 }.setCaller t (.sendTested (s.newCall arg) arg)
  else s

def sendQueue (t : ℕ) (call : Call) (arg : SendArg) : Threads :=
  let (conn, arg) := s.conn.send false call s.mem (.wrote 0) arg
  ({ s with conn := conn }.setCaller t .idle).mark (.sendReturned (some t) call arg)

def send (arg : SendArg) (n : WriteResult) : Threads :=
  if s.conn.state = .kConnected then
    let call := s.newCall arg
    let (conn, arg) := s.conn.send true call s.mem n arg
    { s with conn := conn, calls := s.calls + 1 }.mark (.sendReturned none call arg)
  else s

def shutdownTest (t : ℕ) : Threads :=
  let s := s.mark (.shutdownCalled (some t))
  if s.conn.state = .kConnected then s.setCaller t .shutdownTested else s

def shutdownStore (t : ℕ) : Threads :=
  { s with conn := s.conn.setState .kDisconnecting }.setCaller t .shutdownStored

def shutdownQueue (t : ℕ) : Threads :=
  { s with conn := s.conn.queueInLoop .shutdownInLoop }.setCaller t .idle

def Possible (f : Functor) (n : WriteResult) : Prop :=
  match f with
  | .sendInLoop _ _ len => n.Possible len
  | _ => True

instance (f : Functor) (n : WriteResult) : Decidable (Possible f n) :=
  match f with
  | .sendInLoop _ _ len => inferInstanceAs (Decidable (n.Possible len))
  | .shutdownInLoop | .forceCloseInLoop | .connectDestroyed | .writeCompleteCallback
  | .highWaterMarkCallback _ => .isTrue trivial

def runFunctor (f : Functor) (rest : List Functor) (n : WriteResult) : Threads :=
  { s with conn := { s.conn with pending := rest }.call f s.mem n }

def step : ThreadEvent → Option Threads
  | .write mem => some { s with mem := mem }
  | .sendTest t arg =>
    if s.caller t = .idle ∧ arg.InStore s.mem then some (s.sendTest t arg) else none
  | .sendQueue t =>
    match s.caller t with
    | .sendTested call arg => some (s.sendQueue t call arg)
    | _ => none
  | .shutdownTest t => if s.caller t = .idle then some (s.shutdownTest t) else none
  | .shutdownStore t => if s.caller t = .shutdownTested then some (s.shutdownStore t) else none
  | .shutdownQueue t => if s.caller t = .shutdownStored then some (s.shutdownQueue t) else none
  | .queueConnectDestroyed => some { s with conn := s.conn.queueInLoop .connectDestroyed }
  | .send arg n =>
    if arg.InStore s.mem ∧ n.Possible arg.len then some (s.send arg n) else none
  | .shutdown => some { s.mark (.shutdownCalled none) with conn := s.conn.shutdown }
  | .forceClose => some { s with conn := s.conn.forceClose }
  | .handleRead n =>
    if n.Possible s.conn.inputBuffer.val.readvLength then
      some { s with conn := s.conn.handleRead n }
    else none
  | .handleWrite n =>
    if n.Possible s.conn.outputBuffer.readableBytes then
      some { s with conn := s.conn.handleWrite n }
    else none
  | .runFunctor n =>
    match s.conn.pending with
    | f :: rest => if Possible f n then some (s.runFunctor f rest n) else none
    | [] => none

inductive Steps : ThreadEvent → Threads → Prop
  | write {mem : Mem} : Steps (.write mem) { s with mem := mem }
  | sendTest {t : ℕ} {arg : SendArg} (h : s.caller t = .idle) (hstore : arg.InStore s.mem) :
      Steps (.sendTest t arg) (s.sendTest t arg)
  | sendQueue {t : ℕ} {call : Call} {arg : SendArg} (h : s.caller t = .sendTested call arg) :
      Steps (.sendQueue t) (s.sendQueue t call arg)
  | shutdownTest {t : ℕ} (h : s.caller t = .idle) : Steps (.shutdownTest t) (s.shutdownTest t)
  | shutdownStore {t : ℕ} (h : s.caller t = .shutdownTested) :
      Steps (.shutdownStore t) (s.shutdownStore t)
  | shutdownQueue {t : ℕ} (h : s.caller t = .shutdownStored) :
      Steps (.shutdownQueue t) (s.shutdownQueue t)
  | queueConnectDestroyed :
      Steps .queueConnectDestroyed { s with conn := s.conn.queueInLoop .connectDestroyed }
  | send {arg : SendArg} {n : WriteResult} (hstore : arg.InStore s.mem) (hn : n.Possible arg.len) :
      Steps (.send arg n) (s.send arg n)
  | shutdown : Steps .shutdown { s.mark (.shutdownCalled none) with conn := s.conn.shutdown }
  | forceClose : Steps .forceClose { s with conn := s.conn.forceClose }
  | handleRead {n : ReadResult} (hn : n.Possible s.conn.inputBuffer.val.readvLength) :
      Steps (.handleRead n) { s with conn := s.conn.handleRead n }
  | handleWrite {n : WriteResult} (hn : n.Possible s.conn.outputBuffer.readableBytes) :
      Steps (.handleWrite n) { s with conn := s.conn.handleWrite n }
  | runFunctor {f : Functor} {rest : List Functor} {n : WriteResult}
      (hpending : s.conn.pending = f :: rest) (hn : Possible f n) :
      Steps (.runFunctor n) (s.runFunctor f rest n)

variable {s} {s' : Threads}

theorem steps_of_step {e : ThreadEvent} (h : s.step e = some s') : s.Steps e s' := by
  cases e with
  | write | queueConnectDestroyed | shutdown | forceClose =>
    cases Option.some.inj h
    constructor
  | shutdownTest | shutdownStore | shutdownQueue | handleRead | handleWrite =>
    simp only [step] at h
    split_ifs at h with hc
    cases Option.some.inj h
    constructor
    exact hc
  | sendTest | send =>
    simp only [step] at h
    split_ifs at h with hc
    cases Option.some.inj h
    constructor
    · exact hc.1
    · exact hc.2
  | sendQueue t =>
    simp only [step] at h
    split at h
    next hcaller =>
      cases Option.some.inj h
      exact .sendQueue hcaller
    next => cases h
  | runFunctor n =>
    simp only [step] at h
    split at h
    next hpending =>
      split_ifs at h with hn
      cases Option.some.inj h
      exact .runFunctor hpending hn
    next => cases h

theorem caller_of_step {e : ThreadEvent} (h : s.step e = some s') {t : ℕ}
    (ht : e.thread? ≠ some t) : s'.caller t = s.caller t := by
  have hother {u : ℕ} (hu : e.thread? = some u) (s : Threads) (p : Caller) :
      (s.setCaller u p).caller t = s.caller t :=
    Function.update_of_ne (fun htu ↦ ht (by rw [hu, htu])) ..
  cases steps_of_step h with
  | sendTest =>
    rw [sendTest]
    split_ifs
    · exact hother rfl _ _
    · rfl
  | shutdownTest =>
    simp only [shutdownTest]
    split_ifs
    · exact hother rfl _ _
    · rfl
  | sendQueue | shutdownStore | shutdownQueue => exact hother rfl _ _
  | send =>
    rw [send]
    split_ifs <;> rfl
  | write | queueConnectDestroyed | shutdown | forceClose | handleRead | handleWrite
  | runFunctor => rfl

end Threads

end Mymuduo.Net
