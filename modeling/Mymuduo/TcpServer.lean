import Mymuduo.InetAddress
import Mymuduo.OwnedConnection

namespace Mymuduo.Net

/-- `loops_` by its size, and `next_`. -/
structure EventLoopThreadPool where
  loops : ℕ
  next_ : ℕ
deriving DecidableEq, Repr

namespace EventLoopThreadPool

def getNextLoop (p : EventLoopThreadPool) : ℕ × EventLoopThreadPool :=
  if p.loops = 0 then (0, p)
  else (p.next_ + 1, { p with next_ := if p.loops ≤ p.next_ + 1 then 0 else p.next_ + 1 })

end EventLoopThreadPool

inductive ServerFunctor
  | connectEstablished (i : ℕ)
  | removeConnectionInLoop (i : ℕ)
  | connectDestroyed (i : ℕ)
deriving DecidableEq, Repr

/-- `handleClose` stands between `connectionCallback_` and `closeCallback_`, `erased`
inside `removeConnectionInLoop` after `erase`. -/
inductive ServerTask
  | idle
  | handleClose (i : ℕ)
  | removeConnectionInLoop (i : ℕ)
  | erased (i : ℕ)
  | connectDestroyed (i : ℕ)
deriving DecidableEq, Repr

/-- `connections_` maps a name to the number of a connection, the value of
`nextConnId_` when it was accepted. -/
structure TcpServer where
  name_ : List Char
  ipPort_ : List Char
  threadPool_ : EventLoopThreadPool
  callbacks : Callbacks
  nextConnId_ : ℕ
  connections_ : List Char → Option ℕ

/-- A connection that was accepted. `established` counts the runs of
`connectEstablished`; `removed` and `destroyed` tell whether
`removeConnectionInLoop` and `connectDestroyed` have run. -/
structure ServerConnection where
  name : List Char
  ioLoop : ℕ
  life : Life
  established : ℕ
  removed : Bool
  destroyed : Bool

/-- Loop 0 is the base loop, `task` is what a loop thread is in the middle of. -/
structure ServerLoops where
  server : TcpServer
  conns : ℕ → Option ServerConnection
  pending : ℕ → List ServerFunctor
  task : ℕ → ServerTask

/-- `newConnection` comes with what `accept` returns, and with the memory that the
connection finds. -/
inductive ServerEvent
  | newConnection (sockfd : ℕ) (mem : Mem)
  | connection (i : ℕ) (e : LifeEvent)
  | removeConnection (l : ℕ)
  | erase
  | queueDestroyed
  | runFunctor (l : ℕ)
  | destroyTested (l : ℕ)

def ServerEvent.isNewConnection : ServerEvent → Bool
  | newConnection _ _ => true
  | _ => false

def LifeEvent.byServer : LifeEvent → Bool
  | destroyTested => true
  | e => e.byOwner

theorem LifeEvent.byOwner_of_byServer {e : LifeEvent} (h : e.byServer = false) :
    e.byOwner = false := by
  cases e with
  | destroyTested => rfl
  | loop | thread | queueConnectDestroyed | write => exact h

def ServerFunctor.conn : ServerFunctor → ℕ
  | connectEstablished i | removeConnectionInLoop i | connectDestroyed i => i

def ServerTask.conn : ServerTask → Option ℕ
  | idle => none
  | handleClose i | removeConnectionInLoop i | erased i | connectDestroyed i => some i

namespace TcpServer

/-- The constructor and `start`. -/
def new (name : List Char) (listenAddr : InetAddress) (callbacks : Callbacks)
    (numThreads : ℕ) : TcpServer where
  name_ := name
  ipPort_ := listenAddr.toIpPort
  threadPool_ := ⟨numThreads, 0⟩
  callbacks := callbacks
  nextConnId_ := 1
  connections_ _ := none

def connName (s : TcpServer) (connId : ℕ) : List Char :=
  s.name_ ++ snprintf 64 ('-' :: s.ipPort_ ++ '#' :: decimalInt connId)

end TcpServer

namespace ServerLoops

def start (name : List Char) (listenAddr : InetAddress) (callbacks : Callbacks)
    (numThreads : ℕ) : ServerLoops where
  server := .new name listenAddr callbacks numThreads
  conns _ := none
  pending _ := []
  task _ := .idle

variable (s : ServerLoops)

def setConn (i : ℕ) (c : ServerConnection) : ServerLoops :=
  { s with conns := Function.update s.conns i (some c) }

def setTask (l : ℕ) (t : ServerTask) : ServerLoops :=
  { s with task := Function.update s.task l t }

def queueInLoop (l : ℕ) (f : ServerFunctor) : ServerLoops :=
  { s with pending := Function.update s.pending l (s.pending l ++ [f]) }

/-- The call of a functor in loop `l`, up to the next place where the loops meet. -/
def call (l : ℕ) : ServerFunctor → Option ServerLoops
  | .connectEstablished i => do
    let c ← s.conns i
    return s.setConn i { c with
      life := c.life.setConn c.life.conn.connectEstablished, established := c.established + 1 }
  | .removeConnectionInLoop i => some (s.setTask l (.removeConnectionInLoop i))
  | .connectDestroyed i => do
    let c ← s.conns i
    let life ← c.life.step (.loop .connectDestroyed)
    return (s.setConn i { c with life := life }).setTask l (.connectDestroyed i)

def runInLoop (caller l : ℕ) (f : ServerFunctor) : Option ServerLoops :=
  if caller = l then s.call l f else some (s.queueInLoop l f)

def newConnection (sockfd : ℕ) (mem : Mem) : Option ServerLoops :=
  let (ioLoop, threadPool) := s.server.threadPool_.getNextLoop
  let i := s.server.nextConnId_
  let connName := s.server.connName i
  let conn := TcpConnection.new sockfd i .empty { s.server.callbacks with close := true }
  let s := { s with
    server := { s.server with
      threadPool_ := threadPool
      nextConnId_ := i + 1
      connections_ := Function.update s.server.connections_ connName (some i) } }
  (s.setConn i ⟨connName, ioLoop, .start conn mem, 0, false, false⟩).runInLoop 0 ioLoop
    (.connectEstablished i)

def connectionStep (i : ℕ) (e : LifeEvent) : Option ServerLoops := do
  let c ← s.conns i
  if e.ofLoop → s.task c.ioLoop = .idle then do
    let life ← c.life.step e
    let s' := s.setConn i { c with life := life }
    return if c.life.closings < life.closings then s'.setTask c.ioLoop (.handleClose i) else s'
  else none

/-- `closeCallback_` is `removeConnection`. -/
def removeConnection (l i : ℕ) : Option ServerLoops :=
  (s.setTask l .idle).runInLoop l 0 (.removeConnectionInLoop i)

def erase (i : ℕ) : Option ServerLoops := do
  let c ← s.conns i
  return ({ s with
    server := { s.server with
      connections_ := Function.update s.server.connections_ c.name none } }.setConn i
        { c with removed := true }).setTask 0 (.erased i)

def queueDestroyed (i : ℕ) : Option ServerLoops := do
  let c ← s.conns i
  return (s.setTask 0 .idle).queueInLoop c.ioLoop (.connectDestroyed i)

/-- The rest of `connectDestroyed` after its test. -/
def destroyTested (l i : ℕ) : Option ServerLoops := do
  let c ← s.conns i
  let life ← c.life.step .destroyTested
  return (s.setConn i { c with life := life, destroyed := true }).setTask l .idle

def step : ServerEvent → Option ServerLoops
  | .newConnection sockfd mem =>
    if s.task 0 = .idle then s.newConnection sockfd mem else none
  | .connection i e =>
    if e.byServer = false then s.connectionStep i e else none
  | .removeConnection l =>
    match s.task l with
    | .handleClose i => s.removeConnection l i
    | _ => none
  | .erase =>
    match s.task 0 with
    | .removeConnectionInLoop i => s.erase i
    | _ => none
  | .queueDestroyed =>
    match s.task 0 with
    | .erased i => s.queueDestroyed i
    | _ => none
  | .runFunctor l =>
    match s.task l, s.pending l with
    | .idle, f :: rest => { s with pending := Function.update s.pending l rest }.call l f
    | _, _ => none
  | .destroyTested l =>
    match s.task l with
    | .connectDestroyed i => s.destroyTested l i
    | _ => none

inductive Steps : ServerEvent → ServerLoops → Prop
  | newConnection {sockfd : ℕ} {mem : Mem} {s' : ServerLoops} (hidle : s.task 0 = .idle)
      (h : s.newConnection sockfd mem = some s') : Steps (.newConnection sockfd mem) s'
  | connection {i : ℕ} {e : LifeEvent} {c : ServerConnection} {life : Life}
      (he : e.byServer = false) (hc : s.conns i = some c)
      (hloop : e.ofLoop → s.task c.ioLoop = .idle) (hlife : c.life.step e = some life)
      (hopen : life.closings ≤ c.life.closings) :
      Steps (.connection i e) (s.setConn i { c with life := life })
  | handleClose {i : ℕ} {e : LifeEvent} {c : ServerConnection} {life : Life}
      (he : e.byServer = false) (hc : s.conns i = some c)
      (hloop : e.ofLoop → s.task c.ioLoop = .idle) (hlife : c.life.step e = some life)
      (hclosed : c.life.closings < life.closings) :
      Steps (.connection i e)
        ((s.setConn i { c with life := life }).setTask c.ioLoop (.handleClose i))
  | removeConnection {l i : ℕ} {s' : ServerLoops} (htask : s.task l = .handleClose i)
      (h : (s.setTask l .idle).runInLoop l 0 (.removeConnectionInLoop i) = some s') :
      Steps (.removeConnection l) s'
  | erase {i : ℕ} {c : ServerConnection} (htask : s.task 0 = .removeConnectionInLoop i)
      (hc : s.conns i = some c) :
      Steps .erase (({ s with
        server := { s.server with
          connections_ := Function.update s.server.connections_ c.name none } }.setConn i
            { c with removed := true }).setTask 0 (.erased i))
  | queueDestroyed {i : ℕ} {c : ServerConnection} (htask : s.task 0 = .erased i)
      (hc : s.conns i = some c) :
      Steps .queueDestroyed ((s.setTask 0 .idle).queueInLoop c.ioLoop (.connectDestroyed i))
  | runFunctor {l : ℕ} {f : ServerFunctor} {rest : List ServerFunctor} {s' : ServerLoops}
      (hidle : s.task l = .idle) (hpending : s.pending l = f :: rest)
      (h : { s with pending := Function.update s.pending l rest }.call l f = some s') :
      Steps (.runFunctor l) s'
  | destroyTested {l i : ℕ} {c : ServerConnection} {life : Life}
      (htask : s.task l = .connectDestroyed i) (hc : s.conns i = some c)
      (hlife : c.life.step .destroyTested = some life) :
      Steps (.destroyTested l)
        ((s.setConn i { c with life := life, destroyed := true }).setTask l .idle)

variable {s} {s' : ServerLoops}

theorem steps_of_step {e : ServerEvent} (h : s.step e = some s') : s.Steps e s' := by
  cases e with
  | newConnection sockfd mem =>
    simp only [step] at h
    split_ifs at h with hidle
    exact .newConnection hidle h
  | connection i e =>
    simp only [step] at h
    split_ifs at h with he
    obtain ⟨c, hc, h⟩ := Option.bind_eq_some_iff.mp h
    split_ifs at h with hloop
    obtain ⟨life, hlife, h⟩ := Option.bind_eq_some_iff.mp h
    cases Option.some.inj h
    split_ifs with hclosed
    · exact .handleClose he hc hloop hlife hclosed
    · exact .connection he hc hloop hlife (by omega)
  | removeConnection l =>
    simp only [step] at h
    split at h
    next htask => exact .removeConnection htask h
    next => cases h
  | erase =>
    simp only [step] at h
    split at h
    next htask =>
      obtain ⟨c, hc, h⟩ := Option.bind_eq_some_iff.mp h
      cases Option.some.inj h
      exact .erase htask hc
    next => cases h
  | queueDestroyed =>
    simp only [step] at h
    split at h
    next htask =>
      obtain ⟨c, hc, h⟩ := Option.bind_eq_some_iff.mp h
      cases Option.some.inj h
      exact .queueDestroyed htask hc
    next => cases h
  | runFunctor l =>
    simp only [step] at h
    split at h
    next hidle hpending => exact .runFunctor hidle hpending h
    next => cases h
  | destroyTested l =>
    simp only [step] at h
    split at h
    next htask =>
      obtain ⟨c, hc, h⟩ := Option.bind_eq_some_iff.mp h
      obtain ⟨life, hlife, h⟩ := Option.bind_eq_some_iff.mp h
      cases Option.some.inj h
      exact .destroyTested htask hc hlife
    next => cases h

end ServerLoops

end Mymuduo.Net
