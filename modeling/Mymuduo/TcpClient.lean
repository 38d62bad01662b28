import Mymuduo.Connector
import Mymuduo.InetAddress
import Mymuduo.OwnedConnection

namespace Mymuduo.Net

/-- `connection_` is the number of a connection, the value of `nextConnId_` when it
was created. -/
structure TcpClient where
  name_ : List Char
  callbacks : Callbacks
  retry_ : Bool
  connect_ : Bool
  nextConnId_ : ℕ
  connection_ : Option ℕ

/-- `destroyed` tells whether `connectDestroyed` has run. -/
structure ClientConnection where
  name : List Char
  life : Life
  destroyed : Bool

/-- `pending` holds the connections whose `connectDestroyed` is queued; `closing` is the one
inside whose `handleClose` the loop thread stands, after `connectionCallback_`. -/
structure ClientLoop where
  client : TcpClient
  connector : ConnectorLoop
  conns : ℕ → Option ClientConnection
  pending : List ℕ
  closing : Option ℕ

/-- The peer's address and the memory are for a connection that comes about. -/
inductive ClientEvent
  | connect (attempts : List Attempt)
  | disconnect
  | stop
  | enableRetry
  | connector (e : ConnectorEvent) (peer : InetAddress) (mem : Mem)
  | connection (i : ℕ) (e : LifeEvent)
  | removeConnection (attempts : List Attempt)
  | runFunctor

/-- The user calls the client, not its connector. -/
def ConnectorEvent.ofLoop : ConnectorEvent → Bool
  | call _ => false
  | handleEvent r => r.calls.isEmpty
  | poll _ | doPendingFunctors | runFunctor _ => true

/-- The socket that a step of the connector has passed to `newConnectionCallback_`.
Without calls in the callback this is the last that the connector does. -/
def passedSocket (log log' : List ConnectorAction) : Option ℕ :=
  match log' with
  | .newConnection sockfd :: _ => if log.length < log'.length then some sockfd else none
  | _ => none

namespace TcpClient

def new (name : List Char) (callbacks : Callbacks) : TcpClient where
  name_ := name
  callbacks := callbacks
  retry_ := false
  connect_ := true
  nextConnId_ := 1
  connection_ := none

def connName (c : TcpClient) (peer : InetAddress) : List Char :=
  c.name_ ++ snprintf 32 (':' :: peer.toIpPort ++ '#' :: decimalInt c.nextConnId_)

end TcpClient

namespace ClientLoop

def start (name : List Char) (callbacks : Callbacks) (retryDelayMs : ℤ) : ClientLoop where
  client := .new name callbacks
  connector := .start retryDelayMs
  conns _ := none
  pending := []
  closing := none

variable (s : ClientLoop)

def setConnect (b : Bool) : ClientLoop := { s with client := { s.client with connect_ := b } }

def callConnector (k : ConnectorCall) : Option ClientLoop :=
  (s.connector.step (.call k)).map fun connector ↦ { s with connector := connector }

def connectionStep (i : ℕ) (e : LifeEvent) : Option ClientLoop := do
  let c ← s.conns i
  let life ← c.life.step e
  let destroyed := match e with
    | .destroyTested => true
    | _ => c.destroyed
  return { s with
    conns := Function.update s.conns i (some ⟨c.name, life, destroyed⟩)
    closing := if c.life.closings < life.closings then some i else s.closing }

def connect (attempts : List Attempt) : Option ClientLoop :=
  (s.setConnect true).callConnector (.start attempts)

def disconnect : Option ClientLoop :=
  let s := s.setConnect false
  match s.client.connection_ with
  | some i => s.connectionStep i (.loop .shutdown)
  | none => some s

def stop : Option ClientLoop := (s.setConnect false).callConnector .stop

def newConnection (sockfd : ℕ) (peer : InetAddress) (mem : Mem) : ClientLoop :=
  let i := s.client.nextConnId_
  let conn := TcpConnection.new sockfd i .empty { s.client.callbacks with close := true }
  { s with
    client := { s.client with nextConnId_ := i + 1, connection_ := some i }
    conns := Function.update s.conns i
      (some ⟨s.client.connName peer, .start conn.connectEstablished mem, false⟩) }

def connectorStep (e : ConnectorEvent) (peer : InetAddress) (mem : Mem) : Option ClientLoop :=
  (s.connector.step e).map fun connector ↦
    let s' := { s with connector := connector }
    match passedSocket s.connector.conn.log connector.conn.log with
    | some sockfd => s'.newConnection sockfd peer mem
    | none => s'

/-- `removeConnection` of the connection that is closing. -/
def removeConnection (i : ℕ) (attempts : List Attempt) : Option ClientLoop :=
  let s := { s with
    client := { s.client with connection_ := none }
    pending := s.pending ++ [i]
    closing := none }
  if s.client.retry_ && s.client.connect_ then s.callConnector (.restart attempts) else some s

def step : ClientEvent → Option ClientLoop
  | .connect attempts => s.connect attempts
  | .disconnect => s.disconnect
  | .stop => s.stop
  | .enableRetry => some { s with client := { s.client with retry_ := true } }
  | .connector e peer mem =>
    if s.closing = none ∧ e.ofLoop then s.connectorStep e peer mem else none
  | .connection i e =>
    if e.byOwner = false ∧ (e.ofLoop → s.closing = none) then s.connectionStep i e else none
  | .removeConnection attempts =>
    match s.closing with
    | some i => s.removeConnection i attempts
    | none => none
  | .runFunctor =>
    match s.closing, s.pending with
    | none, i :: rest => { s with pending := rest }.connectionStep i (.loop .connectDestroyed)
    | _, _ => none

/-- `removeConnection` up to its test of the flags. -/
def removed (i : ℕ) : ClientLoop :=
  { s with
    client := { s.client with connection_ := none }
    pending := s.pending ++ [i]
    closing := none }

inductive Steps : ClientEvent → ClientLoop → Prop
  | connect {attempts : List Attempt} {c : Connector}
      (h : s.connector.conn.call (.start attempts) = some c) :
      Steps (.connect attempts)
        { s.setConnect true with connector := { s.connector with conn := c } }
  | disconnect {i : ℕ} {s' : ClientLoop}
      (h : (s.setConnect false).connectionStep i (.loop .shutdown) = some s') :
      Steps .disconnect s'
  | disconnectNull : Steps .disconnect (s.setConnect false)
  | stop : Steps .stop
      { s.setConnect false with connector := { s.connector with conn := s.connector.conn.stop } }
  | enableRetry : Steps .enableRetry { s with client := { s.client with retry_ := true } }
  | newConnection {e : ConnectorEvent} {peer : InetAddress} {mem : Mem} {connector : ConnectorLoop}
      {sockfd : ℕ} (hclosing : s.closing = none) (he : e.ofLoop)
      (h : s.connector.step e = some connector)
      (hpassed : passedSocket s.connector.conn.log connector.conn.log = some sockfd) :
      Steps (.connector e peer mem)
        ({ s with connector := connector }.newConnection sockfd peer mem)
  | connector {e : ConnectorEvent} {peer : InetAddress} {mem : Mem} {connector : ConnectorLoop}
      (he : e.ofLoop) (h : s.connector.step e = some connector) :
      Steps (.connector e peer mem) { s with connector := connector }
  | connection {i : ℕ} {e : LifeEvent} {s' : ClientLoop} (hclosing : e.ofLoop → s.closing = none)
      (h : s.connectionStep i e = some s') : Steps (.connection i e) s'
  | restart {i : ℕ} {attempts : List Attempt} {c : Connector} (hclosing : s.closing = some i)
      (hwanted : s.client.connect_ = true)
      (h : s.connector.conn.call (.restart attempts) = some c) :
      Steps (.removeConnection attempts)
        { s.removed i with connector := { s.connector with conn := c } }
  | removeConnection {i : ℕ} {attempts : List Attempt} (hclosing : s.closing = some i) :
      Steps (.removeConnection attempts) (s.removed i)
  | runFunctor {i : ℕ} {rest : List ℕ} {s' : ClientLoop} (hpending : s.pending = i :: rest)
      (h : { s with pending := rest }.connectionStep i (.loop .connectDestroyed) = some s') :
      Steps .runFunctor s'

variable {s} {s' : ClientLoop}

theorem callConnector_eq {k : ConnectorCall} (h : s.callConnector k = some s') :
    ∃ c, s.connector.conn.call k = some c ∧
      s' = { s with connector := { s.connector with conn := c } } := by
  rw [callConnector] at h
  obtain ⟨connector, hconnector, rfl⟩ := Option.map_eq_some_iff.mp h
  obtain ⟨c, hc, rfl⟩ := Option.map_eq_some_iff.mp hconnector
  exact ⟨c, hc, rfl⟩

theorem steps_of_step {e : ClientEvent} (h : s.step e = some s') : s.Steps e s' := by
  cases e with
  | connect attempts =>
    obtain ⟨c, hc, rfl⟩ := callConnector_eq h
    exact .connect hc
  | disconnect =>
    simp only [step, ClientLoop.disconnect] at h
    split at h
    next => exact .disconnect h
    next =>
      cases Option.some.inj h
      exact .disconnectNull
  | stop =>
    rw [step, ClientLoop.stop] at h
    obtain ⟨c, hc, rfl⟩ := callConnector_eq h
    cases Option.some.inj hc
    exact .stop
  | enableRetry =>
    cases Option.some.inj h
    exact .enableRetry
  | connector e peer mem =>
    simp only [step] at h
    split_ifs at h with hc
    obtain ⟨connector, hconnector, rfl⟩ := Option.map_eq_some_iff.mp h
    split
    next hpassed => exact .newConnection hc.1 hc.2 hconnector hpassed
    next => exact .connector hc.2 hconnector
  | connection i e =>
    simp only [step] at h
    split_ifs at h with hc
    exact .connection hc.2 h
  | removeConnection attempts =>
    simp only [step] at h
    split at h
    next hclosing =>
      simp only [ClientLoop.removeConnection] at h
      split_ifs at h with hflags
      · obtain ⟨c, hc, rfl⟩ := callConnector_eq h
        exact .restart hclosing (Bool.and_eq_true_iff.mp hflags).2 hc
      · cases Option.some.inj h
        exact .removeConnection hclosing
    next => cases h
  | runFunctor =>
    simp only [step] at h
    split at h
    next hpending => exact .runFunctor hpending h
    next => cases h

end ClientLoop

end Mymuduo.Net
