import Mymuduo.Channel
import Mymuduo.Memory
import Mymuduo.ValidBuffer

namespace Mymuduo.Net

inductive StateE
  | kDisconnected | kConnecting | kConnected | kDisconnecting
deriving DecidableEq, Repr

/-- The argument of `send`: a string, given by `c_str()` and `size()`, or a
`Buffer` whose vector lies at `base`. -/
inductive SendArg
  | string (data : ℤ) (len : ℕ)
  | buffer (base : ℤ) (buf : ValidBuffer)
deriving DecidableEq

namespace SendArg

def data : SendArg → ℤ
  | string data _ => data
  | buffer base buf => base + buf.val.readIndex

def len : SendArg → ℕ
  | string _ len => len
  | buffer _ buf => buf.readableBytes

def held (mem : Mem) (arg : SendArg) : List Byte := mem.bytesAt arg.data arg.len

def InStore (mem : Mem) (arg : SendArg) : Prop :=
  match arg with
  | string _ _ => True
  | buffer _ buf => arg.held mem = buf.readable

instance (mem : Mem) (arg : SendArg) : Decidable (arg.InStore mem) :=
  match arg with
  | string _ _ => .isTrue trivial
  | buffer base buf => inferInstanceAs (Decidable ((buffer base buf).held mem = buf.readable))

def left : SendArg → List Byte
  | string _ _ => []
  | buffer _ buf => buf.readable

end SendArg

/-- A call of `send`, with its argument and the bytes that it held then. The code keeps
none of this; the model carries it along. -/
structure Call where
  id : ℕ
  arg : SendArg
  held : List Byte
deriving DecidableEq

/-- What `std::bind` packs for the loop. For `sendInLoop` that is an address and
a length. -/
inductive Functor
  | sendInLoop (call : Call) (data : ℤ) (len : ℕ)
  | shutdownInLoop
  | forceCloseInLoop
  | connectDestroyed
  | writeCompleteCallback
  | highWaterMarkCallback (len : ℕ)
deriving DecidableEq

inductive Callback
  | connection (connected : Bool)
  | message
  | writeComplete
  | highWaterMark (len : ℕ)
  | close
deriving DecidableEq, Repr

inductive Action
  | sendInLoop (call : Call) (message : List Byte)
  | write (offered : List Byte) (n : WriteResult)
  | shutdownWrite (unsent : List Byte)
  | queueInLoop (f : Functor)
  | called (cb : Callback)
deriving DecidableEq

structure Callbacks where
  connection : Bool
  writeComplete : Bool
  highWaterMark : Bool
  close : Bool
deriving DecidableEq, Repr

/-- `pending` holds the connection's functors in the loop's queue, `log` the actions so far,
the latest first. What a callback does with the connection is a later step. -/
structure TcpConnection where
  state : StateE
  channel : Channel
  poller : EpollPoller
  inputBuffer : ValidBuffer
  outputBuffer : ValidBuffer
  highWaterMark : ℕ
  callbacks : Callbacks
  pending : List Functor
  log : List Action

namespace Action

def taken : Action → List Byte
  | write offered (.wrote n) => offered.take n
  | _ => []

end Action

namespace TcpConnection

def new (fd ptr : ℕ) (poller : EpollPoller) (callbacks : Callbacks) : TcpConnection where
  state := .kConnecting
  channel := Channel.new fd ptr
  poller := poller
  inputBuffer := ValidBuffer.new Buffer.kInitialSize
  outputBuffer := ValidBuffer.new Buffer.kInitialSize
  highWaterMark := 64 * 1024 * 1024
  callbacks := callbacks
  pending := []
  log := []

variable (c : TcpConnection)

def written : List Byte := c.log.reverse.flatMap Action.taken

def setState (s : StateE) : TcpConnection := { c with state := s }

def did (a : Action) : TcpConnection := { c with log := a :: c.log }

def queueInLoop (f : Functor) : TcpConnection :=
  { c with pending := c.pending ++ [f], log := .queueInLoop f :: c.log }

def setChannel (r : EpollPoller × Channel) : TcpConnection :=
  { c with poller := r.1, channel := r.2 }

structure SendLocals where
  nwrote : ℤ
  remaining : ℤ
  faultError : Bool

/-- The direct `write` of `sendInLoop`. In the loop thread `runInLoop` calls the
write-complete callback at once. -/
def directWrite (mem : Mem) (data : ℤ) (len : ℕ) (n : WriteResult) :
    TcpConnection × SendLocals :=
  let c := c.did (.write (mem.bytesAt data len) n)
  match n with
  | .wrote n =>
    let remaining : ℤ := len - n
    (if remaining = 0 ∧ c.callbacks.writeComplete then c.did (.called .writeComplete) else c,
      ⟨n, remaining, false⟩)
  -- `nwrote` stays -1 here
  | .error err =>
    (c, ⟨-1, len, err ≠ .EWOULDBLOCK ∧ (err = .EPIPE ∨ err = .ECONNRESET)⟩)

def bufferRest (mem : Mem) (data : ℤ) (l : SendLocals) : TcpConnection :=
  if !l.faultError && decide (0 < l.remaining) then
    let oldLen := c.outputBuffer.readableBytes
    let newLen := oldLen + l.remaining.toNat
    let c := if c.highWaterMark ≤ newLen ∧ oldLen < c.highWaterMark ∧ c.callbacks.highWaterMark then
      c.queueInLoop (.highWaterMarkCallback newLen) else c
    let c := { c with
      outputBuffer := c.outputBuffer.append (mem.bytesAt (data + l.nwrote) l.remaining.toNat) }
    if c.channel.isWriting then c else c.setChannel (c.channel.enableWriting c.poller)
  else c

def writesAtOnce : Bool :=
  !c.channel.isWriting && c.outputBuffer.readableBytes == 0

def sendInLoop (call : Call) (mem : Mem) (data : ℤ) (len : ℕ) (n : WriteResult) : TcpConnection :=
  let c := c.did (.sendInLoop call (mem.bytesAt data len))
  if c.state = .kDisconnected then c
  else if c.writesAtOnce then
    let (c, l) := c.directWrite mem data len n
    c.bufferRest mem data l
  else c.bufferRest mem data ⟨0, len, false⟩

/-- `send(const std::string &)` after its test of `state_`. -/
def sendString (inLoop : Bool) (call : Call) (mem : Mem) (data : ℤ) (len : ℕ)
    (n : WriteResult) : TcpConnection :=
  if inLoop then c.sendInLoop call mem data len n
  else c.queueInLoop (.sendInLoop call data len)

/-- `send(Buffer *)` after its test of `state_`, for a `Buffer` whose vector lies
at `base`. -/
def sendBuffer (inLoop : Bool) (call : Call) (mem : Mem) (base : ℤ) (buf : ValidBuffer)
    (n : WriteResult) : TcpConnection × ValidBuffer :=
  let peek := base + buf.val.readIndex
  if inLoop then (c.sendInLoop call mem peek buf.readableBytes n, buf.retrieveAll)
  else (c.queueInLoop (.sendInLoop call peek buf.readableBytes), buf)

def shutdownInLoop : TcpConnection :=
  if c.channel.isWriting then c else c.did (.shutdownWrite c.outputBuffer.readable)

def handleClose : TcpConnection :=
  let c := c.setState .kDisconnected
  let c := c.setChannel (c.channel.disableAll c.poller)
  let c := if c.callbacks.connection then c.did (.called (.connection false)) else c
  if c.callbacks.close then c.did (.called .close) else c

/-- `handleError` only reads the socket's error and logs it. -/
def handleRead (n : ReadResult) : TcpConnection :=
  let c := { c with inputBuffer := c.inputBuffer.readFd n }
  if 0 < n.value then c.did (.called .message)
  else if n.value = 0 then c.handleClose
  else c

def flush (n : WriteResult) : TcpConnection :=
  { c.did (.write c.outputBuffer.readable n) with
    outputBuffer := (c.outputBuffer.writeFd n).2 }

def stopWriting : TcpConnection :=
  let c := c.setChannel (c.channel.disableWriting c.poller)
  if c.callbacks.writeComplete then c.queueInLoop .writeCompleteCallback else c

def handleWrite (n : WriteResult) : TcpConnection :=
  if c.channel.isWriting then
    let c := c.flush n
    if 0 < n.value ∧ c.outputBuffer.readableBytes = 0 then
      let c := c.stopWriting
      if c.state = .kDisconnecting then c.shutdownInLoop else c
    else c
  else c

def connectEstablished : TcpConnection :=
  let c := c.setState .kConnected
  let c := c.setChannel (c.channel.enableReading c.poller)
  c.did (.called (.connection true))

def connectDestroyed : TcpConnection :=
  let c := if c.state = .kConnected then
      let c := c.setState .kDisconnected
      let c := c.setChannel (c.channel.disableAll c.poller)
      c.did (.called (.connection false))
    else c
  c.setChannel (c.channel.remove c.poller)

def shutdown : TcpConnection :=
  if c.state = .kConnected then (c.setState .kDisconnecting).shutdownInLoop else c

def forceClose : TcpConnection :=
  if c.state = .kConnected ∨ c.state = .kDisconnecting then
    (c.setState .kDisconnecting).queueInLoop .forceCloseInLoop
  else c

def forceCloseInLoop : TcpConnection :=
  if c.state = .kConnected ∨ c.state = .kDisconnecting then c.handleClose else c

/-- The call of a queued functor. The last two arguments are for a `sendInLoop`. -/
def call (f : Functor) (mem : Mem) (n : WriteResult) : TcpConnection :=
  match f with
  | .sendInLoop call data len => c.sendInLoop call mem data len n
  | .shutdownInLoop => c.shutdownInLoop
  | .forceCloseInLoop => c.forceCloseInLoop
  | .connectDestroyed => c.connectDestroyed
  | .writeCompleteCallback => c.did (.called .writeComplete)
  | .highWaterMarkCallback len => c.did (.called (.highWaterMark len))

end TcpConnection

end Mymuduo.Net
