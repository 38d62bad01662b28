import Mymuduo.CodecStream
import Mymuduo.ConnectionLife

namespace Mymuduo.Net

open Execution

namespace ValidBuffer

theorem readable_readFd (b : ValidBuffer) {bytes : List Byte}
    (h : (ReadResult.read bytes).Possible b.val.readvLength) :
    (b.readFd (.read bytes)).readable = b.readable ++ bytes := by
  obtain ⟨b', hb', -, hr⟩ := Buffer.readFd_spec b.property h
  have hsome : ∃ b', b.val.readFd (.read bytes) = some b' ∧ b'.WF := by
    obtain ⟨b', hb', h', -⟩ := Buffer.readFd_spec b.property h
    exact ⟨b', hb', h'⟩
  have he := Option.some.inj ((eq_some_ofSome hsome).symm.trans hb')
  simp only [readFd, dif_pos h]
  rw [readable, he, hr]
  rfl

end ValidBuffer

namespace LengthHeaderCodec

/-- Complete frames with valid lengths, one behind the other. -/
inductive WellFramed : List Byte → Prop
  | nil : WellFramed []
  | cons {b₀ b₁ b₂ b₃ : Byte} {message rest : List Byte}
      (hlen : (b₀ ++ b₁ ++ b₂ ++ b₃ : BitVec 32).toInt = message.length)
      (hmax : message.length ≤ 65536) (h : WellFramed rest) :
      WellFramed (b₀ :: b₁ :: b₂ :: b₃ :: (message ++ rest))

theorem WellFramed.parse_append {sent : List Byte} (h : WellFramed sent) (later : List Byte) :
    (referenceParse (sent ++ later)).2 = (referenceParse later).2 := by
  induction h with
  | nil => rfl
  | cons hlen hmax _ ih =>
    rw [List.cons_append, List.cons_append, List.cons_append, List.cons_append, List.append_assoc,
      referenceParse, Framing.Framer.drain_of_some (nextFrame_of_header hlen hmax _)]
    exact ih

theorem exists_wellFramed (stream : List Byte) :
    ∃ sent, stream = sent ++ (referenceParse stream).2 ∧ WellFramed sent := by
  -- Induction on the length: every frame takes a header away.
  induction hn : stream.length using Nat.strongRecOn generalizing stream with
  | ind n ih =>
    cases hnext : nextFrame stream with
    | none =>
      have hnone : referenceParse stream = ([], stream) := Framing.Framer.drain_of_none hnext
      exact ⟨[], by rw [hnone, List.nil_append], .nil⟩
    | some p =>
      obtain ⟨message, rest⟩ := p
      have hsome : (referenceParse stream).2 = (referenceParse rest).2 := by
        rw [referenceParse, Framing.Framer.drain_of_some (F := frames) hnext, referenceParse]
      obtain ⟨sent, hsent, hframed⟩ := ih rest.length (hn ▸ frames.shorter hnext) rest rfl
      obtain ⟨b₀, b₁, b₂, b₃, rfl, hlen, hmax⟩ := nextFrame_eq_some hnext
      refine ⟨b₀ :: b₁ :: b₂ :: b₃ :: (message ++ sent), ?_, .cons hlen hmax hframed⟩
      rw [hsome]
      simpa using hsent

/-- The parser stops inside a frame or in front of an invalid header. -/
theorem length_lt_of_nextFrame {xs : List Byte} (h : nextFrame xs = none) (hbad : ¬ BadHeader xs) :
    xs.length < 65536 + kHeaderLen := by
  match xs with
  | [] | [_] | [_, _] | [_, _, _] => simp [kHeaderLen]
  | b₀ :: b₁ :: b₂ :: b₃ :: rest =>
    simp only [BadHeader] at hbad
    simp only [nextFrame, if_neg hbad] at h
    split_ifs at h with hshort
    simp only [List.length_cons, kHeaderLen]
    omega

theorem BadHeader.append {xs : List Byte} (h : BadHeader xs) (ys : List Byte) :
    (referenceParse (xs ++ ys)).2 = xs ++ ys := by
  rw [referenceParse_of_badHeader h]

end LengthHeaderCodec

namespace TcpConnection

variable (c : TcpConnection)

theorem inputBuffer_bufferRest (mem : Mem) (data : ℤ) (l : SendLocals) :
    (c.bufferRest mem data l).inputBuffer = c.inputBuffer := by
  simp only [bufferRest]
  split_ifs <;> rfl

theorem inputBuffer_sendInLoop (call : Call) (mem : Mem) (data : ℤ) (len : ℕ) (n : WriteResult) :
    (c.sendInLoop call mem data len n).inputBuffer = c.inputBuffer := by
  have hwrite (c : TcpConnection) :
      (c.directWrite mem data len n).1.inputBuffer = c.inputBuffer := by
    cases n with
    | wrote n =>
      simp only [directWrite]
      split_ifs <;> rfl
    | error err => rfl
  simp only [sendInLoop]
  split_ifs
  · rfl
  · exact (inputBuffer_bufferRest ..).trans (hwrite _)
  · exact inputBuffer_bufferRest ..

theorem inputBuffer_send (inLoop : Bool) (call : Call) (mem : Mem) (n : WriteResult)
    (arg : SendArg) : (c.send inLoop call mem n arg).1.inputBuffer = c.inputBuffer := by
  cases inLoop <;> cases arg
  case true.string | true.buffer => exact inputBuffer_sendInLoop ..
  case false.string | false.buffer => rfl

theorem inputBuffer_shutdownInLoop : c.shutdownInLoop.inputBuffer = c.inputBuffer := by
  rw [shutdownInLoop]
  split_ifs <;> rfl

theorem inputBuffer_shutdown : c.shutdown.inputBuffer = c.inputBuffer := by
  rw [shutdown]
  split_ifs
  · exact inputBuffer_shutdownInLoop _
  · rfl

theorem inputBuffer_forceClose : c.forceClose.inputBuffer = c.inputBuffer := by
  rw [forceClose]
  split_ifs <;> rfl

theorem inputBuffer_handleClose : c.handleClose.inputBuffer = c.inputBuffer := by
  simp only [handleClose]
  split_ifs <;> rfl

theorem inputBuffer_handleWrite (n : WriteResult) :
    (c.handleWrite n).inputBuffer = c.inputBuffer := by
  have hstop (c : TcpConnection) : c.stopWriting.inputBuffer = c.inputBuffer := by
    simp only [stopWriting]
    split_ifs <;> rfl
  simp only [handleWrite]
  split_ifs
  · exact (inputBuffer_shutdownInLoop _).trans (hstop _)
  · exact hstop _
  · rfl
  · rfl

theorem inputBuffer_destroyTested (connected : Bool) :
    (c.destroyTested connected).inputBuffer = c.inputBuffer := by
  cases connected <;> rfl

theorem inputBuffer_call {f : Functor} (hf : f ≠ .connectDestroyed) (mem : Mem) (n : WriteResult) :
    (c.call f mem n).inputBuffer = c.inputBuffer := by
  cases f with
  | sendInLoop call data len => exact inputBuffer_sendInLoop ..
  | shutdownInLoop => exact inputBuffer_shutdownInLoop _
  | forceCloseInLoop =>
    simp only [call, forceCloseInLoop]
    split_ifs
    · exact inputBuffer_handleClose _
    · rfl
  | connectDestroyed => exact (hf rfl).elim
  | writeCompleteCallback | highWaterMarkCallback => rfl

def arrived : ReadResult → List Byte
  | .read bytes => bytes
  | .error _ => []

theorem readable_handleRead {n : ReadResult} (hn : n.Possible c.inputBuffer.val.readvLength) :
    (c.handleRead n).inputBuffer.readable = c.inputBuffer.readable ++ arrived n := by
  have hread : (c.inputBuffer.readFd n).readable = c.inputBuffer.readable ++ arrived n := by
    cases n with
    | read bytes => exact ValidBuffer.readable_readFd _ hn
    | error err => exact (List.append_nil _).symm
  simp only [handleRead]
  split_ifs
  · exact hread
  · rw [inputBuffer_handleClose]
    exact hread
  · exact hread

end TcpConnection

def LoopStep.isUserCall : LoopStep → Bool
  | send _ _ _ | shutdown | forceClose => true
  | _ => false

namespace Life

variable {s s' : Life}

def arrived (s : Life) : LifeEvent → List Byte
  | .loop (.callback r _) =>
    if s.dispatching.head? = some .read then TcpConnection.arrived r else []
  | _ => []

theorem possible_of_callback {r : ReadResult} {w : WriteResult}
    (h : s.step (.loop (.callback r w)) = some s') :
    r.Possible s.conn.inputBuffer.val.readvLength := by
  simp only [step] at h
  split_ifs at h
  simp only [loopStep] at h
  split at h
  next =>
    split_ifs at h with hpossible
    exact hpossible.1
  next => cases h

theorem step_inputBuffer {e : LifeEvent} (h : s.step e = some s') :
    s'.conn.inputBuffer.readable = s.conn.inputBuffer.readable ++ s.arrived e := by
  have hsame {c : TcpConnection} (hc : c.inputBuffer = s.conn.inputBuffer) :
      c.inputBuffer.readable = s.conn.inputBuffer.readable ++ [] := by
    rw [hc, List.append_nil]
  cases steps_of_step h with
  | @callback r w cb rest _ hdispatching =>
    simp only [arrived, hdispatching, List.head?_cons, Option.some.injEq]
    cases cb with
    | close => exact hsame (TcpConnection.inputBuffer_handleClose _)
    | error => exact hsame rfl
    | read => exact TcpConnection.readable_handleRead _ (possible_of_callback h)
    | write => exact hsame (TcpConnection.inputBuffer_handleWrite _ w)
  | runFunctor _ _ hf => exact hsame (TcpConnection.inputBuffer_call _ hf _ _)
  | send | sendQueue => exact hsame (TcpConnection.inputBuffer_send ..)
  | shutdown => exact hsame (TcpConnection.inputBuffer_shutdown _)
  | forceClose => exact hsame (TcpConnection.inputBuffer_forceClose _)
  | destroyTested => exact hsame (TcpConnection.inputBuffer_destroyTested _ _)
  | _ => exact hsame rfl

theorem loopStep_inputBuffer {k : LoopStep} (hk : k.isUserCall = true)
    (h : s.loopStep k = some s') : s'.conn.inputBuffer = s.conn.inputBuffer := by
  cases k with
  | send call arg n =>
    simp only [loopStep] at h
    split_ifs at h
    · cases Option.some.inj h
      exact TcpConnection.inputBuffer_send ..
    · cases Option.some.inj h
      rfl
  | shutdown =>
    cases Option.some.inj h
    exact TcpConnection.inputBuffer_shutdown _
  | forceClose =>
    cases Option.some.inj h
    exact TcpConnection.inputBuffer_forceClose _
  | poll | handleEvent | callback | runFunctor | connectDestroyed => cases hk

theorem userCalls_inputBuffer {calls : List LoopStep}
    (hcalls : ∀ k ∈ calls, k.isUserCall = true) (h : calls.foldlM loopStep s = some s') :
    s'.conn.inputBuffer = s.conn.inputBuffer := by
  induction calls generalizing s with
  | nil =>
    cases Option.some.inj h
    rfl
  | cons k calls ih =>
    obtain ⟨s₁, hs₁, h⟩ := Option.bind_eq_some_iff.mp h
    obtain ⟨hk, hcalls⟩ := List.forall_mem_cons.mp hcalls
    exact (ih hcalls h).trans (loopStep_inputBuffer hk hs₁)

end Life

/-- A step of a connection, with the calls that the user's `messageCallback_` makes
if the step comes to `onMessage`. -/
structure CodecEvent where
  step : LifeEvent
  calls : List LoopStep

/-- `returned` has the readable bytes of `inputBuffer_` at each return of
`onMessage`, the latest first. -/
structure CodecLife where
  life : Life
  returned : List ℕ

namespace CodecLife

open LengthHeaderCodec

def start (conn : TcpConnection) (mem : Mem) : CodecLife := ⟨.start conn mem, []⟩

/-- `onMessage` as the message callback. The callback for a message gets no buffer,
so what it calls commutes with the work on the buffer. -/
def onMessage (o : ByteOrder) (s : Life) (calls : List LoopStep) : Option Life := do
  let r ← LengthHeaderCodec.onMessage o s.conn.inputBuffer
  let s ← calls.foldlM Life.loopStep (s.setConn { s.conn with inputBuffer := r.buf })
  return if r.shutdown then s.setConn s.conn.shutdown else s

def step (o : ByteOrder) (s : CodecLife) (e : CodecEvent) : Option CodecLife := do
  let life ← s.life.step e.step
  if s.life.arrived e.step = [] then return { s with life := life }
  else if e.calls.all LoopStep.isUserCall then
    let life ← onMessage o life e.calls
    return ⟨life, life.conn.inputBuffer.readableBytes :: s.returned⟩
  else none

def arrived (s : CodecLife) (e : CodecEvent) (_ : CodecLife) : List Byte := s.life.arrived e.step

def InputBounded (s : CodecLife) : Prop := ∀ n ∈ s.returned, n < 65536 + 4

/-- The peer sends fewer bytes than a longest frame from its first invalid header on. -/
def StopsInTime (stream : List Byte) : Prop :=
  ∀ sent bad, stream = sent ++ bad → WellFramed sent → BadHeader bad → bad.length < 65536 + 4

theorem stopsInTime_iff (stream : List Byte) :
    StopsInTime stream ↔
      (BadHeader (referenceParse stream).2 → (referenceParse stream).2.length < 65536 + 4) := by
  constructor
  · intro h hbad
    obtain ⟨sent, hsent, hframed⟩ := exists_wellFramed stream
    exact h sent _ hsent hframed hbad
  · intro h sent bad hstream hframed hbad
    have hrest : (referenceParse stream).2 = bad := by
      rw [hstream, hframed.parse_append, referenceParse,
        Framing.Framer.drain_of_none (List.append_nil bad ▸ (hbad.nextFrame []).1)]
    rw [hrest] at h
    exact h hbad

/-- The buffer holds what the parser has left of the stream, and that is the most
that any return of `onMessage` has left, unless all were below the limit. -/
structure Parsed (s : CodecLife) (stream : List Byte) : Prop where
  rest : s.life.conn.inputBuffer.readable = (referenceParse stream).2
  returned : ∀ n ∈ s.returned, n < 65536 + 4 ∨
    BadHeader (referenceParse stream).2 ∧ n ≤ (referenceParse stream).2.length
  last : BadHeader (referenceParse stream).2 → (referenceParse stream).2.length ∈ s.returned

theorem Parsed.bounded_iff {s : CodecLife} {stream : List Byte} (h : s.Parsed stream) :
    s.InputBounded ↔ StopsInTime stream := by
  rw [stopsInTime_iff]
  constructor
  · exact fun hs hbad ↦ hs _ (h.last hbad)
  · intro hs n hn
    rcases h.returned n hn with hlt | ⟨hbad, hle⟩
    · exact hlt
    · exact lt_of_le_of_lt hle (hs hbad)

theorem onMessage_inputBuffer {o : ByteOrder} {s s' : Life} {calls : List LoopStep}
    (hcalls : ∀ k ∈ calls, k.isUserCall = true) (h : onMessage o s calls = some s') :
    s'.conn.inputBuffer.readable = (referenceParse s.conn.inputBuffer.readable).2 := by
  obtain ⟨r, hr, h⟩ := Option.bind_eq_some_iff.mp h
  obtain ⟨s₁, hs₁, h⟩ := Option.bind_eq_some_iff.mp h
  cases Option.some.inj h
  obtain ⟨r', hr', -, hbuf, -⟩ := onMessage_spec o s.conn.inputBuffer
  obtain rfl : r = r' := Option.some.inj (hr.symm.trans hr')
  have hkept := Life.userCalls_inputBuffer hcalls hs₁
  have hshut : (if r.shutdown then s₁.setConn s₁.conn.shutdown else s₁).conn.inputBuffer =
      s₁.conn.inputBuffer := by
    split_ifs
    · exact TcpConnection.inputBuffer_shutdown _
    · rfl
  rw [hshut, hkept]
  exact hbuf

theorem parse_parse_append (stream bytes : List Byte) :
    (referenceParse ((referenceParse stream).2 ++ bytes)).2 =
      (referenceParse (stream ++ bytes)).2 := by
  rw [referenceParse, referenceParse, referenceParse, Framing.Framer.drain_append stream]

theorem Parsed.grows {s s' : CodecLife} {stream bytes : List Byte} (h : s.Parsed stream)
    (hrest : s'.life.conn.inputBuffer.readable = (referenceParse (stream ++ bytes)).2)
    (hreturned : s'.returned = s'.life.conn.inputBuffer.readableBytes :: s.returned) :
    s'.Parsed (stream ++ bytes) := by
  have hlast : s'.life.conn.inputBuffer.readableBytes =
      (referenceParse (stream ++ bytes)).2.length := by
    rw [ValidBuffer.readableBytes_eq, hrest]
  rw [hlast] at hreturned
  refine ⟨hrest, ?_, fun _ ↦ hreturned ▸ List.mem_cons_self⟩
  rw [hreturned]
  refine List.forall_mem_cons.mpr ⟨?_, fun n hn ↦ ?_⟩
  · by_cases hbad : BadHeader (referenceParse (stream ++ bytes)).2
    · exact .inr ⟨hbad, le_rfl⟩
    · exact .inl (length_lt_of_nextFrame (Framing.Framer.next_drain (F := frames) _) hbad)
  · rcases h.returned n hn with hlt | ⟨hbad, hle⟩
    · exact .inl hlt
    · -- an invalid header in front is there for good
      have hgrown : (referenceParse (stream ++ bytes)).2 = (referenceParse stream).2 ++ bytes := by
        rw [← parse_parse_append, hbad.append]
      rw [hgrown, List.length_append]
      exact .inr ⟨(hbad.nextFrame bytes).2, by omega⟩

theorem step_parsed {o : ByteOrder} {s s' : CodecLife} {e : CodecEvent} {stream : List Byte}
    (h : s.Parsed stream) (hstep : step o s e = some s') :
    s'.Parsed (stream ++ s.arrived e s') := by
  obtain ⟨life, hlife, hstep⟩ := Option.bind_eq_some_iff.mp hstep
  have hbuf := Life.step_inputBuffer hlife
  split_ifs at hstep with harrived hcalls
  · cases Option.some.inj hstep
    rw [harrived, List.append_nil] at hbuf
    rw [arrived, harrived, List.append_nil]
    exact ⟨hbuf.trans h.rest, h.returned, h.last⟩
  · obtain ⟨life', hlife', hstep⟩ := Option.bind_eq_some_iff.mp hstep
    cases Option.some.inj hstep
    refine h.grows ?_ rfl
    rw [onMessage_inputBuffer (List.all_eq_true.mp hcalls) hlife', hbuf, h.rest]
    exact parse_parse_append stream _

theorem parsed_start (fd ptr : ℕ) (poller : EpollPoller) (callbacks : Callbacks) (mem : Mem) :
    (start (TcpConnection.new fd ptr poller callbacks).connectEstablished mem).Parsed [] := by
  have hnil : (referenceParse []).2 = [] := by
    rw [referenceParse, Framing.Framer.drain_nil]
  refine ⟨?_, by simp [start], fun hbad ↦ ?_⟩
  · rw [hnil]
    exact ValidBuffer.readable_new _
  · rw [hnil] at hbad
    exact hbad.elim

theorem run_parsed {o : ByteOrder} {fd ptr : ℕ} {poller : EpollPoller} {callbacks : Callbacks}
    {mem : Mem} {es : List CodecEvent} {s : CodecLife}
    (hrun : run (step o)
      (start (TcpConnection.new fd ptr poller callbacks).connectEstablished mem) es = some s) :
    s.Parsed (collect (step o) arrived
      (start (TcpConnection.new fd ptr poller callbacks).connectEstablished mem) es) :=
  run_collects (P := Parsed) (f := arrived) (H := fun _ ↦ True)
    (fun _ _ _ _ h _ hs ↦ step_parsed h hs) (parsed_start fd ptr poller callbacks mem)
    (fun _ _ ↦ trivial) hrun

/-- In every run, whatever the peer sends and however it is cut, `inputBuffer_` is
below the limit after each return of `onMessage` if and only if the peer stops in
time behind its first invalid header. -/
theorem inputBounded_iff (o : ByteOrder) (fd ptr : ℕ) (poller : EpollPoller)
    (callbacks : Callbacks) (mem : Mem) (es : List CodecEvent) (s : CodecLife)
    (hrun : run (step o)
      (start (TcpConnection.new fd ptr poller callbacks).connectEstablished mem) es = some s) :
    s.InputBounded ↔ StopsInTime (collect (step o) arrived
      (start (TcpConnection.new fd ptr poller callbacks).connectEstablished mem) es) :=
  (run_parsed hrun).bounded_iff

def established : CodecLife :=
  start (TcpConnection.new 5 9 .empty ⟨true, true, true, true⟩).connectEstablished .numbered

def read (bytes : List Byte) (calls : List LoopStep) : List CodecEvent :=
  [⟨.loop (.poll Channel.EPOLLIN), []⟩, ⟨.loop .handleEvent, []⟩,
    ⟨.loop (.callback (.read bytes) (.wrote 0)), calls⟩]

/-- The loop has handled everything, and the channel is registered. -/
structure Waits (s : CodecLife) : Prop where
  destroying : s.life.destroying = none
  ready : s.life.ready = none
  dispatching : s.life.dispatching = []
  registered : (s.life.conn.poller.epoll s.life.conn.channel.fd).isSome = true

theorem onMessage_frame {o : ByteOrder} {s s' : Life} (h : onMessage o s [] = some s') :
    ∃ c, s' = s.setConn c ∧ c.poller = s.conn.poller ∧ c.channel = s.conn.channel := by
  obtain ⟨r, -, h⟩ := Option.bind_eq_some_iff.mp h
  cases Option.some.inj h
  split_ifs
  · refine ⟨_, rfl, ?_⟩
    simp only [TcpConnection.shutdown, TcpConnection.shutdownInLoop]
    split_ifs <;> exact ⟨rfl, rfl⟩
  · exact ⟨_, rfl, rfl, rfl⟩

/-- A read of any size that `readv` has room for. -/
theorem Waits.read {o : ByteOrder} {s : CodecLife} (h : s.Waits) {bytes : List Byte}
    (hbytes : bytes ≠ [])
    (hpossible : (ReadResult.read bytes).Possible s.life.conn.inputBuffer.val.readvLength) :
    ∃ s', run (step o) s (read bytes []) = some s' ∧ s'.Waits ∧
      collect (step o) arrived s (read bytes []) = bytes := by
  obtain ⟨hd, hready, hdispatching, hregistered⟩ := h
  let polled : CodecLife := ⟨{ s.life with ready := some Channel.EPOLLIN }, s.returned⟩
  let handled : CodecLife := ⟨{ s.life with ready := none, dispatching := [.read] }, s.returned⟩
  let life : Life := { s.life with
    conn := s.life.conn.handleRead (.read bytes)
    ready := none
    dispatching := [] }
  have hpoll : step o s ⟨.loop (.poll Channel.EPOLLIN), []⟩ = some polled := by
    simp [step, Life.step, Life.loopStep, Life.arrived, hd, hready, hdispatching, hregistered,
      polled]
  have hhandle : step o polled ⟨.loop .handleEvent, []⟩ = some handled := by
    simp [step, Life.step, Life.loopStep, Life.arrived, hd, hdispatching, polled, handled]
    decide
  have hlife : handled.life.step (.loop (.callback (.read bytes) (.wrote 0))) = some life := by
    rw [Life.step, if_pos (show handled.life.destroying = none from hd)]
    exact if_pos ⟨hpossible, Nat.zero_le _⟩
  have harrived : handled.life.arrived (.loop (.callback (.read bytes) (.wrote 0))) ≠ [] := hbytes
  have hconn : life.conn.poller = s.life.conn.poller ∧ life.conn.channel = s.life.conn.channel := by
    have hpos : 0 < (ReadResult.read bytes).value :=
      Int.natCast_pos.mpr (List.length_pos_iff.mpr hbytes)
    simp only [life, TcpConnection.handleRead, if_pos hpos]
    exact ⟨rfl, rfl⟩
  obtain ⟨life', hmessage⟩ : ∃ life', onMessage o life [] = some life' := by
    obtain ⟨r, hr, -⟩ := onMessage_spec o life.conn.inputBuffer
    simp only [onMessage, hr]
    exact ⟨_, rfl⟩
  have hread : step o handled ⟨.loop (.callback (.read bytes) (.wrote 0)), []⟩ =
      some ⟨life', life'.conn.inputBuffer.readableBytes :: s.returned⟩ := by
    simp only [step, hlife, Option.bind_eq_bind, Option.bind_some, if_neg harrived, hmessage]
    rfl
  refine ⟨⟨life', life'.conn.inputBuffer.readableBytes :: s.returned⟩, ?_, ?_, ?_⟩
  · simp only [CodecLife.read, run, hpoll, hhandle, hread, Option.bind_some]
  · obtain ⟨c, rfl, hpoller, hchannel⟩ := onMessage_frame hmessage
    refine ⟨hd, rfl, rfl, ?_⟩
    change (c.poller.epoll c.channel.fd).isSome = true
    rw [hpoller, hchannel, hconn.1, hconn.2]
    exact hregistered
  · rw [CodecLife.read, collect_cons hpoll, collect_cons hhandle, collect_cons hread]
    exact List.append_nil bytes

/-- A peer can send anything, cut into reads in any way. -/
theorem Waits.reads {o : ByteOrder} {s : CodecLife} (h : s.Waits) (chunks : List (List Byte))
    (hchunks : ∀ bytes ∈ chunks, bytes ≠ [] ∧ bytes.length ≤ 65536) :
    ∃ s', run (step o) s (chunks.flatMap fun bytes ↦ CodecLife.read bytes []) = some s' ∧
      collect (step o) arrived s (chunks.flatMap fun bytes ↦ CodecLife.read bytes []) =
        chunks.flatten := by
  induction chunks generalizing s with
  | nil => exact ⟨s, rfl, rfl⟩
  | cons bytes chunks ih =>
    obtain ⟨⟨hbytes, hlen⟩, hchunks⟩ := List.forall_mem_cons.mp hchunks
    obtain ⟨s₁, hs₁, hwaits, hfirst⟩ := h.read (o := o) hbytes <| by
      have hextra : Buffer.extrabufSize = 65536 := rfl
      simp only [ReadResult.Possible, Buffer.readvLength]
      split_ifs <;> omega
    obtain ⟨s', hs', hrest⟩ := ih hwaits hchunks
    refine ⟨s', ?_, ?_⟩
    · rw [List.flatMap_cons, run_append, hs₁]
      exact hs'
    · rw [List.flatMap_cons, collect_append hs₁, hfirst, hrest, List.flatten_cons]

theorem waits_established : established.Waits := ⟨rfl, rfl, rfl, rfl⟩

def garbled : List (List Byte) := [[0, 0, 0], [1, 7, 255, 255, 255, 255], [1, 2, 3]]

theorem inputBounded_iff_garbled :
    ∃ s, run (step .little) established (garbled.flatMap fun bytes ↦ read bytes []) = some s ∧
      BadHeader (referenceParse garbled.flatten).2 ∧ s.InputBounded := by
  obtain ⟨s, hs, hcollect⟩ := waits_established.reads (o := .little) garbled (by decide)
  have hstops : StopsInTime (collect (step .little) arrived established
      (garbled.flatMap fun bytes ↦ read bytes [])) := by
    rw [hcollect, stopsInTime_iff]
    decide +kernel
  exact ⟨s, hs, by decide +kernel,
    (inputBounded_iff .little 5 9 .empty ⟨true, true, true, true⟩ .numbered _ s hs).mpr hstops⟩

/-- One read brings an invalid header and as many bytes as a longest frame has. -/
theorem not_inputBounded :
    ¬ ∀ (es : List CodecEvent) (s : CodecLife), run (step .little) established es = some s →
      s.InputBounded := by
  intro h
  -- for any number of bytes, since the kernel would count this one
  have hlen (n : ℕ) : (255 :: 255 :: 255 :: 255 :: List.replicate n (0 : Byte)).length = n + 4 := by
    simp only [List.length_cons, List.length_replicate]
  have hall := hlen 65536
  have hreadv : established.life.conn.inputBuffer.val.readvLength = 66560 := by decide +kernel
  have hpossible : (ReadResult.read (255 :: 255 :: 255 :: 255 :: List.replicate 65536 0)).Possible
      established.life.conn.inputBuffer.val.readvLength := by
    rw [ReadResult.Possible, hall, hreadv]
    decide
  obtain ⟨s, hs, -, hcollect⟩ :=
    waits_established.read (List.cons_ne_nil 255 (255 :: 255 :: 255 :: List.replicate 65536 0))
      hpossible
  have hbad : BadHeader (255 :: 255 :: 255 :: 255 :: List.replicate 65536 0) := Or.inl (by decide)
  have hstops := (run_parsed hs).bounded_iff.mp (h _ s hs) [] _ hcollect .nil hbad
  omega

end CodecLife

end Mymuduo.Net
