import Mymuduo.Endpoint
import Mymuduo.Lib.Duplex

namespace Mymuduo.Net

open Execution Framing

/-- What user code calls in the loop thread. The frame is built in a local `Buffer` with
its vector at `base`, and `n` is the result of the `write` that may come of it. -/
inductive CodecCall
  | send (message : List Byte) (base : ℤ) (n : WriteResult)
  | shutdown
  | forceClose

/-- `sent` are the messages of the calls of `send` on the established connection,
`delivered` those that `messageCallback_` was called with. -/
structure CodecPeer where
  endpoint : Endpoint
  sent : List (List Byte)
  delivered : List (List Byte)

/-- A step of the connection, with the calls that the user's callback makes if it comes
to `onMessage`, or a call from elsewhere in the loop. -/
inductive CodecPeerEvent
  | transport (e : LifeEvent) (calls : List CodecCall)
  | call (c : CodecCall)

namespace LengthHeaderCodec

def frame (o : ByteOrder) (message : List Byte) : List Byte := header o message ++ message

theorem badHeader_frame (o : ByteOrder) {message : List Byte} (hlong : 65536 < message.length)
    (hlen : message.length < 4294967296) : BadHeader (frame o message) := by
  obtain ⟨b₀, b₁, b₂, b₃, hheader, hvalue⟩ := header_spec o message
  rw [frame, hheader]
  simp only [List.cons_append, BadHeader, hvalue, BitVec.toInt_ofNat']
  rw [Int.bmod_def]
  split_ifs <;> omega

theorem nextFrame_frame (o : ByteOrder) {message : List Byte} (h : message.length ≤ 65536)
    (ys : List Byte) : nextFrame (frame o message ++ ys) = some (message, ys) :=
  nextFrame_sent o h ys

/-- The messages of a stream of frames, up to the first one that is too long. -/
theorem referenceParse_frames (o : ByteOrder) {messages : List (List Byte)}
    (h : ∀ message ∈ messages, message.length < 4294967296) :
    (referenceParse (messages.flatMap (frame o))).1 =
      messages.takeWhile fun message ↦ message.length ≤ 65536 := by
  induction messages with
  | nil => rw [List.flatMap_nil, referenceParse, Framer.drain_nil, List.takeWhile_nil]
  | cons message messages ih =>
    obtain ⟨hlen, h⟩ := List.forall_mem_cons.mp h
    rw [List.flatMap_cons]
    by_cases hfits : message.length ≤ 65536
    · have hnext : frames.next (frame o message ++ messages.flatMap (frame o)) =
          some (message, messages.flatMap (frame o)) := nextFrame_frame o hfits _
      have hrest := ih h
      rw [referenceParse] at hrest
      rw [referenceParse, Framer.drain_of_some hnext, hrest, List.takeWhile_cons_of_pos (by simpa)]
    · rw [referenceParse_of_badHeader (badHeader_frame o (by omega) hlen),
        List.takeWhile_cons_of_neg (by simpa using hfits)]

end LengthHeaderCodec

namespace CodecPeer

def established (c : Opening) : CodecPeer := ⟨.established c, [], []⟩

variable (o : ByteOrder) (s : CodecPeer)

def setConn (conn : TcpConnection) : CodecPeer := { s with endpoint := s.endpoint.setConn conn }

def send (message : List Byte) (base : ℤ) (n : WriteResult) : Option CodecPeer := do
  let bufs ← LengthHeaderCodec.send o message
  let endpoint ← bufs.foldlM (fun (e : Endpoint) buf ↦
    e.send ⟨s.sent.length, .buffer base buf, buf.readable⟩ (.buffer base buf) n) s.endpoint
  return { s with
    endpoint := endpoint
    sent := if s.endpoint.life.conn.state = .kConnected then s.sent ++ [message] else s.sent }

def call : CodecCall → Option CodecPeer
  | .send message base n => s.send o message base n
  | .shutdown => some (s.setConn s.endpoint.life.conn.shutdown)
  | .forceClose => some (s.setConn s.endpoint.life.conn.forceClose)

/-- `onMessage` on `inputBuffer_`. The callbacks get no buffer, so what they call
commutes with the work on it. -/
def onMessage (calls : List CodecCall) : Option CodecPeer := do
  let r ← LengthHeaderCodec.onMessage o s.endpoint.life.conn.inputBuffer
  let s := { s.setConn { s.endpoint.life.conn with inputBuffer := r.buf } with
    delivered := s.delivered ++ r.messages }
  let s ← calls.foldlM (call o) s
  return if r.shutdown then s.setConn s.endpoint.life.conn.shutdown else s

def step : CodecPeerEvent → Option CodecPeer
  | .transport e calls => do
    let endpoint ← s.endpoint.transport e
    let s' := { s with endpoint := endpoint }
    if s.endpoint.life.arrived e = [] then return s' else s'.onMessage o calls
  | .call c => if s.endpoint.life.destroying = none then s.call o c else none

open LengthHeaderCodec

/-- The invariant of one end, whatever the other end does. -/
structure Inv : Prop where
  endpoint : s.endpoint.Inv
  output : s.endpoint.output = s.sent.flatMap (frame o)
  delivered : s.delivered = (referenceParse s.endpoint.received).1
  rest : s.endpoint.life.conn.inputBuffer.readable = (referenceParse s.endpoint.received).2

/-- What the user's calls change. -/
structure Calls (s s' : CodecPeer) : Prop where
  goes : ∃ messages, s'.sent = s.sent ++ messages ∧
    s.endpoint.Goes s'.endpoint (messages.flatMap (frame o))
  keeps : s.endpoint.Keeps s'.endpoint
  delivered : s'.delivered = s.delivered

variable {o} {s} {s' s'' : CodecPeer}

theorem Calls.trans (h : Calls o s s') (h' : Calls o s' s'') : Calls o s s'' where
  goes := by
    obtain ⟨messages, hsent, hgoes⟩ := h.goes
    obtain ⟨messages', hsent', hgoes'⟩ := h'.goes
    refine ⟨messages ++ messages', ?_, ?_⟩
    · rw [hsent', hsent, List.append_assoc]
    · rw [List.flatMap_append]
      exact hgoes.trans hgoes'
  keeps := h.keeps.trans h'.keeps
  delivered := h'.delivered.trans h.delivered

theorem Calls.inv (h : Calls o s s') : s'.endpoint.Inv := by
  obtain ⟨_, -, hgoes⟩ := h.goes
  exact hgoes.inv

theorem calls_refl (h : s.endpoint.Inv) : Calls o s s :=
  ⟨⟨[], (List.append_nil _).symm, Endpoint.goes_refl h⟩, ⟨rfl, rfl, rfl⟩, rfl⟩

theorem calls_shutdown (h : s.endpoint.Inv) :
    Calls o s (s.setConn s.endpoint.life.conn.shutdown) :=
  ⟨⟨[], (List.append_nil _).symm, Endpoint.goes_shutdown h⟩,
    ⟨rfl, rfl, TcpConnection.inputBuffer_shutdown _⟩, rfl⟩

theorem calls_forceClose (h : s.endpoint.Inv) :
    Calls o s (s.setConn s.endpoint.life.conn.forceClose) :=
  ⟨⟨[], (List.append_nil _).symm, Endpoint.goes_forceClose h⟩,
    ⟨rfl, rfl, TcpConnection.inputBuffer_forceClose _⟩, rfl⟩

theorem calls_send {message : List Byte} {base : ℤ} {n : WriteResult} (h : s.endpoint.Inv)
    (hsend : s.send o message base n = some s') : Calls o s s' := by
  obtain ⟨buf, hbuf, hreadable⟩ := send_spec o message
  simp only [send, hbuf, Option.bind_eq_bind, Option.bind_some, List.foldlM_cons,
    List.foldlM_nil, Option.pure_def] at hsend
  obtain ⟨endpoint, hendpoint, hsend⟩ := Option.bind_eq_some_iff.mp hsend
  obtain ⟨endpoint', hendpoint', hendpoint⟩ := Option.bind_eq_some_iff.mp hendpoint
  cases Option.some.inj hendpoint
  cases Option.some.inj hsend
  obtain ⟨hstore, hkeeps⟩ := Endpoint.keeps_send hendpoint'
  have hgoes := Endpoint.goes_send h hendpoint'
  refine ⟨⟨if s.endpoint.life.conn.state = .kConnected then [message] else [], ?_, ?_⟩, hkeeps, rfl⟩
  · dsimp only
    split_ifs
    · rfl
    · exact (List.append_nil _).symm
  · rw [show (SendArg.buffer base buf).held s.endpoint.life.mem = frame o message from
      hstore.trans hreadable] at hgoes
    split_ifs at hgoes ⊢ with hstate
    · simpa using hgoes
    · exact hgoes

theorem calls_call {c : CodecCall} (h : s.endpoint.Inv) (hcall : s.call o c = some s') :
    Calls o s s' := by
  cases c with
  | send message base n => exact calls_send h hcall
  | shutdown =>
    cases Option.some.inj hcall
    exact calls_shutdown h
  | forceClose =>
    cases Option.some.inj hcall
    exact calls_forceClose h

theorem calls_foldlM {calls : List CodecCall} (h : s.endpoint.Inv)
    (hcalls : calls.foldlM (call o) s = some s') : Calls o s s' := by
  induction calls generalizing s with
  | nil =>
    cases Option.some.inj hcalls
    exact calls_refl h
  | cons c calls ih =>
    obtain ⟨s₁, hs₁, hcalls⟩ := Option.bind_eq_some_iff.mp hcalls
    have hcall := calls_call h hs₁
    exact hcall.trans (ih hcall.inv hcalls)

theorem Inv.of_calls (h : Inv o s) (hcalls : Calls o s s') : Inv o s' where
  endpoint := hcalls.inv
  output := by
    obtain ⟨messages, hsent, hgoes⟩ := hcalls.goes
    rw [hgoes.output, h.output, hsent, List.flatMap_append]
  delivered := by rw [hcalls.delivered, hcalls.keeps.received, h.delivered]
  rest := by rw [hcalls.keeps.inputBuffer, hcalls.keeps.received, h.rest]

/-- `onMessage` after `bytes` have been appended to what the parser had left. -/
theorem inv_onMessage {stream bytes : List Byte} {calls : List CodecCall}
    (hendpoint : s.endpoint.Inv) (houtput : s.endpoint.output = s.sent.flatMap (frame o))
    (hdelivered : s.delivered = (referenceParse stream).1)
    (hrest : s.endpoint.life.conn.inputBuffer.readable = (referenceParse stream).2 ++ bytes)
    (hreceived : s.endpoint.received = stream ++ bytes)
    (hcall : s.onMessage o calls = some s') : Inv o s' := by
  obtain ⟨r, hr, hcall⟩ := Option.bind_eq_some_iff.mp hcall
  obtain ⟨r', hr', hmessages, hbuf, -⟩ := onMessage_spec o s.endpoint.life.conn.inputBuffer
  cases hr.symm.trans hr'
  obtain ⟨s₁, hs₁, hcall⟩ := Option.bind_eq_some_iff.mp hcall
  have happend : referenceParse (stream ++ bytes) =
      ((referenceParse stream).1 ++ (referenceParse ((referenceParse stream).2 ++ bytes)).1,
        (referenceParse ((referenceParse stream).2 ++ bytes)).2) := Framer.drain_append stream bytes
  have hgoes := Endpoint.goes_inputBuffer hendpoint r.buf
  have hparsed : Inv o { s.setConn { s.endpoint.life.conn with inputBuffer := r.buf } with
      delivered := s.delivered ++ r.messages } := by
    constructor
    case endpoint => exact hgoes.inv
    case output => exact (hgoes.output.trans (List.append_nil _)).trans houtput
    case delivered =>
      change s.delivered ++ r.messages = (referenceParse s.endpoint.received).1
      rw [hreceived, happend, hdelivered, hmessages, hrest]
    case rest =>
      change r.buf.readable = (referenceParse s.endpoint.received).2
      rw [hreceived, happend, hbuf, hrest]
  have hcalls := hparsed.of_calls (calls_foldlM hparsed.endpoint hs₁)
  cases Option.some.inj hcall
  split_ifs
  · exact hcalls.of_calls (calls_shutdown hcalls.endpoint)
  · exact hcalls

theorem step_inv {e : CodecPeerEvent} (h : Inv o s) (hstep : s.step o e = some s') : Inv o s' := by
  cases e with
  | call c =>
    simp only [step] at hstep
    split_ifs at hstep
    exact h.of_calls (calls_call h.endpoint hstep)
  | transport e calls =>
    obtain ⟨endpoint, hendpoint, hstep⟩ := Option.bind_eq_some_iff.mp hstep
    have hgoes := Endpoint.goes_transport h.endpoint hendpoint
    obtain ⟨hreceived, hinput⟩ := Endpoint.transport_received hendpoint
    have houtput : endpoint.output = s.sent.flatMap (frame o) :=
      (hgoes.output.trans (List.append_nil _)).trans h.output
    split_ifs at hstep with harrived
    · cases Option.some.inj hstep
      rw [harrived, List.append_nil] at hreceived hinput
      exact ⟨hgoes.inv, houtput, by rw [hreceived, h.delivered], by rw [hreceived, hinput, h.rest]⟩
    · refine inv_onMessage (s := { s with endpoint := endpoint }) hgoes.inv houtput h.delivered ?_
        hreceived hstep
      rw [hinput, h.rest]

theorem goes_onMessage {calls : List CodecCall} (h : s.endpoint.Inv)
    (hcall : s.onMessage o calls = some s') : ∃ sent, s.endpoint.Goes s'.endpoint sent := by
  obtain ⟨r, hr, hcall⟩ := Option.bind_eq_some_iff.mp hcall
  obtain ⟨s₁, hs₁, hcall⟩ := Option.bind_eq_some_iff.mp hcall
  have hinput := Endpoint.goes_inputBuffer h r.buf
  obtain ⟨messages, -, hgoes⟩ := (calls_foldlM hinput.inv hs₁).goes
  cases Option.some.inj hcall
  split_ifs
  · exact ⟨_, (hinput.trans hgoes).trans (Endpoint.goes_shutdown hgoes.inv)⟩
  · exact ⟨_, hinput.trans hgoes⟩

theorem step_goes {e : CodecPeerEvent} (h : s.endpoint.Inv) (hstep : s.step o e = some s') :
    ∃ sent, s.endpoint.Goes s'.endpoint sent := by
  cases e with
  | call c =>
    simp only [step] at hstep
    split_ifs at hstep
    obtain ⟨messages, -, hgoes⟩ := (calls_call h hstep).goes
    exact ⟨_, hgoes⟩
  | transport e calls =>
    obtain ⟨endpoint, hendpoint, hstep⟩ := Option.bind_eq_some_iff.mp hstep
    have hgoes := Endpoint.goes_transport h hendpoint
    split_ifs at hstep
    · cases Option.some.inj hstep
      exact ⟨_, hgoes⟩
    · obtain ⟨sent, hsent⟩ :=
        goes_onMessage (s := { s with endpoint := endpoint }) hgoes.inv hstep
      exact ⟨_, hgoes.trans hsent⟩

def party (o : ByteOrder) : Duplex.Party CodecPeer CodecPeerEvent Byte where
  step s e := s.step o e
  received s := s.endpoint.received
  written s := s.endpoint.written
  sawEnd s := s.endpoint.sawEnd
  ended s := s.endpoint.ended
  Inv := Inv o
  inv_step h hstep := step_inv h hstep
  written_grows h hstep := by
    obtain ⟨_, hgoes⟩ := step_goes h.endpoint hstep
    exact hgoes.written
  ended_step h hstep hended := by
    obtain ⟨_, hgoes⟩ := step_goes h.endpoint hstep
    exact hgoes.ended h.endpoint hended

/-- No direct `write` of `s` has failed and the length of each message fits a header. -/
structure Intact (s : CodecPeer) : Prop where
  refused : s.endpoint.refused = false
  sent : ∀ message ∈ s.sent, message.length < 4294967296

instance : DecidablePred Intact := fun s ↦
  decidable_of_iff (s.endpoint.refused = false ∧ ∀ message ∈ s.sent, message.length < 4294967296)
    ⟨fun ⟨h, h'⟩ ↦ ⟨h, h'⟩, fun h ↦ ⟨h.refused, h.sent⟩⟩

/-- The messages of `s` that a peer can take: those before the first one that is longer
than the receiver allows. -/
def takeable (s : CodecPeer) : List (List Byte) :=
  s.sent.takeWhile fun message ↦ message.length ≤ 65536

theorem stream_eq (h : Inv o s) (hintact : s.Intact) :
    s.endpoint.written ++ s.endpoint.life.conn.outputBuffer.readable =
      s.sent.flatMap (frame o) := by
  rw [← h.output, ← h.endpoint.stream hintact.refused]
  rfl

theorem prefix_delivered {o' : ByteOrder} {t : CodecPeer} (h : Inv o s) (ht : Inv o' t)
    (hreceived : t.endpoint.received <+: s.endpoint.written) (hintact : s.Intact) :
    t.delivered <+: s.takeable := by
  rw [ht.delivered, takeable, ← referenceParse_frames o hintact.sent, ← stream_eq h hintact]
  exact Framer.prefix_drain (hreceived.trans (List.prefix_append ..))

theorem delivered_all {o' : ByteOrder} {t : CodecPeer} (h : Inv o s) (ht : Inv o' t)
    (hreceived : t.endpoint.received = s.endpoint.written) (hintact : s.Intact)
    (hempty : s.endpoint.life.conn.outputBuffer.readable = []) : t.delivered = s.takeable := by
  have hstream := stream_eq h hintact
  rw [hempty, List.append_nil] at hstream
  rw [ht.delivered, takeable, ← referenceParse_frames o hintact.sent, hreceived, hstream]

/-- An open end that has half closed has written everything. -/
theorem drained_of_ended (h : Inv o s)
    (hopen : .connection false ∉ s.endpoint.life.conn.reports) (hended : s.endpoint.ended = true) :
    s.endpoint.life.conn.outputBuffer.readable = [] := by
  obtain ⟨unsent, hmem⟩ := Endpoint.ended_iff.mp hended
  by_contra hne
  have hwriting := h.endpoint.attends h.endpoint.connection hopen hne
  rw [(h.endpoint.rests unsent hmem).2.1] at hwriting
  cases hwriting

theorem inv_established (o : ByteOrder) (c : Opening) : Inv o (established c) where
  endpoint := Endpoint.inv_established c
  output := rfl
  delivered := by
    change [] = (referenceParse []).1
    rw [referenceParse, Framer.drain_nil]
  rest := by
    change (ValidBuffer.new Buffer.kInitialSize).readable = (referenceParse []).2
    rw [referenceParse, Framer.drain_nil, ValidBuffer.readable_new]

theorem joined_of_run {o o' : ByteOrder} {c d : Opening}
    {es : List (CodecPeerEvent ⊕ CodecPeerEvent)} {p : CodecPeer × CodecPeer}
    (hrun : run (Duplex.step (party o) (party o')) (established c, established d) es = some p) :
    Duplex.Joined (party o) (party o') p :=
  Duplex.run_joined
    (Duplex.joined_start (inv_established o c) (inv_established o' d) rfl rfl rfl rfl) hrun

/-- What `t` has been given of the messages of `s`. -/
structure Delivers (s t : CodecPeer) : Prop where
  inOrder : t.delivered <+: s.takeable
  all : s.endpoint.life.conn.outputBuffer.readable = [] →
    t.endpoint.received = s.endpoint.written → t.delivered = s.takeable

theorem delivers_of_joined {o' : ByteOrder} {t : CodecPeer} (h : Inv o s) (ht : Inv o' t)
    (hreads : Duplex.Reads (party o') (party o) t s) (hintact : s.Intact) : s.Delivers t :=
  ⟨prefix_delivered h ht hreads.received hintact,
    fun hempty hall ↦ delivered_all h ht hall hintact hempty⟩

/-- In every run of two connected programs that talk through the codec, each is given
the messages of the other in order, none lost, none twice and none altered, up to the
first message over the limit, and all of these once nothing is on its way. -/
theorem messages_delivered (o o' : ByteOrder) (c d : Opening)
    (es : List (CodecPeerEvent ⊕ CodecPeerEvent)) (p : CodecPeer × CodecPeer)
    (hrun : run (Duplex.step (party o) (party o')) (established c, established d) es = some p) :
    (p.1.Intact → p.1.Delivers p.2) ∧ (p.2.Intact → p.2.Delivers p.1) := by
  have h := joined_of_run hrun
  exact ⟨delivers_of_joined h.left h.right h.rightReads,
    delivers_of_joined h.right h.left h.leftReads⟩

def opening : Opening :=
  ⟨5, 9, .empty, ⟨true, true, true, true⟩, fun a ↦ if a = 3 then 1 else if a = 4 then 7 else 0⟩

def lastMessage : List (CodecPeerEvent ⊕ CodecPeerEvent) :=
  [.inl (.call (.send [7] (-4) (.wrote 2))), .inl (.call .shutdown),
    .inl (.transport (.loop (.poll Channel.EPOLLOUT)) []),
    .inl (.transport (.loop .handleEvent) []),
    .inl (.transport (.loop (.callback (.error .EINTR) (.wrote 3))) []),
    .inr (.transport (.loop (.poll Channel.EPOLLIN)) []),
    .inr (.transport (.loop .handleEvent) [])]

def readsMessage : LifeEvent := .loop (.callback (.read [0, 0, 0, 1, 7]) (.wrote 0))

def readsEnd : List (CodecPeerEvent ⊕ CodecPeerEvent) :=
  [.inr (.transport (.loop (.poll Channel.EPOLLIN)) []),
    .inr (.transport (.loop .handleEvent) []),
    .inr (.transport (.loop (.callback (.read []) (.wrote 0))) [])]

def Passed (p : CodecPeer × CodecPeer) : Prop :=
  p.1.Intact ∧ p.1.sent = [[7]] ∧ p.1.endpoint.life.destroying = none ∧
    p.1.endpoint.life.conn.state ≠ .kConnected ∧
    p.1.endpoint.life.conn.channel.isWriting = false ∧
    p.1.endpoint.life.conn.outputBuffer.readable = [] ∧
    p.2.endpoint.received = p.1.endpoint.written

def Ends (p : CodecPeer × CodecPeer) : Prop :=
  p.2.endpoint.sawEnd = true ∧ p.1.Intact ∧ p.1.sent = [[7]] ∧
    .connection false ∉ p.1.endpoint.life.conn.reports

instance : DecidablePred Passed := fun _ ↦ inferInstanceAs (Decidable (_ ∧ _))

instance : DecidablePred Ends := fun _ ↦ inferInstanceAs (Decidable (_ ∧ _))

theorem exists_lastMessageRun : ∃ p, run (Duplex.step (party .little) (party .big))
    (established opening, established opening)
      (lastMessage ++ [.inr (.transport readsMessage [])]) = some p ∧ Passed p ∧
        (run (Duplex.step (party .little) (party .big)) p readsEnd).map (fun q ↦ decide (Ends q)) =
          some true := by
  have hrun : (run (Duplex.step (party .little) (party .big))
      (established opening, established opening) lastMessage).map (fun p ↦
        decide (p.2.endpoint.life.destroying = none ∧ p.2.endpoint.life.dispatching = [.read] ∧
          5 ≤ p.2.endpoint.life.conn.inputBuffer.val.writeableBytes ∧
          (CodecPeer.onMessage .big { p.2 with
            endpoint := p.2.endpoint.read [0, 0, 0, 1, 7] [] } []).map (fun t ↦
              decide (Passed (p.1, t) ∧ t.endpoint.sawEnd = false ∧
                (run (Duplex.step (party .little) (party .big)) (p.1, t) readsEnd).map
                  (fun q ↦ decide (Ends q)) = some true)) = some true)) = some true := by
    decide +kernel
  obtain ⟨⟨s, t⟩, hp, hend⟩ := Option.map_eq_some_iff.mp hrun
  obtain ⟨hd, hdispatching, hroom, hreads⟩ := of_decide_eq_true hend
  obtain ⟨t', ht', hreads⟩ := Option.map_eq_some_iff.mp hreads
  obtain ⟨hpassed, hsaw, hends⟩ := of_decide_eq_true hreads
  have hendpoint : t.endpoint.transport readsMessage =
      some (t.endpoint.read [0, 0, 0, 1, 7] []) :=
    Endpoint.transport_read hd hdispatching (List.cons_ne_nil _ _) hroom
  have hall : t'.endpoint.received = s.endpoint.written := hpassed.2.2.2.2.2.2
  have hreads : Duplex.Reads (party .big) (party .little) t' s := by
    constructor
    · change t'.endpoint.received <+: s.endpoint.written
      exact hall ▸ List.prefix_rfl
    · intro hend
      exact (Bool.false_ne_true (hsaw.symm.trans hend)).elim
  have hlast : (party .big).step t (.transport readsMessage []) = some t' := by
    change CodecPeer.step .big t (.transport readsMessage []) = some t'
    have hready : t.endpoint.life.dispatching.head? = some .read := congrArg List.head? hdispatching
    rw [CodecPeer.step, hendpoint]
    exact (if_neg (by simp [Life.arrived, readsMessage, hready, TcpConnection.arrived])).trans ht'
  refine ⟨(s, t'), ?_, hpassed, hends⟩
  rw [run_append, hp]
  simp [run, Duplex.step, hlast, hreads]

theorem messages_delivered_lastMessage :
    ∃ p, run (Duplex.step (party .little) (party .big)) (established opening, established opening)
        (lastMessage ++ [.inr (.transport readsMessage [])]) = some p ∧
      p.2.delivered = [[7]] ∧ p.1.Delivers p.2 ∧ (p.2.Intact → p.2.Delivers p.1) := by
  obtain ⟨p, hp, ⟨hintact, hsent, -, -, -, hempty, hall⟩, -⟩ := exists_lastMessageRun
  obtain ⟨hleft, hright⟩ := messages_delivered .little .big opening opening _ p hp
  refine ⟨p, hp, ?_, hleft hintact, hright⟩
  rw [(hleft hintact).all hempty hall, takeable, hsent]
  rfl

/-- A program that comes to the end of its stream has been given every message of a
peer that half closed while its connection was open. -/
theorem delivered_at_end (o o' : ByteOrder) (c d : Opening)
    (es : List (CodecPeerEvent ⊕ CodecPeerEvent)) (p : CodecPeer × CodecPeer)
    (hrun : run (Duplex.step (party o) (party o')) (established c, established d) es = some p)
    (hend : p.2.endpoint.sawEnd = true) (hintact : p.1.Intact)
    (hopen : .connection false ∉ p.1.endpoint.life.conn.reports) :
    p.2.delivered = p.1.takeable := by
  have h := joined_of_run hrun
  obtain ⟨hended, hall⟩ := h.rightReads.sawEnd hend
  exact delivered_all h.left h.right hall hintact (drained_of_ended h.left hopen hended)

theorem delivered_at_end_lastMessage :
    ∃ p, run (Duplex.step (party .little) (party .big)) (established opening, established opening)
      (lastMessage ++ [.inr (.transport readsMessage [])] ++ readsEnd) = some p ∧
        p.2.endpoint.sawEnd = true ∧ p.1.takeable = [[7]] ∧ p.2.delivered = p.1.takeable := by
  obtain ⟨p, hp, -, hends⟩ := exists_lastMessageRun
  obtain ⟨q, hq, hends⟩ := Option.map_eq_some_iff.mp hends
  obtain ⟨hend, hintact, hsent, hopen⟩ := of_decide_eq_true hends
  have hrun : run (Duplex.step (party .little) (party .big))
      (established opening, established opening)
        (lastMessage ++ [.inr (.transport readsMessage [])] ++ readsEnd) = some q := by
    rw [run_append, hp]
    exact hq
  refine ⟨q, hrun, hend, ?_,
    delivered_at_end .little .big opening opening _ q hrun hend hintact hopen⟩
  rw [takeable, hsent]
  rfl

end CodecPeer

end Mymuduo.Net
