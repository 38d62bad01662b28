import Mymuduo.CodecInput
import Mymuduo.ConnectionReports
import Mymuduo.GracefulShutdown

namespace Mymuduo.Net

open Execution

def LifeEvent.sends : LifeEvent → Bool
  | loop (.send _ _ _) | thread _ (.sendTest _ _) | thread _ .sendQueue => true
  | _ => false

/-- A read that fits the buffer does what `append` does. -/
theorem ValidBuffer.readFd_of_short {b : ValidBuffer} {bytes : List Byte}
    (h : bytes.length ≤ b.val.writeableBytes) : b.readFd (.read bytes) = b.append bytes := by
  have hpossible : (ReadResult.read bytes).Possible b.val.readvLength := by
    simp only [ReadResult.Possible, Buffer.readvLength]
    split_ifs <;> omega
  have hread : b.val.readFd (.read bytes) = b.val.append bytes := by
    obtain ⟨extrabuf, hextra, -⟩ := Buffer.extrabuf_spec hpossible
    have hroom : b.val.ensureWriteableBytes bytes.length = some b.val := if_neg (by omega)
    simp only [Buffer.readFd, hextra, List.take_of_length_le h, if_pos h, Buffer.append, hroom,
      Option.bind_eq_bind, Option.bind_some]
  simp only [readFd, dif_pos hpossible, append, hread]

/-- A functor that may wait in the queue of `c` when nobody calls `send` from another
thread. -/
def Functor.Follows (c : TcpConnection) : Functor → Prop
  | sendInLoop _ _ _ => False
  | shutdownInLoop => c.state ≠ .kConnected
  | _ => True

/-- `refused` tells whether a direct `write` has failed; `sendInLoop` then loses the
bytes or sends others. -/
structure Endpoint where
  life : Life
  received : List Byte
  sawEnd : Bool
  refused : Bool

/-- What a connection starts from. `connectEstablished` calls `connectionCallback_`
without a test. -/
structure Opening where
  fd : ℕ
  ptr : ℕ
  poller : EpollPoller
  callbacks : Callbacks
  mem : Mem

namespace Life

def readsEnd (s : Life) : LifeEvent → Bool
  | .loop (.callback r _) => decide (s.dispatching.head? = some .read ∧ r = .read [])
  | _ => false

end Life

def LifeCaller.Follows (c : TcpConnection) : LifeCaller → Prop
  | sendTested _ _ => False
  | shutdownStored => c.state ≠ .kConnected
  | _ => True

theorem LifeCaller.Follows.of_state {c c' : TcpConnection} {p : LifeCaller} (h : p.Follows c)
    (hstate : c'.state = .kConnected → c.state = .kConnected) : p.Follows c' := by
  cases p with
  | sendTested => exact h
  | shutdownStored => exact mt hstate h
  | idle | shutdownTested | forceCloseTested | forceCloseStored => exact trivial

theorem Functor.Follows.of_state {c c' : TcpConnection} {f : Functor} (h : f.Follows c)
    (hstate : c'.state = .kConnected → c.state = .kConnected) : f.Follows c' := by
  cases f with
  | sendInLoop => exact h
  | shutdownInLoop => exact mt hstate h
  | forceCloseInLoop | connectDestroyed | writeCompleteCallback | highWaterMarkCallback =>
    exact trivial

namespace Endpoint

def established (c : Opening) : Endpoint :=
  ⟨.start (TcpConnection.new c.fd c.ptr c.poller
    { c.callbacks with connection := true }).connectEstablished c.mem, [], false, false⟩

variable (s : Endpoint)

/-- A step of the connection that is no call of `send`. Other threads may shut down and
force a close; a `send` of theirs would queue an address, and is no step of an end. -/
def transport (e : LifeEvent) : Option Endpoint :=
  if e.sends then none
  else (s.life.step e).map fun life ↦ { s with
    life := life
    received := s.received ++ s.life.arrived e
    sawEnd := s.sawEnd || s.life.readsEnd e }

def send (call : Call) (arg : SendArg) (n : WriteResult) : Option Endpoint :=
  if s.life.destroying = none ∧ arg.InStore s.life.mem then
    (s.life.loopStep (.send call arg n)).map fun life ↦ { s with
      life := life
      refused := s.refused ||
        decide (s.life.conn.state = .kConnected ∧ s.life.conn.Refuses arg.len n) }
  else none

def setConn (conn : TcpConnection) : Endpoint := { s with life := s.life.setConn conn }

def ended : Bool := s.life.conn.log.any fun a ↦ match a with
  | .shutdownWrite _ => true
  | _ => false

end Endpoint

namespace TcpConnection

/-- A connection that has half closed writes no more, and what the half close has left
stays in the buffer. -/
def Rests (c : TcpConnection) : Prop := ∀ unsent, .shutdownWrite unsent ∈ c.log →
  c.outputBuffer.readable = unsent ∧ c.channel.isWriting = false ∧ c.state ≠ .kConnected

/-- Until the connection is reported down, what waits in the buffer has the loop's
attention. -/
def Attends (c : TcpConnection) : Prop :=
  c.callbacks.connection = true → .connection false ∉ c.reports → c.Attended

/-- What a function that is no `send` does to the output and to the queue. -/
structure Shifts (c c' : TcpConnection) : Prop where
  stream : c'.stream = c.stream
  messages : messages c'.log = messages c.log
  log : c.log <:+ c'.log
  queued : ∀ f ∈ c'.pending, f ∈ c.pending ∨ f.Follows c'
  state : c'.state = .kConnected → c.state = .kConnected
  rests : c.Rests → c'.Rests

structure Moves (c c' : TcpConnection) : Prop extends Shifts c c' where
  attends : c.Attends → c'.Attends

variable {c c' c'' : TcpConnection}

theorem Shifts.trans (h : Shifts c c') (h' : Shifts c' c'') : Shifts c c'' where
  stream := h'.stream.trans h.stream
  messages := h'.messages.trans h.messages
  log := h.log.trans h'.log
  queued f hf := by
    rcases h'.queued f hf with hf | hf
    · exact (h.queued f hf).imp_right fun hf ↦ hf.of_state h'.state
    · exact .inr hf
  state hs := h.state (h'.state hs)
  rests hr := h'.rests (h.rests hr)

theorem Shifts.ite {p : Prop} [Decidable p] (h : Shifts c c') (h' : Shifts c c'') :
    Shifts c (if p then c' else c'') := by
  split_ifs
  · exact h
  · exact h'

theorem Moves.refl (c : TcpConnection) : Moves c c :=
  ⟨⟨rfl, rfl, List.suffix_rfl, fun _ ↦ .inl, id, id⟩, id⟩

theorem Moves.trans (h : Moves c c') (h' : Moves c' c'') : Moves c c'' :=
  ⟨h.toShifts.trans h'.toShifts, fun ha ↦ h'.attends (h.attends ha)⟩

theorem Moves.ite {p : Prop} [Decidable p] (h : Moves c c') (h' : Moves c c'') :
    Moves c (if p then c' else c'') := by
  split_ifs
  · exact h
  · exact h'

/-- Nothing is done but to give up the interest in writing or the state `kConnected`. -/
theorem Shifts.of_kept (hlog : c'.log = c.log) (hbuffer : c'.outputBuffer = c.outputBuffer)
    (hwriting : c'.channel.isWriting = true → c.channel.isWriting = true)
    (hstate : c'.state = .kConnected → c.state = .kConnected)
    (hqueued : ∀ f ∈ c'.pending, f ∈ c.pending ∨ f.Follows c') : Shifts c c' where
  stream := by
    rw [TcpConnection.stream, TcpConnection.stream, TcpConnection.written, TcpConnection.written,
      hlog, hbuffer]
  messages := by rw [hlog]
  log := ⟨[], hlog.symm⟩
  queued := hqueued
  state := hstate
  rests h unsent hmem := by
    rw [hlog] at hmem
    obtain ⟨hr, hw, hs⟩ := h unsent hmem
    exact ⟨hbuffer ▸ hr, eq_false_of_ne_true (mt hwriting (by simp [hw])), mt hstate hs⟩

theorem Moves.of_kept (hlog : c'.log = c.log) (hbuffer : c'.outputBuffer = c.outputBuffer)
    (hwriting : c'.channel.isWriting = c.channel.isWriting)
    (hcallbacks : c'.callbacks = c.callbacks)
    (hstate : c'.state = .kConnected → c.state = .kConnected)
    (hqueued : ∀ f ∈ c'.pending, f ∈ c.pending ∨ f.Follows c') : Moves c c' where
  toShifts := .of_kept hlog hbuffer (by rw [hwriting]; exact id) hstate hqueued
  attends h hc hr := by
    rw [Attended, hbuffer, hwriting]
    refine h (hcallbacks ▸ hc) ?_
    rwa [reports, hlog] at hr

theorem Attends.did (h : c.Attends) (a : Action) : (c.did a).Attends := by
  intro hc hr
  refine h hc fun hmem ↦ hr ?_
  obtain ⟨b, hb, hreport⟩ := List.mem_filterMap.mp hmem
  exact List.mem_filterMap.mpr ⟨b, List.mem_cons_of_mem _ hb, hreport⟩

/-- An action that neither sends nor half closes. -/
theorem moves_did {a : Action} (htaken : a.taken = []) (ha : a.Plain) : Moves c (c.did a) where
  stream := c.stream_did a htaken
  messages := by cases a <;> first | exact ha.elim | simp [did, Action.message]
  log := List.suffix_cons ..
  queued _ := .inl
  state := id
  rests h unsent hmem := by
    have hne : Action.shutdownWrite unsent ≠ a := by
      rintro rfl
      exact ha
    exact h unsent ((List.mem_cons.mp hmem).resolve_left hne)
  attends h := h.did a

theorem moves_queueInLoop {f : Functor} (hf : f.Follows c) : Moves c (c.queueInLoop f) := by
  have hqueued : Moves c { c with pending := c.pending ++ [f] } := by
    refine .of_kept rfl rfl rfl rfl id fun g hg ↦ ?_
    rcases List.mem_append.mp hg with hg | hg
    · exact .inl hg
    · exact .inr (List.mem_singleton.mp hg ▸ hf)
  exact hqueued.trans (moves_did (a := .queueInLoop f) rfl trivial)

theorem moves_disconnecting : Moves c (c.setState .kDisconnecting) :=
  .of_kept rfl rfl rfl rfl (by simp [setState]) fun _ ↦ .inl

theorem moves_shutdownInLoop (h : c.state ≠ .kConnected) : Moves c c.shutdownInLoop := by
  rw [shutdownInLoop]
  split_ifs with hw
  · exact .refl c
  · refine ⟨⟨c.stream_did _ rfl, by simp [did, Action.message], List.suffix_cons .., fun _ ↦ .inl,
      id, fun hrests unsent hmem ↦ ?_⟩, fun ha ↦ ha.did _⟩
    rcases List.mem_cons.mp hmem with heq | hmem
    · cases heq
      exact ⟨rfl, eq_false_of_ne_true hw, h⟩
    · exact hrests unsent hmem

theorem moves_shutdown : Moves c c.shutdown := by
  rw [shutdown]
  split_ifs
  · exact moves_disconnecting.trans (moves_shutdownInLoop (by simp [setState]))
  · exact .refl c

theorem moves_forceClose : Moves c c.forceClose := by
  rw [forceClose]
  split_ifs
  · exact moves_disconnecting.trans (moves_queueInLoop trivial)
  · exact .refl c

theorem shifts_disabled : Shifts c
    ((c.setState .kDisconnected).setChannel (c.channel.disableAll c.poller)) :=
  .of_kept rfl rfl (by simp [setChannel]) (by simp [setChannel, setState]) fun _ ↦ .inl

theorem moves_handleClose : Moves c c.handleClose where
  toShifts := by
    have hcalled (cb : Callback) (b : Bool) (c : TcpConnection) :
        Shifts c (if b then c.did (.called cb) else c) :=
      .ite (moves_did (a := .called cb) rfl trivial).toShifts (Moves.refl c).toShifts
    exact (shifts_disabled.trans (hcalled (.connection false) _ _)).trans (hcalled .close _ _)
  attends _ hc hr := by
    have hcallbacks : c.handleClose.callbacks = c.callbacks := by
      simp only [handleClose]
      split_ifs <;> rfl
    rw [hcallbacks] at hc
    refine (hr ?_).elim
    simp [reports_handleClose, endReports, hc]

theorem moves_forceCloseInLoop : Moves c c.forceCloseInLoop := .ite moves_handleClose (.refl c)

theorem moves_handleRead (n : ReadResult) : Moves c (c.handleRead n) := by
  have hread : Moves c { c with inputBuffer := c.inputBuffer.readFd n } :=
    .of_kept rfl rfl rfl rfl id fun _ ↦ .inl
  exact hread.trans (.ite (moves_did rfl trivial) (.ite moves_handleClose (.refl _)))

theorem moves_destroyTested (connected : Bool) : Moves c (c.destroyTested connected) := by
  have hremove (c : TcpConnection) : Moves c (c.setChannel (c.channel.remove c.poller)) :=
    .of_kept rfl rfl rfl rfl id fun _ ↦ .inl
  cases connected with
  | false => exact hremove c
  | true =>
    refine Moves.trans ⟨shifts_disabled.trans (moves_did (a := .called (.connection false)) rfl
      trivial).toShifts, fun _ _ hr ↦ ?_⟩ (hremove _)
    exact (hr (by simp [reports, did, Action.report?])).elim

theorem Rests.not_halfClosed (h : c.Rests) (hw : c.channel.isWriting = true) :
    ¬ HalfClosed c.log := by
  rintro ⟨unsent, hmem⟩
  obtain ⟨-, hrest, -⟩ := h unsent hmem
  simp [hw] at hrest

theorem Adds.log (h : c.Adds c') : c.log <:+ c'.log := by
  obtain ⟨⟨acts, hlog, -⟩, -⟩ := h
  rw [hlog]
  exact List.suffix_append ..

theorem written_of_log (h : c.log <:+ c'.log) : c.written <+: c'.written := by
  obtain ⟨acts, hlog⟩ := h
  rw [written, written, ← hlog, List.reverse_append, List.flatMap_append]
  exact List.prefix_append ..

theorem moves_handleWrite (n : WriteResult) : Moves c (c.handleWrite n) := by
  obtain ⟨-, hsame⟩ | ⟨hw, c', hadds, hattended, hstate, hstream, hcase⟩ := c.handleWrite_cases n
  · rw [hsame]
    exact .refl c
  · have hmoves : Moves c c' := by
      refine ⟨⟨hstream, hadds.messages, hadds.log, fun f hf ↦ ?_, by rw [hstate]; exact id,
        fun hrests unsent hmem ↦ ?_⟩, fun _ _ _ ↦ hattended⟩
      · obtain ⟨-, fs, hpending, hfs⟩ := hadds
        rw [hpending] at hf
        refine (List.mem_append.mp hf).imp_right fun hf ↦ ?_
        have hnotifies := hfs f hf
        cases f <;> first | exact hnotifies.elim | trivial
      · exact (hrests.not_halfClosed hw (hadds.halfClosed.mp ⟨unsent, hmem⟩)).elim
    rcases hcase with heq | ⟨hdrains, heq⟩
    · rwa [heq]
    · rw [heq]
      exact hmoves.trans (moves_shutdownInLoop (by simp [hstate, hdrains.2.1]))

theorem moves_eventCallback (r : ReadResult) (w : WriteResult) (cb : EventCallback) :
    Moves c (c.eventCallback r w cb) := by
  cases cb with
  | close => exact moves_handleClose
  | error => exact .refl c
  | read => exact moves_handleRead r
  | write => exact moves_handleWrite w

theorem moves_call {f : Functor} (hf : f.Follows c) (hne : f ≠ .connectDestroyed) (mem : Mem)
    (n : WriteResult) : Moves c (c.call f mem n) := by
  cases f with
  | sendInLoop => exact hf.elim
  | shutdownInLoop => exact moves_shutdownInLoop hf
  | forceCloseInLoop => exact moves_forceCloseInLoop
  | connectDestroyed => exact (hne rfl).elim
  | writeCompleteCallback | highWaterMarkCallback => exact moves_did rfl trivial

theorem moves_pending {f : Functor} {rest : List Functor} (h : c.pending = f :: rest) :
    Moves c { c with pending := rest } := by
  refine .of_kept rfl rfl rfl rfl id fun g hg ↦ .inl ?_
  rw [h]
  exact List.mem_cons_of_mem f hg

end TcpConnection

namespace Life

open TcpConnection

/-- No message is on its way from another thread, and who is about to half close has
published it. -/
structure InLoop (s : Life) : Prop where
  pending : ∀ f ∈ s.conn.pending, f.Follows s.conn
  caller : ∀ t, (s.caller t).Follows s.conn

variable {s s' : Life}

theorem step_moves {e : LifeEvent} (h : s.InLoop) (he : e.sends = false)
    (hstep : s.step e = some s') : Moves s.conn s'.conn := by
  cases steps_of_step hstep with
  | callback => exact moves_eventCallback _ _ _
  | destroyFunctor _ hpending => exact moves_pending hpending
  | runFunctor _ hpending hne =>
    refine (moves_pending hpending).trans (moves_call ?_ hne _ _)
    exact h.pending _ (hpending ▸ List.mem_cons_self)
  | shutdown => exact moves_shutdown
  | forceClose => exact moves_forceClose
  | destroyTested => exact moves_destroyTested _
  | shutdownStore | forceCloseStore => exact moves_disconnecting
  | @shutdownQueue t hcaller =>
    have hstored := h.caller t
    rw [hcaller] at hstored
    exact moves_queueInLoop hstored
  | forceCloseQueue | queueConnectDestroyed => exact moves_queueInLoop trivial
  | send | sendIgnored | sendTest | sendQueue => cases he
  | poll | handleEvent | connectDestroyed | shutdownTest | forceCloseTest | testFailed | write =>
    exact .refl _

theorem InLoop.of_shifts (h : s.InLoop) {c : TcpConnection} (hmoves : Shifts s.conn c) :
    (s.setConn c).InLoop where
  pending f hf := by
    rcases hmoves.queued f hf with hf | hf
    · exact (h.pending f hf).of_state hmoves.state
    · exact hf
  caller t := (h.caller t).of_state hmoves.state

theorem step_inLoop {e : LifeEvent} (h : s.InLoop) (he : e.sends = false)
    (hstep : s.step e = some s') : s'.InLoop := by
  have hmoves := h.of_shifts (step_moves h he hstep).toShifts
  refine ⟨hmoves.pending, fun t ↦ ?_⟩
  have hset {u : ℕ} {p : LifeCaller} (hcaller : s'.caller = Function.update s.caller u p)
      (hp : p.Follows s'.conn) : (s'.caller t).Follows s'.conn := by
    rw [hcaller]
    by_cases htu : t = u
    · rw [htu, Function.update_self]
      exact hp
    · rw [Function.update_of_ne htu]
      exact hmoves.caller t
  cases steps_of_step hstep with
  | shutdownTest | shutdownQueue | forceCloseTest | forceCloseStore | forceCloseQueue =>
    exact hset rfl trivial
  | shutdownStore => exact hset rfl (by simp [LifeCaller.Follows, setCaller, setConn, setState])
  | sendTest | sendQueue => cases he
  | _ => exact hmoves.caller t

end Life

namespace TcpConnection

variable {c : TcpConnection}

theorem stream_sendInLoop_empty {call : Call} {mem : Mem} {data : ℤ} {err : Errno}
    (hstate : c.state ≠ .kDisconnected) :
    (c.sendInLoop call mem data 0 (.error err)).stream = c.stream := by
  cases hw : c.writesAtOnce with
  | false => rw [c.stream_sendInLoop_buffered hstate hw, Mem.bytesAt_zero, List.append_nil]
  | true =>
    have hw' : (c.did (.sendInLoop call (mem.bytesAt data 0))).writesAtOnce = true := hw
    simp only [sendInLoop, if_neg (show ¬ (c.did _).state = .kDisconnected from hstate), hw',
      if_true, (stream_bufferRest _ _ _ _).1, directWrite, SendLocals.rest]
    rw [if_neg (by simp), List.append_nil, stream_did _ _ rfl, stream_did _ _ rfl]

/-- Bytes are lost or garbled only by a direct `write` that fails. -/
theorem stream_sendInLoop_of_not_refuses {call : Call} {mem : Mem} {data : ℤ} {len : ℕ}
    {n : WriteResult} (hstate : c.state ≠ .kDisconnected) (hn : n.Possible len)
    (h : ¬ c.Refuses len n) :
    (c.sendInLoop call mem data len n).stream = c.stream ++ mem.bytesAt data len := by
  cases hw : c.writesAtOnce with
  | false => exact c.stream_sendInLoop_buffered hstate hw
  | true =>
    cases n with
    | wrote n => exact c.stream_sendInLoop_wrote hstate hw hn
    | error err =>
      obtain rfl : len = 0 := by
        simp only [Refuses, WriteResult.value, hw, and_true] at h
        omega
      rw [stream_sendInLoop_empty hstate, Mem.bytesAt_zero, List.append_nil]

theorem fst_send (c : TcpConnection) (call : Call) (mem : Mem) (n : WriteResult) (arg : SendArg) :
    (c.send true call mem n arg).1 = c.sendInLoop call mem arg.data arg.len n := by
  cases arg <;> rfl

/-- What a call of `sendInLoop` does to the output of an established connection. -/
structure Sends (c c' : TcpConnection) (bytes : List Byte) : Prop where
  messages : messages c'.log = messages c.log ++ bytes
  log : c.log <:+ c'.log
  queued : ∀ f ∈ c'.pending, f ∈ c.pending ∨ f.Follows c'
  state : c'.state = c.state
  rests : c.Rests → c'.Rests
  attends : c.Attends → c'.Attends

theorem sends_sendInLoop (hstate : c.state = .kConnected) (call : Call) (mem : Mem) (data : ℤ)
    (len : ℕ) (n : WriteResult) :
    Sends c (c.sendInLoop call mem data len n) (mem.bytesAt data len) := by
  have hadds := adds_sendInLoop c call mem data len n
  have hquiet := quiet_sendInLoop (c := c) call mem data len n
  constructor
  case messages =>
    rw [hadds.messages]
    simp [did, Action.message]
  case log => exact (List.suffix_cons ..).trans hadds.log
  case queued =>
    obtain ⟨-, fs, hpending, hfs⟩ := hadds
    intro f hf
    rw [hpending] at hf
    refine (List.mem_append.mp hf).imp_right fun hf ↦ ?_
    have hnotifies := hfs f hf
    cases f <;> first | exact hnotifies.elim | trivial
  case state => exact hquiet.state
  case rests =>
    intro hrests unsent hmem
    obtain ⟨unsent', hmem'⟩ := hadds.halfClosed.mp ⟨unsent, hmem⟩
    have hold := (List.mem_cons.mp hmem').resolve_left (by simp)
    exact ((hrests _ hold).2.2 hstate).elim
  case attends =>
    intro h hc hr
    rw [hquiet.reports] at hr
    rw [hquiet.callbacks] at hc
    exact attended_sendInLoop _ _ _ _ _ _ (h hc hr)

end TcpConnection

namespace Endpoint

open TcpConnection

def output (s : Endpoint) : List Byte := messages s.life.conn.log

/-- The invariant of an end whose messages come from its loop thread. -/
structure Inv (s : Endpoint) : Prop where
  connection : s.life.conn.callbacks.connection = true
  inLoop : s.life.InLoop
  rests : s.life.conn.Rests
  attends : s.life.conn.Attends
  stream : s.refused = false → s.life.conn.stream = s.output

/-- What every step of an end does to its two streams. -/
structure Goes (s s' : Endpoint) (sent : List Byte) : Prop where
  inv : s'.Inv
  output : s'.output = s.output ++ sent
  log : s.life.conn.log <:+ s'.life.conn.log
  refused : s'.refused = false → s.refused = false
  closed : s.life.conn.state ≠ .kConnected →
    s'.life.conn.stream = s.life.conn.stream ∧ s'.life.conn.state ≠ .kConnected

variable {s s' s'' : Endpoint}

theorem Goes.trans {sent sent' : List Byte} (h : Goes s s' sent) (h' : Goes s' s'' sent') :
    Goes s s'' (sent ++ sent') where
  inv := h'.inv
  output := by rw [h'.output, h.output, List.append_assoc]
  log := h.log.trans h'.log
  refused hr := h.refused (h'.refused hr)
  closed hs := by
    obtain ⟨hstream, hs⟩ := h.closed hs
    obtain ⟨hstream', hs⟩ := h'.closed hs
    exact ⟨hstream'.trans hstream, hs⟩

theorem goes_refl (h : s.Inv) : Goes s s [] :=
  ⟨h, (List.append_nil _).symm, List.suffix_rfl, id, fun hs ↦ ⟨rfl, hs⟩⟩

/-- A change of the connection that is no `send`. -/
theorem Inv.goes_of_moves (h : s.Inv) (hmoves : Moves s.life.conn s'.life.conn)
    (hchange : Change s.life.conn s'.life.conn) (hinLoop : s'.life.InLoop)
    (hrefused : s'.refused = s.refused) : Goes s s' [] where
  inv := by
    refine ⟨?_, hinLoop, hmoves.rests h.rests, hmoves.attends h.attends, fun hr ↦ ?_⟩
    · rw [hchange.kept.callbacks]
      exact h.connection
    · rw [hmoves.stream, Endpoint.output, hmoves.messages]
      exact h.stream (hrefused ▸ hr)
  output := by rw [Endpoint.output, hmoves.messages, List.append_nil, Endpoint.output]
  log := hmoves.log
  refused hr := hrefused ▸ hr
  closed hs := ⟨hmoves.stream, mt hmoves.state hs⟩

theorem goes_transport {e : LifeEvent} (h : s.Inv) (hstep : s.transport e = some s') :
    Goes s s' [] := by
  simp only [transport] at hstep
  split_ifs at hstep with he
  obtain ⟨life, hlife, rfl⟩ := Option.map_eq_some_iff.mp hstep
  have he := eq_false_of_ne_true he
  exact h.goes_of_moves (Life.step_moves h.inLoop he hlife) (Life.step_change hlife)
    (Life.step_inLoop h.inLoop he hlife) rfl

theorem goes_send {call : Call} {arg : SendArg} {n : WriteResult} (h : s.Inv)
    (hstep : s.send call arg n = some s') :
    Goes s s' (if s.life.conn.state = .kConnected then arg.held s.life.mem else []) := by
  simp only [send] at hstep
  split_ifs at hstep with hready
  obtain ⟨life, hlife, rfl⟩ := Option.map_eq_some_iff.mp hstep
  simp only [Life.loopStep] at hlife
  split_ifs at hlife with hn hstate
  · cases Option.some.inj hlife
    have hsends := sends_sendInLoop hstate call s.life.mem arg.data arg.len n
    rw [if_pos hstate, fst_send]
    refine ⟨⟨?_, ⟨fun f hf ↦ ?_, fun t ↦ ?_⟩, hsends.rests h.rests, hsends.attends h.attends,
      fun hr ↦ ?_⟩, hsends.messages, hsends.log, fun hr ↦ ?_, fun hs ↦ (hs hstate).elim⟩
    · exact (congrArg Callbacks.connection (quiet_sendInLoop ..).callbacks).trans h.connection
    · exact (hsends.queued f hf).elim (fun hf ↦ (h.inLoop.pending f hf).of_state
        (by simp [Life.setConn])) id
    · exact (h.inLoop.caller t).of_state (by simp [Life.setConn])
    · simp only [Bool.or_eq_false_iff, decide_eq_false_iff_not, not_and] at hr
      change (s.life.conn.sendInLoop call s.life.mem arg.data arg.len n).stream =
        messages (s.life.conn.sendInLoop call s.life.mem arg.data arg.len n).log
      rw [hsends.messages, stream_sendInLoop_of_not_refuses (by simp [hstate]) hn (hr.2 hstate),
        h.stream hr.1, Endpoint.output]
    · simp only [Bool.or_eq_false_iff] at hr
      exact hr.1
  · cases Option.some.inj hlife
    rw [if_neg hstate]
    refine h.goes_of_moves (.refl _) change_refl h.inLoop ?_
    simp [hstate]

theorem goes_shutdown (h : s.Inv) : Goes s (s.setConn s.life.conn.shutdown) [] :=
  h.goes_of_moves moves_shutdown change_shutdown (h.inLoop.of_shifts moves_shutdown.toShifts) rfl

theorem goes_forceClose (h : s.Inv) : Goes s (s.setConn s.life.conn.forceClose) [] :=
  h.goes_of_moves moves_forceClose change_forceClose
    (h.inLoop.of_shifts moves_forceClose.toShifts) rfl

/-- The input side is as before. -/
structure Keeps (s s' : Endpoint) : Prop where
  received : s'.received = s.received
  sawEnd : s'.sawEnd = s.sawEnd
  inputBuffer : s'.life.conn.inputBuffer = s.life.conn.inputBuffer

theorem Keeps.trans (h : Keeps s s') (h' : Keeps s' s'') : Keeps s s'' :=
  ⟨h'.received.trans h.received, h'.sawEnd.trans h.sawEnd, h'.inputBuffer.trans h.inputBuffer⟩

theorem keeps_send {call : Call} {arg : SendArg} {n : WriteResult}
    (hstep : s.send call arg n = some s') : arg.InStore s.life.mem ∧ Keeps s s' := by
  simp only [send] at hstep
  split_ifs at hstep with hready
  obtain ⟨life, hlife, rfl⟩ := Option.map_eq_some_iff.mp hstep
  exact ⟨hready.2, rfl, rfl, Life.loopStep_inputBuffer rfl hlife⟩

theorem transport_received {e : LifeEvent} (hstep : s.transport e = some s') :
    s'.received = s.received ++ s.life.arrived e ∧
      s'.life.conn.inputBuffer.readable =
        s.life.conn.inputBuffer.readable ++ s.life.arrived e := by
  simp only [transport] at hstep
  split_ifs at hstep
  obtain ⟨life, hlife, rfl⟩ := Option.map_eq_some_iff.mp hstep
  exact ⟨rfl, Life.step_inputBuffer hlife⟩

/-- The user takes bytes out of the input buffer. -/
theorem goes_inputBuffer (h : s.Inv) (b : ValidBuffer) :
    Goes s (s.setConn { s.life.conn with inputBuffer := b }) [] := by
  have hmoves : Moves s.life.conn { s.life.conn with inputBuffer := b } :=
    .of_kept rfl rfl rfl rfl id fun _ ↦ .inl
  have hquiet : Quiet s.life.conn { s.life.conn with inputBuffer := b } :=
    ⟨⟨rfl, rfl, id⟩, rfl, rfl⟩
  exact h.goes_of_moves hmoves (.quiet hquiet) (h.inLoop.of_shifts hmoves.toShifts) rfl

def written (s : Endpoint) : List Byte := s.life.conn.written

theorem ended_iff : s.ended = true ↔ HalfClosed s.life.conn.log := by
  simp only [ended, List.any_eq_true, HalfClosed]
  constructor
  · rintro ⟨a, hmem, ha⟩
    cases a with
    | shutdownWrite unsent => exact ⟨unsent, hmem⟩
    | sendInLoop | write | queueInLoop | called => cases ha
  · rintro ⟨unsent, hmem⟩
    exact ⟨_, hmem, rfl⟩

theorem Goes.written {sent : List Byte} (h : Goes s s' sent) : s.written <+: s'.written :=
  written_of_log h.log

/-- After its half close an end sends nothing, and what it has written stays. -/
theorem Goes.ended {sent : List Byte} (h : Goes s s' sent) (hs : s.Inv)
    (hended : s.ended = true) : s'.ended = true ∧ s'.written = s.written := by
  obtain ⟨unsent, hmem⟩ := ended_iff.mp hended
  have hstream := (h.closed (hs.rests unsent hmem).2.2).1
  have hmem' : .shutdownWrite unsent ∈ s'.life.conn.log := h.log.mem hmem
  refine ⟨ended_iff.mpr ⟨unsent, hmem'⟩, ?_⟩
  rw [stream, stream, (hs.rests unsent hmem).1, (h.inv.rests unsent hmem').1] at hstream
  exact List.append_cancel_right hstream

theorem inv_established (c : Opening) : (established c).Inv where
  connection := rfl
  inLoop := ⟨by simp [established, Life.start, connectEstablished, new, did, setChannel, setState],
    fun _ ↦ trivial⟩
  rests := by
    simp [Rests, established, Life.start, connectEstablished, new, did, setChannel, setState]
  attends _ _ hne := (hne (ValidBuffer.readable_new _)).elim
  stream _ := by
    have hempty : (ValidBuffer.new Buffer.kInitialSize).readable = [] := ValidBuffer.readable_new _
    simp [established, Life.start, connectEstablished, new, output, stream,
      TcpConnection.written, did, setChannel, setState,
      messages, Action.message, Action.taken, hempty]

/-- What a read that fits the input buffer makes of an end whose loop calls `handleRead`. -/
def read (s : Endpoint) (bytes : List Byte) (rest : List EventCallback) : Endpoint where
  life := { s.life with
    conn := { s.life.conn with
      inputBuffer := s.life.conn.inputBuffer.append bytes }.did (.called .message)
    dispatching := rest }
  received := s.received ++ bytes
  sawEnd := s.sawEnd
  refused := s.refused

theorem transport_read {s : Endpoint} {bytes : List Byte} {rest : List EventCallback}
    (hd : s.life.destroying = none) (hdispatching : s.life.dispatching = .read :: rest)
    (hne : bytes ≠ []) (hshort : bytes.length ≤ s.life.conn.inputBuffer.val.writeableBytes) :
    s.transport (.loop (.callback (.read bytes) (.wrote 0))) = some (s.read bytes rest) := by
  have hvalue : 0 < (ReadResult.read bytes).value :=
    Int.natCast_pos.mpr (List.length_pos_iff.mpr hne)
  have hpossible : (ReadResult.read bytes).Possible s.life.conn.inputBuffer.val.readvLength := by
    simp only [ReadResult.Possible, Buffer.readvLength]
    split_ifs <;> omega
  simp [transport, LifeEvent.sends, Life.step, hd, Life.loopStep, hdispatching, hpossible,
    WriteResult.Possible, TcpConnection.eventCallback, TcpConnection.handleRead, hvalue,
    ValidBuffer.readFd_of_short hshort, Life.arrived, TcpConnection.arrived, Life.readsEnd, hne,
    read]

end Endpoint

end Mymuduo.Net
