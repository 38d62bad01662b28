import Mymuduo.Endpoint
import Mymuduo.Lib.Liveness
import Mymuduo.Registrations
import Mymuduo.WriteInterest
import Mathlib.Data.Set.Card

namespace Mymuduo.Net

open Execution

namespace TcpConnection

/-- What a step of an open connection does to its way out. -/
structure Flows (c c' : TcpConnection) : Prop where
  stream : c.stream <+: c'.stream
  log : c.log <:+ c'.log
  state : c.state = .kDisconnecting → c'.state = .kDisconnecting
  writing : c.state = .kDisconnecting → c.channel.isWriting = true →
    c'.channel.isWriting = true ∨ .shutdownWrite [] ∈ c'.log

variable {c c' c'' : TcpConnection}

theorem Flows.refl (c : TcpConnection) : Flows c c :=
  ⟨List.prefix_rfl, List.suffix_rfl, id, fun _ ↦ .inl⟩

theorem Flows.trans (h : Flows c c') (h' : Flows c' c'') : Flows c c'' where
  stream := h.stream.trans h'.stream
  log := h.log.trans h'.log
  state hs := h'.state (h.state hs)
  writing hs hw := by
    rcases h.writing hs hw with hw | hmem
    · exact h'.writing (h.state hs) hw
    · exact .inr (h'.log.subset hmem)

theorem Flows.ite {p : Prop} [Decidable p] (h : Flows c c') (h' : Flows c c'') :
    Flows c (if p then c' else c'') := by
  split_ifs
  · exact h
  · exact h'

theorem Flows.of_kept (hlog : c'.log = c.log) (hbuffer : c'.outputBuffer = c.outputBuffer)
    (hchannel : c'.channel = c.channel)
    (hstate : c.state = .kDisconnecting → c'.state = .kDisconnecting) : Flows c c' where
  stream := by
    rw [TcpConnection.stream, TcpConnection.stream, written, written, hlog, hbuffer]
  log := ⟨[], hlog.symm⟩
  state := hstate
  writing _ hw := .inl (hchannel ▸ hw)

theorem flows_did {a : Action} (ha : a.taken = []) : Flows c (c.did a) where
  stream := by rw [stream_did _ _ ha]
  log := List.suffix_cons ..
  state := id
  writing _ := .inl

theorem flows_queueInLoop (f : Functor) : Flows c (c.queueInLoop f) where
  stream := by
    have hqueued : (c.queueInLoop f).stream = c.stream := c.stream_did (.queueInLoop f) rfl
    rw [hqueued]
  log := List.suffix_cons ..
  state := id
  writing _ := .inl

theorem flows_directWrite (hempty : c.outputBuffer.readable = []) (mem : Mem) (data : ℤ) (len : ℕ)
    (n : WriteResult) : Flows c (c.directWrite mem data len n).1 := by
  have hwrite (a : Action) : Flows c (c.did a) := by
    refine ⟨?_, List.suffix_cons .., id, fun _ ↦ .inl⟩
    have hbuffer : (c.did a).outputBuffer = c.outputBuffer := rfl
    rw [stream, stream, hbuffer, hempty, List.append_nil, List.append_nil, written_did]
    exact List.prefix_append ..
  cases n with
  | wrote n =>
    simp only [directWrite]
    exact (hwrite _).trans (.ite (flows_did rfl) (.refl _))
  | error err => exact hwrite _

theorem isWriting_bufferRest (mem : Mem) (data : ℤ) (l : SendLocals)
    (hw : c.channel.isWriting = true) : (c.bufferRest mem data l).channel.isWriting = true := by
  simp only [bufferRest]
  split_ifs <;> simp_all [queueInLoop]

theorem flows_bufferRest (mem : Mem) (data : ℤ) (l : SendLocals) :
    Flows c (c.bufferRest mem data l) where
  stream := by
    rw [(c.stream_bufferRest mem data l).1]
    exact List.prefix_append ..
  log := (c.adds_bufferRest mem data l).log
  state hs := (c.stream_bufferRest mem data l).2.trans hs
  writing _ hw := .inl (isWriting_bufferRest mem data l hw)

theorem flows_sendInLoop (call : Call) (mem : Mem) (data : ℤ) (len : ℕ) (n : WriteResult) :
    Flows c (c.sendInLoop call mem data len n) := by
  have hsend : Flows c (c.did (.sendInLoop call (mem.bytesAt data len))) := flows_did rfl
  refine hsend.trans ?_
  rw [sendInLoop]
  split_ifs with hstate hw
  · exact .refl _
  · have hdirect := flows_directWrite (readable_of_writesAtOnce hw) mem data len n
    exact hdirect.trans (flows_bufferRest ..)
  · exact flows_bufferRest ..

theorem flows_send (inLoop : Bool) (call : Call) (mem : Mem) (n : WriteResult) (arg : SendArg) :
    Flows c (c.send inLoop call mem n arg).1 := by
  cases inLoop <;> cases arg
  case true.string | true.buffer => exact flows_sendInLoop ..
  case false.string | false.buffer => exact flows_queueInLoop _

theorem flows_shutdownInLoop : Flows c c.shutdownInLoop := .ite (.refl c) (flows_did rfl)

theorem flows_disconnecting : Flows c (c.setState .kDisconnecting) :=
  .of_kept rfl rfl rfl fun _ ↦ rfl

theorem flows_shutdown : Flows c c.shutdown :=
  .ite (flows_disconnecting.trans flows_shutdownInLoop) (.refl c)

theorem flows_forceClose : Flows c c.forceClose :=
  .ite (flows_disconnecting.trans (flows_queueInLoop _)) (.refl c)

theorem flows_handleRead {n : ReadResult} (hn : n.value ≠ 0) : Flows c (c.handleRead n) := by
  have hread : Flows c { c with inputBuffer := c.inputBuffer.readFd n } :=
    .of_kept rfl rfl rfl id
  rw [handleRead, if_neg hn]
  exact hread.trans (.ite (flows_did rfl) (.refl _))

/-- The last byte of a connection that is shutting down is followed by the half close. -/
theorem writing_handleWrite (n : WriteResult) (hs : c.state = .kDisconnecting)
    (hw : c.channel.isWriting = true) :
    (c.handleWrite n).channel.isWriting = true ∨ .shutdownWrite [] ∈ (c.handleWrite n).log := by
  rw [handleWrite, if_pos hw]
  dsimp only
  split_ifs with hdrained hstate
  · refine .inr ?_
    have hwriting : (c.flush n).stopWriting.channel.isWriting = false := by
      simp only [stopWriting]
      split_ifs <;> simp [queueInLoop, setChannel]
    have hbuffer : (c.flush n).stopWriting.outputBuffer = (c.flush n).outputBuffer := by
      simp only [stopWriting]
      split_ifs <;> rfl
    rw [shutdownInLoop, hwriting, hbuffer, ValidBuffer.readableBytes_eq_zero.mp hdrained.2]
    exact List.mem_cons_self
  · refine (hstate ?_).elim
    rw [state_stopWriting]
    exact hs
  · exact .inl hw

theorem log_handleWrite (n : WriteResult) : c.log <:+ (c.handleWrite n).log := by
  obtain ⟨-, hsame⟩ | ⟨-, c', hadds, -, -, -, hcase⟩ := c.handleWrite_cases n
  · rw [hsame]
  · rcases hcase with heq | ⟨-, heq⟩
    · rw [heq]
      exact hadds.log
    · rw [heq]
      exact hadds.log.trans flows_shutdownInLoop.log

theorem flows_handleWrite (n : WriteResult) : Flows c (c.handleWrite n) where
  stream := by rw [stream_handleWrite]
  log := log_handleWrite n
  state hs := (quiet_handleWrite n).state.trans hs
  writing := writing_handleWrite n

/-- A write event that takes something. -/
theorem written_handleWrite {k : ℕ} (hw : c.channel.isWriting = true)
    (hbuffer : c.outputBuffer.readable ≠ []) (hk : 0 < k) :
    c.written.length < (c.handleWrite (.wrote k)).written.length := by
  have hflush : (c.flush (.wrote k)).written = c.written ++ c.outputBuffer.readable.take k :=
    c.written_did (.write c.outputBuffer.readable (.wrote k))
  have hstop (c : TcpConnection) : c.log <:+ c.stopWriting.log := (adds_stopWriting c).log
  have hlog : (c.flush (.wrote k)).log <:+ (c.handleWrite (.wrote k)).log := by
    rw [handleWrite, if_pos hw]
    dsimp only
    split_ifs
    · exact (hstop _).trans flows_shutdownInLoop.log
    · exact hstop _
    · exact List.suffix_rfl
  have hlength := (written_of_log hlog).length_le
  have hpos := List.length_pos_iff.mpr hbuffer
  rw [hflush, List.length_append, List.length_take] at hlength
  omega

theorem flows_call {f : Functor} (hf : f ≠ .connectDestroyed)
    (hclose : f = .forceCloseInLoop → ¬ (c.state = .kConnected ∨ c.state = .kDisconnecting))
    (mem : Mem) (n : WriteResult) : Flows c (c.call f mem n) := by
  cases f with
  | sendInLoop call data len => exact flows_sendInLoop ..
  | shutdownInLoop => exact flows_shutdownInLoop
  | forceCloseInLoop =>
    rw [TcpConnection.call, forceCloseInLoop, if_neg (hclose rfl)]
    exact .refl c
  | connectDestroyed => exact (hf rfl).elim
  | writeCompleteCallback | highWaterMarkCallback => exact flows_did rfl

end TcpConnection

namespace Life

open TcpConnection

variable {s s' : Life}

def KeepsOpen (s : Life) (e : LifeEvent) : Prop :=
  ¬ s.CallsHandleClose e ∧ ¬ s.CallsConnectDestroyed e

instance (s : Life) : DecidablePred s.KeepsOpen := fun e ↦
  inferInstanceAs (Decidable (¬ s.CallsHandleClose e ∧ ¬ s.CallsConnectDestroyed e))

theorem step_flows {e : LifeEvent} (hd : s.destroying = none) (hopen : s.KeepsOpen e)
    (hstep : s.step e = some s') : Flows s.conn s'.conn := by
  obtain ⟨hclose, hdestroy⟩ := hopen
  have hpending (rest : List Functor) : Flows s.conn { s.conn with pending := rest } :=
    .of_kept rfl rfl rfl id
  cases steps_of_step hstep with
  | @callback r w cb rest _ hdispatching =>
    simp only [CallsHandleClose, hdispatching, List.head?_cons, Option.some.injEq, not_or,
      not_and] at hclose
    cases cb with
    | close => exact (hclose.1 rfl).elim
    | error => exact .refl _
    | read => exact flows_handleRead (hclose.2 rfl)
    | write => exact flows_handleWrite w
  | destroyFunctor _ hhead => exact (hdestroy (by simp [CallsConnectDestroyed, hhead])).elim
  | @runFunctor n f rest _ hhead hf =>
    simp only [CallsHandleClose, hhead, List.head?_cons, Option.some.injEq, not_and] at hclose
    have hcall := flows_call (c := { s.conn with pending := rest }) hf hclose s.mem n
    exact (hpending rest).trans hcall
  | send | sendQueue => exact flows_send ..
  | shutdown => exact flows_shutdown
  | forceClose => exact flows_forceClose
  | connectDestroyed => exact (hdestroy trivial).elim
  | destroyTested hs => simp [hd] at hs
  | shutdownStore | forceCloseStore => exact flows_disconnecting
  | shutdownQueue | forceCloseQueue | queueConnectDestroyed => exact flows_queueInLoop _
  | poll | handleEvent | sendIgnored | sendTest | shutdownTest | forceCloseTest | testFailed
  | write => exact .refl _

end Life

/-- An update leaves a channel that asks for something in the epoll set. -/
theorem ChannelOp.index_apply (op : ChannelOp) (hop : op ≠ .remove) (p : EpollPoller)
    (ch : Channel) (h : (op.apply p ch).2.events ≠ Channel.kNonEvent) :
    (op.apply p ch).2.index = .kAdded := by
  obtain ⟨events, happly⟩ : ∃ events, op.apply p ch =
      p.updateChannel { ch with events := events } := by
    cases op with
    | remove => exact (hop rfl).elim
    | enableReading | disableReading | enableWriting | disableWriting | disableAll =>
      exact ⟨_, rfl⟩
  rw [happly] at h ⊢
  rw [EpollPoller.updateChannel_events] at h
  rw [EpollPoller.updateChannel]
  split
  · rfl
  · rfl
  · next hadded =>
    have hevents : Channel.isNonEvent { ch with events := events } = false := by
      simpa [Channel.isNonEvent] using h
    rw [hevents]
    exact hadded

def Functor.isSend : Functor → Bool
  | sendInLoop _ _ _ => true
  | _ => false

namespace TcpConnection

variable {c c' : TcpConnection}

theorem Adds.countP_isSend (h : c.Adds c') :
    c'.pending.countP Functor.isSend = c.pending.countP Functor.isSend := by
  obtain ⟨-, fs, hpending, hfs⟩ := h
  have hnone : fs.countP Functor.isSend = 0 := by
    refine List.countP_eq_zero.mpr fun f hf ↦ ?_
    have hnotifies := hfs f hf
    cases f <;> first | exact hnotifies.elim | exact Bool.false_ne_true
  rw [hpending, List.countP_append, hnone, Nat.add_zero]

theorem pending_shutdownInLoop (c : TcpConnection) : c.shutdownInLoop.pending = c.pending := by
  rw [shutdownInLoop]
  split_ifs <;> rfl

theorem countP_isSend_handleWrite (n : WriteResult) :
    (c.handleWrite n).pending.countP Functor.isSend = c.pending.countP Functor.isSend := by
  obtain ⟨-, hsame⟩ | ⟨-, c', hadds, -, -, -, hcase⟩ := c.handleWrite_cases n
  · rw [hsame]
  · rcases hcase with heq | ⟨-, heq⟩
    · rw [heq, hadds.countP_isSend]
    · rw [heq, pending_shutdownInLoop, hadds.countP_isSend]

def Watched (c : TcpConnection) : Prop :=
  ∃ mask ptr, c.poller.epoll c.channel.fd = some (mask, ptr) ∧ mask &&& Channel.kWriteEvent ≠ 0

end TcpConnection

namespace Life

open TcpConnection

def Testing (s : Life) : Set ℕ := {t | ∃ call arg, s.caller t = .sendTested call arg}

/-- The messages that are on their way to the loop thread. -/
noncomputable def underWay (s : Life) : ℕ :=
  2 * s.Testing.ncard + s.conn.pending.countP Functor.isSend

structure OpenInv (s : Life) : Prop extends Tracking s where
  agrees : Agrees s.conn.poller s.conn.channel
  listed : s.conn.channel.events ≠ Channel.kNonEvent → s.conn.channel.index = .kAdded
  finite : s.Testing.Finite

variable {s s' : Life}

theorem OpenInv.watched_iff (h : s.OpenInv) :
    s.conn.Watched ↔ s.conn.channel.isWriting = true := by
  rw [Channel.isWriting, bne_iff_ne]
  constructor
  · rintro ⟨mask, ptr, hepoll, hmask⟩
    have hadded := h.agrees.epoll.mpr (by simp [hepoll])
    cases (h.agrees.registered hadded).symm.trans hepoll
    exact hmask
  · intro hmask
    have hevents : s.conn.channel.events ≠ Channel.kNonEvent := by
      intro hnone
      simp [hnone, Channel.kNonEvent] at hmask
    exact ⟨_, _, h.agrees.registered (h.listed hevents), hmask⟩

theorem testing_setCaller {t : ℕ} {p : LifeCaller}
    (ht : ∀ call arg, s.caller t ≠ .sendTested call arg)
    (hp : ∀ call arg, p ≠ .sendTested call arg) : (s.setCaller t p).Testing = s.Testing := by
  ext u
  by_cases hu : u = t
  · subst hu
    simp [Testing, setCaller, ht, hp]
  · simp [Testing, setCaller, hu]

theorem testing_subset {e : LifeEvent} (hstep : s.step e = some s') :
    ∃ t, s'.Testing ⊆ insert t s.Testing := by
  have hset (t : ℕ) (p : LifeCaller) (c : TcpConnection) :
      ((s.setConn c).setCaller t p).Testing ⊆ insert t s.Testing := by
    intro u hu
    by_cases hut : u = t
    · exact .inl hut
    · obtain ⟨call, arg, hcaller⟩ := hu
      exact .inr ⟨call, arg, (Function.update_of_ne hut ..).symm.trans hcaller⟩
  have hsame : s.Testing ⊆ insert 0 s.Testing := Set.subset_insert ..
  cases steps_of_step hstep with
  | sendTest | shutdownTest | forceCloseTest => exact ⟨_, hset _ _ s.conn⟩
  | sendQueue | shutdownStore | shutdownQueue | forceCloseStore | forceCloseQueue =>
    exact ⟨_, hset _ _ _⟩
  | poll | handleEvent | callback | destroyFunctor | runFunctor | send | sendIgnored | shutdown
  | forceClose | connectDestroyed | destroyTested | testFailed | queueConnectDestroyed | write =>
    exact ⟨0, hsame⟩

theorem step_openInv {e : LifeEvent} (h : s.OpenInv) (hopen : s.KeepsOpen e)
    (hstep : s.step e = some s') : s'.OpenInv := by
  have htracking := step_tracking h.toTracking hopen hstep
  have he : e ≠ .destroyTested := by
    rintro rfl
    obtain ⟨connected, hd, -⟩ := Option.map_eq_some_iff.mp hstep
    simp [h.destroying] at hd
  have hupdates := step_updates he hstep
  refine { htracking with agrees := ?_, listed := ?_, finite := ?_ }
  · exact hupdates.invariant (I := Agrees) (fun p ch op _ hp ↦ (op.apply_agrees hp.toKnown).1)
      h.agrees
  · exact hupdates.invariant
      (I := fun _ ch ↦ ch.events ≠ Channel.kNonEvent → ch.index = .kAdded)
      (fun p ch op hop _ ↦ op.index_apply hop p ch) h.listed
  · obtain ⟨t, ht⟩ := testing_subset hstep
    exact (h.finite.insert t).subset ht

/-- Once the connection is shutting down, what is on its way runs out, and nothing else
adds to the output. -/
theorem step_underWay {e : LifeEvent} (h : s.OpenInv) (hstate : s.conn.state = .kDisconnecting)
    (hopen : s.KeepsOpen e) (hstep : s.step e = some s') :
    s'.underWay < s.underWay ∨ s'.underWay = s.underWay ∧ s'.conn.stream = s.conn.stream := by
  obtain ⟨hclose, hdestroy⟩ := hopen
  have hquiet {c : TcpConnection} (hstream : c.stream = s.conn.stream)
      (hpending : c.pending.countP Functor.isSend = s.conn.pending.countP Functor.isSend) :
      (s.setConn c).underWay = s.underWay ∧ c.stream = s.conn.stream :=
    ⟨congrArg (2 * s.Testing.ncard + ·) hpending, hstream⟩
  have hcaller {t : ℕ} {p : LifeCaller} {c : TcpConnection}
      (ht : ∀ call arg, s.caller t ≠ .sendTested call arg)
      (hp : ∀ call arg, p ≠ .sendTested call arg) (hstream : c.stream = s.conn.stream)
      (hpending : c.pending.countP Functor.isSend = s.conn.pending.countP Functor.isSend) :
      ((s.setConn c).setCaller t p).underWay = s.underWay ∧ c.stream = s.conn.stream := by
    have htesting : ((s.setConn c).setCaller t p).Testing = s.Testing :=
      testing_setCaller (s := s.setConn c) ht hp
    refine ⟨?_, hstream⟩
    rw [underWay, underWay, htesting]
    exact congrArg (2 * s.Testing.ncard + ·) hpending
  have hqueue (f : Functor) (hf : f.isSend = false) :
      (s.conn.queueInLoop f).stream = s.conn.stream ∧
        (s.conn.queueInLoop f).pending.countP Functor.isSend =
          s.conn.pending.countP Functor.isSend := by
    refine ⟨s.conn.stream_did (.queueInLoop f) rfl, ?_⟩
    simp [queueInLoop, List.countP_append, hf]
  cases steps_of_step hstep with
  | @callback r w cb rest _ hdispatching =>
    refine .inr ?_
    simp only [CallsHandleClose, hdispatching, List.head?_cons, Option.some.injEq, not_or,
      not_and] at hclose
    cases cb with
    | close => exact (hclose.1 rfl).elim
    | error => exact ⟨rfl, rfl⟩
    | read =>
      rw [eventCallback, handleRead, if_neg (hclose.2 rfl)]
      split_ifs
      · exact hquiet (TcpConnection.stream_did _ (.called .message) rfl) rfl
      · exact hquiet rfl rfl
    | write => exact hquiet (stream_handleWrite _ w) (countP_isSend_handleWrite w)
  | destroyFunctor _ hhead => exact (hdestroy (by simp [CallsConnectDestroyed, hhead])).elim
  | @runFunctor n f rest _ hhead hf =>
    simp only [CallsHandleClose, hhead, List.head?_cons, Option.some.injEq, not_and] at hclose
    cases f with
    | sendInLoop call data len =>
      refine .inl ?_
      have hadds := adds_sendInLoop { s.conn with pending := rest } call s.mem data len n
      have hcount : (({ s.conn with pending := rest } : TcpConnection).sendInLoop call s.mem data
          len n).pending.countP Functor.isSend = rest.countP Functor.isSend := hadds.countP_isSend
      have hsend : s.conn.pending.countP Functor.isSend = rest.countP Functor.isSend + 1 := by
        rw [hhead]
        exact List.countP_cons_of_pos rfl
      have hless : 2 * s.Testing.ncard + rest.countP Functor.isSend < s.underWay := by
        rw [underWay, hsend]
        omega
      exact (congrArg (2 * s.Testing.ncard + ·) hcount).trans_lt hless
    | shutdownInLoop =>
      refine .inr (hquiet (stream_shutdownInLoop _) ?_)
      rw [TcpConnection.call, pending_shutdownInLoop, hhead]
      exact (List.countP_cons_of_neg Bool.false_ne_true).symm
    | forceCloseInLoop =>
      exact (hclose rfl (.inr hstate)).elim
    | connectDestroyed => exact (hf rfl).elim
    | writeCompleteCallback | highWaterMarkCallback =>
      refine .inr (hquiet (TcpConnection.stream_did _ _ rfl) ?_)
      rw [hhead]
      exact (List.countP_cons_of_neg Bool.false_ne_true).symm
  | send _ hs | sendTest hs | shutdownTest hs => simp [hstate] at hs
  | @sendQueue t call arg ht =>
    refine .inl ?_
    have hmem : t ∈ s.Testing := ⟨call, arg, ht⟩
    have hcount : (s.conn.send false call s.mem (.wrote 0) arg).1.pending.countP Functor.isSend =
        s.conn.pending.countP Functor.isSend + 1 := by
      cases arg <;> exact List.countP_append.trans rfl
    have htesting : ((s.setConn (s.conn.send false call s.mem (.wrote 0) arg).1).setCaller t
        .idle).Testing = s.Testing \ {t} := by
      ext u
      by_cases hu : u = t
      · subst hu
        simp [Testing, setCaller]
      · simp [Testing, setCaller, setConn, hu]
    have hless := Set.ncard_sdiff_singleton_lt_of_mem hmem h.finite
    rw [underWay, underWay, htesting]
    have hcount' := congrArg (2 * (s.Testing \ {t}).ncard + ·) hcount
    exact hcount'.trans_lt (by omega)
  | shutdown =>
    rw [TcpConnection.shutdown, if_neg (by simp [hstate])]
    exact .inr ⟨rfl, rfl⟩
  | forceClose =>
    rw [TcpConnection.forceClose, if_pos (.inr hstate)]
    obtain ⟨hstream, hpending⟩ := hqueue .forceCloseInLoop rfl
    exact .inr (hquiet hstream hpending)
  | connectDestroyed => exact (hdestroy trivial).elim
  | destroyTested hs => simp [h.destroying] at hs
  | shutdownStore ht => exact .inr (hcaller (by simp [ht]) (by simp) rfl rfl)
  | shutdownQueue ht =>
    obtain ⟨hstream, hpending⟩ := hqueue .shutdownInLoop rfl
    exact .inr (hcaller (by simp [ht]) (by simp) hstream hpending)
  | forceCloseTest =>
    simp only [step, threadStep] at hstep
    split_ifs at hstep with hidle
    exact .inr (hcaller (by simp [hidle]) (by simp) rfl rfl)
  | forceCloseStore ht => exact .inr (hcaller (by simp [ht]) (by simp) rfl rfl)
  | forceCloseQueue ht =>
    obtain ⟨hstream, hpending⟩ := hqueue .forceCloseInLoop rfl
    exact .inr (hcaller (by simp [ht]) (by simp) hstream hpending)
  | queueConnectDestroyed =>
    obtain ⟨hstream, hpending⟩ := hqueue .connectDestroyed rfl
    exact .inr (hquiet hstream hpending)
  | poll | handleEvent | sendIgnored | testFailed | write => exact .inr ⟨rfl, rfl⟩

def Writes (s : Life) : LifeEvent → Prop
  | .loop (.callback _ (.wrote k)) => 0 < k ∧ s.dispatching.head? = some .write
  | _ => False

def CallsShutdownInLoop (s : Life) : LifeEvent → Prop
  | .loop .shutdown => s.conn.state = .kConnected
  | .loop (.runFunctor _) =>
    s.conn.state = .kDisconnecting ∧ s.conn.pending.head? = some .shutdownInLoop
  | _ => False

/-- What the kernel and the loop do for a channel that is registered for writing. -/
def ReportsWritable (ρ : InfiniteRun step) : Prop := ∀ n, (ρ.state n).conn.Watched →
  ∃ m, n ≤ m ∧ (¬ (ρ.state m).conn.Watched ∨ (ρ.state m).Writes (ρ.event m))

theorem openInv_start {fd ptr : ℕ} {poller : EpollPoller} (hpoller : Known poller (.new fd ptr))
    (callbacks : Callbacks) (mem : Mem) :
    (start (new fd ptr poller callbacks).connectEstablished mem).OpenInv where
  conn := by
    have hwriting : (new fd ptr poller callbacks).connectEstablished.channel.isWriting = false :=
      (Channel.isWriting_enableReading ..).trans (Channel.isWriting_new fd ptr)
    have hempty : (new fd ptr poller callbacks).connectEstablished.outputBuffer.readable = [] :=
      ValidBuffer.readable_new _
    simp [Tracks, start, hwriting, hempty]
  destroying := rfl
  agrees := (ChannelOp.enableReading.apply_agrees hpoller).1
  listed h := ChannelOp.index_apply .enableReading (by simp) _ _ h
  finite := by
    have hnone : (start (new fd ptr poller callbacks).connectEstablished mem).Testing = ∅ := by
      simp [Testing, start]
    rw [hnone]
    exact Set.finite_empty

theorem written_of_writes {e : LifeEvent} (h : s.OpenInv) (hw : s.conn.Watched) (he : s.Writes e)
    (hstep : s.step e = some s') : s.conn.written.length < s'.conn.written.length := by
  have hwriting := h.watched_iff.mp hw
  cases steps_of_step hstep with
  | @callback r w cb rest _ hdispatching =>
    cases w with
    | wrote k =>
      obtain ⟨hk, hhead⟩ := he
      rw [hdispatching] at hhead
      cases Option.some.inj hhead
      exact written_handleWrite hwriting (h.conn.mp hwriting) hk
    | error err => exact he.elim
  | _ => exact he.elim

theorem halfCloses_or_writing {c : TcpConnection} (h : c.Tracks)
    (hstate : c.state = .kDisconnecting) : .shutdownWrite [] ∈ c.shutdownInLoop.log ∨
      c.shutdownInLoop.state = .kDisconnecting ∧ c.shutdownInLoop.channel.isWriting = true := by
  rw [shutdownInLoop]
  split_ifs with hw
  · exact .inr ⟨hstate, hw⟩
  · have hempty : c.outputBuffer.readable = [] := by
      by_contra hne
      exact hw (h.mpr hne)
    rw [hempty]
    exact .inl List.mem_cons_self

theorem step_callsShutdownInLoop {e : LifeEvent} (h : s.conn.Tracks)
    (hcalls : s.CallsShutdownInLoop e) (hstep : s.step e = some s') :
    .shutdownWrite [] ∈ s'.conn.log ∨
      s'.conn.state = .kDisconnecting ∧ s'.conn.channel.isWriting = true := by
  cases steps_of_step hstep with
  | shutdown =>
    have hstate : s.conn.state = .kConnected := hcalls
    rw [setConn, TcpConnection.shutdown, if_pos hstate]
    have htracks : (s.conn.setState .kDisconnecting).Tracks := h.frame rfl rfl
    exact halfCloses_or_writing htracks rfl
  | destroyFunctor _ hpending =>
    have hhead := hcalls.2
    rw [hpending] at hhead
    cases hhead
  | @runFunctor n f rest _ hpending =>
    obtain ⟨hstate, hhead⟩ := hcalls
    rw [hpending] at hhead
    cases Option.some.inj hhead
    have htracks : Tracks { s.conn with pending := rest } := h.frame rfl rfl
    exact halfCloses_or_writing htracks hstate
  | _ => exact hcalls.elim

/-- An open connection that writes again and again while it is watched writes all that
waits in its buffer. -/
theorem written_of_watched {s : ℕ → Life} (hinv : ∀ n, (s n).OpenInv)
    (hflows : ∀ {n m}, n ≤ m → Flows (s n).conn (s m).conn)
    (hwrites : ∀ n, (s n).conn.Watched → ∃ m, n ≤ m ∧ (¬ (s m).conn.Watched ∨
      (s m).conn.written.length < (s (m + 1)).conn.written.length)) (n : ℕ) :
    ∃ m, n ≤ m ∧ (s n).conn.stream <+: (s m).conn.written := by
  have hpre (n : ℕ) : (s n).conn.written <+: (s n).conn.stream := List.prefix_append ..
  have hdone {n : ℕ} (hn : ¬ (s n).conn.Watched) : (s n).conn.stream = (s n).conn.written := by
    have hempty : (s n).conn.outputBuffer.readable = [] := by
      by_contra hne
      exact hn ((hinv n).watched_iff.mpr ((hinv n).conn.mpr hne))
    rw [stream, hempty, List.append_nil]
  refine eventually_catchesUp (fun h ↦ (hflows h).stream) hpre (fun n hne ↦ ?_) n
  have hwatched : (s n).conn.Watched := by
    by_contra hn
    exact hne (hdone hn).symm
  obtain ⟨m, hm, hnot | hless⟩ := hwrites n hwatched
  · refine ⟨m, hm, ?_⟩
    have hstream := (hflows hm).stream.length_le
    rw [hdone hnot] at hstream
    refine lt_of_lt_of_le (lt_of_le_of_ne (hpre n).length_le fun heq ↦ ?_) hstream
    exact hne ((hpre n).eq_of_length heq)
  · exact ⟨m + 1, by omega, (written_of_log (hflows hm).log).length_le.trans_lt hless⟩

section OpenRun

variable {ρ : InfiniteRun step} (hstart : (ρ.state 0).OpenInv)
  (hopen : ∀ n, (ρ.state n).KeepsOpen (ρ.event n))

include hstart hopen

theorem openInv_of_run (n : ℕ) : (ρ.state n).OpenInv :=
  ρ.invariant (I := OpenInv) (G := KeepsOpen) (fun _ _ _ h hg hs ↦ step_openInv h hg hs) hstart
    hopen n

theorem flows_of_run {n m : ℕ} (hnm : n ≤ m) : Flows (ρ.state n).conn (ρ.state m).conn := by
  induction m, hnm using Nat.le_induction with
  | base => exact .refl _
  | succ m _ ih =>
    exact ih.trans (step_flows (openInv_of_run hstart hopen m).destroying (hopen m) (ρ.next m))

/-- What waits in the output buffer goes out. -/
theorem written_of_run (hfair : ReportsWritable ρ) (n : ℕ) :
    ∃ m, n ≤ m ∧ (ρ.state n).conn.stream <+: (ρ.state m).conn.written := by
  have hinv := openInv_of_run hstart hopen
  refine written_of_watched (s := ρ.state) hinv (flows_of_run hstart hopen) (fun k hk ↦ ?_) n
  obtain ⟨m, hm, hnot | hwrites⟩ := hfair k hk
  · exact ⟨m, hm, .inl hnot⟩
  · by_cases hwatched : (ρ.state m).conn.Watched
    · exact ⟨m, hm, .inr (written_of_writes (hinv m) hwatched hwrites (ρ.next m))⟩
    · exact ⟨m, hm, .inl hwatched⟩

/-- A connection that shuts down with output pending half closes when the output has
gone out. -/
theorem halfCloses_of_run (hfair : ReportsWritable ρ) {n : ℕ}
    (hstate : (ρ.state n).conn.state = .kDisconnecting)
    (hwriting : (ρ.state n).conn.channel.isWriting = true) :
    ∃ m, n ≤ m ∧ .shutdownWrite [] ∈ (ρ.state m).conn.log := by
  by_contra hnever
  have hnever (m : ℕ) (hm : n ≤ m) : .shutdownWrite [] ∉ (ρ.state m).conn.log := fun hmem ↦
    hnever ⟨m, hm, hmem⟩
  have hinv := openInv_of_run hstart hopen
  have hflows {k : ℕ} (hk : n ≤ k) := flows_of_run hstart hopen hk
  obtain ⟨k, hk, hsettled⟩ := ρ.eventually_settles (n := n) Nat.lt_wfRel.wf underWay
    fun m hm ↦ (step_underWay (hinv m) ((hflows hm).state hstate) (hopen m)
      (ρ.next m)).symm.imp_left And.left
  have hstream (m : ℕ) (hm : k ≤ m) : (ρ.state m).conn.stream = (ρ.state k).conn.stream := by
    induction m, hm using Nat.le_induction with
    | base => rfl
    | succ m hm ih =>
      rcases step_underWay (hinv m) ((hflows (hk.trans hm)).state hstate) (hopen m) (ρ.next m) with
        hless | ⟨-, hsame⟩
      · exact (hless.ne (hsettled m hm)).elim
      · exact hsame.trans ih
  obtain ⟨m, hm, hwritten⟩ := written_of_run hstart hopen hfair k
  have hempty : (ρ.state m).conn.outputBuffer.readable = [] := by
    have hlength := hwritten.length_le
    rw [← hstream m hm, stream, List.length_append] at hlength
    exact List.length_eq_zero_iff.mp (by omega)
  have hnm := hk.trans hm
  rcases (hflows hnm).writing hstate hwriting with hw | hmem
  · exact (hinv m).conn.mp hw hempty
  · exact hnever m hnm hmem

end OpenRun

/-- Output progress: in every run of an open connection all that has been handed to the
connection by some moment is written in the end. -/
theorem eventually_written {fd ptr : ℕ} {poller : EpollPoller} {callbacks : Callbacks} {mem : Mem}
    (hpoller : Known poller (.new fd ptr)) (ρ : InfiniteRun step)
    (hstart : ρ.state 0 = start (new fd ptr poller callbacks).connectEstablished mem)
    (hopen : ∀ n, (ρ.state n).KeepsOpen (ρ.event n)) (hfair : ReportsWritable ρ) (n : ℕ) :
    ∃ m, n ≤ m ∧ (ρ.state n).conn.stream <+: (ρ.state m).conn.written := by
  have hinv : (ρ.state 0).OpenInv := hstart ▸ openInv_start hpoller callbacks mem
  exact written_of_run hinv hopen hfair n

/-- A graceful shutdown comes to its end: the half close comes, with nothing left to
send. -/
theorem eventually_halfCloses {fd ptr : ℕ} {poller : EpollPoller} {callbacks : Callbacks}
    {mem : Mem} (hpoller : Known poller (.new fd ptr)) (ρ : InfiniteRun step)
    (hstart : ρ.state 0 = start (new fd ptr poller callbacks).connectEstablished mem)
    (hopen : ∀ n, (ρ.state n).KeepsOpen (ρ.event n)) (hfair : ReportsWritable ρ) (n : ℕ)
    (hcalls : (ρ.state n).CallsShutdownInLoop (ρ.event n)) :
    ∃ m, n < m ∧ .shutdownWrite [] ∈ (ρ.state m).conn.log := by
  have hinv : (ρ.state 0).OpenInv := hstart ▸ openInv_start hpoller callbacks mem
  have htracks := (openInv_of_run hinv hopen n).conn
  rcases step_callsShutdownInLoop htracks hcalls (ρ.next n) with hmem | ⟨hstate, hwriting⟩
  · exact ⟨n + 1, by omega, hmem⟩
  · obtain ⟨m, hm, hmem⟩ := halfCloses_of_run hinv hopen hfair hstate hwriting
    exact ⟨m, by omega, hmem⟩

theorem known_new : Known .empty (.new 5 9) :=
  ⟨by simp [Channel.new, EpollPoller.empty], by simp [Channel.new, EpollPoller.empty]⟩

def lastByte : List LifeEvent :=
  [.loop (.send ⟨0, .string 3 2, [3, 4]⟩ (.string 3 2) (.wrote 1)), .loop .shutdown,
    .loop (.poll Channel.EPOLLOUT), .loop .handleEvent,
    .loop (.callback (.error .EINTR) (.wrote 1))]

theorem exists_lastByteRun : ∃ ρ : InfiniteRun step, ρ.state 0 = opened ∧
    ρ.event 1 = .loop .shutdown ∧ (ρ.state 1).conn.state = .kConnected ∧
      (∀ n, (ρ.state n).KeepsOpen (ρ.event n)) ∧ ReportsWritable ρ := by
  have hrun : (run step opened lastByte).map (fun s ↦ decide (s.destroying = none ∧
      s.conn.state ≠ .kConnected ∧ s.conn.channel.isWriting = false)) = some true := by
    decide +kernel
  obtain ⟨s, hs, hend⟩ := Option.map_eq_some_iff.mp hrun
  obtain ⟨hd, hstate, hwriting⟩ := of_decide_eq_true hend
  have hstay : s.step (.loop (.send ⟨1, .string 0 0, []⟩ (.string 0 0) (.wrote 0))) = some s := by
    simp [step, hd, loopStep, hstate, WriteResult.Possible]
  have halong : Along step KeepsOpen opened lastByte := by decide +kernel
  have hconnected : ((run step opened (lastByte.take 1)).getD opened).conn.state = .kConnected := by
    decide +kernel
  have hopen := InfiniteRun.ofList_forall hs hstay halong
    (show s.KeepsOpen (.loop (.send ⟨1, .string 0 0, []⟩ (.string 0 0) (.wrote 0))) from ⟨id, id⟩)
  refine ⟨.ofList lastByte _ hs hstay, rfl, rfl, hconnected, hopen, fun n _ ↦ ?_⟩
  refine ⟨max n 5, le_max_left .., .inl ?_⟩
  rw [(openInv_of_run (openInv_start known_new _ _) hopen _).watched_iff,
    InfiniteRun.ofList_state_of_le _ _ (le_max_right n 5)]
  simp [hwriting]

theorem eventually_written_lastByte : ∃ ρ : InfiniteRun step, ρ.state 0 = opened ∧
    ∃ m, 1 ≤ m ∧ (ρ.state 1).conn.stream <+: (ρ.state m).conn.written := by
  obtain ⟨ρ, hstart, -, -, hopen, hfair⟩ := exists_lastByteRun
  exact ⟨ρ, hstart, eventually_written known_new ρ hstart hopen hfair 1⟩

theorem eventually_halfCloses_lastByte : ∃ ρ : InfiniteRun step, ρ.state 0 = opened ∧
    ∃ m, 1 < m ∧ .shutdownWrite [] ∈ (ρ.state m).conn.log := by
  obtain ⟨ρ, hstart, hshutdown, hconnected, hopen, hfair⟩ := exists_lastByteRun
  refine ⟨ρ, hstart, eventually_halfCloses known_new ρ hstart hopen hfair 1 ?_⟩
  rw [hshutdown]
  exact hconnected

end Life

end Mymuduo.Net
