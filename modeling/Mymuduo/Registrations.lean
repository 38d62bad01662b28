import Mymuduo.DestroyedConnection

namespace Mymuduo.Net

open Execution

/-- The poller has nothing of another object under the channel's descriptor. -/
structure Owned (p : EpollPoller) (ch : Channel) : Prop extends Agrees p ch where
  own : ∀ ptr, p.channels ch.fd = some ptr → ptr = ch.ptr

namespace ChannelOp

variable {p : EpollPoller} {ch : Channel}

theorem apply_owned (op : ChannelOp) (h : Owned p ch) :
    Owned (op.apply p ch).1 (op.apply p ch).2 := by
  refine { (op.apply_agrees h.toKnown).1 with own := fun ptr hptr ↦ ?_ }
  rw [op.apply_fd] at hptr
  rw [op.apply_ptr]
  rcases op.apply_cases p ch with happly | ⟨events, happly⟩
  · rw [happly, EpollPoller.removeChannel_channels] at hptr
    cases hptr
  · rw [happly] at hptr
    rw [EpollPoller.updateChannel] at hptr
    split at hptr
    next =>
      simp only [EpollPoller.update_channels, Function.update_self, Option.some.injEq] at hptr
      exact hptr.symm
    next =>
      rw [EpollPoller.update_channels] at hptr
      exact h.own ptr hptr
    next =>
      split at hptr <;>
      · rw [EpollPoller.update_channels] at hptr
        exact h.own ptr hptr

end ChannelOp

theorem Owned.elsewhere {p p' : EpollPoller} {ch : Channel} {fd : ℕ} (h : Owned p ch)
    (hfd : ch.fd ≠ fd) (hsame : SameElsewhere fd p p') : Owned p' ch := by
  refine { h.toAgrees.elsewhere hfd hsame with own := ?_ }
  rw [hsame.channels _ hfd]
  exact h.own

theorem owned_new {p : EpollPoller} {fd ptr : ℕ} (hchannels : p.channels fd = none)
    (hepoll : p.epoll fd = none) : Owned p (.new fd ptr) where
  epoll := by simp [Channel.new, hepoll]
  channels := by simp [Channel.new, hchannels]
  registered := by simp [Channel.new]
  own := by simp [Channel.new, hchannels]

namespace TcpConnection

/-- What a function does to the poller: operations of `P` on the connection's own
channel. -/
def Registers (P : ChannelOp → Prop) (c c' : TcpConnection) : Prop :=
  ∃ ops : List ChannelOp, (∀ op ∈ ops, P op) ∧ (c'.poller, c'.channel) =
    ops.foldl (fun r op ↦ op.apply r.1 r.2) (c.poller, c.channel)

abbrev Updates : TcpConnection → TcpConnection → Prop := Registers (· ≠ .remove)

variable {P : ChannelOp → Prop} {c c' c'' : TcpConnection}

theorem Registers.of_eq (hpoller : c'.poller = c.poller) (hchannel : c'.channel = c.channel) :
    Registers P c c' := ⟨[], by simp, by rw [hpoller, hchannel, List.foldl_nil]⟩

theorem Registers.mono {Q : ChannelOp → Prop} (h : Registers P c c') (hpq : ∀ op, P op → Q op) :
    Registers Q c c' := by
  obtain ⟨ops, hall, hops⟩ := h
  exact ⟨ops, fun op hop ↦ hpq op (hall op hop), hops⟩

theorem Registers.trans (h : Registers P c c') (h' : Registers P c' c'') : Registers P c c'' := by
  obtain ⟨ops, hall, hops⟩ := h
  obtain ⟨ops', hall', hops'⟩ := h'
  refine ⟨ops ++ ops', List.forall_mem_append.mpr ⟨hall, hall'⟩, ?_⟩
  rw [List.foldl_append, ← hops, hops']

theorem Registers.ite {p : Prop} [Decidable p] (h : Registers P c c') (h' : Registers P c c'') :
    Registers P c (if p then c' else c'') := by
  split_ifs
  · exact h
  · exact h'

theorem registers_refl : Registers P c c := .of_eq rfl rfl

theorem registers_channelOp (op : ChannelOp) (hop : P op) :
    Registers P c (c.setChannel (op.apply c.poller c.channel)) :=
  ⟨[op], fun _ hmem ↦ List.mem_singleton.mp hmem ▸ hop, rfl⟩

theorem updates_channelOp (op : ChannelOp) (hop : op ≠ .remove) :
    Updates c (c.setChannel (op.apply c.poller c.channel)) := registers_channelOp op hop

/-- An invariant of the operations. -/
theorem Registers.invariant {I : EpollPoller → Channel → Prop}
    (hI : ∀ p ch (op : ChannelOp), P op → I p ch → I (op.apply p ch).1 (op.apply p ch).2)
    (h : Registers P c c') (hc : I c.poller c.channel) : I c'.poller c'.channel := by
  obtain ⟨ops, hall, hops⟩ := h
  have hfold (r : EpollPoller × Channel) (hr : I r.1 r.2) :
      I (ops.foldl (fun r op ↦ op.apply r.1 r.2) r).1
        (ops.foldl (fun r op ↦ op.apply r.1 r.2) r).2 := by
    clear hops
    induction ops generalizing r with
    | nil => exact hr
    | cons op ops ih =>
      obtain ⟨hop, hall⟩ := List.forall_mem_cons.mp hall
      exact ih hall _ (hI r.1 r.2 op hop hr)
  have hall := hfold (c.poller, c.channel) hc
  rwa [← hops] at hall

theorem Registers.fd (h : Registers P c c') : c'.channel.fd = c.channel.fd :=
  h.invariant (I := fun _ ch ↦ ch.fd = c.channel.fd) (fun _ _ op _ hfd ↦ op.apply_fd.trans hfd) rfl

theorem Registers.ptr (h : Registers P c c') : c'.channel.ptr = c.channel.ptr :=
  h.invariant (I := fun _ ch ↦ ch.ptr = c.channel.ptr)
    (fun _ _ op _ hptr ↦ op.apply_ptr.trans hptr) rfl

theorem Registers.owned (h : Registers P c c') (hc : Owned c.poller c.channel) :
    Owned c'.poller c'.channel ∧ c'.poller.refused = c.poller.refused := by
  refine h.invariant (I := fun p ch ↦ Owned p ch ∧ p.refused = c.poller.refused)
    (fun p ch op _ hp ↦ ⟨op.apply_owned hp.1, ?_⟩) ⟨hc, rfl⟩
  exact (op.apply_agrees hp.1.toKnown).2.trans hp.2

theorem Registers.elsewhere (h : Registers P c c') :
    SameElsewhere c.channel.fd c.poller c'.poller := by
  have hall := h.invariant
    (I := fun p ch ↦ ch.fd = c.channel.fd ∧ SameElsewhere c.channel.fd c.poller p)
    (fun p ch op _ hp ↦ ?_) ⟨rfl, fun _ _ ↦ rfl, fun _ _ ↦ rfl⟩
  · exact hall.2
  · have hstep : SameElsewhere ch.fd p (op.apply p ch).1 := op.apply_elsewhere
    rw [hp.1] at hstep
    refine ⟨op.apply_fd.trans hp.1, fun n hn ↦ ?_, fun n hn ↦ ?_⟩
    · rw [hstep.channels n hn, hp.2.channels n hn]
    · rw [hstep.epoll n hn, hp.2.epoll n hn]

theorem registers_did (a : Action) : Registers P c (c.did a) := .of_eq rfl rfl

theorem registers_directWrite (mem : Mem) (data : ℤ) (len : ℕ) (n : WriteResult) :
    Updates c (c.directWrite mem data len n).1 := by
  cases n with
  | wrote n =>
    simp only [directWrite]
    exact .ite (.of_eq rfl rfl) (.of_eq rfl rfl)
  | error err => exact .of_eq rfl rfl

theorem registers_bufferRest (mem : Mem) (data : ℤ) (l : SendLocals) :
    Updates c (c.bufferRest mem data l) := by
  have hqueue (len : ℕ) : Updates c (c.queueInLoop (.highWaterMarkCallback len)) :=
    .of_eq rfl rfl
  have hmark := Registers.ite
    (p := c.highWaterMark ≤ c.outputBuffer.readableBytes + l.remaining.toNat ∧
      c.outputBuffer.readableBytes < c.highWaterMark ∧ c.callbacks.highWaterMark)
    (hqueue (c.outputBuffer.readableBytes + l.remaining.toNat)) registers_refl
  refine .ite (hmark.trans ?_) registers_refl
  have happend (c : TcpConnection) : Updates c { c with
      outputBuffer := c.outputBuffer.append (mem.bytesAt (data + l.nwrote) l.remaining.toNat) } :=
    .of_eq rfl rfl
  have hwriting (c : TcpConnection) : Updates c (c.setChannel (c.channel.enableWriting c.poller)) :=
    updates_channelOp .enableWriting (by decide)
  exact (happend _).trans (.ite registers_refl (hwriting _))

theorem registers_sendInLoop (call : Call) (mem : Mem) (data : ℤ) (len : ℕ) (n : WriteResult) :
    Updates c (c.sendInLoop call mem data len n) := by
  refine (registers_did (.sendInLoop call (mem.bytesAt data len))).trans
    (.ite registers_refl (.ite ?_ (registers_bufferRest mem data _)))
  exact (registers_directWrite mem data len n).trans (registers_bufferRest mem data _)

theorem registers_send (inLoop : Bool) (call : Call) (mem : Mem) (n : WriteResult)
    (arg : SendArg) : Updates c (c.send inLoop call mem n arg).1 := by
  cases inLoop <;> cases arg
  case true.string | true.buffer => exact registers_sendInLoop ..
  case false.string | false.buffer => exact .of_eq rfl rfl

theorem registers_shutdownInLoop : Updates c c.shutdownInLoop :=
  .ite registers_refl (registers_did _)

theorem registers_handleClose : Updates c c.handleClose := by
  have hcalled (cb : Callback) (b : Bool) (c : TcpConnection) :
      Updates c (if b then c.did (.called cb) else c) := .ite (registers_did _) registers_refl
  have hset : Updates c (c.setState .kDisconnected) := .of_eq rfl rfl
  have hdisabled := hset.trans (updates_channelOp .disableAll (by decide))
  exact (hdisabled.trans (hcalled (.connection false) _ _)).trans (hcalled .close _ _)

theorem registers_handleRead (n : ReadResult) : Updates c (c.handleRead n) := by
  have hread : Updates c { c with inputBuffer := c.inputBuffer.readFd n } := .of_eq rfl rfl
  exact hread.trans (.ite (registers_did _) (.ite registers_handleClose registers_refl))

theorem registers_handleWrite (n : WriteResult) : Updates c (c.handleWrite n) := by
  have hflush : Updates c (c.flush n) := .of_eq rfl rfl
  have hstop (c : TcpConnection) : Updates c c.stopWriting :=
    (updates_channelOp .disableWriting (by decide)).trans (.ite (.of_eq rfl rfl) registers_refl)
  refine .ite (hflush.trans (.ite ((hstop _).trans (.ite ?_ registers_refl)) registers_refl))
    registers_refl
  exact registers_shutdownInLoop

theorem registers_eventCallback (r : ReadResult) (w : WriteResult) (cb : EventCallback) :
    Updates c (c.eventCallback r w cb) := by
  cases cb with
  | close => exact registers_handleClose
  | error => exact registers_refl
  | read => exact registers_handleRead r
  | write => exact registers_handleWrite w

theorem registers_shutdown : Updates c c.shutdown := by
  have hset : Updates c (c.setState .kDisconnecting) := .of_eq rfl rfl
  exact .ite (hset.trans registers_shutdownInLoop) registers_refl

theorem registers_forceClose : Updates c c.forceClose := .ite (.of_eq rfl rfl) registers_refl

theorem registers_destroyTested (connected : Bool) :
    Registers (fun _ ↦ True) c (c.destroyTested connected) := by
  cases connected with
  | false => exact registers_channelOp .remove trivial
  | true =>
    have hset : Registers (fun _ ↦ True) c (c.setState .kDisconnected) := .of_eq rfl rfl
    have hdisabled := hset.trans (registers_channelOp .disableAll trivial)
    exact (hdisabled.trans (registers_did (.called (.connection false)))).trans
      (registers_channelOp .remove trivial)

theorem registers_connectEstablished : Updates c c.connectEstablished := by
  have hset : Updates c (c.setState .kConnected) := .of_eq rfl rfl
  have hreading := hset.trans (updates_channelOp .enableReading (by decide))
  rw [connectEstablished]
  exact hreading.trans (registers_did _)

theorem registers_call {f : Functor} (hf : f ≠ .connectDestroyed) (mem : Mem) (n : WriteResult) :
    Updates c (c.call f mem n) := by
  cases f with
  | sendInLoop call data len => exact registers_sendInLoop call mem data len n
  | shutdownInLoop => exact registers_shutdownInLoop
  | forceCloseInLoop => exact .ite registers_handleClose registers_refl
  | connectDestroyed => exact (hf rfl).elim
  | writeCompleteCallback | highWaterMarkCallback => exact registers_did _

end TcpConnection

namespace Life

open TcpConnection

variable {s s' : Life} {e : LifeEvent}

theorem step_updates (he : e ≠ .destroyTested) (hstep : s.step e = some s') :
    Updates s.conn s'.conn := by
  cases steps_of_step hstep with
  | callback => exact registers_eventCallback _ _ _
  | runFunctor _ _ hf =>
    have hpending (rest : List Functor) : Updates s.conn { s.conn with pending := rest } :=
      .of_eq rfl rfl
    exact (hpending _).trans (registers_call hf _ _)
  | send | sendQueue => exact registers_send ..
  | shutdown => exact registers_shutdown
  | forceClose => exact registers_forceClose
  | destroyTested => exact (he rfl).elim
  | destroyFunctor | shutdownStore | shutdownQueue | forceCloseStore | forceCloseQueue
  | queueConnectDestroyed => exact .of_eq rfl rfl
  | poll | handleEvent | sendIgnored | connectDestroyed | sendTest | shutdownTest | forceCloseTest
  | testFailed | write => exact registers_refl

theorem step_registers (hstep : s.step e = some s') :
    Registers (fun _ ↦ True) s.conn s'.conn := by
  cases e with
  | destroyTested =>
    obtain ⟨connected, -, rfl⟩ := Option.map_eq_some_iff.mp hstep
    exact registers_destroyTested connected
  | loop | thread | queueConnectDestroyed | write =>
    exact (step_updates (by simp) hstep).mono fun _ _ ↦ trivial

end Life

end Mymuduo.Net
