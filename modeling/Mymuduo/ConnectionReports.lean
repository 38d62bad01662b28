import Mymuduo.ConnectionLife

namespace Mymuduo.Net

def Action.report? : Action → Option Callback
  | called (.connection connected) => some (.connection connected)
  | called .message => some .message
  | called .close => some .close
  | _ => none

namespace TcpConnection

def reports (c : TcpConnection) : List Callback := c.log.filterMap Action.report?

structure Kept (c c' : TcpConnection) : Prop where
  callbacks : c'.callbacks = c.callbacks
  fd : c'.channel.fd = c.channel.fd
  known : Known c.poller c.channel → Known c'.poller c'.channel

structure Quiet (c c' : TcpConnection) : Prop extends Kept c c' where
  state : c'.state = c.state
  reports : c'.reports = c.reports

def endReports (close connection : Bool) : List Callback :=
  (if close then [.close] else []) ++ (if connection then [.connection false] else [])

variable {c c' c'' : TcpConnection}

theorem Kept.trans (h : Kept c c') (h' : Kept c' c'') : Kept c c'' :=
  ⟨h'.callbacks.trans h.callbacks, h'.fd.trans h.fd, fun hk ↦ h'.known (h.known hk)⟩

theorem Quiet.refl (c : TcpConnection) : Quiet c c := ⟨⟨rfl, rfl, id⟩, rfl, rfl⟩

theorem Quiet.trans (h : Quiet c c') (h' : Quiet c' c'') : Quiet c c'' :=
  ⟨h.toKept.trans h'.toKept, h'.state.trans h.state, h'.reports.trans h.reports⟩

theorem Quiet.ite {p : Prop} [Decidable p] (h : Quiet c c') (h' : Quiet c c'') :
    Quiet c (if p then c' else c'') := by
  split_ifs
  · exact h
  · exact h'

theorem quiet_did {a : Action} (ha : a.report? = none) : Quiet c (c.did a) :=
  ⟨⟨rfl, rfl, id⟩, rfl, List.filterMap_cons_none ha⟩

theorem quiet_queueInLoop (f : Functor) : Quiet c (c.queueInLoop f) :=
  ⟨⟨rfl, rfl, id⟩, rfl, List.filterMap_cons_none rfl⟩

theorem quiet_channelOp (op : ChannelOp) : Quiet c (c.setChannel (op.apply c.poller c.channel)) :=
  ⟨⟨rfl, op.apply_fd, fun h ↦ (op.apply_agrees h).1.toKnown⟩, rfl, rfl⟩

theorem quiet_directWrite (mem : Mem) (data : ℤ) (len : ℕ) (n : WriteResult) :
    Quiet c (c.directWrite mem data len n).1 := by
  have hwrite : Quiet c (c.did (.write (mem.bytesAt data len) n)) := quiet_did rfl
  cases n with
  | wrote n => exact hwrite.trans (.ite (quiet_did rfl) (.refl _))
  | error err => exact hwrite

theorem quiet_append (bytes : List Byte) :
    Quiet c { c with outputBuffer := c.outputBuffer.append bytes } :=
  ⟨⟨rfl, rfl, id⟩, rfl, rfl⟩

theorem quiet_bufferRest (mem : Mem) (data : ℤ) (l : SendLocals) :
    Quiet c (c.bufferRest mem data l) := by
  have hmark := Quiet.ite
    (p := c.highWaterMark ≤ c.outputBuffer.readableBytes + l.remaining.toNat ∧
      c.outputBuffer.readableBytes < c.highWaterMark ∧ c.callbacks.highWaterMark)
    (quiet_queueInLoop (.highWaterMarkCallback (c.outputBuffer.readableBytes + l.remaining.toNat)))
    (.refl c)
  exact .ite ((hmark.trans (quiet_append _)).trans
    (.ite (.refl _) (quiet_channelOp .enableWriting))) (.refl c)

theorem quiet_sendInLoop (call : Call) (mem : Mem) (data : ℤ) (len : ℕ) (n : WriteResult) :
    Quiet c (c.sendInLoop call mem data len n) := by
  have hsend : Quiet c (c.did (.sendInLoop call (mem.bytesAt data len))) := quiet_did rfl
  refine hsend.trans (.ite (.refl _) (.ite ?_ (quiet_bufferRest mem data _)))
  exact (quiet_directWrite mem data len n).trans (quiet_bufferRest mem data _)

theorem quiet_send (inLoop : Bool) (call : Call) (mem : Mem) (n : WriteResult) (arg : SendArg) :
    Quiet c (c.send inLoop call mem n arg).1 := by
  cases inLoop <;> cases arg
  case true.string | true.buffer => exact quiet_sendInLoop ..
  case false.string | false.buffer => exact quiet_queueInLoop _

theorem quiet_shutdownInLoop : Quiet c c.shutdownInLoop := .ite (.refl c) (quiet_did rfl)

theorem quiet_handleWrite (n : WriteResult) : Quiet c (c.handleWrite n) := by
  have hflush : Quiet c (c.flush n) :=
    (quiet_did (c := c) (a := .write c.outputBuffer.readable n) rfl).trans
      ⟨⟨rfl, rfl, id⟩, rfl, rfl⟩
  have hstop (c : TcpConnection) : Quiet c c.stopWriting :=
    (quiet_channelOp .disableWriting).trans (.ite (quiet_queueInLoop _) (.refl _))
  refine .ite (hflush.trans (.ite ((hstop _).trans (.ite ?_ (.refl _))) (.refl _))) (.refl c)
  exact quiet_shutdownInLoop

theorem kept_setState (state : StateE) : Kept c (c.setState state) := ⟨rfl, rfl, id⟩

/-- How a step changes a connection. -/
inductive Change (c c' : TcpConnection) : Prop
  | quiet (h : Quiet c c')
  | message (h : Kept c c') (hstate : c'.state = c.state)
      (hreports : c'.reports = .message :: c.reports)
  | disconnecting (h : Kept c c') (hstate : c'.state = .kDisconnecting)
      (hreports : c'.reports = c.reports)
  | closed (h : Kept c c') (hstate : c'.state = .kDisconnected)
      (hreports : c'.reports = endReports c.callbacks.close c.callbacks.connection ++ c.reports)
  | destroyed (h : Kept c c') (hstate : c'.state = .kDisconnected)
      (hreports : c'.reports = endReports false true ++ c.reports)

theorem change_refl : Change c c := .quiet (.refl c)

theorem Change.kept (h : Change c c') : Kept c c' := by
  cases h with
  | quiet h => exact h.toKept
  | message h | disconnecting h | closed h | destroyed h => exact h

theorem change_setState : Change c (c.setState .kDisconnecting) :=
  .disconnecting (kept_setState _) rfl rfl

theorem reports_handleClose (c : TcpConnection) : c.handleClose.reports =
    endReports c.callbacks.close c.callbacks.connection ++ c.reports := by
  cases hconnection : c.callbacks.connection <;> cases hclose : c.callbacks.close <;>
    simp [handleClose, endReports, reports, setState, setChannel, did, hconnection, hclose,
      Action.report?]

/-- `handleClose` ends in `kDisconnected` whatever the state was. -/
theorem change_handleClose : Change c c.handleClose := by
  have hcalled (cb : Callback) (b : Bool) (c : TcpConnection) :
      Kept c (if b then c.did (.called cb) else c) := by
    cases b <;> exact ⟨rfl, rfl, id⟩
  have hdisabled : Kept c ((c.setState .kDisconnected).setChannel
      (c.channel.disableAll c.poller)) :=
    (kept_setState _).trans (quiet_channelOp .disableAll).toKept
  refine .closed ((hdisabled.trans (hcalled (.connection false) _ _)).trans
    (hcalled .close _ _)) ?_ (reports_handleClose c)
  simp only [handleClose]
  split_ifs <;> rfl

theorem quiet_readFd (n : ReadResult) :
    Quiet c { c with inputBuffer := c.inputBuffer.readFd n } := ⟨⟨rfl, rfl, id⟩, rfl, rfl⟩

theorem quiet_handleRead {n : ReadResult} (hn : n.value < 0) : Quiet c (c.handleRead n) := by
  simp only [handleRead]
  rw [if_neg (by omega), if_neg (by omega)]
  exact quiet_readFd n

theorem Change.of_quiet (h : Quiet c c') (h' : Change c' c'') : Change c c'' := by
  cases h' with
  | quiet h' => exact .quiet (h.trans h')
  | message hk hs hr =>
    exact .message (h.toKept.trans hk) (hs.trans h.state) (hr.trans (by rw [h.reports]))
  | disconnecting hk hs hr => exact .disconnecting (h.toKept.trans hk) hs (hr.trans h.reports)
  | closed hk hs hr =>
    refine .closed (h.toKept.trans hk) hs (hr.trans ?_)
    rw [h.reports, h.callbacks]
  | destroyed hk hs hr => exact .destroyed (h.toKept.trans hk) hs (hr.trans (by rw [h.reports]))

theorem change_handleRead (n : ReadResult) : Change c (c.handleRead n) := by
  refine .of_quiet (quiet_readFd n) ?_
  simp only [handleRead]
  split_ifs
  · exact .message ⟨rfl, rfl, id⟩ rfl (List.filterMap_cons_some rfl)
  · exact change_handleClose
  · exact change_refl

theorem change_eventCallback (r : ReadResult) (w : WriteResult) (cb : EventCallback) :
    Change c (c.eventCallback r w cb) := by
  cases cb with
  | close => exact change_handleClose
  | error => exact change_refl
  | read => exact change_handleRead r
  | write => exact .quiet (quiet_handleWrite w)

theorem Change.then_quiet (h : Change c c') (h' : Quiet c' c'') : Change c c'' := by
  cases h with
  | quiet h => exact .quiet (h.trans h')
  | message hk hs hr =>
    exact .message (hk.trans h'.toKept) (h'.state.trans hs) (h'.reports.trans hr)
  | disconnecting hk hs hr =>
    exact .disconnecting (hk.trans h'.toKept) (h'.state.trans hs) (h'.reports.trans hr)
  | closed hk hs hr =>
    exact .closed (hk.trans h'.toKept) (h'.state.trans hs) (h'.reports.trans hr)
  | destroyed hk hs hr =>
    exact .destroyed (hk.trans h'.toKept) (h'.state.trans hs) (h'.reports.trans hr)

theorem change_shutdown : Change c c.shutdown := by
  rw [shutdown]
  split_ifs
  · exact change_setState.then_quiet quiet_shutdownInLoop
  · exact change_refl

theorem change_forceClose : Change c c.forceClose := by
  rw [forceClose]
  split_ifs
  · exact change_setState.then_quiet (quiet_queueInLoop _)
  · exact change_refl

theorem change_forceCloseInLoop : Change c c.forceCloseInLoop := by
  rw [forceCloseInLoop]
  split_ifs
  · exact change_handleClose
  · exact change_refl

theorem quiet_destroyTested : Quiet c (c.destroyTested false) := quiet_channelOp .remove

theorem change_destroyTested (connected : Bool) : Change c (c.destroyTested connected) := by
  cases connected with
  | false => exact .quiet quiet_destroyTested
  | true =>
    refine Change.then_quiet (.destroyed ?_ rfl ?_) (quiet_channelOp .remove)
    · exact (kept_setState .kDisconnected).trans
        ((quiet_channelOp .disableAll).toKept.trans ⟨rfl, rfl, id⟩)
    · exact List.filterMap_cons_some rfl

theorem change_call {f : Functor} (hf : f ≠ .connectDestroyed) (mem : Mem) (n : WriteResult) :
    Change c (c.call f mem n) := by
  cases f with
  | sendInLoop call data len => exact .quiet (quiet_sendInLoop call mem data len n)
  | shutdownInLoop => exact .quiet quiet_shutdownInLoop
  | forceCloseInLoop => exact change_forceCloseInLoop
  | connectDestroyed => exact (hf rfl).elim
  | writeCompleteCallback | highWaterMarkCallback => exact .quiet (quiet_did rfl)

theorem quiet_pending (pending : List Functor) : Quiet c { c with pending := pending } :=
  ⟨⟨rfl, rfl, id⟩, rfl, rfl⟩

end TcpConnection

namespace Life

open TcpConnection

variable {s s' : Life}

theorem step_change {e : LifeEvent} (hstep : s.step e = some s') : Change s.conn s'.conn := by
  cases steps_of_step hstep with
  | callback => exact change_eventCallback _ _ _
  | destroyFunctor => exact .quiet (quiet_pending _)
  | runFunctor hd hpending hf => exact .of_quiet (quiet_pending _) (change_call hf _ _)
  | send | sendQueue => exact .quiet (quiet_send ..)
  | shutdown => exact change_shutdown
  | forceClose => exact change_forceClose
  | destroyTested => exact change_destroyTested _
  | shutdownStore | forceCloseStore => exact change_setState
  | shutdownQueue | forceCloseQueue | queueConnectDestroyed => exact .quiet (quiet_queueInLoop _)
  | poll | handleEvent | sendIgnored | connectDestroyed | sendTest | shutdownTest | forceCloseTest
  | testFailed | write => exact change_refl

end Life

end Mymuduo.Net
