import Mymuduo.ConnectionLife

namespace Mymuduo.Net

open Execution

namespace TcpConnection

def Tracks (c : TcpConnection) : Prop :=
  c.channel.isWriting = true ↔ c.outputBuffer.readable ≠ []

variable {c c' : TcpConnection}

theorem Tracks.frame (h : c.Tracks) (hchannel : c'.channel = c.channel)
    (hbuffer : c'.outputBuffer = c.outputBuffer) : c'.Tracks := by
  rw [Tracks, hchannel, hbuffer]
  exact h

theorem channel_directWrite (mem : Mem) (data : ℤ) (len : ℕ) (n : WriteResult) :
    (c.directWrite mem data len n).1.channel = c.channel ∧
      (c.directWrite mem data len n).1.outputBuffer = c.outputBuffer := by
  cases n with
  | wrote n =>
    simp only [directWrite]
    split_ifs <;> exact ⟨rfl, rfl⟩
  | error err => exact ⟨rfl, rfl⟩

/-- What is appended is not empty, and the channel then watches for writing. -/
theorem Tracks.bufferRest (h : c.Tracks) (mem : Mem) (data : ℤ) (l : SendLocals) :
    (c.bufferRest mem data l).Tracks := by
  have hbuffered (c : TcpConnection) (hl : 0 < l.remaining)
      (hbuffer : c.outputBuffer.readable ≠ []) :
      (if c.channel.isWriting then c
        else c.setChannel (c.channel.enableWriting c.poller)).Tracks := by
    split_ifs with hw
    · exact iff_of_true hw hbuffer
    · exact iff_of_true (Channel.isWriting_enableWriting ..) hbuffer
  rw [TcpConnection.bufferRest]
  split
  · rename_i hl
    simp only [Bool.and_eq_true, decide_eq_true_eq] at hl
    have happended (b : ValidBuffer) :
        (b.append (mem.bytesAt (data + l.nwrote) l.remaining.toNat)).readable ≠ [] := by
      rw [ValidBuffer.readable_append]
      refine List.append_ne_nil_of_right_ne_nil _ (List.ne_nil_of_length_pos ?_)
      rw [Mem.bytesAt_length]
      omega
    exact hbuffered _ hl.2 (happended _)
  · exact h

theorem Tracks.sendInLoop (h : c.Tracks) (call : Call) (mem : Mem) (data : ℤ) (len : ℕ)
    (n : WriteResult) : (c.sendInLoop call mem data len n).Tracks := by
  have hsend : (c.did (.sendInLoop call (mem.bytesAt data len))).Tracks := h
  simp only [TcpConnection.sendInLoop]
  split_ifs
  · exact h
  · obtain ⟨hchannel, hbuffer⟩ := channel_directWrite
      (c := c.did (.sendInLoop call (mem.bytesAt data len))) mem data len n
    exact (hsend.frame hchannel hbuffer).bufferRest mem data _
  · exact hsend.bufferRest mem data _

theorem Tracks.send (h : c.Tracks) (inLoop : Bool) (call : Call) (mem : Mem) (n : WriteResult)
    (arg : SendArg) : (c.send inLoop call mem n arg).1.Tracks := by
  cases inLoop <;> cases arg
  case true.string | true.buffer => exact h.sendInLoop ..
  case false.string | false.buffer => exact h

theorem channel_shutdownInLoop (c : TcpConnection) :
    c.shutdownInLoop.channel = c.channel ∧ c.shutdownInLoop.outputBuffer = c.outputBuffer := by
  rw [shutdownInLoop]
  split_ifs <;> exact ⟨rfl, rfl⟩

theorem Tracks.shutdownInLoop (h : c.Tracks) : c.shutdownInLoop.Tracks :=
  h.frame (channel_shutdownInLoop c).1 (channel_shutdownInLoop c).2

/-- An empty buffer ends the interest, and nothing else does. -/
theorem Tracks.handleWrite (h : c.Tracks) (n : WriteResult) : (c.handleWrite n).Tracks := by
  have hstop (c : TcpConnection) (hempty : c.outputBuffer.readable = []) :
      c.stopWriting.Tracks := by
    simp only [stopWriting]
    split_ifs <;>
    · refine iff_of_false ?_ (not_not_intro hempty)
      simp [queueInLoop, setChannel]
  simp only [TcpConnection.handleWrite]
  split_ifs with hwriting hdone
  · exact (hstop _ (ValidBuffer.readableBytes_eq_zero.mp hdone.2)).shutdownInLoop
  · exact hstop _ (ValidBuffer.readableBytes_eq_zero.mp hdone.2)
  · refine iff_of_true hwriting ?_
    intro hempty
    have hpending := h.mp hwriting
    cases n with
    | wrote n =>
      have hbytes : 0 < n := by
        by_contra hn
        obtain rfl : n = 0 := by omega
        exact hpending (by simpa [flush, ValidBuffer.writeFd] using hempty)
      exact hdone
        ⟨by simpa [WriteResult.value] using hbytes, ValidBuffer.readableBytes_eq_zero.mpr hempty⟩
    | error err => exact hpending hempty
  · exact h

/-- A closed connection: its channel is interested in nothing. -/
structure Closed (c : TcpConnection) : Prop where
  state : c.state = .kDisconnected
  events : c.channel.events = Channel.kNonEvent

theorem closed_handleClose (c : TcpConnection) : c.handleClose.Closed := by
  simp only [handleClose]
  split_ifs <;> exact ⟨rfl, EpollPoller.updateChannel_events ..⟩

theorem Closed.frame (h : c.Closed) (hstate : c'.state = c.state)
    (hchannel : c'.channel = c.channel) : c'.Closed :=
  ⟨hstate.trans h.state, hchannel ▸ h.events⟩

theorem Closed.handleRead (h : c.Closed) (n : ReadResult) : (c.handleRead n).Closed := by
  simp only [TcpConnection.handleRead]
  split_ifs
  · exact h.frame rfl rfl
  · exact closed_handleClose _
  · exact h.frame rfl rfl

theorem Closed.handleWrite (h : c.Closed) (n : WriteResult) : (c.handleWrite n).Closed := by
  have hw : c.channel.isWriting = false := by
    simp [Channel.isWriting, h.events, Channel.kNonEvent]
  rw [TcpConnection.handleWrite, hw]
  exact h

theorem Closed.eventCallback (h : c.Closed) (r : ReadResult) (w : WriteResult)
    (cb : EventCallback) : (c.eventCallback r w cb).Closed := by
  cases cb with
  | close => exact closed_handleClose c
  | error => exact h
  | read => exact h.handleRead r
  | write => exact h.handleWrite w

theorem Closed.call (h : c.Closed) {f : Functor} (hf : f ≠ .connectDestroyed) (mem : Mem)
    (n : WriteResult) : (c.call f mem n).Closed := by
  cases f with
  | sendInLoop call data len =>
    simp only [TcpConnection.call, TcpConnection.sendInLoop, did, h.state, if_true]
    exact h.frame h.state.symm rfl
  | shutdownInLoop =>
    simp only [TcpConnection.call, TcpConnection.shutdownInLoop]
    split_ifs <;> exact h.frame rfl rfl
  | forceCloseInLoop =>
    simp only [TcpConnection.call, forceCloseInLoop, h.state, reduceCtorEq, or_self, if_false]
    exact h
  | connectDestroyed => exact (hf rfl).elim
  | writeCompleteCallback | highWaterMarkCallback => exact h.frame rfl rfl

end TcpConnection

/-- The steps of the loop thread, with the calls of `send` that other threads make:
these reach the connection through its queue. -/
def LifeEvent.inLoopThread : LifeEvent → Bool
  | thread _ (.sendTest _ _) | thread _ .sendQueue => true
  | thread _ _ => false
  | _ => true

namespace Life

open TcpConnection

def CallsHandleClose (s : Life) : LifeEvent → Prop
  | .loop (.callback r _) =>
    s.dispatching.head? = some .close ∨ s.dispatching.head? = some .read ∧ r.value = 0
  | .loop (.runFunctor _) => s.conn.pending.head? = some .forceCloseInLoop ∧
    (s.conn.state = .kConnected ∨ s.conn.state = .kDisconnecting)
  | _ => False

def CallsConnectDestroyed (s : Life) : LifeEvent → Prop
  | .loop .connectDestroyed => True
  | .loop (.runFunctor _) => s.conn.pending.head? = some .connectDestroyed
  | _ => False

instance (s : Life) : DecidablePred s.CallsHandleClose
  | .loop (.callback r _) => inferInstanceAs (Decidable (s.dispatching.head? = some .close ∨
      s.dispatching.head? = some .read ∧ r.value = 0))
  | .loop (.runFunctor _) =>
    inferInstanceAs (Decidable (s.conn.pending.head? = some .forceCloseInLoop ∧
      (s.conn.state = .kConnected ∨ s.conn.state = .kDisconnecting)))
  | .loop (.poll _) | .loop .handleEvent | .loop (.send _ _ _) | .loop .shutdown
  | .loop .forceClose | .loop .connectDestroyed | .destroyTested | .thread _ _
  | .queueConnectDestroyed | .write _ => .isFalse id

instance (s : Life) : DecidablePred s.CallsConnectDestroyed
  | .loop .connectDestroyed => .isTrue trivial
  | .loop (.runFunctor _) =>
    inferInstanceAs (Decidable (s.conn.pending.head? = some .connectDestroyed))
  | .loop (.poll _) | .loop .handleEvent | .loop (.callback _ _) | .loop (.send _ _ _)
  | .loop .shutdown | .loop .forceClose | .destroyTested | .thread _ _ | .queueConnectDestroyed
  | .write _ => .isFalse id

/-- The connection is open and no `connectDestroyed` is running. -/
structure Tracking (s : Life) : Prop where
  conn : s.conn.Tracks
  destroying : s.destroying = none

structure Closed (s : Life) : Prop where
  conn : s.conn.Closed
  destroying : s.destroying ≠ some true

variable {s s' : Life}

theorem step_tracking {e : LifeEvent} (h : s.Tracking)
    (hguard : ¬ s.CallsHandleClose e ∧ ¬ s.CallsConnectDestroyed e)
    (hstep : s.step e = some s') : s'.Tracking := by
  obtain ⟨hclose, hdestroy⟩ := hguard
  have hkept {c : TcpConnection} (hchannel : c.channel = s.conn.channel)
      (hbuffer : c.outputBuffer = s.conn.outputBuffer) : c.Tracks := h.conn.frame hchannel hbuffer
  cases steps_of_step hstep with
  | @callback r w cb rest hd hdispatching =>
    refine ⟨?_, hd⟩
    simp only [CallsHandleClose, hdispatching, List.head?_cons, Option.some.injEq, not_or,
      not_and] at hclose
    cases cb with
    | close => exact (hclose.1 rfl).elim
    | error => exact h.conn
    | read =>
      simp only [eventCallback, handleRead, if_neg (hclose.2 rfl)]
      split_ifs <;> exact hkept rfl rfl
    | write => exact h.conn.handleWrite w
  | destroyFunctor hd hpending => exact (hdestroy (by simp [CallsConnectDestroyed, hpending])).elim
  | @runFunctor n f rest hd hpending hf =>
    refine ⟨?_, hd⟩
    have hrest : TcpConnection.Tracks { s.conn with pending := rest } := hkept rfl rfl
    simp only [CallsHandleClose, hpending, List.head?_cons, Option.some.injEq, not_and] at hclose
    cases f with
    | sendInLoop call data len => exact hrest.sendInLoop call s.mem data len n
    | shutdownInLoop => exact hrest.shutdownInLoop
    | forceCloseInLoop =>
      simp only [setConn, TcpConnection.call, forceCloseInLoop, if_neg (hclose rfl)]
      exact hrest
    | connectDestroyed => exact (hf rfl).elim
    | writeCompleteCallback | highWaterMarkCallback => exact hrest
  | send hd => exact ⟨h.conn.send .., hd⟩
  | sendQueue => exact ⟨h.conn.send .., h.destroying⟩
  | shutdown hd =>
    refine ⟨?_, hd⟩
    simp only [setConn, TcpConnection.shutdown]
    split_ifs
    · have hset : (s.conn.setState .kDisconnecting).Tracks := hkept rfl rfl
      exact hset.shutdownInLoop
    · exact h.conn
  | forceClose hd =>
    refine ⟨?_, hd⟩
    simp only [setConn, TcpConnection.forceClose]
    split_ifs <;> exact hkept rfl rfl
  | connectDestroyed => exact (hdestroy trivial).elim
  | destroyTested hd => simp [h.destroying] at hd
  | poll | handleEvent | sendIgnored | sendTest | shutdownTest | forceCloseTest | testFailed
  | write => exact ⟨h.conn, h.destroying⟩
  | shutdownStore | shutdownQueue | forceCloseStore | forceCloseQueue | queueConnectDestroyed =>
    exact ⟨hkept rfl rfl, h.destroying⟩

/-- The step that closes. -/
theorem closed_of_callsHandleClose {e : LifeEvent} (h : s.CallsHandleClose e)
    (hstep : s.step e = some s') : s'.Closed := by
  cases steps_of_step hstep with
  | @callback r w cb rest hd hdispatching =>
    refine ⟨?_, by simp [hd]⟩
    simp only [CallsHandleClose, hdispatching, List.head?_cons, Option.some.injEq] at h
    rcases h with rfl | ⟨rfl, hr⟩
    · exact closed_handleClose _
    · simp only [eventCallback, handleRead]
      rw [if_neg (by omega), if_pos hr]
      exact closed_handleClose _
  | destroyFunctor hd hpending => simp [CallsHandleClose, hpending] at h
  | @runFunctor n f rest hd hpending hf =>
    refine ⟨?_, by simp [setConn, hd]⟩
    simp only [CallsHandleClose, hpending, List.head?_cons, Option.some.injEq] at h
    obtain ⟨rfl, hopen⟩ := h
    simp only [setConn, TcpConnection.call, forceCloseInLoop, if_pos hopen]
    exact closed_handleClose _
  | _ => exact h.elim

theorem step_closed {e : LifeEvent} (h : s.Closed) (he : e.inLoopThread = true)
    (hstep : s.step e = some s') : s'.Closed := by
  have hstate := h.conn.state
  cases steps_of_step hstep with
  | callback => exact ⟨h.conn.eventCallback _ _ _, h.destroying⟩
  | destroyFunctor => exact ⟨h.conn.frame rfl rfl, by simp [hstate]⟩
  | @runFunctor n f rest hd hpending hf =>
    have hrest : TcpConnection.Closed { s.conn with pending := rest } := h.conn.frame rfl rfl
    exact ⟨hrest.call hf s.mem n, h.destroying⟩
  | send _ hc | sendTest hc => simp [hstate] at hc
  | shutdown =>
    simp only [setConn, TcpConnection.shutdown, hstate, reduceCtorEq, if_false]
    exact h
  | forceClose =>
    simp only [setConn, TcpConnection.forceClose, hstate, reduceCtorEq, or_self, if_false]
    exact h
  | connectDestroyed => exact ⟨h.conn, by simp [hstate]⟩
  | @destroyTested connected hd =>
    cases connected with
    | true => exact (h.destroying hd).elim
    | false => exact ⟨⟨hstate, h.conn.events⟩, by simp⟩
  | @sendQueue t call arg =>
    cases arg <;> exact ⟨h.conn.frame rfl rfl, h.destroying⟩
  | poll | handleEvent | sendIgnored | testFailed | write => exact ⟨h.conn, h.destroying⟩
  | queueConnectDestroyed => exact ⟨h.conn.frame rfl rfl, h.destroying⟩
  | shutdownTest | shutdownStore | shutdownQueue | forceCloseTest | forceCloseStore
  | forceCloseQueue => cases he

/-- In every run, up to `handleClose` or `connectDestroyed` the channel is interested
in writing exactly while output is pending, and from `handleClose` on it is interested
in nothing as long as the run stays in the loop thread. -/
theorem write_interest (fd ptr : ℕ) (poller : EpollPoller) (callbacks : Callbacks) (mem : Mem)
    (es : List LifeEvent) (s : Life)
    (hrun : run step (start (new fd ptr poller callbacks).connectEstablished mem) es = some s) :
    (Along step (fun s e ↦ ¬ s.CallsHandleClose e ∧ ¬ s.CallsConnectDestroyed e)
        (start (new fd ptr poller callbacks).connectEstablished mem) es →
      (s.conn.channel.isWriting = true ↔ s.conn.outputBuffer.readable ≠ [])) ∧
    ((∀ e ∈ es, e.inLoopThread = true) → ¬ Along step (fun s e ↦ ¬ s.CallsHandleClose e)
        (start (new fd ptr poller callbacks).connectEstablished mem) es →
      s.conn.channel.events = Channel.kNonEvent) := by
  have hstart : (start (new fd ptr poller callbacks).connectEstablished mem).Tracking := by
    refine ⟨iff_of_false ?_ (not_not_intro (ValidBuffer.readable_new _)), rfl⟩
    simp [start, connectEstablished, setState, setChannel, did, new]
  constructor
  · intro hopen
    exact (run_invariant (fun _ _ _ h hg hs ↦ step_tracking h hg hs) hstart hopen hrun).conn
  · intro hes hclosed
    have hbreak (s : Life) (e : LifeEvent) (s' : Life) (_ : e.inLoopThread = true)
        (hg : ¬ ¬ s.CallsHandleClose e) (hs : s.step e = some s') : s'.Closed :=
      closed_of_callsHandleClose (not_not.mp hg) hs
    exact (run_of_not_along hbreak (fun _ _ _ h he hs ↦ step_closed h he hs) hes hclosed
      hrun).conn.events

def opened : Life :=
  start (new 5 9 .empty ⟨true, true, true, true⟩).connectEstablished .numbered

def partialSend : List LifeEvent :=
  [.loop (.send ⟨0, .string 3 2, [3, 4]⟩ (.string 3 2) (.wrote 1))]

def closedSend : List LifeEvent :=
  partialSend ++ [.loop .forceClose, .loop (.runFunctor (.wrote 0)),
    .loop (.send ⟨1, .string 5 1, [5]⟩ (.string 5 1) (.wrote 1))]

theorem write_interest_partial :
    (∃ s, run step opened partialSend = some s ∧
      (s.conn.channel.isWriting = true ↔ s.conn.outputBuffer.readable ≠ [])) ∧
    ∃ s, run step opened closedSend = some s ∧ s.conn.channel.events = Channel.kNonEvent := by
  obtain ⟨s, hs⟩ := Option.isSome_iff_exists.mp
    (show (run step opened partialSend).isSome by decide +kernel)
  obtain ⟨t, ht⟩ := Option.isSome_iff_exists.mp
    (show (run step opened closedSend).isSome by decide +kernel)
  refine ⟨⟨s, hs, ?_⟩, ⟨t, ht, ?_⟩⟩
  · exact (write_interest 5 9 .empty ⟨true, true, true, true⟩ .numbered partialSend s hs).1
      (by decide +kernel)
  · exact (write_interest 5 9 .empty ⟨true, true, true, true⟩ .numbered closedSend t ht).2
      (by decide) (by decide +kernel)

end Life

end Mymuduo.Net
