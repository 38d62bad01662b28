import Mymuduo.ConnectionQueue
import Mymuduo.ConnectionReports

namespace Mymuduo.Net

namespace LifeEvent

/-- What happens to a connection only because its owner asks for it. -/
def byOwner : LifeEvent → Bool
  | loop .connectDestroyed | queueConnectDestroyed => true
  | _ => false

/-- What the loop thread does when it is not inside some other callback. -/
def ofLoop : LifeEvent → Bool
  | loop (.poll _) | loop .handleEvent | loop (.callback _ _) | loop (.runFunctor _)
  | destroyTested => true
  | _ => false

end LifeEvent

theorem update_eq_some {α : Type*} {conns : ℕ → Option α} {i j : ℕ} {c d : α}
    (h : Function.update conns i (some c) j = some d) :
    j = i ∧ d = c ∨ j ≠ i ∧ conns j = some d := by
  by_cases hj : j = i
  · subst hj
    rw [Function.update_self, Option.some.injEq] at h
    exact .inl ⟨rfl, h.symm⟩
  · rw [Function.update_of_ne hj] at h
    exact .inr ⟨hj, h⟩

namespace Life

open TcpConnection

def closings (s : Life) : ℕ := s.conn.reports.count .close

def Closes (s : Life) : LifeEvent → Prop
  | .loop (.callback r _) => ∃ cb ∈ s.dispatching.head?, cb = .close ∨ cb = .read ∧ r.value = 0
  | .loop (.runFunctor _) => s.conn.pending.head? = some .forceCloseInLoop ∧
      (s.conn.state = .kConnected ∨ s.conn.state = .kDisconnecting)
  | _ => False

instance (s : Life) : DecidablePred s.Closes
  | .loop (.callback r _) => inferInstanceAs
      (Decidable (∃ cb ∈ s.dispatching.head?, cb = .close ∨ cb = .read ∧ r.value = 0))
  | .loop (.runFunctor _) => inferInstanceAs (Decidable
      (s.conn.pending.head? = some .forceCloseInLoop ∧
        (s.conn.state = .kConnected ∨ s.conn.state = .kDisconnecting)))
  | .loop (.poll _) | .loop .handleEvent | .loop (.send _ _ _) | .loop .shutdown
  | .loop .forceClose | .loop .connectDestroyed | .destroyTested | .thread _ _
  | .queueConnectDestroyed | .write _ => .isFalse id

variable {s s' : Life}

theorem ofLoop_of_closes {e : LifeEvent} (h : s.Closes e) : e.ofLoop := by
  cases e with
  | loop e =>
    cases e with
    | callback | runFunctor => rfl
    | poll | handleEvent | send | shutdown | forceClose | connectDestroyed => exact h.elim
  | destroyTested | thread | queueConnectDestroyed | write => exact h.elim

theorem closings_of_quiet {c c' : TcpConnection} (h : Quiet c c') :
    c'.reports.count .close = c.reports.count .close := by rw [h.reports]

theorem count_close_shutdown (c : TcpConnection) :
    c.shutdown.reports.count .close = c.reports.count .close := by
  rw [TcpConnection.shutdown]
  split_ifs
  · exact closings_of_quiet (c := c.setState .kDisconnecting) quiet_shutdownInLoop
  · rfl

theorem count_close_forceClose (c : TcpConnection) :
    c.forceClose.reports.count .close = c.reports.count .close := by
  rw [TcpConnection.forceClose]
  split_ifs
  · exact closings_of_quiet (c := c.setState .kDisconnecting) (quiet_queueInLoop _)
  · rfl

theorem count_close_destroyTested (c : TcpConnection) (connected : Bool) :
    (c.destroyTested connected).reports.count .close = c.reports.count .close := by
  cases connected <;> simp [TcpConnection.destroyTested, reports, setChannel, setState, did,
    Action.report?]

theorem count_close_handleRead (c : TcpConnection) {n : ReadResult} (hn : n.value ≠ 0) :
    (c.handleRead n).reports.count .close = c.reports.count .close := by
  simp only [handleRead]
  split_ifs <;> simp [reports, did, Action.report?]

theorem closings_of_step {e : LifeEvent} (hstep : s.step e = some s') (h : ¬ s.Closes e) :
    s'.closings = s.closings := by
  cases steps_of_step hstep with
  | @callback r w cb rest _ hdispatching =>
    simp only [Closes, hdispatching, List.head?_cons, Option.mem_some_iff, exists_eq_left',
      not_or, not_and] at h
    cases cb with
    | close => exact (h.1 rfl).elim
    | error => rfl
    | read => exact count_close_handleRead s.conn (h.2 rfl)
    | write => exact closings_of_quiet (quiet_handleWrite w)
  | destroyFunctor => rfl
  | @runFunctor n f rest _ hpending =>
    refine closings_of_quiet ((quiet_pending rest).trans ?_)
    cases f with
    | sendInLoop call data len => exact quiet_sendInLoop call _ data len n
    | shutdownInLoop => exact quiet_shutdownInLoop
    | forceCloseInLoop =>
      have hstate : ¬ (s.conn.state = .kConnected ∨ s.conn.state = .kDisconnecting) := by
        simpa [Closes, hpending] using h
      rw [TcpConnection.call, forceCloseInLoop, if_neg hstate]
      exact .refl _
    | connectDestroyed => contradiction
    | writeCompleteCallback | highWaterMarkCallback => exact quiet_did rfl
  | send | sendQueue => exact closings_of_quiet (quiet_send ..)
  | shutdown => exact count_close_shutdown s.conn
  | forceClose => exact count_close_forceClose s.conn
  | destroyTested => exact count_close_destroyTested s.conn _
  | shutdownQueue | forceCloseQueue | queueConnectDestroyed =>
    exact closings_of_quiet (quiet_queueInLoop _)
  | poll | handleEvent | sendIgnored | connectDestroyed | sendTest | shutdownTest | shutdownStore
  | forceCloseTest | forceCloseStore | testFailed | write => rfl

theorem closings_le_of_step {e : LifeEvent} (hstep : s.step e = some s') :
    s.closings ≤ s'.closings := by
  have hle (new : List Callback) (hreports : s'.conn.reports = new ++ s.conn.reports) :
      s.closings ≤ s'.closings := by
    simp only [closings, hreports, List.count_append]
    omega
  cases step_change hstep with
  | quiet h => exact hle [] h.reports
  | message h hs hr => exact hle [.message] hr
  | disconnecting h hs hr => exact hle [] hr
  | closed h hs hr | destroyed h hs hr => exact hle _ hr

/-- A running `connectDestroyed` goes on until its last step. -/
theorem destroying_of_step {e : LifeEvent} (hstep : s.step e = some s')
    (hd : s.destroying ≠ none) (he : e ≠ .destroyTested) : s'.destroying ≠ none := by
  cases steps_of_step hstep with
  | destroyTested => exact (he rfl).elim
  | poll hn | handleEvent hn | callback hn | destroyFunctor hn | runFunctor hn | send hn
  | sendIgnored hn | shutdown hn | forceClose hn | connectDestroyed hn => exact (hd hn).elim
  | sendTest | sendQueue | shutdownTest | shutdownStore | shutdownQueue | forceCloseTest
  | forceCloseStore | forceCloseQueue | testFailed | queueConnectDestroyed | write => exact hd

/-- Only the owner queues `connectDestroyed`. -/
theorem mem_pending_of_step {e : LifeEvent} (hstep : s.step e = some s') (he : e.byOwner = false)
    (h : .connectDestroyed ∈ s'.conn.pending) : .connectDestroyed ∈ s.conn.pending := by
  cases steps_of_step hstep with
  | callback => exact (queues_eventCallback ..).mem_pending h
  | destroyFunctor hd hpending => simp [hpending]
  | runFunctor hd hpending hf =>
    rw [hpending]
    exact List.mem_cons_of_mem _ ((queues_call hf _ _).mem_pending h)
  | send | sendQueue => exact (queues_send ..).mem_pending h
  | shutdown => exact queues_shutdown.mem_pending h
  | forceClose => exact queues_forceClose.mem_pending h
  | shutdownQueue | forceCloseQueue => exact (queues_queueInLoop (by simp)).mem_pending h
  | connectDestroyed | queueConnectDestroyed => cases he
  | @destroyTested connected =>
    cases connected <;> exact h
  | poll | handleEvent | sendIgnored | sendTest | shutdownTest | shutdownStore | forceCloseTest
  | forceCloseStore | testFailed | write => exact h

/-- A `connectDestroyed` that is not queued starts only when the owner starts it. -/
theorem destroying_none_of_step {e : LifeEvent} (hstep : s.step e = some s')
    (he : e.byOwner = false) (hpending : .connectDestroyed ∉ s.conn.pending)
    (hd : s.destroying = none) : s'.destroying = none := by
  cases steps_of_step hstep with
  | destroyFunctor _ h => simp [h] at hpending
  | connectDestroyed => cases he
  | destroyTested => rfl
  | poll | handleEvent | callback | runFunctor | send | sendIgnored | shutdown | forceClose
  | sendTest | sendQueue | shutdownTest | shutdownStore | shutdownQueue | forceCloseTest
  | forceCloseStore | forceCloseQueue | testFailed | queueConnectDestroyed | write => exact hd

theorem destroying_of_connectDestroyed (hstep : s.step (.loop .connectDestroyed) = some s') :
    s'.destroying ≠ none := by
  simp only [step] at hstep
  split_ifs at hstep
  cases Option.some.inj hstep
  simp

end Life

end Mymuduo.Net
