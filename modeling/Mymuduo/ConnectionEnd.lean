import Mymuduo.ConnectionReports

namespace Mymuduo.Net

open Execution

namespace TcpConnection

structure DownReported (c : TcpConnection) : Prop where
  state : c.state = .kDisconnected
  reported : .connection false ∈ c.reports

/-- A disconnected connection has been reported down. -/
structure Reporting (c : TcpConnection) : Prop where
  connection : c.callbacks.connection = true
  established : c.state ≠ .kConnecting
  down : c.state = .kDisconnected → .connection false ∈ c.reports

variable {c c' : TcpConnection}

theorem Reporting.change (h : c.Reporting) (hchange : Change c c') : c'.Reporting := by
  have hconnection : c'.callbacks.connection = true := by rw [hchange.kept.callbacks, h.connection]
  cases hchange with
  | quiet hq =>
    refine ⟨hconnection, ?_, ?_⟩
    · rw [hq.state]
      exact h.established
    · rw [hq.state, hq.reports]
      exact h.down
  | message hk hs hr =>
    refine ⟨hconnection, ?_, ?_⟩
    · rw [hs]
      exact h.established
    · rw [hs, hr]
      exact fun hd ↦ List.mem_cons_of_mem _ (h.down hd)
  | disconnecting hk hs hr => exact ⟨hconnection, by simp [hs], by simp [hs]⟩
  | closed hk hs hr =>
    refine ⟨hconnection, by simp [hs], fun _ ↦ ?_⟩
    simp [hr, endReports, h.connection]
  | destroyed hk hs hr => exact ⟨hconnection, by simp [hs], fun _ ↦ by simp [hr, endReports]⟩

theorem Reporting.connectDestroyed (h : c.Reporting) :
    c.connectDestroyed.DownReported ↔ c.state ≠ .kDisconnecting := by
  have hafter : c.connectDestroyed.Reporting := by
    rw [connectDestroyed_eq]
    exact h.change (change_destroyTested _)
  have hstate : c.connectDestroyed.state =
      if c.state = .kConnected then .kDisconnected else c.state := by
    simp only [TcpConnection.connectDestroyed]
    split_ifs <;> rfl
  constructor
  · intro hdown hs
    have hd := hdown.state
    rw [hstate, hs] at hd
    cases hd
  · intro hs
    have hd : c.connectDestroyed.state = .kDisconnected := by
      rw [hstate]
      cases hc : c.state with
      | kDisconnected | kConnected => rfl
      | kConnecting => exact (h.established hc).elim
      | kDisconnecting => exact (hs hc).elim
    exact ⟨hd, hafter.down hd⟩

end TcpConnection

namespace Life

open TcpConnection

/-- Up to any point in the life of a connection, a `connectDestroyed` that is
executed there leaves it disconnected and reported down if and only if it does
not find it in `kDisconnecting`. -/
theorem downReported_iff {fd ptr : ℕ} {poller : EpollPoller} {callbacks : Callbacks} {mem : Mem}
    (hcallback : callbacks.connection = true) (es : List LifeEvent) (s : Life)
    (hrun : run step (start (new fd ptr poller callbacks).connectEstablished mem) es = some s) :
    s.conn.connectDestroyed.DownReported ↔ s.conn.state ≠ .kDisconnecting := by
  have hstart : (new fd ptr poller callbacks).connectEstablished.Reporting :=
    ⟨hcallback, by simp [connectEstablished, setState, setChannel, did],
      by simp [connectEstablished, setState, setChannel, did]⟩
  have hend : s.conn.Reporting :=
    run_preserves (I := fun s ↦ s.conn.Reporting) (fun _ _ _ h hs ↦ h.change (step_change hs))
      hstart hrun
  exact hend.connectDestroyed

def allCallbacks : Callbacks := ⟨true, true, true, true⟩

def established : Life :=
  start (new 5 9 .empty allCallbacks).connectEstablished .numbered

def oneRead : List LifeEvent :=
  [.loop (.poll Channel.EPOLLIN), .loop .handleEvent, .loop (.callback (.read [1]) (.wrote 0))]

theorem downReported_iff_read :
    ∃ s, run step established oneRead = some s ∧ s.conn.connectDestroyed.DownReported := by
  have hrun : (run step established oneRead).map
      (fun s ↦ decide (s.conn.state ≠ .kDisconnecting)) = some true := by decide +kernel
  obtain ⟨s, hs, hstate⟩ := Option.map_eq_some_iff.mp hrun
  exact ⟨s, hs, (downReported_iff rfl oneRead s hs).mpr (of_decide_eq_true hstate)⟩

/-- The user half closes, then the server destroys the connection. -/
theorem not_downReported :
    ¬ ∀ (es : List LifeEvent) (s : Life), run step established es = some s →
      s.conn.connectDestroyed.DownReported := by
  intro h
  have hdown := (h [.loop .shutdown] _ rfl).state
  cases hdown

end Life

namespace TcpConnection

/-- The close callback is called once at most, and after the down call nothing
but it. -/
structure Final (c : TcpConnection) : Prop where
  closeOnce : c.reports.count .close ≤ 1
  afterDown : ∀ later earlier, c.reports = later ++ .connection false :: earlier →
    ∀ cb ∈ later, cb = .close

def NoEnd (reports : List Callback) : Prop := .close ∉ reports ∧ .connection false ∉ reports

/-- The reports of a connection that is open, or of one that has been closed once. -/
structure ClosedOnce (c : TcpConnection) : Prop where
  opened : c.state ≠ .kDisconnected → NoEnd c.reports
  closed : c.state = .kDisconnected → ∃ close down opened, NoEnd opened ∧
    c.reports = endReports close down ++ opened

variable {c c' : TcpConnection}

theorem ClosedOnce.final (h : c.ClosedOnce) : c.Final := by
  obtain ⟨close, down, opened, ⟨hclose, hdown⟩, heq⟩ : ∃ close down opened, NoEnd opened ∧
      c.reports = endReports close down ++ opened := by
    by_cases hd : c.state = .kDisconnected
    · exact h.closed hd
    · exact ⟨false, false, c.reports, h.opened hd, rfl⟩
  constructor
  · rw [heq, List.count_append, List.count_eq_zero_of_not_mem hclose]
    cases close <;> cases down <;> decide
  · intro later earlier hlater
    rw [heq] at hlater
    cases down with
    | false =>
      have hmem : .connection false ∈ endReports close false ++ opened := by simp [hlater]
      cases close <;> simp [endReports, hdown] at hmem
    | true =>
      have hbefore : .connection false ∉ (if close then [.close] else [] : List Callback) := by
        cases close <;> simp
      simp only [endReports, ↓reduceIte, List.append_assoc, List.cons_append,
        List.nil_append] at hlater
      obtain ⟨rfl, -, -⟩ := (List.append_cons_inj_of_notMem hbefore hdown).mp hlater
      cases close <;> simp

theorem ClosedOnce.quiet (h : c.ClosedOnce) (hquiet : Quiet c c') : c'.ClosedOnce := by
  obtain ⟨hk, hs, hr⟩ := hquiet
  constructor
  · rw [hs, hr]
    exact h.opened
  · rw [hs, hr]
    exact h.closed

theorem ClosedOnce.change (h : c.ClosedOnce) (hopen : c.state ≠ .kDisconnected)
    (hchange : Change c c') : c'.ClosedOnce := by
  have hnoEnd := h.opened hopen
  cases hchange with
  | quiet hq => exact h.quiet hq
  | message hk hs hr =>
    refine ⟨fun _ ↦ ?_, fun hd ↦ (hopen (hs.symm.trans hd)).elim⟩
    rw [hr]
    simpa [NoEnd] using hnoEnd
  | disconnecting hk hs hr =>
    refine ⟨fun _ ↦ ?_, by simp [hs]⟩
    rw [hr]
    exact hnoEnd
  | closed hk hs hr | destroyed hk hs hr =>
    exact ⟨fun hd ↦ (hd hs).elim, fun _ ↦ ⟨_, _, _, hnoEnd, hr⟩⟩

end TcpConnection

namespace Life

open TcpConnection

/-- A step that would end a disconnected connection once more: a store of
`kDisconnecting` by another thread, a close callback, or a read callback that
finds bytes or the end of the stream. -/
def EndsOnce (s : Life) : LifeEvent → Prop
  | .thread _ .shutdownStore | .thread _ .forceCloseStore => s.conn.state ≠ .kDisconnected
  | .loop (.callback r _) => s.conn.state = .kDisconnected →
      ∀ cb ∈ s.dispatching.head?, cb ≠ .close ∧ (cb = .read → r.value < 0)
  | _ => True

instance (s : Life) : DecidablePred s.EndsOnce
  | .thread _ .shutdownStore | .thread _ .forceCloseStore =>
    inferInstanceAs (Decidable (s.conn.state ≠ .kDisconnected))
  | .loop (.callback r _) => inferInstanceAs (Decidable (s.conn.state = .kDisconnected →
      ∀ cb ∈ s.dispatching.head?, cb ≠ .close ∧ (cb = .read → r.value < 0)))
  | .loop (.poll _) | .loop .handleEvent | .loop (.runFunctor _) | .loop (.send _ _ _)
  | .loop .shutdown | .loop .forceClose | .loop .connectDestroyed | .destroyTested
  | .thread _ (.sendTest _ _) | .thread _ .sendQueue | .thread _ .shutdownTest
  | .thread _ .shutdownQueue | .thread _ .forceCloseTest | .thread _ .forceCloseQueue
  | .queueConnectDestroyed | .write _ => .isTrue trivial

structure EndInv (s : Life) : Prop where
  conn : s.conn.ClosedOnce
  destroying : s.destroying = some true → s.conn.state ≠ .kDisconnected

variable {s s' : Life}

theorem step_quiet {e : LifeEvent} (hd : s.conn.state = .kDisconnected)
    (hdestroying : s.destroying ≠ some true) (hguard : s.EndsOnce e)
    (hstep : s.step e = some s') : Quiet s.conn s'.conn := by
  cases steps_of_step hstep with
  | @callback r w cb rest _ hdispatching =>
    obtain ⟨hclose, hread⟩ := hguard hd cb (by simp [hdispatching])
    cases cb with
    | close => exact (hclose rfl).elim
    | error => exact .refl _
    | read => exact quiet_handleRead (hread rfl)
    | write => exact quiet_handleWrite w
  | destroyFunctor => exact quiet_pending _
  | @runFunctor n f rest =>
    refine (quiet_pending rest).trans ?_
    cases f with
    | sendInLoop call data len => exact quiet_sendInLoop call _ data len n
    | shutdownInLoop => exact quiet_shutdownInLoop
    | forceCloseInLoop =>
      rw [TcpConnection.call, forceCloseInLoop, if_neg (by simp [hd])]
      exact .refl _
    | connectDestroyed => contradiction
    | writeCompleteCallback | highWaterMarkCallback => exact quiet_did rfl
  | send | sendQueue => exact quiet_send ..
  | shutdown =>
    rw [setConn, TcpConnection.shutdown, if_neg (by simp [hd])]
    exact .refl _
  | forceClose =>
    rw [setConn, TcpConnection.forceClose, if_neg (by simp [hd])]
    exact .refl _
  | @destroyTested connected hs =>
    cases connected with
    | false => exact quiet_destroyTested
    | true => exact (hdestroying hs).elim
  | shutdownStore | forceCloseStore => exact (hguard hd).elim
  | shutdownQueue | forceCloseQueue | queueConnectDestroyed => exact quiet_queueInLoop _
  | poll | handleEvent | sendIgnored | connectDestroyed | sendTest | shutdownTest | forceCloseTest
  | testFailed | write => exact .refl _

theorem step_destroying {e : LifeEvent}
    (h : s.destroying = some true → s.conn.state ≠ .kDisconnected) (hstep : s.step e = some s')
    (hs : s'.destroying = some true) : s'.conn.state ≠ .kDisconnected := by
  cases steps_of_step hstep with
  | destroyFunctor | connectDestroyed =>
    simp only [Option.some.injEq, decide_eq_true_eq] at hs
    simp [hs]
  | destroyTested => cases hs
  | poll hd | handleEvent hd | callback hd | runFunctor hd | send hd | sendIgnored hd | shutdown hd
  | forceClose hd => simp [setConn, hd] at hs
  | @sendQueue t call arg =>
    have hstate := (quiet_send (c := s.conn) false call s.mem (.wrote 0) arg).state
    simp only [setCaller, setConn, hstate]
    exact h hs
  | shutdownStore | forceCloseStore => simp [setCaller, setConn, setState]
  | sendTest | shutdownTest | shutdownQueue | forceCloseTest | forceCloseQueue | testFailed
  | queueConnectDestroyed | write => exact h hs

theorem step_endInv {e : LifeEvent} (h : s.EndInv) (hguard : s.EndsOnce e)
    (hstep : s.step e = some s') : s'.EndInv := by
  refine ⟨?_, step_destroying h.destroying hstep⟩
  by_cases hd : s.conn.state = .kDisconnected
  · exact h.conn.quiet (step_quiet hd (fun hs ↦ h.destroying hs hd) hguard hstep)
  · exact h.conn.change hd (step_change hstep)

/-- In every run in which no step ends the connection once more, `kDisconnected`
is final, the close callback is called once at most, and nothing is reported
after the down call. -/
theorem final_of_endsOnce {fd ptr : ℕ} {poller : EpollPoller} {callbacks : Callbacks} {mem : Mem}
    (es₁ es₂ : List LifeEvent) (s t : Life)
    (hs : run step (start (new fd ptr poller callbacks).connectEstablished mem) es₁ = some s)
    (ht : run step s es₂ = some t)
    (hguard : Along step EndsOnce (start (new fd ptr poller callbacks).connectEstablished mem)
      (es₁ ++ es₂)) :
    (s.conn.state = .kDisconnected → t.conn.state = .kDisconnected) ∧ t.conn.Final := by
  have hstart : (start (new fd ptr poller callbacks).connectEstablished mem).EndInv := by
    refine ⟨⟨fun _ ↦ ?_, by simp [start, connectEstablished, setState, setChannel, did]⟩, ?_⟩
    · simp [NoEnd, reports, start, new, connectEstablished, setState, setChannel, did,
        Action.report?]
    · intro hd
      cases hd
  have hinv (s : Life) (e : LifeEvent) (s' : Life) (h : s.EndInv) (hg : s.EndsOnce e)
      (hs : s.step e = some s') : s'.EndInv := step_endInv h hg hs
  obtain ⟨hg₁, hg₂⟩ := hguard.of_append hs
  have hmid := run_invariant hinv hstart hg₁ hs
  refine ⟨fun hd ↦ ?_, (run_invariant hinv hmid hg₂ ht).conn.final⟩
  refine (run_invariant (I := fun s ↦ s.EndInv ∧ s.conn.state = .kDisconnected) ?_ ⟨hmid, hd⟩ hg₂
    ht).2
  intro s e s' hs hg hstep
  refine ⟨step_endInv hs.1 hg hstep, ?_⟩
  rw [(step_quiet hs.2 (fun h ↦ hs.1.destroying h hs.2) hg hstep).state]
  exact hs.2

def Reports (c c' : TcpConnection) : Prop :=
  ∃ new, c'.reports = new ++ c.reports ∧ ∃ cb ∈ new, cb ≠ .close

theorem reports_of_handleClose {c : TcpConnection} (h : c.callbacks.connection = true) :
    Reports c c.handleClose := by
  refine ⟨_, reports_handleClose c, .connection false, ?_, by simp⟩
  simp [endReports, h]

theorem reports_of_handleRead {c : TcpConnection} (h : c.callbacks.connection = true)
    {n : ReadResult} (hn : 0 ≤ n.value) : Reports c (c.handleRead n) := by
  simp only [handleRead]
  split_ifs
  · exact ⟨[.message], List.filterMap_cons_some rfl, .message, by simp, by simp⟩
  · exact reports_of_handleClose (c := { c with inputBuffer := c.inputBuffer.readFd n }) h
  · omega

theorem not_final_of_reports {c c' : TcpConnection} (h : .connection false ∈ c.reports)
    (hreports : Reports c c') : ¬ c'.Final := by
  intro hfinal
  obtain ⟨new, hnew, cb, hmem, hcb⟩ := hreports
  obtain ⟨later, earlier, heq⟩ := List.append_of_mem h
  refine hcb (hfinal.afterDown (new ++ later) earlier ?_ cb (List.mem_append_left _ hmem))
  rw [hnew, heq, List.append_assoc]

/-- Each step that the condition excludes ends the connection once more. -/
theorem endsTwice_of_not_endsOnce {e : LifeEvent} (h : s.conn.Reporting)
    (hd : s.conn.state = .kDisconnected) (hguard : ¬ s.EndsOnce e) (hstep : s.step e = some s') :
    s'.conn.state ≠ .kDisconnected ∨ ¬ s'.conn.Final := by
  have hdown := h.down hd
  cases steps_of_step hstep with
  | shutdownStore | forceCloseStore => exact .inl (by simp [setCaller, setConn, setState])
  | @callback r w cb rest _ hdispatching =>
    simp only [EndsOnce, hdispatching, List.head?_cons, Option.mem_some_iff, forall_eq',
      Classical.not_imp, not_and_or, not_not, Int.not_lt] at hguard
    right
    rcases hguard.2 with rfl | ⟨rfl, hr⟩
    · exact not_final_of_reports hdown (reports_of_handleClose h.connection)
    · exact not_final_of_reports hdown (reports_of_handleRead h.connection hr)
  | testFailed _ he =>
    cases ‹ThreadStep› with
    | shutdownStore | forceCloseStore => cases he
    | _ => exact (hguard trivial).elim
  | _ => exact (hguard trivial).elim

def peerCloses : List LifeEvent :=
  [.loop (.poll Channel.EPOLLIN), .loop .handleEvent, .loop (.callback (.read []) (.wrote 0))]

def afterPeerCloses : List LifeEvent :=
  [.thread 1 .forceCloseTest, .queueConnectDestroyed, .loop (.runFunctor (.wrote 0)),
    .destroyTested]

theorem final_of_endsOnce_peerCloses :
    ∃ s t, run step established peerCloses = some s ∧ run step s afterPeerCloses = some t ∧
      (s.conn.state = .kDisconnected → t.conn.state = .kDisconnected) ∧ t.conn.Final := by
  obtain ⟨s, hs⟩ := Option.isSome_iff_exists.mp
    (show (run step established peerCloses).isSome by decide +kernel)
  have hrun : (run step established (peerCloses ++ afterPeerCloses)).isSome := by decide +kernel
  obtain ⟨t, ht⟩ := Option.isSome_iff_exists.mp hrun
  rw [run_append, hs] at ht
  exact ⟨s, t, hs, ht, final_of_endsOnce peerCloses afterPeerCloses s t hs ht (by decide +kernel)⟩

/-- A thread is between the test and the store of `shutdown` when the peer closes. -/
theorem not_final :
    ¬ ∀ (es₁ es₂ : List LifeEvent) (s t : Life), run step established es₁ = some s →
      run step s es₂ = some t →
        (s.conn.state = .kDisconnected → t.conn.state = .kDisconnected) ∧ t.conn.Final := by
  intro h
  have hrun : (run step established (.thread 1 .shutdownTest :: peerCloses)).map
      (fun s ↦ (decide (s.conn.state = .kDisconnected),
        (run step s [.thread 1 .shutdownStore]).map fun t ↦ t.conn.state)) =
          some (true, some .kDisconnecting) := by decide +kernel
  obtain ⟨s, hs, heq⟩ := Option.map_eq_some_iff.mp hrun
  simp only [Prod.mk.injEq, decide_eq_true_eq] at heq
  obtain ⟨t, ht, hstate⟩ := Option.map_eq_some_iff.mp heq.2
  have hfinal := (h _ _ s t hs ht).1 heq.1
  rw [hstate] at hfinal
  cases hfinal

end Life

end Mymuduo.Net
