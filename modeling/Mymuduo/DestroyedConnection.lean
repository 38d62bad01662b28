import Mymuduo.ConnectionEnd
import Mymuduo.ConnectionQueue

namespace Mymuduo.Net

open Execution

namespace TcpConnection

/-- The poller does not know the channel. -/
structure Out (c : TcpConnection) : Prop where
  channels : c.poller.channels c.channel.fd = none
  epoll : c.poller.epoll c.channel.fd = none
  index : c.channel.index = .kNew

variable {c : TcpConnection}

theorem out_remove (h : Known c.poller c.channel) :
    (c.setChannel (c.channel.remove c.poller)).Out where
  channels := EpollPoller.removeChannel_channels c.poller c.channel
  epoll := h.removeChannel.1.epoll_none (by simp [EpollPoller.removeChannel])
  index := rfl

theorem Out.known (h : c.Out) : Known c.poller c.channel where
  epoll := by simp [h.index, h.epoll]
  channels := by simp [h.index, h.channels]

theorem Out.frame {c' : TcpConnection} (h : c.Out) (hpoller : c'.poller = c.poller)
    (hchannel : c'.channel = c.channel) : c'.Out := by
  constructor
  · rw [hpoller, hchannel]
    exact h.channels
  · rw [hpoller, hchannel]
    exact h.epoll
  · rw [hchannel]
    exact h.index

theorem out_destroyTested (h : Known c.poller c.channel) (connected : Bool) :
    (c.destroyTested connected).Out := by
  cases connected with
  | false => exact out_remove h
  | true =>
    exact out_remove (c := (((c.setState .kDisconnected).setChannel
      (c.channel.disableAll c.poller)).did (.called (.connection false))))
        ((quiet_channelOp .disableAll).known h)

theorem state_destroyTested (connected : Bool) :
    (c.destroyTested connected).state = if connected then .kDisconnected else c.state := by
  cases connected <;> rfl

/-- `handleClose` registers the channel of a connection that was out. -/
theorem not_out_handleClose (h : c.Out) : ¬ c.handleClose.Out := by
  intro hout
  have hindex : c.handleClose.channel.index = .kAdded := by
    simp only [handleClose]
    split_ifs <;> simp [setState, setChannel, did, Channel.disableAll, EpollPoller.updateChannel,
      h.index]
  rw [hout.index] at hindex
  cases hindex

end TcpConnection

def LifeEvent.isCall : LifeEvent → Bool
  | loop (.poll _) | loop .handleEvent | loop (.callback _ _) => false
  | _ => true

namespace Life

open TcpConnection

/-- Some calls bring the channel back to the poller. -/
def ComesBack (s : Life) : Prop :=
  ∃ es t, (∀ e ∈ es, e.isCall = true) ∧ run step s es = some t ∧ ¬ t.conn.Out

theorem ComesBack.cons {s s' : Life} {e : LifeEvent} (h : s'.ComesBack) (he : e.isCall = true)
    (hstep : s.step e = some s') : s.ComesBack := by
  obtain ⟨es, t, hes, hrun, hout⟩ := h
  refine ⟨e :: es, t, ?_, run_cons_eq_some.mpr ⟨s', hstep, hrun⟩, hout⟩
  exact List.forall_mem_cons.mpr ⟨he, hes⟩

theorem step_runFunctor {s : Life} {f : Functor} {rest : List Functor} (hd : s.destroying = none)
    (hpending : s.conn.pending = f :: rest) :
    s.step (.loop (.runFunctor (.wrote 0))) = some (s.runFunctor f rest (.wrote 0)) := by
  have hpossible : Threads.Possible f (.wrote 0) := by
    cases f with
    | sendInLoop call data len => exact Nat.zero_le len
    | _ => trivial
  simp only [step, hd, loopStep, hpending, if_true, if_pos hpossible]

theorem comesBack_of_head {rest : List Functor} {s : Life} (hstate : s.conn.state = .kDisconnecting)
    (hd : s.destroying = none) (hpending : s.conn.pending = .forceCloseInLoop :: rest) :
    s.ComesBack := by
  by_cases hout : s.conn.Out
  · have hback : (s.runFunctor .forceCloseInLoop rest (.wrote 0)).ComesBack := by
      refine ⟨[], _, by simp, rfl, ?_⟩
      simp only [runFunctor, setConn, TcpConnection.call, forceCloseInLoop, hstate, or_true,
        if_true]
      exact not_out_handleClose (hout.frame rfl rfl)
    exact hback.cons rfl (step_runFunctor hd hpending)
  · exact ⟨[], s, by simp, rfl, hout⟩

/-- The functor queue can be run up to a `forceCloseInLoop`. -/
theorem comesBack_of_pending {before after : List Functor} {s : Life}
    (hstate : s.conn.state = .kDisconnecting) (hd : s.destroying = none)
    (hpending : s.conn.pending = before ++ .forceCloseInLoop :: after) : s.ComesBack := by
  induction before generalizing s after with
  | nil => exact comesBack_of_head hstate hd hpending
  | cons f before ih =>
    by_cases hf : f = .forceCloseInLoop
    · subst hf
      exact comesBack_of_head hstate hd hpending
    suffices hback : (s.runFunctor f (before ++ .forceCloseInLoop :: after) (.wrote 0)).ComesBack
      from hback.cons rfl (step_runFunctor hd hpending)
    cases f with
    | forceCloseInLoop => exact (hf rfl).elim
    | sendInLoop call data len =>
      have hquiet := quiet_sendInLoop (c := { s.conn with
        pending := before ++ .forceCloseInLoop :: after }) call s.mem data len (.wrote 0)
      obtain ⟨queued, hqueued, -⟩ := queues_sendInLoop (c := { s.conn with
        pending := before ++ .forceCloseInLoop :: after }) call s.mem data len (.wrote 0)
      rw [List.append_assoc, List.cons_append] at hqueued
      exact ih (hquiet.state.trans hstate) hd hqueued
    | shutdownInLoop =>
      have hpending (c : TcpConnection) : c.shutdownInLoop.pending = c.pending := by
        simp only [TcpConnection.shutdownInLoop]
        split_ifs <;> rfl
      exact ih (quiet_shutdownInLoop.state.trans hstate) hd (hpending _)
    | connectDestroyed =>
      have hback : Life.ComesBack { s with conn := TcpConnection.destroyTested { s.conn with
          pending := before ++ .forceCloseInLoop :: after } false } := ih hstate hd rfl
      exact hback.cons (e := .destroyTested) rfl (by simp [step, runFunctor, hstate, hd])
    | writeCompleteCallback | highWaterMarkCallback => exact ih hstate hd rfl

/-- The `connectDestroyed` that has made its test is the last to touch the poller:
it leaves `kDisconnected`, and no thread is about to store `kDisconnecting`. -/
structure DestroysForGood (s : Life) : Prop where
  disconnected : s.destroying = some true ∨ s.conn.state = .kDisconnected
  idle : ∀ t, s.caller t ≠ .shutdownTested ∧ s.caller t ≠ .forceCloseTested

structure DestroyedInv (s : Life) : Prop where
  out : s.conn.Out
  state : s.conn.state = .kDisconnected
  destroying : s.destroying ≠ some true
  idle : ∀ t, s.caller t ≠ .shutdownTested ∧ s.caller t ≠ .forceCloseTested

variable {s s' : Life}

theorem DestroyedInv.calm (h : s.DestroyedInv) (hpoller : s'.conn.poller = s.conn.poller)
    (hchannel : s'.conn.channel = s.conn.channel) (hstate : s'.conn.state = s.conn.state)
    (hdestroying : s'.destroying ≠ some true)
    (hcaller : ∀ t, s'.caller t = s.caller t ∨ s'.caller t = .idle) : s'.DestroyedInv where
  out := h.out.frame hpoller hchannel
  state := hstate.trans h.state
  destroying := hdestroying
  idle t := by
    rcases hcaller t with ht | ht
    · rw [ht]
      exact h.idle t
    · simp [ht]

theorem caller_setCaller_idle (s : Life) (t u : ℕ) :
    (s.setCaller t .idle).caller u = s.caller u ∨ (s.setCaller t .idle).caller u = .idle := by
  by_cases hut : u = t
  · subst hut
    exact .inr (Function.update_self ..)
  · exact .inl (Function.update_of_ne hut ..)

theorem step_destroyedInv {e : LifeEvent} (h : s.DestroyedInv) (he : e.isCall = true)
    (hstep : s.step e = some s') : s'.DestroyedInv := by
  have hstate := h.state
  have hsame (t : ℕ) : s.caller t = s.caller t ∨ s.caller t = .idle := .inl rfl
  cases steps_of_step hstep with
  | poll | handleEvent | callback => cases he
  | destroyFunctor | connectDestroyed => exact h.calm rfl rfl rfl (by simp [hstate]) hsame
  | @runFunctor n f rest hd hpending hf =>
    cases f with
    | connectDestroyed => exact (hf rfl).elim
    | sendInLoop call data len =>
      simp only [setConn, TcpConnection.call, sendInLoop, did, hstate, if_true]
      exact h.calm rfl rfl hstate.symm h.destroying hsame
    | shutdownInLoop =>
      simp only [setConn, TcpConnection.call, shutdownInLoop]
      split_ifs <;> exact h.calm rfl rfl rfl h.destroying hsame
    | forceCloseInLoop =>
      simp only [setConn, TcpConnection.call, forceCloseInLoop, hstate, reduceCtorEq, or_self,
        if_false]
      exact h.calm rfl rfl hstate.symm h.destroying hsame
    | writeCompleteCallback | highWaterMarkCallback =>
      exact h.calm rfl rfl rfl h.destroying hsame
  | shutdown =>
    simp only [setConn, TcpConnection.shutdown, hstate, reduceCtorEq, if_false]
    exact h
  | forceClose =>
    simp only [setConn, TcpConnection.forceClose, hstate, reduceCtorEq, or_self, if_false]
    exact h
  | @destroyTested connected hd =>
    cases connected with
    | true => exact (h.destroying hd).elim
    | false => exact ⟨out_destroyTested h.out.known false, hstate, by simp, h.idle⟩
  | send hd hc | sendTest hc | shutdownTest hc => simp [hstate] at hc
  | forceCloseTest hc => simp [hstate] at hc
  | @sendQueue t call arg =>
    cases arg <;> exact h.calm rfl rfl rfl h.destroying (caller_setCaller_idle s t)
  | @shutdownStore t ht => exact ((h.idle t).1 ht).elim
  | @forceCloseStore t ht => exact ((h.idle t).2 ht).elim
  | @shutdownQueue t | @forceCloseQueue t =>
    exact h.calm rfl rfl rfl h.destroying (caller_setCaller_idle s t)
  | sendIgnored | testFailed => exact h
  | queueConnectDestroyed | write => exact h.calm rfl rfl rfl h.destroying hsame

theorem comesBack_of_state (hstate : s.conn.state ≠ .kDisconnected)
    (hestablished : s.conn.state ≠ .kConnecting) (hd : s.destroying = none) : s.ComesBack := by
  have hopen : s.conn.state = .kConnected ∨ s.conn.state = .kDisconnecting := by
    cases hs : s.conn.state with
    | kDisconnected => exact (hstate hs).elim
    | kConnecting => exact (hestablished hs).elim
    | kConnected => exact .inl rfl
    | kDisconnecting => exact .inr rfl
  have hback : (s.setConn s.conn.forceClose).ComesBack := by
    rw [TcpConnection.forceClose, if_pos hopen]
    have hpending : s.conn.pending ++ [.forceCloseInLoop] =
        s.conn.pending ++ .forceCloseInLoop :: [] := rfl
    exact comesBack_of_pending rfl hd hpending
  exact hback.cons (e := .loop .forceClose) rfl (by simp [step, loopStep, hd])

theorem comesBack_of_caller (hd : s.destroying = none) {t : ℕ}
    (ht : s.caller t = .shutdownTested ∨ s.caller t = .forceCloseTested) : s.ComesBack := by
  rcases ht with ht | ht
  · have hback : ((s.setConn (s.conn.setState .kDisconnecting)).setCaller t
        .shutdownStored).ComesBack := comesBack_of_state (by simp [setCaller, setConn, setState])
      (by simp [setCaller, setConn, setState]) hd
    exact hback.cons (e := .thread t .shutdownStore) rfl (by simp [step, threadStep, ht])
  · have hback : ((s.setConn (s.conn.setState .kDisconnecting)).setCaller t
        .forceCloseStored).ComesBack := comesBack_of_state (by simp [setCaller, setConn, setState])
      (by simp [setCaller, setConn, setState]) hd
    exact hback.cons (e := .thread t .forceCloseStore) rfl (by simp [step, threadStep, ht])

/-- The poller's records of the channel agree, and the connection is established. -/
structure Registered (c : TcpConnection) : Prop where
  known : Known c.poller c.channel
  established : c.state ≠ .kConnecting

theorem Registered.change {c c' : TcpConnection} (h : Registered c) (hchange : Change c c') :
    Registered c' := by
  refine ⟨hchange.kept.known h.known, ?_⟩
  cases hchange with
  | quiet hq =>
    rw [hq.state]
    exact h.established
  | message hk hs =>
    rw [hs]
    exact h.established
  | disconnecting hk hs | closed hk hs | destroyed hk hs => simp [hs]

theorem registered_connectEstablished {fd ptr : ℕ} {poller : EpollPoller} {callbacks : Callbacks}
    (hpoller : Known poller (.new fd ptr)) :
    Registered (new fd ptr poller callbacks).connectEstablished :=
  ⟨(quiet_channelOp (c := new fd ptr poller callbacks) .enableReading).known hpoller,
    by simp [connectEstablished, setState, setChannel, did]⟩

/-- After a `connectDestroyed` the channel stays out of the poller through all calls
and functors if and only if that `connectDestroyed` is the last word. -/
theorem staysOut_iff {fd ptr : ℕ} {poller : EpollPoller} {callbacks : Callbacks} {mem : Mem}
    (hpoller : Known poller (.new fd ptr)) (es : List LifeEvent) (s s₁ : Life)
    (hrun : run step (start (new fd ptr poller callbacks).connectEstablished mem) es = some s)
    (hdestroy : s.step .destroyTested = some s₁) :
    (∀ (es' : List LifeEvent) (t : Life), (∀ e ∈ es', e.isCall = true) →
      run step s₁ es' = some t → t.conn.Out) ↔ s.DestroysForGood := by
  have hregistered : Registered s.conn :=
    run_preserves (I := fun s ↦ Registered s.conn) (fun _ _ _ h hs ↦ h.change (step_change hs))
      (registered_connectEstablished hpoller) hrun
  obtain ⟨connected, hd, rfl⟩ := Option.map_eq_some_iff.mp hdestroy
  have hafter := hregistered.change (change_destroyTested connected)
  have hstate : (s.conn.destroyTested connected).state = .kDisconnected ↔
      s.destroying = some true ∨ s.conn.state = .kDisconnected := by
    rw [state_destroyTested, hd]
    cases connected <;> simp
  constructor
  · intro hout
    have hstays : ¬ Life.ComesBack { s with
        conn := s.conn.destroyTested connected, destroying := none } := by
      intro hback
      obtain ⟨es', t, hes', ht, hin⟩ := hback
      exact hin (hout es' t hes' ht)
    constructor
    · rw [← hstate]
      by_contra hs
      exact hstays (comesBack_of_state hs hafter.established rfl)
    · intro t
      refine ⟨fun ht ↦ hstays ?_, fun ht ↦ hstays ?_⟩
      · exact comesBack_of_caller rfl (.inl ht)
      · exact comesBack_of_caller rfl (.inr ht)
  · intro hsafe es' t hes' ht
    have hinv : DestroyedInv { s with
        conn := s.conn.destroyTested connected, destroying := none } :=
      ⟨out_destroyTested hregistered.known connected, hstate.mpr hsafe.disconnected, by simp,
        hsafe.idle⟩
    exact (run_invariant_of_mem (fun _ _ _ h he hs ↦ step_destroyedInv h he hs) hinv hes' ht).out

theorem staysOut_iff_connected :
    ∃ s s₁, run step established [.loop .connectDestroyed] = some s ∧
      s.step .destroyTested = some s₁ ∧ ∀ (es : List LifeEvent) (t : Life),
        (∀ e ∈ es, e.isCall = true) → run step s₁ es = some t → t.conn.Out := by
  have hpoller : Known .empty (.new 5 9) :=
    ⟨by simp [Channel.new, EpollPoller.empty], by simp [Channel.new, EpollPoller.empty]⟩
  refine ⟨_, _, rfl, rfl,
    (staysOut_iff hpoller [.loop .connectDestroyed] _ _ rfl rfl).mpr ⟨.inl rfl, fun t ↦ ?_⟩⟩
  simp [start]

/-- The server destroys a connection that the user has half closed, and then the
user closes it. -/
theorem not_staysOut :
    ¬ ∀ (es es' : List LifeEvent) (s s₁ t : Life), run step established es = some s →
      s.step .destroyTested = some s₁ → (∀ e ∈ es', e.isCall = true) →
        run step s₁ es' = some t → t.conn.Out := by
  intro h
  have hout := h [.loop .shutdown, .loop .connectDestroyed]
    [.loop .forceClose, .loop (.runFunctor (.wrote 0))] _ _ _ rfl rfl (by decide) rfl
  exact absurd hout.index (by decide)

end Life

end Mymuduo.Net
