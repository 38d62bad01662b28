import Mymuduo.ServerCleanup

namespace Mymuduo.Net

open Execution

namespace Life

/-- The owner has the connection destroyed only after it has been told of its close. -/
def ClosedFirst (s : Life) (e : LifeEvent) : Prop :=
  e.byOwner = true → e = .loop .connectDestroyed ∧ 0 < s.closings

def ofServer (callbacks : Callbacks) (sockfd i : ℕ) : TcpConnection :=
  .new sockfd i .empty { callbacks with close := true }

variable {s s' : Life} {e : LifeEvent} {callbacks : Callbacks} {sockfd i : ℕ} {mem : Mem}

/-- Until `connectEstablished` nothing but the memory changes. -/
theorem ofServer_of_step (he : e.byServer = false)
    (h : (start (ofServer callbacks sockfd i) mem).step e = some s') :
    ∃ mem', s' = start (ofServer callbacks sockfd i) mem' := by
  cases steps_of_step h with
  | poll _ hpoll => cases hpoll.2.2
  | handleEvent _ hready => cases hready
  | callback _ hdispatching => cases hdispatching
  | destroyFunctor _ hpending | runFunctor _ hpending => cases hpending
  | send _ hstate | sendTest hstate | shutdownTest hstate => cases hstate
  | forceCloseTest hstate => rcases hstate with hstate | hstate <;> cases hstate
  | sendQueue hcaller | shutdownStore hcaller | shutdownQueue hcaller | forceCloseStore hcaller
  | forceCloseQueue hcaller => cases hcaller
  | connectDestroyed | queueConnectDestroyed | destroyTested => cases he
  | @write mem' => exact ⟨mem', rfl⟩
  | shutdown | forceClose | sendIgnored | testFailed => exact ⟨mem, rfl⟩

end Life

/-- What the user and the owner of a connection are told, the latest first: the connection
comes up once and before all else, and the owner hears of a close right after the user. -/
inductive Told : List Callback → Prop
  | up : Told [.connection true]
  | message {reports : List Callback} (h : Told reports) : Told (.message :: reports)
  | down {reports : List Callback} (h : Told reports) : Told (.connection false :: reports)
  | close {reports : List Callback} (h : Told (.connection false :: reports)) :
      Told (.close :: .connection false :: reports)

namespace Told

open TcpConnection

variable {reports : List Callback} {c c' : TcpConnection}

theorem count_up (h : Told reports) : reports.count (.connection true) = 1 := by
  induction h with
  | up => rfl
  | message h ih | down h ih | close h ih => exact (List.count_cons_of_ne (by simp)).trans ih

theorem down_of_close (h : Told reports) (hclose : .close ∈ reports) :
    .connection false ∈ reports := by
  induction h with
  | up => simp at hclose
  | message h ih => exact List.mem_cons_of_mem _ (ih (by simpa using hclose))
  | down h ih => exact List.mem_cons_self
  | close h ih => simp

theorem change (h : Told c.reports) (hcallback : c.callbacks.connection = true)
    (hchange : Change c c') : Told c'.reports := by
  cases hchange with
  | quiet hq =>
    rw [hq.reports]
    exact h
  | message hk hs hr =>
    rw [hr]
    exact h.message
  | disconnecting hk hs hr =>
    rw [hr]
    exact h
  | closed hk hs hr =>
    rw [hr, hcallback]
    cases c.callbacks.close
    · exact h.down
    · exact h.down.close
  | destroyed hk hs hr =>
    rw [hr]
    exact h.down

end Told

theorem Life.told_of_run {c : TcpConnection} {mem : Mem} {es : List LifeEvent} {s : Life}
    (hnew : c.reports = []) (hcallback : c.callbacks.connection = true)
    (hrun : run step (start c.connectEstablished mem) es = some s) : Told s.conn.reports := by
  have hstart : Told c.connectEstablished.reports := by
    have hup : c.connectEstablished.reports = .connection true :: c.reports :=
      List.filterMap_cons_some rfl
    rw [hup, hnew]
    exact .up
  have hend : s.conn.callbacks.connection = true ∧ Told s.conn.reports := by
    refine run_preserves (I := fun s ↦ s.conn.callbacks.connection = true ∧ Told s.conn.reports)
      (fun s e s' h hs ↦ ?_) ⟨hcallback, hstart⟩ hrun
    have hchange := Life.step_change hs
    exact ⟨by rw [hchange.kept.callbacks, h.1], h.2.change h.1 hchange⟩
  exact hend.2

namespace ServerLoops

/-- The life of a connection of a server, as one of a connection on its own. -/
structure Alone (callbacks : Callbacks) (i : ℕ) (c : ServerConnection) : Prop where
  fresh : c.established = 0 → ∃ sockfd mem, c.life = .start (Life.ofServer callbacks sockfd i) mem
  alone : 0 < c.established → ∃ sockfd mem es,
    run Life.step (.start (Life.ofServer callbacks sockfd i).connectEstablished mem) es =
      some c.life ∧
    Along Life.step Life.ClosedFirst
      (.start (Life.ofServer callbacks sockfd i).connectEstablished mem) es

variable {callbacks : Callbacks} {i l : ℕ} {c : ServerConnection} {f : ServerFunctor}
  {s s' : ServerLoops}

theorem Alone.step (h : Alone callbacks i c) {e : LifeEvent} {life : Life}
    (hborn : c.established = 0 → e.byServer = false) (hown : c.life.ClosedFirst e)
    (hlife : c.life.step e = some life) : Alone callbacks i { c with life := life } where
  fresh hz := by
    obtain ⟨sockfd, mem, hfresh⟩ := h.fresh hz
    rw [hfresh] at hlife
    exact ⟨sockfd, Life.ofServer_of_step (hborn hz) hlife⟩
  alone hpos := by
    obtain ⟨sockfd, mem, es, hrun, hes⟩ := h.alone hpos
    refine ⟨sockfd, mem, es ++ [e], ?_, hes.append fun t ht ↦ ?_⟩
    · rw [run_append, hrun, Option.bind_some]
      exact run_cons_eq_some.mpr ⟨life, hlife, rfl⟩
    · cases hrun.symm.trans ht
      exact along_cons.mpr ⟨hown, fun _ _ ↦ trivial⟩

theorem Alone.establish (h : Alone callbacks i c) (hz : c.established = 0) :
    Alone callbacks i { c with
      life := c.life.setConn c.life.conn.connectEstablished
      established := c.established + 1 } where
  fresh hpos := by cases hpos
  alone _ := by
    obtain ⟨sockfd, mem, hfresh⟩ := h.fresh hz
    exact ⟨sockfd, mem, [], by rw [hfresh]; rfl, trivial⟩

def Closed (conns : ℕ → Option ServerConnection) (i : ℕ) : Prop :=
  ∃ c, conns i = some c ∧ 0 < c.life.closings

/-- Only what has run `handleClose` is on its way to `removeConnectionInLoop`. -/
structure Leaving (conns : ℕ → Option ServerConnection) (pending : ℕ → List ServerFunctor)
    (task : ℕ → ServerTask) : Prop where
  queued : ∀ l i, .removeConnectionInLoop i ∈ pending l → Closed conns i
  running : ∀ l i, task l = .handleClose i ∨ task l = .removeConnectionInLoop i → Closed conns i
  removed : ∀ i c, conns i = some c → c.removed = true → 0 < c.life.closings

section Leaving

variable {J : ℕ → Prop} {conns conns' : ℕ → Option ServerConnection}
  {pending : ℕ → List ServerFunctor} {task : ℕ → ServerTask} {d : ServerConnection}

theorem Keeps.closed (h : Keeps J conns conns') (hi : Closed conns i) : Closed conns' i := by
  obtain ⟨c, hc, hpos⟩ := hi
  obtain ⟨d, hd, hages⟩ := h.kept i c hc
  exact ⟨d, hd, hpos.trans_le hages.closings⟩

theorem Leaving.keeps (h : Leaving conns pending task) (hk : Keeps J conns conns')
    (hr : ∀ i c, conns' i = some c → c.removed = true → 0 < c.life.closings) :
    Leaving conns' pending task :=
  ⟨fun l i hi ↦ hk.closed (h.queued l i hi), fun l i hi ↦ hk.closed (h.running l i hi), hr⟩

theorem Leaving.update (h : Leaving conns pending task) (hc : conns i = some c) (ha : Ages c d)
    (hr : d.removed = true → c.removed = true ∨ 0 < d.life.closings) :
    Leaving (Function.update conns i (some d)) pending task := by
  refine h.keeps (keeps_update (J := fun _ ↦ True) hc ha (.inl trivial)) fun j e he hj ↦ ?_
  rcases update_eq_some he with ⟨rfl, rfl⟩ | ⟨-, he⟩
  · rcases hr hj with hj | hpos
    · exact (h.removed _ c hc hj).trans_le ha.closings
    · exact hpos
  · exact h.removed j e he hj

theorem Leaving.accept (h : Leaving conns pending task) (hfresh : conns i = none)
    (hzero : c.life.closings = 0) (hremoved : c.removed = false) :
    Leaving (Function.update conns i (some c)) pending task := by
  refine h.keeps (keeps_accept (J := fun _ ↦ True) hfresh hzero) fun j e he hj ↦ ?_
  rcases update_eq_some he with ⟨-, rfl⟩ | ⟨-, he⟩
  · cases hremoved.symm.trans hj
  · exact h.removed j e he hj

theorem Leaving.setTask (h : Leaving conns pending task) {t : ServerTask}
    (ht : ∀ i, t = .handleClose i ∨ t = .removeConnectionInLoop i → Closed conns i) :
    Leaving conns pending (Function.update task l t) := by
  refine ⟨h.queued, fun k i hi ↦ ?_, h.removed⟩
  by_cases hk : k = l
  · subst hk
    rw [Function.update_self] at hi
    exact ht i hi
  · rw [Function.update_of_ne hk] at hi
    exact h.running k i hi

theorem Leaving.requeue (h : Leaving conns pending task) {q : List ServerFunctor}
    (hq : ∀ i, .removeConnectionInLoop i ∈ q → .removeConnectionInLoop i ∈ pending l ∨
      Closed conns i) : Leaving conns (Function.update pending l q) task := by
  refine ⟨fun k i hi ↦ ?_, h.running, h.removed⟩
  by_cases hk : k = l
  · subst hk
    rw [Function.update_self] at hi
    exact (hq i hi).elim (h.queued k i) id
  · rw [Function.update_of_ne hk] at hi
    exact h.queued k i hi

theorem Leaving.call (h : Leaving s.conns s.pending s.task)
    (hf : ∀ i, f = .removeConnectionInLoop i → Closed s.conns i) (hcall : s.call l f = some s') :
    Leaving s'.conns s'.pending s'.task := by
  cases f with
  | connectEstablished i =>
    obtain ⟨c, hc, hcall⟩ := Option.bind_eq_some_iff.mp hcall
    cases Option.some.inj hcall
    exact h.update hc ⟨Nat.le_succ _, (closings_connectEstablished c.life).ge, id⟩ .inl
  | removeConnectionInLoop i =>
    cases Option.some.inj hcall
    refine h.setTask fun j hj ↦ hf j ?_
    rcases hj with hj | hj <;> cases hj
    rfl
  | connectDestroyed i =>
    obtain ⟨c, hc, hcall⟩ := Option.bind_eq_some_iff.mp hcall
    obtain ⟨life, hlife, hcall⟩ := Option.bind_eq_some_iff.mp hcall
    cases Option.some.inj hcall
    have hages : Ages c { c with life := life } := ⟨le_rfl, Life.closings_le_of_step hlife, id⟩
    refine (h.update hc hages .inl).setTask fun j hj ↦ ?_
    rcases hj with hj | hj <;> cases hj

theorem Leaving.runInLoop {caller : ℕ} (h : Leaving s.conns s.pending s.task)
    (hf : ∀ i, f = .removeConnectionInLoop i → Closed s.conns i)
    (hrun : s.runInLoop caller l f = some s') : Leaving s'.conns s'.pending s'.task := by
  rw [ServerLoops.runInLoop] at hrun
  split_ifs at hrun
  · exact h.call hf hrun
  · cases Option.some.inj hrun
    refine h.requeue fun i hi ↦ ?_
    rcases List.mem_append.mp hi with hi | hi
    · exact .inl hi
    · exact .inr (hf i (List.mem_singleton.mp hi).symm)

end Leaving

structure AloneInv (callbacks : Callbacks) (s : ServerLoops) : Prop extends ServerInv s where
  given : s.server.callbacks = callbacks
  alone : ∀ i c, s.conns i = some c → Alone callbacks i c
  leaving : Leaving s.conns s.pending s.task

theorem alone_update {conns : ℕ → Option ServerConnection} {c' : ServerConnection}
    (h : ∀ i c, conns i = some c → Alone callbacks i c) (ha : Alone callbacks i c') :
    ∀ j d, Function.update conns i (some c') j = some d → Alone callbacks j d := by
  intro j d hj
  rcases update_eq_some hj with ⟨rfl, rfl⟩ | ⟨-, hj⟩
  · exact ha
  · exact h j d hj

theorem Alone.call (h : ∀ i c, s.conns i = some c → Alone callbacks i c)
    (hborn : ∀ i c, f = .connectEstablished i → s.conns i = some c → c.established = 0)
    (hdone : ∀ i c, f = .connectDestroyed i → s.conns i = some c →
      c.established ≠ 0 ∧ 0 < c.life.closings) (hcall : s.call l f = some s') :
    ∀ i c, s'.conns i = some c → Alone callbacks i c := by
  cases f with
  | connectEstablished i =>
    obtain ⟨c, hc, hcall⟩ := Option.bind_eq_some_iff.mp hcall
    cases Option.some.inj hcall
    exact alone_update h ((h i c hc).establish (hborn i c rfl hc))
  | removeConnectionInLoop i =>
    cases Option.some.inj hcall
    exact h
  | connectDestroyed i =>
    obtain ⟨c, hc, hcall⟩ := Option.bind_eq_some_iff.mp hcall
    obtain ⟨life, hlife, hcall⟩ := Option.bind_eq_some_iff.mp hcall
    cases Option.some.inj hcall
    obtain ⟨hne, hpos⟩ := hdone i c rfl hc
    exact alone_update h ((h i c hc).step (fun hz ↦ (hne hz).elim) (fun _ ↦ ⟨rfl, hpos⟩) hlife)

theorem Alone.runInLoop {caller : ℕ} (h : ∀ i c, s.conns i = some c → Alone callbacks i c)
    (hborn : ∀ i c, f = .connectEstablished i → s.conns i = some c → c.established = 0)
    (hdone : ∀ i, f ≠ .connectDestroyed i) (hrun : s.runInLoop caller l f = some s') :
    ∀ i c, s'.conns i = some c → Alone callbacks i c := by
  rw [ServerLoops.runInLoop] at hrun
  split_ifs at hrun
  · exact Alone.call h hborn (fun i _ hf ↦ (hdone i hf).elim) hrun
  · cases Option.some.inj hrun
    exact h

theorem AloneInv.newConnection (h : AloneInv callbacks s) {sockfd : ℕ} {mem : Mem}
    (hnew : s.newConnection sockfd mem = some s') (hinv : ServerInv s') :
    AloneInv callbacks s' := by
  have hfresh : s.conns s.server.nextConnId_ = none := by
    have hnone := (h.registered.accepted s.server.nextConnId_).not.mpr (by omega)
    simpa using hnone
  rw [ServerLoops.newConnection] at hnew
  generalize s.server.threadPool_.getNextLoop = next at hnew
  obtain ⟨l, pool⟩ := next
  dsimp only at hnew
  refine ⟨hinv, ?_, Alone.runInLoop (alone_update h.alone ⟨fun _ ↦ ?_, ?_⟩) ?_ ?_ hnew,
    Leaving.runInLoop (h.leaving.accept hfresh (Life.unborn_start ..).closings rfl) ?_ hnew⟩
  · rw [server_runInLoop hnew]
    exact h.given
  · exact ⟨sockfd, mem, by rw [h.given]; rfl⟩
  · intro hpos
    cases hpos
  · intro i c hf hc
    cases hf
    obtain ⟨-, rfl⟩ | ⟨hne, -⟩ := update_eq_some hc
    · rfl
    · exact (hne rfl).elim
  · intro i hf
    cases hf
  · intro i hf
    cases hf

theorem step_aloneInv {e : ServerEvent} (h : AloneInv callbacks s)
    (hbound : s'.server.nextConnId_ ≤ 2147483648) (hstep : s.step e = some s') :
    AloneInv callbacks s' := by
  have hinv := step_serverInv h.toServerInv hbound hstep
  have huser {e : LifeEvent} {life : Life} (he : e.byServer = false) : life.ClosedFirst e := by
    intro hown
    cases (LifeEvent.byOwner_of_byServer he).symm.trans hown
  cases steps_of_step hstep with
  | newConnection _ hnew => exact h.newConnection hnew hinv
  | @connection i e c life he hc _ hlife =>
    have hages : Ages c { c with life := life } := ⟨le_rfl, Life.closings_le_of_step hlife, id⟩
    exact ⟨hinv, h.given,
      alone_update h.alone ((h.alone i c hc).step (fun _ ↦ he) (huser he) hlife),
      h.leaving.update hc hages .inl⟩
  | @handleClose i e c life he hc _ hlife hclosed =>
    have hages : Ages c { c with life := life } := ⟨le_rfl, hclosed.le, id⟩
    refine ⟨hinv, h.given,
      alone_update h.alone ((h.alone i c hc).step (fun _ ↦ he) (huser he) hlife),
      (h.leaving.update hc hages .inl).setTask fun j hj ↦ ?_⟩
    rcases hj with hj | hj <;> cases hj
    exact ⟨_, Function.update_self .., by dsimp only; omega⟩
  | @removeConnection l i _ htask hrun =>
    have hclosed : Closed s.conns i := h.leaving.running l i (.inl htask)
    have hidle : Leaving s.conns s.pending (Function.update s.task l .idle) :=
      h.leaving.setTask fun j hj ↦ (by rcases hj with hj | hj <;> cases hj)
    refine ⟨hinv, ?_, Alone.runInLoop (s := s.setTask l .idle) h.alone ?_ ?_ hrun,
      Leaving.runInLoop (s := s.setTask l .idle) hidle ?_ hrun⟩
    · rw [server_runInLoop hrun]
      exact h.given
    · intro j c hf
      cases hf
    · intro j hf
      cases hf
    · intro j hf
      cases hf
      exact hclosed
  | @erase i c htask hc =>
    have hclosed : 0 < c.life.closings := by
      obtain ⟨d, hd, hpos⟩ := h.leaving.running 0 i (.inr htask)
      cases hc.symm.trans hd
      exact hpos
    have halone := h.alone i c hc
    have hages : Ages c { c with removed := true } := ⟨le_rfl, le_rfl, id⟩
    refine ⟨hinv, h.given, alone_update h.alone ⟨halone.fresh, halone.alone⟩,
      (h.leaving.update hc hages fun _ ↦ .inr hclosed).setTask fun j hj ↦ ?_⟩
    rcases hj with hj | hj <;> cases hj
  | @queueDestroyed i c htask hc =>
    refine ⟨hinv, h.given, h.alone, (h.leaving.setTask fun j hj ↦ ?_).requeue fun j hj ↦ .inl ?_⟩
    · rcases hj with hj | hj <;> cases hj
    · exact (List.mem_append.mp hj).resolve_right (by simp)
  | @runFunctor l f rest _ _ hp hcall =>
    have hmem : f ∈ s.pending l := by simp [hp]
    refine ⟨hinv, ?_, Alone.call (s := { s with pending := Function.update s.pending l rest })
      h.alone (fun i c hf hc ↦ ?_) (fun i c hf hc ↦ ?_) hcall,
      Leaving.call (s := { s with pending := Function.update s.pending l rest })
        (h.leaving.requeue fun i hi ↦ .inl ?_) (fun i hf ↦ ?_) hcall⟩
    · rw [server_call hcall]
      exact h.given
    · subst hf
      have hloop : c.ioLoop = l := h.placed.fits hmem hc
      have honce := (h.tracked i c hc).once
      rw [hloop, hp, List.count_cons_self] at honce
      omega
    · subst hf
      have hfits := h.placed.fits hmem hc
      exact ⟨((h.tracked i c hc).established_pos hfits.2).ne', h.leaving.removed i c hc hfits.2⟩
    · rw [hp]
      exact List.mem_cons_of_mem _ hi
    · subst hf
      exact h.leaving.queued l i hmem
  | @destroyTested l i c life htask hc hlife =>
    have hfits := h.running.fits htask rfl hc
    have hpos := (h.tracked i c hc).established_pos hfits.2
    have halone : Alone callbacks i { c with life := life } :=
      (h.alone i c hc).step (fun hz ↦ (hpos.ne' hz).elim) (fun hown ↦ (by cases hown)) hlife
    have hages : Ages c { c with life := life, destroyed := true } :=
      ⟨le_rfl, Life.closings_le_of_step hlife, fun _ ↦ rfl⟩
    refine ⟨hinv, h.given, alone_update h.alone ⟨halone.fresh, halone.alone⟩,
      (h.leaving.update hc hages .inl).setTask fun j hj ↦ ?_⟩
    rcases hj with hj | hj <;> cases hj

theorem aloneInv_start (name : List Char) (listenAddr : InetAddress) (callbacks : Callbacks)
    (numThreads : ℕ) : AloneInv callbacks (start name listenAddr callbacks numThreads) where
  toServerInv := serverInv_start ..
  given := rfl
  alone _ _ hc := by cases hc
  leaving := ⟨fun _ _ hf ↦ (by cases hf), fun _ _ ht ↦ (by rcases ht with ht | ht <;> cases ht),
    fun _ _ hc ↦ (by cases hc)⟩

section Server

variable {name : List Char} {listenAddr : InetAddress} {numThreads : ℕ}

theorem aloneInv_of_run {es : List ServerEvent}
    (hrun : run step (start name listenAddr callbacks numThreads) es = some s)
    (hfew : es.countP ServerEvent.isNewConnection < 2147483648) : AloneInv callbacks s :=
  inv_of_run (aloneInv_start ..) (fun _ _ _ ↦ step_aloneInv) hrun hfew

/-- In every run of a server each connection has lived as one on its own that is destroyed
only after it has closed. -/
theorem alone_of_run (es : List ServerEvent) (s : ServerLoops)
    (hrun : run step (start name listenAddr callbacks numThreads) es = some s)
    (hfew : es.countP ServerEvent.isNewConnection < 2147483648) (i : ℕ) (c : ServerConnection)
    (hc : s.conns i = some c) : Alone callbacks i c :=
  (aloneInv_of_run hrun hfew).alone i c hc

theorem alone_of_run_closedByPeer : ∃ s c,
    run step (start ['s'] ⟨(0, 0, 0, 0), 80⟩ ⟨true, true, true, false⟩ 1) closedByPeer =
      some s ∧ s.conns 1 = some c ∧ 0 < c.established ∧ Alone ⟨true, true, true, false⟩ 1 c := by
  have hrun : (run step (start ['s'] ⟨(0, 0, 0, 0), 80⟩ ⟨true, true, true, false⟩ 1)
      closedByPeer).map (fun s ↦ (s.conns 1).any fun c ↦ decide (0 < c.established)) =
        some true := by decide +kernel
  obtain ⟨s, hs, hconn⟩ := Option.map_eq_some_iff.mp hrun
  obtain ⟨c, hc, hpos⟩ := (Option.any_eq_true ..).mp hconn
  exact ⟨s, c, hs, hc, of_decide_eq_true hpos, alone_of_run _ s hs (by decide) 1 c hc⟩

/-- What has been told of a connection of a server. -/
structure Reported (c : ServerConnection) : Prop where
  silent : c.established = 0 → c.life.conn.reports = []
  told : 0 < c.established → Told c.life.conn.reports
  down : c.removed = true ∨ c.destroyed = true →
    .connection false ∈ c.life.conn.reports ∧ .close ∈ c.life.conn.reports

theorem AloneInv.reported (h : AloneInv callbacks s) (hcallback : callbacks.connection = true)
    (hc : s.conns i = some c) : Reported c := by
  have halone := h.alone i c hc
  have htold (hpos : 0 < c.established) : Told c.life.conn.reports := by
    obtain ⟨sockfd, mem, es, hrun, -⟩ := halone.alone hpos
    exact Life.told_of_run rfl hcallback hrun
  refine ⟨fun hz ↦ ?_, htold, fun hdone ↦ ?_⟩
  · obtain ⟨sockfd, mem, hfresh⟩ := halone.fresh hz
    rw [hfresh]
    rfl
  · have hremoved : c.removed = true := hdone.elim id (h.tracked i c hc).destroyed
    have hclose : .close ∈ c.life.conn.reports :=
      List.count_pos_iff.mp (h.leaving.removed i c hc hremoved)
    exact ⟨(htold ((h.tracked i c hc).established_pos hremoved)).down_of_close hclose, hclose⟩

/-- In every run of a server the user is told of each connection that it is up, first of all
and once, and that it is down before the server gives it up. -/
theorem reported_of_run (hcallback : callbacks.connection = true) (es : List ServerEvent)
    (s : ServerLoops) (hrun : run step (start name listenAddr callbacks numThreads) es = some s)
    (hfew : es.countP ServerEvent.isNewConnection < 2147483648) (i : ℕ) (c : ServerConnection)
    (hc : s.conns i = some c) : Reported c :=
  (aloneInv_of_run hrun hfew).reported hcallback hc

theorem reported_of_run_closedByPeer : ∃ s c,
    run step (start ['s'] ⟨(0, 0, 0, 0), 80⟩ ⟨true, true, true, false⟩ 1) closedByPeer =
      some s ∧ s.conns 1 = some c ∧ c.destroyed = true ∧ Reported c := by
  have hrun : (run step (start ['s'] ⟨(0, 0, 0, 0), 80⟩ ⟨true, true, true, false⟩ 1)
      closedByPeer).map (fun s ↦ (s.conns 1).any fun c ↦ decide (c.destroyed = true)) =
        some true := by decide +kernel
  obtain ⟨s, hs, hconn⟩ := Option.map_eq_some_iff.mp hrun
  obtain ⟨c, hc, hdestroyed⟩ := (Option.any_eq_true ..).mp hconn
  exact ⟨s, c, hs, hc, of_decide_eq_true hdestroyed,
    reported_of_run rfl _ s hs (by decide) 1 c hc⟩

end Server

end ServerLoops

end Mymuduo.Net
