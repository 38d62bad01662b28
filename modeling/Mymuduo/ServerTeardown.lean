import Mymuduo.Lib.Execution
import Mymuduo.ServerQueues

namespace Mymuduo.Net

open Execution

namespace ServerLoops

structure ServerInv (s : ServerLoops) : Prop where
  registered : Registered s.server s.conns
  tracked : ∀ i c, s.conns i = some c → Tracked s.pending s.task i c
  placed : Placed s.conns s.pending
  running : Running s.conns s.task

variable {s s' : ServerLoops}

theorem ServerInv.setConn (h : ServerInv s) {i : ℕ} {c c' : ServerConnection}
    (hc : s.conns i = some c) (hl : Later c c') (hremoved : c'.removed = c.removed)
    (ht : Tracked s.pending s.task i c') : ServerInv (s.setConn i c') where
  registered := h.registered.update hc hl.name hremoved
  tracked j d hd := by
    rcases update_eq_some hd with ⟨rfl, rfl⟩ | ⟨-, hd⟩
    · exact ht
    · exact h.tracked j d hd
  placed := h.placed.later fun _ _ ↦ later_update hc hl
  running := h.running.later fun _ _ ↦ later_update hc hl

theorem ServerInv.startTask (h : ServerInv s) {l : ℕ} {t : ServerTask} (hidle : s.task l = .idle)
    (ht : ∀ i, t.conn = some i → ∃ c, s.conns i = some c ∧ t.Fits l c) :
    ServerInv (s.setTask l t) where
  registered := h.registered
  tracked i c hc := (h.tracked i c hc).setTask (by simp [hidle]) (by simp [hidle])
  placed := h.placed
  running := h.running.setTask ht

theorem ServerInv.endTask (h : ServerInv s) {l : ℕ}
    (herased : ∀ i c, s.conns i = some c → s.task l = .erased i →
      .connectDestroyed i ∈ s.pending c.ioLoop)
    (hdestroyed : ∀ i c, s.conns i = some c → s.task l = .connectDestroyed i →
      c.life.destroying = none ∧ c.destroyed = true) : ServerInv (s.setTask l .idle) where
  registered := h.registered
  tracked i c hc := (h.tracked i c hc).setTask (herased i c hc) (hdestroyed i c hc)
  placed := h.placed
  running := h.running.setTask fun _ hi ↦ (by cases hi)

theorem ServerInv.push (h : ServerInv s) {l : ℕ} {f : ServerFunctor} {q : List ServerFunctor}
    (hq : q.Perm (f :: s.pending l)) (hf : ∃ c, s.conns f.conn = some c ∧ f.Fits l c)
    (hnew : ∀ i, f ≠ .connectEstablished i) :
    ServerInv { s with pending := Function.update s.pending l q } where
  registered := h.registered
  tracked i c hc := (h.tracked i c hc).push hq (hnew i)
  placed := h.placed.push hq hf
  running := h.running

theorem ServerInv.pop (h : ServerInv s) {l : ℕ} {f : ServerFunctor} {rest : List ServerFunctor}
    (hp : s.pending l = f :: rest) (hnew : ∀ i, f ≠ .connectEstablished i)
    (hd : ∀ i, f = .connectDestroyed i → s.task l = .connectDestroyed i) :
    ServerInv { s with pending := Function.update s.pending l rest } where
  registered := h.registered
  tracked i c hc := (h.tracked i c hc).pop hp (hnew i) (hd i)
  placed := h.placed.pop hp
  running := h.running

/-- The one run of `connectEstablished`. -/
theorem ServerInv.establish (h : ServerInv s) {l i : ℕ} {rest : List ServerFunctor}
    {c : ServerConnection} (hp : s.pending l = .connectEstablished i :: rest)
    (hc : s.conns i = some c) :
    ServerInv ({ s with pending := Function.update s.pending l rest }.setConn i
      { c with
        life := c.life.setConn c.life.conn.connectEstablished
        established := c.established + 1 }) := by
  have hlater : Later c { c with
      life := c.life.setConn c.life.conn.connectEstablished
      established := c.established + 1 } :=
    ⟨rfl, rfl, Nat.le_succ _, id⟩
  have hl : c.ioLoop = l := h.placed.fits (f := .connectEstablished i) (by simp [hp]) hc
  have ht := h.tracked i c hc
  have hzero : c.established = 0 := by
    have honce := ht.once
    rw [hl, hp, List.count_cons_self] at honce
    omega
  obtain ⟨hunborn, hremoved⟩ := ht.unborn hzero
  constructor
  case registered => exact h.registered.update hc rfl rfl
  case tracked =>
    intro j d hd
    rcases update_eq_some hd with ⟨rfl, rfl⟩ | ⟨hj, hd⟩
    · constructor
      case once =>
        have honce := ht.once
        rw [hl, hp, List.count_cons_self] at honce
        simp only [ServerLoops.setConn, hl, Function.update_self]
        omega
      case unborn =>
        intro hz
        cases hz
      case unqueued => exact ht.unqueued
      case destroying =>
        intro hd
        exact (hd hunborn.destroying).elim
      case owed =>
        intro hr
        simp [hremoved] at hr
      case destroyed => exact ht.destroyed
    · refine (h.tracked j d hd).pop hp ?_ fun hf ↦ (by cases hf)
      intro hf
      cases hf
      exact hj rfl
  case placed => exact (h.placed.pop hp).later fun _ _ ↦ later_update hc hlater
  case running => exact h.running.later fun _ _ ↦ later_update hc hlater

/-- A loop takes the first functor off its queue and calls it. -/
theorem ServerInv.call (h : ServerInv s) {l : ℕ} {f : ServerFunctor} {rest : List ServerFunctor}
    (hidle : s.task l = .idle) (hp : s.pending l = f :: rest)
    (hstep : { s with pending := Function.update s.pending l rest }.call l f = some s') :
    ServerInv s' := by
  obtain ⟨d, hd, hfits⟩ := h.placed l f (by simp [hp])
  cases f with
  | connectEstablished i =>
    obtain ⟨c, hc, hstep⟩ := Option.bind_eq_some_iff.mp hstep
    cases Option.some.inj hstep
    exact h.establish hp hc
  | removeConnectionInLoop i =>
    cases Option.some.inj hstep
    refine (h.pop hp (fun _ hf ↦ (by cases hf)) fun _ hf ↦ (by cases hf)).startTask hidle ?_
    intro j hj
    cases Option.some.inj hj
    exact ⟨d, hd, hfits⟩
  | connectDestroyed i =>
    obtain ⟨c, hc, hstep⟩ := Option.bind_eq_some_iff.mp hstep
    obtain ⟨life, hlife, hstep⟩ := Option.bind_eq_some_iff.mp hstep
    cases Option.some.inj hstep
    cases hd.symm.trans hc
    have htask : ServerInv (s.setTask l (.connectDestroyed i)) := by
      refine h.startTask hidle fun j hj ↦ ?_
      cases Option.some.inj hj
      exact ⟨d, hd, hfits⟩
    have hpop := htask.pop (f := .connectDestroyed i) hp (fun _ hf ↦ (by cases hf)) fun j hj ↦ by
      cases hj
      exact Function.update_self ..
    refine hpop.setConn hd ⟨rfl, rfl, Nat.le_refl _, id⟩ rfl ?_
    have ht := hpop.tracked i d hd
    simp only [Life.step] at hlife
    split_ifs at hlife
    cases Option.some.inj hlife
    refine ht.setLife (fun hz ↦ ?_) ht.unqueued fun _ ↦ ?_
    · have hpos := ht.established_pos hfits.2
      omega
    · rw [hfits.1]
      exact Function.update_self ..

/-- `runInLoop` calls the functor as if it stood at the head of the queue. -/
theorem ServerInv.runInLoop {caller l : ℕ} {f : ServerFunctor}
    (h : ∀ q, q.Perm (f :: s.pending l) →
      ServerInv { s with pending := Function.update s.pending l q })
    (hidle : s.task caller = .idle) (hstep : s.runInLoop caller l f = some s') :
    ServerInv s' := by
  rw [ServerLoops.runInLoop] at hstep
  split_ifs at hstep with hl
  · subst hl
    refine (h _ (.refl _)).call hidle (Function.update_self ..) ?_
    simpa using hstep
  · cases Option.some.inj hstep
    exact h _ (List.perm_append_singleton ..)

theorem ServerInv.setLife (h : ServerInv s) {i : ℕ} {e : LifeEvent} {c : ServerConnection}
    {life : Life} (he : e.byServer = false) (hc : s.conns i = some c)
    (hlife : c.life.step e = some life) : ServerInv (s.setConn i { c with life := life }) := by
  have howner : e.byOwner = false := LifeEvent.byOwner_of_byServer he
  have ht := h.tracked i c hc
  refine h.setConn hc ⟨rfl, rfl, Nat.le_refl _, id⟩ rfl (ht.setLife ?_ ?_ ?_)
  · exact fun hz ↦ (ht.unborn hz).1.step he hlife
  · intro hmem
    exact ht.unqueued (Life.mem_pending_of_step hlife howner hmem)
  · intro hne
    apply ht.destroying
    intro hnone
    exact hne (Life.destroying_none_of_step hlife howner ht.unqueued hnone)

/-- A connection that runs `handleClose` has been established. -/
theorem ServerInv.handleClose (h : ServerInv s) {i : ℕ} {e : LifeEvent} {c : ServerConnection}
    {life : Life} (he : e.byServer = false) (hc : s.conns i = some c)
    (hloop : e.ofLoop → s.task c.ioLoop = .idle) (hlife : c.life.step e = some life)
    (hclosed : c.life.closings < life.closings) :
    ServerInv ((s.setConn i { c with life := life }).setTask c.ioLoop (.handleClose i)) := by
  have hcloses : c.life.Closes e := by
    by_contra hn
    have hsame := Life.closings_of_step hlife hn
    omega
  have hidle : s.task c.ioLoop = .idle := hloop (Life.ofLoop_of_closes hcloses)
  refine (h.setLife he hc hlife).startTask hidle fun j hj ↦ ?_
  cases Option.some.inj hj
  refine ⟨_, Function.update_self .., rfl, Nat.pos_of_ne_zero fun hz ↦ ?_⟩
  have hzero := (((h.tracked i c hc).unborn hz).1.step he hlife).closings
  omega

theorem ServerInv.removeConnection (h : ServerInv s) {l i : ℕ} (htask : s.task l = .handleClose i)
    (hstep : (s.setTask l .idle).runInLoop l 0 (.removeConnectionInLoop i) = some s') :
    ServerInv s' := by
  obtain ⟨c, hc, hfits⟩ := h.running l i (by rw [htask]; rfl)
  rw [htask] at hfits
  have hend : ServerInv (s.setTask l .idle) := h.endTask (by simp [htask]) (by simp [htask])
  refine ServerInv.runInLoop (fun q hq ↦ ?_) (Function.update_self ..) hstep
  exact hend.push hq ⟨c, hc, rfl, hfits.2⟩ fun _ hf ↦ (by cases hf)

theorem ServerInv.erase (h : ServerInv s) {i : ℕ} {c : ServerConnection}
    (htask : s.task 0 = .removeConnectionInLoop i) (hc : s.conns i = some c) :
    ServerInv (({ s with
      server := { s.server with
        connections_ := Function.update s.server.connections_ c.name none } }.setConn i
          { c with removed := true }).setTask 0 (.erased i)) := by
  have hfits := h.running.fits htask rfl hc
  have hlater : Later c { c with removed := true } := ⟨rfl, rfl, Nat.le_refl _, fun _ ↦ rfl⟩
  have hself : Function.update s.task 0 (.erased i) 0 = .erased i := Function.update_self ..
  have hset {j : ℕ} {e : ServerConnection} (he : s.conns j = some e) :
      Tracked s.pending (Function.update s.task 0 (.erased i)) j e :=
    (h.tracked j e he).setTask (by simp [htask]) (by simp [htask])
  constructor
  case registered => exact h.registered.erase hc
  case tracked =>
    intro j e he
    rcases update_eq_some he with ⟨rfl, rfl⟩ | ⟨-, he⟩
    · have ht := hset hc
      refine ⟨ht.once, fun hz ↦ ?_, ht.unqueued, ht.destroying, fun _ ↦ ?_, fun _ ↦ rfl⟩
      · have hzero : c.established = 0 := hz
        have hestablished := hfits.2
        omega
      · exact .inl hself
    · exact hset he
  case placed => exact h.placed.later fun _ _ ↦ later_update hc hlater
  case running =>
    refine (h.running.later fun _ _ ↦ later_update hc hlater).setTask fun j hj ↦ ?_
    cases Option.some.inj hj
    exact ⟨_, Function.update_self .., rfl, rfl⟩

theorem ServerInv.queueDestroyed (h : ServerInv s) {i : ℕ} {c : ServerConnection}
    (htask : s.task 0 = .erased i) (hc : s.conns i = some c) :
    ServerInv ((s.setTask 0 .idle).queueInLoop c.ioLoop (.connectDestroyed i)) := by
  have hfits := h.running.fits htask rfl hc
  have hpush : ServerInv (s.queueInLoop c.ioLoop (.connectDestroyed i)) :=
    h.push (List.perm_append_singleton ..) ⟨c, hc, rfl, hfits.2⟩ fun _ hf ↦ (by cases hf)
  have hold (t : ServerTask) (ht : s.task 0 = t) : t = .erased i := ht.symm.trans htask
  refine hpush.endTask (fun j e he ht ↦ ?_) fun j e he ht ↦ ?_
  · cases hold _ ht
    cases hc.symm.trans he
    simp [queueInLoop]
  · cases hold _ ht

theorem ServerInv.destroyTested (h : ServerInv s) {l i : ℕ} {c : ServerConnection} {life : Life}
    (htask : s.task l = .connectDestroyed i) (hc : s.conns i = some c)
    (hlife : c.life.step .destroyTested = some life) :
    ServerInv ((s.setConn i { c with life := life, destroyed := true }).setTask l .idle) := by
  have hfits := h.running.fits htask rfl hc
  have ht := h.tracked i c hc
  have hdone : life.destroying = none := by
    obtain ⟨connected, -, rfl⟩ := Option.map_eq_some_iff.mp hlife
    rfl
  have hset : ServerInv (s.setConn i { c with life := life, destroyed := true }) := by
    refine h.setConn hc ⟨rfl, rfl, Nat.le_refl _, id⟩ rfl ⟨ht.once, fun hz ↦ ?_, fun hmem ↦ ?_,
      fun hne ↦ (hne hdone).elim, fun _ ↦ .inr (.inr (.inr rfl)), fun _ ↦ hfits.2⟩
    · have hpos := ht.established_pos hfits.2
      have hzero : c.established = 0 := hz
      omega
    · exact ht.unqueued (Life.mem_pending_of_step hlife rfl hmem)
  have hold (t : ServerTask) (ht : s.task l = t) : t = .connectDestroyed i := ht.symm.trans htask
  refine hset.endTask (fun j e he ht ↦ ?_) fun j e he ht ↦ ?_
  · cases hold _ ht
  · cases hold _ ht
    rcases update_eq_some he with ⟨-, rfl⟩ | ⟨hne, -⟩
    · exact ⟨hdone, rfl⟩
    · exact (hne rfl).elim

/-- A new connection whose `connectEstablished` is somewhere in the queue. -/
theorem ServerInv.accept (h : ServerInv s) (hbound : s.server.nextConnId_ < 2147483648)
    (pool : EventLoopThreadPool) {l : ℕ} {life : Life} (hlife : life.Unborn)
    {q : List ServerFunctor}
    (hq : q.Perm (.connectEstablished s.server.nextConnId_ :: s.pending l)) :
    ServerInv { s with
      server := { s.server with
        threadPool_ := pool
        nextConnId_ := s.server.nextConnId_ + 1
        connections_ := Function.update s.server.connections_
          (s.server.connName s.server.nextConnId_) (some s.server.nextConnId_) }
      conns := Function.update s.conns s.server.nextConnId_
        (some ⟨s.server.connName s.server.nextConnId_, l, life, 0, false, false⟩)
      pending := Function.update s.pending l q } := by
  have hfresh : s.conns s.server.nextConnId_ = none := by
    have hnone := (h.registered.accepted s.server.nextConnId_).not.mpr (by omega)
    simpa using hnone
  have hlater (j : ℕ) (d : ServerConnection) (hd : s.conns j = some d) :
      ∃ d', Function.update s.conns s.server.nextConnId_
        (some ⟨s.server.connName s.server.nextConnId_, l, life, 0, false, false⟩) j = some d' ∧
          Later d d' := by
    have hj : j ≠ s.server.nextConnId_ := by
      rintro rfl
      simp [hfresh] at hd
    exact ⟨d, (Function.update_of_ne hj ..).trans hd, rfl, rfl, Nat.le_refl _, id⟩
  constructor
  case registered => exact h.registered.accept hbound pool rfl rfl
  case tracked =>
    intro j d hd
    rcases update_eq_some hd with ⟨rfl, rfl⟩ | ⟨hj, hd⟩
    · constructor
      case once =>
        have hzero : (s.pending l).count (.connectEstablished s.server.nextConnId_) = 0 := by
          rw [List.count_eq_zero]
          intro hmem
          obtain ⟨c, hc, -⟩ := h.placed l _ hmem
          simp [ServerFunctor.conn, hfresh] at hc
        have hone : (Function.update s.pending l q l).count
            (.connectEstablished s.server.nextConnId_) = 1 := by
          rw [Function.update_self, hq.count_eq, List.count_cons_self, hzero]
        exact hone
      case unborn => exact fun _ ↦ ⟨hlife, rfl⟩
      case unqueued => simp [hlife.pending]
      case destroying => exact fun hne ↦ (hne hlife.destroying).elim
      case owed => exact fun hr ↦ (by cases hr)
      case destroyed => exact fun hd ↦ (by cases hd)
    · refine (h.tracked j d hd).push hq fun hf ↦ ?_
      cases hf
      exact hj rfl
  case placed => exact (h.placed.later hlater).push hq ⟨_, Function.update_self .., rfl⟩
  case running => exact h.running.later hlater

theorem ServerInv.newConnection (h : ServerInv s) (hbound : s.server.nextConnId_ < 2147483648)
    (hidle : s.task 0 = .idle) {sockfd : ℕ} {mem : Mem}
    (hstep : s.newConnection sockfd mem = some s') : ServerInv s' := by
  refine ServerInv.runInLoop ?_ ?_ hstep
  · intro q hq
    exact h.accept hbound _ (Life.unborn_start ..) hq
  · exact hidle

theorem server_call {l : ℕ} {f : ServerFunctor} (h : s.call l f = some s') :
    s'.server = s.server := by
  cases f with
  | connectEstablished =>
    obtain ⟨c, -, h⟩ := Option.bind_eq_some_iff.mp h
    cases Option.some.inj h
    rfl
  | removeConnectionInLoop =>
    cases Option.some.inj h
    rfl
  | connectDestroyed =>
    obtain ⟨c, -, h⟩ := Option.bind_eq_some_iff.mp h
    obtain ⟨life, -, h⟩ := Option.bind_eq_some_iff.mp h
    cases Option.some.inj h
    rfl

theorem server_runInLoop {caller l : ℕ} {f : ServerFunctor}
    (h : s.runInLoop caller l f = some s') : s'.server = s.server := by
  rw [runInLoop] at h
  split_ifs at h
  · exact server_call h
  · cases Option.some.inj h
    rfl

/-- The counter moves only with an accepted connection. -/
theorem nextConnId_of_step {e : ServerEvent} (h : s.step e = some s') :
    s'.server.nextConnId_ = s.server.nextConnId_ + if e.isNewConnection then 1 else 0 := by
  cases steps_of_step h with
  | newConnection _ h =>
    have hserver := server_runInLoop h
    simp [hserver, setConn, ServerEvent.isNewConnection]
  | removeConnection _ h =>
    rw [server_runInLoop h]
    rfl
  | runFunctor _ _ h =>
    rw [server_call h]
    rfl
  | connection | handleClose | erase | queueDestroyed | destroyTested => rfl

theorem nextConnId_of_run {es : List ServerEvent} (h : run step s es = some s') :
    s'.server.nextConnId_ = s.server.nextConnId_ + es.countP ServerEvent.isNewConnection := by
  induction es generalizing s with
  | nil =>
    cases Option.some.inj h
    rfl
  | cons e es ih =>
    obtain ⟨t, ht, h⟩ := run_cons_eq_some.mp h
    rw [ih h, nextConnId_of_step ht, List.countP_cons]
    omega

theorem step_serverInv {e : ServerEvent} (h : ServerInv s)
    (hbound : s'.server.nextConnId_ ≤ 2147483648) (hstep : s.step e = some s') :
    ServerInv s' := by
  have hnext := nextConnId_of_step hstep
  cases steps_of_step hstep with
  | newConnection hidle hc =>
    simp only [ServerEvent.isNewConnection, if_true] at hnext
    exact h.newConnection (by omega) hidle hc
  | connection he hc _ hlife => exact h.setLife he hc hlife
  | handleClose he hc hloop hlife hclosed => exact h.handleClose he hc hloop hlife hclosed
  | removeConnection htask hc => exact h.removeConnection htask hc
  | erase htask hc => exact h.erase htask hc
  | queueDestroyed htask hc => exact h.queueDestroyed htask hc
  | runFunctor hidle hp hc => exact h.call hidle hp hc
  | destroyTested htask hc hlife => exact h.destroyTested htask hc hlife

theorem serverInv_start (name : List Char) (listenAddr : InetAddress) (callbacks : Callbacks)
    (numThreads : ℕ) : ServerInv (start name listenAddr callbacks numThreads) where
  registered :=
    { ipPort := listenAddr.length_toIpPort_le
      first := Nat.one_pos
      bound := show 1 ≤ 2147483648 by decide
      accepted i := by
        simp only [start, TcpServer.new, Option.isSome_none, Bool.false_eq_true, false_iff]
        omega
      named _ _ hc := by cases hc
      table _ _ := by simp [start, TcpServer.new] }
  tracked _ _ hc := by cases hc
  placed _ _ hf := by cases hf
  running _ _ hi := by cases hi

/-- `connections_`, a queued functor or what a loop is in the middle of refers to
the connection. -/
def Refers (s : ServerLoops) (i : ℕ) : Prop :=
  (∃ name, s.server.connections_ name = some i) ∨ (∃ l, ∃ f ∈ s.pending l, f.conn = i) ∨
    ∃ l, (s.task l).conn = some i

/-- The table and the connections on their way through the loops agree. -/
structure Consistent (s : ServerLoops) : Prop where
  accepted : ∀ i, (s.conns i).isSome ↔ 0 < i ∧ i < s.server.nextConnId_
  named : ∀ i j c d, s.conns i = some c → s.conns j = some d → c.name = d.name → i = j
  table : ∀ name i, s.server.connections_ name = some i ↔
    ∃ c, s.conns i = some c ∧ c.name = name ∧ c.removed = false
  established : ∀ i c, s.conns i = some c →
    (s.pending c.ioLoop).count (.connectEstablished i) + c.established = 1 ∧
      ∀ l, .connectEstablished i ∈ s.pending l → l = c.ioLoop
  unestablished : ∀ i c, s.conns i = some c → c.established = 0 →
    c.life.conn.state = .kConnecting ∧ c.life.closings = 0 ∧ c.life.destroying = none ∧
      c.destroyed = false
  destroying : ∀ i c, s.conns i = some c → c.life.destroying ≠ none →
    s.task c.ioLoop = .connectDestroyed i
  destroys : ∀ i c l, s.conns i = some c →
    .connectDestroyed i ∈ s.pending l ∨ s.task l = .connectDestroyed i →
      l = c.ioLoop ∧ c.removed = true
  destroyed : ∀ i c, s.conns i = some c → c.destroyed = true → c.removed = true
  refers : ∀ i c, s.conns i = some c → c.destroyed = false → s.Refers i

theorem ServerInv.consistent (h : ServerInv s) : Consistent s := by
  constructor
  case accepted => exact h.registered.accepted
  case named => exact fun i j c d hc hd ↦ h.registered.name_injective hc hd
  case table => exact h.registered.table
  case established =>
    intro i c hc
    refine ⟨(h.tracked i c hc).once, fun l hmem ↦ ?_⟩
    exact (h.placed.fits hmem hc).symm
  case unestablished =>
    intro i c hc hz
    obtain ⟨hunborn, hremoved⟩ := (h.tracked i c hc).unborn hz
    refine ⟨hunborn.state, hunborn.closings, hunborn.destroying, ?_⟩
    by_contra hd
    have hr := (h.tracked i c hc).destroyed (by simpa using hd)
    simp [hremoved] at hr
  case destroying => exact fun i c hc ↦ (h.tracked i c hc).destroying
  case destroys =>
    intro i c l hc hd
    rcases hd with hmem | htask
    · have hfits := h.placed.fits hmem hc
      exact ⟨hfits.1.symm, hfits.2⟩
    · have hfits := h.running.fits htask rfl hc
      exact ⟨hfits.1.symm, hfits.2⟩
  case destroyed => exact fun i c hc ↦ (h.tracked i c hc).destroyed
  case refers =>
    intro i c hc hd
    by_cases hr : c.removed = true
    · rcases (h.tracked i c hc).owed hr with htask | hmem | htask | hdone
      · exact .inr (.inr ⟨0, by rw [htask]; rfl⟩)
      · exact .inr (.inl ⟨c.ioLoop, _, hmem, rfl⟩)
      · exact .inr (.inr ⟨c.ioLoop, by rw [htask]; rfl⟩)
      · simp [hd] at hdone
    · exact .inl ⟨c.name, (h.registered.table _ i).mpr ⟨c, hc, rfl, by simpa using hr⟩⟩

/-- Every run of a server that accepts fewer than `2 ^ 31` connections leaves its table
and its connections consistent. -/
theorem consistent_of_run {name : List Char} {listenAddr : InetAddress} {callbacks : Callbacks}
    {numThreads : ℕ} (es : List ServerEvent) (s : ServerLoops)
    (hrun : run step (start name listenAddr callbacks numThreads) es = some s)
    (hfew : es.countP ServerEvent.isNewConnection < 2147483648) : Consistent s := by
  have hbound : s.server.nextConnId_ ≤ 2147483648 := by
    rw [nextConnId_of_run hrun]
    change 1 + _ ≤ _
    omega
  have hinv : s.server.nextConnId_ ≤ 2147483648 → ServerInv s := by
    refine run_preserves (I := fun s ↦ s.server.nextConnId_ ≤ 2147483648 → ServerInv s)
      (fun s e s' h hstep hle ↦ ?_) (fun _ ↦ serverInv_start ..) hrun
    have hnext := nextConnId_of_step hstep
    exact step_serverInv (h (by omega)) hle hstep
  exact (hinv hbound).consistent

def closedByPeer : List ServerEvent :=
  [.newConnection 7 .numbered, .runFunctor 1, .connection 1 (.loop (.poll Channel.EPOLLIN)),
    .connection 1 (.loop .handleEvent), .connection 1 (.loop (.callback (.read []) (.wrote 0))),
    .removeConnection 1, .runFunctor 0, .erase, .queueDestroyed, .runFunctor 1, .destroyTested 1]

theorem consistent_of_run_closedByPeer :
    ∃ s, run step (start ['s'] ⟨(0, 0, 0, 0), 80⟩ ⟨true, true, true, false⟩ 1) closedByPeer =
      some s ∧ Consistent s := by
  obtain ⟨s, hs⟩ := Option.isSome_iff_exists.mp
    (show (run step (start ['s'] ⟨(0, 0, 0, 0), 80⟩ ⟨true, true, true, false⟩ 1)
      closedByPeer).isSome by decide +kernel)
  exact ⟨s, hs, consistent_of_run _ s hs (by decide)⟩

end ServerLoops

end Mymuduo.Net
