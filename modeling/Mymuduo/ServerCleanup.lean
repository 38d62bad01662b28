import Mymuduo.Lib.Liveness
import Mymuduo.ServerStart

namespace Mymuduo.Net

open Execution

def ServerEvent.advances (l : ℕ) : ServerEvent → Prop
  | removeConnection k | destroyTested k => k = l
  | erase | queueDestroyed => l = 0
  | newConnection _ _ | connection _ _ | runFunctor _ => False

theorem Life.ofLoop_of_closings_lt {life life' : Life} {e : LifeEvent}
    (h : life.step e = some life') (hlt : life.closings < life'.closings) : e.ofLoop := by
  have hcloses : life.Closes e := by
    by_contra hn
    have hsame := Life.closings_of_step h hn
    omega
  exact Life.ofLoop_of_closes hcloses

namespace ServerLoops

def Testing (conns : ℕ → Option ServerConnection) (task : ℕ → ServerTask) : Prop :=
  ∀ l i c, task l = .connectDestroyed i → conns i = some c → c.life.destroying ≠ none

structure CleanupInv (s : ServerLoops) : Prop extends ServerInv s where
  testing : Testing s.conns s.task

variable {s s' : ServerLoops} {l i : ℕ} {e : ServerEvent} {f : ServerFunctor}

theorem task_setTask (s : ServerLoops) (l : ℕ) (t : ServerTask) : (s.setTask l t).task l = t :=
  Function.update_self ..

theorem pending_call (h : s.call l f = some s') : s'.pending = s.pending := by
  cases f with
  | connectEstablished =>
    obtain ⟨c, -, h⟩ := Option.bind_eq_some_iff.mp h
    cases Option.some.inj h
    rfl
  | removeConnectionInLoop =>
    cases Option.some.inj h
    rfl
  | connectDestroyed =>
    obtain ⟨c, -, h⟩ := Option.bind_eq_some_iff.mp h
    obtain ⟨life, -, h⟩ := Option.bind_eq_some_iff.mp h
    cases Option.some.inj h
    rfl

theorem task_call (h : s.call l f = some s') {k : ℕ} (hk : k ≠ l) : s'.task k = s.task k := by
  cases f with
  | connectEstablished =>
    obtain ⟨c, -, h⟩ := Option.bind_eq_some_iff.mp h
    cases Option.some.inj h
    rfl
  | removeConnectionInLoop =>
    cases Option.some.inj h
    exact Function.update_of_ne hk ..
  | connectDestroyed =>
    obtain ⟨c, -, h⟩ := Option.bind_eq_some_iff.mp h
    obtain ⟨life, -, h⟩ := Option.bind_eq_some_iff.mp h
    cases Option.some.inj h
    exact Function.update_of_ne hk ..

theorem prefix_queueInLoop (s : ServerLoops) (l k : ℕ) (f : ServerFunctor) :
    s.pending k <+: (s.queueInLoop l f).pending k := by
  simp only [queueInLoop]
  by_cases hk : k = l
  · subst hk
    rw [Function.update_self]
    exact List.prefix_append ..
  · rw [Function.update_of_ne hk]

theorem pending_runInLoop {caller : ℕ} (h : s.runInLoop caller l f = some s') (k : ℕ) :
    s.pending k <+: s'.pending k := by
  rw [runInLoop] at h
  split_ifs at h
  · rw [pending_call h]
  · cases Option.some.inj h
    exact prefix_queueInLoop ..

theorem task_runInLoop {caller : ℕ} (h : s.runInLoop caller l f = some s') {k : ℕ}
    (hk : k ≠ caller) : s'.task k = s.task k := by
  rw [runInLoop] at h
  split_ifs at h with hl
  · exact task_call h (hl ▸ hk)
  · cases Option.some.inj h
    rfl

/-- Only `runFunctor` takes something off a queue. -/
theorem pending_of_step (h : s.step e = some s') (he : e ≠ .runFunctor l) :
    s.pending l <+: s'.pending l := by
  cases steps_of_step h with
  | newConnection _ hnew => exact pending_runInLoop hnew l
  | removeConnection _ hrun => exact pending_runInLoop hrun l
  | queueDestroyed => exact prefix_queueInLoop ..
  | runFunctor _ _ hcall =>
    rw [pending_call hcall]
    have hl : l ≠ _ := fun hl ↦ he (congrArg _ hl.symm)
    dsimp only
    rw [Function.update_of_ne hl]
  | connection | handleClose | erase | destroyTested => exact List.prefix_rfl

theorem pending_of_runFunctor (h : s.step (.runFunctor l) = some s') :
    s'.pending l = (s.pending l).tail := by
  cases steps_of_step h with
  | runFunctor _ hpending hcall =>
    rw [pending_call hcall, hpending]
    exact Function.update_self ..

/-- What a loop is in the middle of stays until that loop goes on. -/
theorem task_of_step (h : s.step e = some s') (hbusy : s.task l ≠ .idle)
    (he : ¬ e.advances l) : s'.task l = s.task l := by
  cases steps_of_step h with
  | newConnection hidle hnew =>
    refine task_runInLoop hnew ?_
    rintro rfl
    exact hbusy hidle
  | handleClose _ _ hloop hlife hclosed =>
    refine Function.update_of_ne (fun hl ↦ hbusy ?_) ..
    rw [hl]
    exact hloop (Life.ofLoop_of_closings_lt hlife hclosed)
  | removeConnection _ hrun =>
    have hl : l ≠ _ := fun hl ↦ he hl.symm
    rw [task_runInLoop hrun hl]
    exact Function.update_of_ne hl ..
  | runFunctor hidle _ hcall =>
    refine (task_call hcall ?_).trans rfl
    rintro rfl
    exact hbusy hidle
  | connection => rfl
  | erase => exact Function.update_of_ne he ..
  | queueDestroyed => exact Function.update_of_ne he ..
  | destroyTested => exact Function.update_of_ne (fun hl ↦ he hl.symm) ..

section Testing

variable {conns : ℕ → Option ServerConnection} {task : ℕ → ServerTask} {c c' : ServerConnection}

theorem Testing.update (h : Testing conns task) (hc : conns i = some c)
    (hd : c.life.destroying ≠ none → c'.life.destroying ≠ none) :
    Testing (Function.update conns i (some c')) task := by
  intro l j d ht hj
  rcases update_eq_some hj with ⟨rfl, rfl⟩ | ⟨-, hj⟩
  · exact hd (h l j c ht hc)
  · exact h l j d ht hj

theorem Testing.setTask (h : Testing conns task) {t : ServerTask}
    (ht : ∀ i, t = .connectDestroyed i → ∀ c, conns i = some c → c.life.destroying ≠ none) :
    Testing conns (Function.update task l t) := by
  intro k j d hk hj
  by_cases hl : k = l
  · subst hl
    rw [Function.update_self] at hk
    exact ht j hk d hj
  · rw [Function.update_of_ne hl] at hk
    exact h k j d hk hj

theorem Testing.accept (h : Testing conns task) (hrunning : Running conns task)
    (hfresh : conns i = none) : Testing (Function.update conns i (some c)) task := by
  intro l j d ht hj
  rcases update_eq_some hj with ⟨rfl, rfl⟩ | ⟨-, hj⟩
  · obtain ⟨d, hd, -⟩ := hrunning l j (by rw [ht]; rfl)
    cases hfresh.symm.trans hd
  · exact h l j d ht hj

/-- A `connectDestroyed` that ends is the only one of its connection. -/
theorem Testing.destroyed (h : Testing conns task) (hrunning : Running conns task)
    (ht : task l = .connectDestroyed i) (hc : conns i = some c) :
    Testing (Function.update conns i (some c')) (Function.update task l .idle) := by
  intro k j d hk hj
  have hl : k ≠ l := by
    rintro rfl
    rw [Function.update_self] at hk
    cases hk
  rw [Function.update_of_ne hl] at hk
  rcases update_eq_some hj with ⟨rfl, rfl⟩ | ⟨-, hj⟩
  · have hfits := (hrunning.fits ht rfl hc).1
    exact (hl ((hrunning.fits hk rfl hc).1.symm.trans hfits)).elim
  · exact h k j d hk hj

theorem Testing.call (h : Testing s.conns s.task) (hcall : s.call l f = some s') :
    Testing s'.conns s'.task := by
  cases f with
  | connectEstablished i =>
    obtain ⟨c, hc, hcall⟩ := Option.bind_eq_some_iff.mp hcall
    cases Option.some.inj hcall
    exact h.update hc id
  | removeConnectionInLoop i =>
    cases Option.some.inj hcall
    exact h.setTask fun _ hi ↦ (by cases hi)
  | connectDestroyed i =>
    obtain ⟨c, hc, hcall⟩ := Option.bind_eq_some_iff.mp hcall
    obtain ⟨life, hlife, hcall⟩ := Option.bind_eq_some_iff.mp hcall
    cases Option.some.inj hcall
    have hd := Life.destroying_of_connectDestroyed hlife
    refine (h.update hc fun _ ↦ hd).setTask fun j hj d hjd ↦ ?_
    cases hj
    rcases update_eq_some hjd with ⟨-, rfl⟩ | ⟨hne, -⟩
    · exact hd
    · exact (hne rfl).elim

theorem Testing.runInLoop {caller : ℕ} (h : Testing s.conns s.task)
    (hrun : s.runInLoop caller l f = some s') : Testing s'.conns s'.task := by
  rw [ServerLoops.runInLoop] at hrun
  split_ifs at hrun
  · exact h.call hrun
  · cases Option.some.inj hrun
    exact h

end Testing

theorem CleanupInv.newConnection (h : CleanupInv s) {sockfd : ℕ} {mem : Mem}
    (hstep : s.newConnection sockfd mem = some s') : Testing s'.conns s'.task := by
  refine Testing.runInLoop ?_ hstep
  refine h.testing.accept h.running ?_
  have hnone := (h.registered.accepted s.server.nextConnId_).not.mpr (by omega)
  simpa using hnone

theorem step_cleanupInv (h : CleanupInv s) (hbound : s'.server.nextConnId_ ≤ 2147483648)
    (hstep : s.step e = some s') : CleanupInv s' := by
  refine ⟨step_serverInv h.toServerInv hbound hstep, ?_⟩
  have hkeeps {e : LifeEvent} {life life' : Life} (he : e.byServer = false)
      (hlife : life.step e = some life') (hd : life.destroying ≠ none) :
      life'.destroying ≠ none := by
    refine Life.destroying_of_step hlife hd ?_
    rintro rfl
    cases he
  have hend (l : ℕ) : Testing s.conns (Function.update s.task l .idle) :=
    h.testing.setTask fun _ hi ↦ (by cases hi)
  cases steps_of_step hstep with
  | newConnection _ hnew => exact h.newConnection hnew
  | connection he hc _ hlife => exact h.testing.update hc (hkeeps he hlife)
  | handleClose he hc _ hlife =>
    exact (h.testing.update hc (hkeeps he hlife)).setTask fun _ hi ↦ (by cases hi)
  | removeConnection _ hrun => exact Testing.runInLoop (hend _) hrun
  | erase _ hc => exact (h.testing.update hc (by exact id)).setTask fun _ hi ↦ (by cases hi)
  | queueDestroyed => exact hend 0
  | @runFunctor l f rest _ _ _ hcall =>
    exact Testing.call (s := { s with pending := Function.update s.pending l rest }) h.testing hcall
  | destroyTested htask hc => exact h.testing.destroyed h.running htask hc

theorem cleanupInv_start (name : List Char) (listenAddr : InetAddress) (callbacks : Callbacks)
    (numThreads : ℕ) : CleanupInv (start name listenAddr callbacks numThreads) :=
  ⟨serverInv_start .., fun _ _ _ ht ↦ (by cases ht)⟩

/-- A loop that is in the middle of something can go on with it. -/
theorem CleanupInv.advances_enabled (h : CleanupInv s) (hbusy : s.task l ≠ .idle) :
    ∃ e, e.advances l ∧ (s.step e).isSome := by
  cases ht : s.task l with
  | idle => exact (hbusy ht).elim
  | handleClose i =>
    refine ⟨.removeConnection l, rfl, ?_⟩
    simp only [step, ht, removeConnection, runInLoop]
    split_ifs <;> rfl
  | removeConnectionInLoop i =>
    obtain ⟨c, hc, hfits⟩ := h.running l i (by rw [ht]; rfl)
    rw [ht] at hfits
    obtain rfl := hfits.1
    exact ⟨.erase, rfl, by simp [step, ht, erase, hc]⟩
  | erased i =>
    obtain ⟨c, hc, hfits⟩ := h.running l i (by rw [ht]; rfl)
    rw [ht] at hfits
    obtain rfl := hfits.1
    exact ⟨.queueDestroyed, rfl, by simp [step, ht, queueDestroyed, hc]⟩
  | connectDestroyed i =>
    obtain ⟨c, hc, -⟩ := h.running l i (by rw [ht]; rfl)
    obtain ⟨connected, hd⟩ := Option.ne_none_iff_exists'.mp (h.testing l i c ht hc)
    exact ⟨.destroyTested l, rfl, by simp [step, ht, destroyTested, hc, Life.step, hd]⟩

/-- A loop with nothing to go on with can call what is queued for it. -/
theorem CleanupInv.runFunctor_enabled (h : CleanupInv s) (hidle : s.task l = .idle)
    (hpending : s.pending l ≠ []) : (s.step (.runFunctor l)).isSome := by
  obtain ⟨f, rest, hp⟩ := List.exists_cons_of_ne_nil hpending
  obtain ⟨c, hc, hfits⟩ := h.placed l f (by simp [hp])
  simp only [step, hidle, hp]
  cases f with
  | connectEstablished i =>
    have hi : s.conns i = some c := hc
    simp [call, hi]
  | removeConnectionInLoop i => rfl
  | connectDestroyed i =>
    have hi : s.conns i = some c := hc
    have hd : c.life.destroying = none := by
      by_contra hne
      have htask := (h.tracked i c hi).destroying hne
      rw [hfits.1, hidle] at htask
      cases htask
    simp [call, hi, Life.step, hd, Life.loopStep]

/-- What the steps of a server leave of a connection. -/
structure Ages (c d : ServerConnection) : Prop where
  established : c.established ≤ d.established
  closings : c.life.closings ≤ d.life.closings
  destroyed : c.destroyed = true → d.destroyed = true

theorem Ages.refl (c : ServerConnection) : Ages c c := ⟨le_rfl, le_rfl, id⟩

theorem Ages.trans {c d e : ServerConnection} (h : Ages c d) (h' : Ages d e) : Ages c e :=
  ⟨h.established.trans h'.established, h.closings.trans h'.closings, h'.destroyed ∘ h.destroyed⟩

/-- No accepted connection is forgotten, and `handleClose` runs only for those of `J`. -/
structure Keeps (J : ℕ → Prop) (conns conns' : ℕ → Option ServerConnection) : Prop where
  kept : ∀ i c, conns i = some c → ∃ d, conns' i = some d ∧ Ages c d
  closes : ∀ i d, conns' i = some d → 0 < d.life.closings →
    J i ∨ ∃ c, conns i = some c ∧ 0 < c.life.closings

theorem closings_connectEstablished (life : Life) :
    (life.setConn life.conn.connectEstablished).closings = life.closings := by
  simp [Life.closings, Life.setConn, TcpConnection.connectEstablished, TcpConnection.did,
    TcpConnection.reports, Action.report?, TcpConnection.setChannel, TcpConnection.setState]

section Keeps

variable {J : ℕ → Prop} {conns : ℕ → Option ServerConnection} {c c' : ServerConnection}

theorem Keeps.refl (conns : ℕ → Option ServerConnection) : Keeps J conns conns where
  kept _ c hc := ⟨c, hc, .refl c⟩
  closes _ c hc hpos := .inr ⟨c, hc, hpos⟩

theorem Keeps.trans {conns' conns'' : ℕ → Option ServerConnection} (h : Keeps J conns conns')
    (h' : Keeps J conns' conns'') : Keeps J conns conns'' where
  kept i c hc := by
    obtain ⟨d, hd, hages⟩ := h.kept i c hc
    obtain ⟨e, he, hages'⟩ := h'.kept i d hd
    exact ⟨e, he, hages.trans hages'⟩
  closes i e he hpos := by
    rcases h'.closes i e he hpos with hj | ⟨d, hd, hpos⟩
    · exact .inl hj
    · exact h.closes i d hd hpos

theorem keeps_update (hc : conns i = some c) (ha : Ages c c')
    (hle : J i ∨ c'.life.closings ≤ c.life.closings) :
    Keeps J conns (Function.update conns i (some c')) where
  kept j d hj := by
    by_cases hji : j = i
    · subst hji
      cases hc.symm.trans hj
      exact ⟨c', Function.update_self .., ha⟩
    · exact ⟨d, (Function.update_of_ne hji ..).trans hj, .refl d⟩
  closes j d hj hpos := by
    rcases update_eq_some hj with ⟨rfl, rfl⟩ | ⟨-, hj⟩
    · exact hle.imp_right fun hle ↦ ⟨c, hc, by omega⟩
    · exact .inr ⟨d, hj, hpos⟩

theorem keeps_accept (hfresh : conns i = none) (hzero : c.life.closings = 0) :
    Keeps J conns (Function.update conns i (some c)) where
  kept j d hj := by
    have hji : j ≠ i := by
      rintro rfl
      cases hfresh.symm.trans hj
    exact ⟨d, (Function.update_of_ne hji ..).trans hj, .refl d⟩
  closes j d hj hpos := by
    rcases update_eq_some hj with ⟨-, rfl⟩ | ⟨-, hj⟩
    · omega
    · exact .inr ⟨d, hj, hpos⟩

theorem keeps_call (h : s.call l f = some s') : Keeps J s.conns s'.conns := by
  cases f with
  | connectEstablished =>
    obtain ⟨c, hc, h⟩ := Option.bind_eq_some_iff.mp h
    cases Option.some.inj h
    have hsame := closings_connectEstablished c.life
    exact keeps_update hc ⟨Nat.le_succ _, hsame.ge, id⟩ (.inr hsame.le)
  | removeConnectionInLoop =>
    cases Option.some.inj h
    exact .refl _
  | connectDestroyed =>
    obtain ⟨c, hc, h⟩ := Option.bind_eq_some_iff.mp h
    obtain ⟨life, hlife, h⟩ := Option.bind_eq_some_iff.mp h
    cases Option.some.inj h
    have hsame := Life.closings_of_step hlife id
    exact keeps_update hc ⟨le_rfl, hsame.ge, id⟩ (.inr hsame.le)

theorem keeps_runInLoop {caller : ℕ} (h : s.runInLoop caller l f = some s') :
    Keeps J s.conns s'.conns := by
  rw [runInLoop] at h
  split_ifs at h
  · exact keeps_call h
  · cases Option.some.inj h
    exact .refl _

end Keeps

theorem keeps_of_step (h : ServerInv s) (hstep : s.step e = some s') :
    Keeps (fun i ↦ ∃ l, s'.task l = .handleClose i) s.conns s'.conns := by
  cases steps_of_step hstep with
  | newConnection _ hnew =>
    have hnone := (h.registered.accepted s.server.nextConnId_).not.mpr (by omega)
    have hrun : Keeps (fun i ↦ ∃ l, s'.task l = .handleClose i) _ _ := keeps_runInLoop hnew
    refine Keeps.trans ?_ hrun
    exact keeps_accept (Option.not_isSome_iff_eq_none.mp hnone) (Life.unborn_start ..).closings
  | connection _ hc _ hlife hopen =>
    exact keeps_update hc ⟨le_rfl, Life.closings_le_of_step hlife, id⟩ (.inr hopen)
  | handleClose _ hc _ _ hclosed =>
    exact keeps_update hc ⟨le_rfl, hclosed.le, id⟩ (.inl ⟨_, task_setTask ..⟩)
  | removeConnection _ hrun => exact keeps_runInLoop (s := s.setTask _ .idle) hrun
  | erase _ hc => exact keeps_update hc ⟨le_rfl, le_rfl, id⟩ (.inr le_rfl)
  | queueDestroyed => exact .refl _
  | @runFunctor l _ rest _ _ _ hcall =>
    exact keeps_call (s := { s with pending := Function.update s.pending l rest }) hcall
  | destroyTested _ hc hlife =>
    have hsame := Life.closings_of_step hlife id
    exact keeps_update hc ⟨le_rfl, hsame.ge, fun _ ↦ rfl⟩ (.inr hsame.le)

/-- What every step keeps while the names are unique holds in every run that accepts fewer
than `2 ^ 31` connections. -/
theorem inv_of_run {I : ServerLoops → Prop} {name : List Char} {listenAddr : InetAddress}
    {callbacks : Callbacks} {numThreads : ℕ} {es : List ServerEvent}
    (hstart : I (start name listenAddr callbacks numThreads))
    (hstep : ∀ s e s', I s → s'.server.nextConnId_ ≤ 2147483648 → s.step e = some s' → I s')
    (hrun : run step (start name listenAddr callbacks numThreads) es = some s)
    (hfew : es.countP ServerEvent.isNewConnection < 2147483648) : I s := by
  have hbound : s.server.nextConnId_ ≤ 2147483648 := by
    rw [nextConnId_of_run hrun]
    change 1 + _ ≤ _
    omega
  have hinv : s.server.nextConnId_ ≤ 2147483648 → I s := by
    refine run_preserves (I := fun s ↦ s.server.nextConnId_ ≤ 2147483648 → I s)
      (fun s e s' h hs hle ↦ ?_) (fun _ ↦ hstart) hrun
    have hnext := nextConnId_of_step hs
    exact hstep s e s' (h (by omega)) hle hs
  exact hinv hbound

theorem cleanupInv_of_run {name : List Char} {listenAddr : InetAddress} {callbacks : Callbacks}
    {numThreads : ℕ} {es : List ServerEvent}
    (hrun : run step (start name listenAddr callbacks numThreads) es = some s)
    (hfew : es.countP ServerEvent.isNewConnection < 2147483648) : CleanupInv s :=
  inv_of_run (cleanupInv_start ..) (fun _ _ _ ↦ step_cleanupInv) hrun hfew

/-- In every run no loop gets stuck, neither in the middle of something nor before its
queue. -/
theorem enabled_of_run {name : List Char} {listenAddr : InetAddress} {callbacks : Callbacks}
    {numThreads : ℕ} (es : List ServerEvent) (s : ServerLoops)
    (hrun : run step (start name listenAddr callbacks numThreads) es = some s)
    (hfew : es.countP ServerEvent.isNewConnection < 2147483648) (l : ℕ) :
    (s.task l ≠ .idle → ∃ e, e.advances l ∧ (s.step e).isSome) ∧
      (s.task l = .idle → s.pending l ≠ [] → (s.step (.runFunctor l)).isSome) :=
  have hinv := cleanupInv_of_run hrun hfew
  ⟨hinv.advances_enabled, hinv.runFunctor_enabled⟩

/-- The base loop is between `erase` and `queueInLoop`, and the loop of another connection
has not called `connectEstablished` yet. -/
theorem enabled_of_run_twoAccepted : ∃ s,
    run step (start ['s'] ⟨(0, 0, 0, 0), 80⟩ ⟨true, true, true, false⟩ 2)
      (.newConnection 8 .numbered :: closedByPeer.take 8) = some s ∧
        (s.task 0 ≠ .idle ∧ ∃ e, e.advances 0 ∧ (s.step e).isSome) ∧
        s.task 2 = .idle ∧ s.pending 2 ≠ [] ∧ (s.step (.runFunctor 2)).isSome := by
  have hrun : (run step (start ['s'] ⟨(0, 0, 0, 0), 80⟩ ⟨true, true, true, false⟩ 2)
      (.newConnection 8 .numbered :: closedByPeer.take 8)).map (fun s ↦
        decide (s.task 0 ≠ .idle ∧ s.task 2 = .idle ∧ s.pending 2 ≠ [])) = some true := by
    decide +kernel
  obtain ⟨s, hs, hstate⟩ := Option.map_eq_some_iff.mp hrun
  obtain ⟨hbusy, hidle, hqueued⟩ := of_decide_eq_true hstate
  have henabled := enabled_of_run _ s hs (by decide)
  exact ⟨s, hs, ⟨hbusy, (henabled 0).1 hbusy⟩, hidle, hqueued, (henabled 2).2 hidle hqueued⟩

theorem removing_of_step (h : s.step e = some s') (ht : s.task l = .handleClose i)
    (he : e.advances l) :
    .removeConnectionInLoop i ∈ s'.pending 0 ∨ s'.task 0 = .removeConnectionInLoop i := by
  cases steps_of_step h with
  | removeConnection htask hrun =>
    obtain rfl := he
    cases ht.symm.trans htask
    rw [runInLoop] at hrun
    split_ifs at hrun with hl
    · subst hl
      cases Option.some.inj hrun
      exact .inr (task_setTask ..)
    · cases Option.some.inj hrun
      exact .inl (by simp [queueInLoop])
  | erase htask | queueDestroyed htask | destroyTested htask =>
    obtain rfl := he
    cases ht.symm.trans htask
  | newConnection | connection | handleClose | runFunctor => exact he.elim

theorem erased_of_step (h : s.step e = some s') (ht : s.task 0 = .removeConnectionInLoop i)
    (he : e.advances 0) : s'.task 0 = .erased i := by
  cases steps_of_step h with
  | erase htask =>
    cases ht.symm.trans htask
    exact task_setTask ..
  | queueDestroyed htask => cases ht.symm.trans htask
  | removeConnection htask | destroyTested htask =>
    obtain rfl := he
    cases ht.symm.trans htask
  | newConnection | connection | handleClose | runFunctor => exact he.elim

theorem queued_of_step (h : s.step e = some s') (ht : s.task 0 = .erased i)
    (he : e.advances 0) : ∃ l, .connectDestroyed i ∈ s'.pending l := by
  cases steps_of_step h with
  | @queueDestroyed _ c htask =>
    cases ht.symm.trans htask
    exact ⟨c.ioLoop, by simp [queueInLoop]⟩
  | erase htask => cases ht.symm.trans htask
  | removeConnection htask | destroyTested htask =>
    obtain rfl := he
    cases ht.symm.trans htask
  | newConnection | connection | handleClose | runFunctor => exact he.elim

theorem destroyed_of_step (h : s.step e = some s') (ht : s.task l = .connectDestroyed i)
    (he : e.advances l) : ∃ c, s'.conns i = some c ∧ c.destroyed = true := by
  cases steps_of_step h with
  | destroyTested htask =>
    obtain rfl := he
    cases ht.symm.trans htask
    exact ⟨_, Function.update_self .., rfl⟩
  | removeConnection htask | erase htask | queueDestroyed htask =>
    obtain rfl := he
    cases ht.symm.trans htask
  | newConnection | connection | handleClose | runFunctor => exact he.elim

theorem called_of_step (h : s.step (.runFunctor l) = some s')
    (hf : (s.pending l).head? = some f) :
    ∃ rest, { s with pending := Function.update s.pending l rest }.call l f = some s' := by
  cases steps_of_step h with
  | runFunctor _ hp hcall =>
    rw [hp] at hf
    cases Option.some.inj hf
    exact ⟨_, hcall⟩

/-- The loops go on with what they are in the middle of and with their queues. -/
structure GoesOn (ρ : InfiniteRun step) : Prop where
  tasks : ∀ l n, (ρ.state n).task l ≠ .idle → ∃ m, n ≤ m ∧ (ρ.event m).advances l
  functors : ∀ l n, (ρ.state n).pending l ≠ [] → ∃ m, n ≤ m ∧ ρ.event m = .runFunctor l

variable {ρ : InfiniteRun step}

theorem GoesOn.advances (h : GoesOn ρ) {t : ServerTask} {n : ℕ} (ht : (ρ.state n).task l = t)
    (hbusy : t ≠ .idle) : ∃ m, n ≤ m ∧ (ρ.state m).task l = t ∧ (ρ.event m).advances l := by
  obtain ⟨m, hm, he⟩ := h.tasks l n (ht ▸ hbusy)
  refine exists_move (P := fun m ↦ (ρ.state m).task l = t) (fun k hk he ↦ ?_) hm he ht
  exact (task_of_step (ρ.next k) (hk ▸ hbusy) he).trans hk

/-- Every queued functor is called. -/
theorem GoesOn.called (h : GoesOn ρ) {n : ℕ} (hf : f ∈ (ρ.state n).pending l) :
    ∃ m, n ≤ m ∧ ρ.event m = .runFunctor l ∧ ((ρ.state m).pending l).head? = some f := by
  refine eventually_head (q := fun n ↦ (ρ.state n).pending l) (fun n he ↦ ?_) (fun n he ↦ ?_)
    (h.functors l) hf
  · exact pending_of_step (ρ.next n) he
  · have hnext := ρ.next n
    rw [he] at hnext
    exact (pending_of_runFunctor hnext) ▸ List.prefix_rfl

/-- After `handleClose` the connection goes through the base loop and back to its own. -/
theorem GoesOn.destroyed (h : GoesOn ρ) {n : ℕ} (ht : (ρ.state n).task l = .handleClose i) :
    ∃ m, n ≤ m ∧ ∃ c, (ρ.state m).conns i = some c ∧ c.destroyed = true := by
  have hremoving : ∃ m, n ≤ m ∧ (ρ.state m).task 0 = .removeConnectionInLoop i := by
    obtain ⟨m, hm, ht, he⟩ := h.advances ht (by simp)
    rcases removing_of_step (ρ.next m) ht he with hqueued | hcalled
    · obtain ⟨k, hk, he, hhead⟩ := h.called hqueued
      obtain ⟨rest, hcall⟩ := called_of_step (he ▸ ρ.next k) hhead
      exact ⟨k + 1, by omega, Option.some.inj hcall ▸ task_setTask ..⟩
    · exact ⟨m + 1, by omega, hcalled⟩
  have hqueued : ∃ m, n ≤ m ∧ ∃ k, .connectDestroyed i ∈ (ρ.state m).pending k := by
    obtain ⟨m, hm, ht⟩ := hremoving
    obtain ⟨m', hm', ht, he⟩ := h.advances ht (by simp)
    obtain ⟨k, hk, ht, he⟩ := h.advances (erased_of_step (ρ.next m') ht he) (by simp)
    exact ⟨k + 1, by omega, queued_of_step (ρ.next k) ht he⟩
  obtain ⟨m, hm, j, hqueued⟩ := hqueued
  obtain ⟨k, hk, he, hhead⟩ := h.called hqueued
  obtain ⟨rest, hcall⟩ := called_of_step (he ▸ ρ.next k) hhead
  have htask : (ρ.state (k + 1)).task j = .connectDestroyed i := by
    obtain ⟨c, -, hcall⟩ := Option.bind_eq_some_iff.mp hcall
    obtain ⟨life, -, hcall⟩ := Option.bind_eq_some_iff.mp hcall
    exact Option.some.inj hcall ▸ task_setTask ..
  obtain ⟨k', hk', ht, he⟩ := h.advances htask (by simp)
  exact ⟨k' + 1, by omega, destroyed_of_step (ρ.next k') ht he⟩

/-- A run in which all loops come to rest has gone on with everything before. -/
theorem goesOn_of_rest {N : ℕ}
    (h : ∀ n l, N ≤ n → (ρ.state n).task l = .idle ∧ (ρ.state n).pending l = []) : GoesOn ρ where
  tasks l n hbusy := by
    by_contra hno
    have hstay : ∀ m, n ≤ m → (ρ.state m).task l = (ρ.state n).task l := by
      intro m hm
      induction m, hm using Nat.le_induction with
      | base => rfl
      | succ m hm ih =>
        rw [← ih] at hbusy ⊢
        exact task_of_step (ρ.next m) hbusy fun he ↦ hno ⟨m, hm, he⟩
    exact hbusy ((hstay (n + N) (by omega)).symm.trans (h (n + N) l (by omega)).1)
  functors l n hpending := by
    by_contra hno
    have hgrow : ∀ m, n ≤ m → (ρ.state n).pending l <+: (ρ.state m).pending l := by
      intro m hm
      induction m, hm using Nat.le_induction with
      | base => exact List.prefix_rfl
      | succ m hm ih =>
        exact ih.trans (pending_of_step (ρ.next m) fun he ↦ hno ⟨m, hm, he⟩)
    have hend := hgrow (n + N) (by omega)
    rw [(h (n + N) l (by omega)).2, List.prefix_nil] at hend
    exact hpending hend

theorem nextConnId_mono (ρ : InfiniteRun step) {n m : ℕ} (hm : n ≤ m) :
    (ρ.state n).server.nextConnId_ ≤ (ρ.state m).server.nextConnId_ := by
  induction m, hm using Nat.le_induction with
  | base => exact le_rfl
  | succ m hm ih =>
    rw [nextConnId_of_step (ρ.next m)]
    exact Nat.le_add_right_of_le ih

section Server

variable {name : List Char} {listenAddr : InetAddress} {callbacks : Callbacks} {numThreads : ℕ}

theorem cleanupInv_of_infiniteRun (hstart : ρ.state 0 = start name listenAddr callbacks numThreads)
    (hfew : ∀ n, (ρ.state n).server.nextConnId_ ≤ 2147483648) (n : ℕ) :
    CleanupInv (ρ.state n) := by
  induction n with
  | zero => exact hstart ▸ cleanupInv_start ..
  | succ n ih => exact step_cleanupInv ih (hfew (n + 1)) (ρ.next n)

theorem kept_of_le (h : ∀ n, CleanupInv (ρ.state n)) {n m : ℕ} (hm : n ≤ m) {c : ServerConnection}
    (hc : (ρ.state n).conns i = some c) : ∃ d, (ρ.state m).conns i = some d ∧ Ages c d := by
  induction m, hm using Nat.le_induction with
  | base => exact ⟨c, hc, .refl c⟩
  | succ m hm ih =>
    obtain ⟨d, hd, hages⟩ := ih
    obtain ⟨e, he, hages'⟩ := (keeps_of_step (h m).toServerInv (ρ.next m)).kept i d hd
    exact ⟨e, he, hages.trans hages'⟩

theorem exists_handleClose (hstart : ρ.state 0 = start name listenAddr callbacks numThreads)
    (h : ∀ n, CleanupInv (ρ.state n)) {n : ℕ} {c : ServerConnection}
    (hc : (ρ.state n).conns i = some c) (hclosed : 0 < c.life.closings) :
    ∃ m l, (ρ.state m).task l = .handleClose i := by
  induction n generalizing c with
  | zero =>
    rw [hstart] at hc
    cases hc
  | succ n ih =>
    rcases (keeps_of_step (h n).toServerInv (ρ.next n)).closes i c hc hclosed with ht | hbefore
    · exact ⟨n + 1, ht⟩
    · obtain ⟨d, hd, hpos⟩ := hbefore
      exact ih hd hpos

/-- While the loops go on, every accepted connection is established in the end, and once. -/
theorem eventually_established (ρ : InfiniteRun step)
    (hstart : ρ.state 0 = start name listenAddr callbacks numThreads)
    (hfew : ∀ n, (ρ.state n).server.nextConnId_ ≤ 2147483648) (hgoes : GoesOn ρ) {n : ℕ}
    {c : ServerConnection} (hc : (ρ.state n).conns i = some c) :
    ∃ m, ∀ k, m ≤ k → ∃ d, (ρ.state k).conns i = some d ∧ d.established = 1 := by
  have hinv := cleanupInv_of_infiniteRun hstart hfew
  have hpos : ∃ m d, (ρ.state m).conns i = some d ∧ 0 < d.established := by
    have honce := ((hinv n).tracked i c hc).once
    rcases Nat.eq_zero_or_pos c.established with hzero | hpos
    · have hmem : .connectEstablished i ∈ (ρ.state n).pending c.ioLoop :=
        List.count_pos_iff.mp (by omega)
      obtain ⟨m, hm, he, hhead⟩ := hgoes.called hmem
      obtain ⟨rest, hcall⟩ := called_of_step (he ▸ ρ.next m) hhead
      obtain ⟨d, -, hcall⟩ := Option.bind_eq_some_iff.mp hcall
      have hconn := congrArg (fun s ↦ s.conns i) (Option.some.inj hcall)
      exact ⟨m + 1, _, hconn.symm.trans (Function.update_self ..), Nat.succ_pos _⟩
    · exact ⟨n, c, hc, hpos⟩
  obtain ⟨m, d, hd, hpos⟩ := hpos
  refine ⟨m, fun k hk ↦ ?_⟩
  obtain ⟨e, he, hages⟩ := kept_of_le hinv hk hd
  have honce := ((hinv k).tracked i e he).once
  have hle := hages.established
  exact ⟨e, he, by omega⟩

/-- While the loops go on, a connection that has run `handleClose` is destroyed in the end,
and `connections_` no longer has it. -/
theorem eventually_destroyed (ρ : InfiniteRun step)
    (hstart : ρ.state 0 = start name listenAddr callbacks numThreads)
    (hfew : ∀ n, (ρ.state n).server.nextConnId_ ≤ 2147483648) (hgoes : GoesOn ρ) {n : ℕ}
    {c : ServerConnection} (hc : (ρ.state n).conns i = some c) (hclosed : 0 < c.life.closings) :
    ∃ m, ∀ k, m ≤ k → (∃ d, (ρ.state k).conns i = some d ∧ d.destroyed = true) ∧
      ∀ name, (ρ.state k).server.connections_ name ≠ some i := by
  have hinv := cleanupInv_of_infiniteRun hstart hfew
  obtain ⟨m, l, ht⟩ := exists_handleClose hstart hinv hc hclosed
  obtain ⟨m, -, d, hd, hdestroyed⟩ := hgoes.destroyed ht
  refine ⟨m, fun k hk ↦ ?_⟩
  obtain ⟨e, he, hages⟩ := kept_of_le hinv hk hd
  refine ⟨⟨e, he, hages.destroyed hdestroyed⟩, fun name hname ↦ ?_⟩
  obtain ⟨f, hf, -, hkept⟩ := ((hinv k).registered.table name i).mp hname
  cases he.symm.trans hf
  have hremoved := ((hinv k).tracked i e he).destroyed (hages.destroyed hdestroyed)
  cases hremoved.symm.trans hkept

end Server

/-- A loop outside of the pool has nothing to do. -/
theorem ServerInv.rest_of_lt (h : ServerInv s) {n : ℕ}
    (hpool : ∀ i c, s.conns i = some c → c.ioLoop ≤ n) (hl : n < l) :
    s.task l = .idle ∧ s.pending l = [] := by
  constructor
  · cases ht : s.task l with
    | idle => rfl
    | handleClose i | connectDestroyed i =>
      obtain ⟨c, hc, hfits⟩ := h.running l i (by rw [ht]; rfl)
      rw [ht] at hfits
      have hle := hpool i c hc
      have hloop := hfits.1
      omega
    | removeConnectionInLoop i | erased i =>
      obtain ⟨c, hc, hfits⟩ := h.running l i (by rw [ht]; rfl)
      rw [ht] at hfits
      have hloop := hfits.1
      omega
  · rw [List.eq_nil_iff_forall_not_mem]
    intro f hf
    obtain ⟨c, hc, hfits⟩ := h.placed l f hf
    have hle := hpool f.conn c hc
    cases f with
    | connectEstablished i =>
      have hloop : c.ioLoop = l := hfits
      omega
    | removeConnectionInLoop i | connectDestroyed i =>
      have hloop := hfits.1
      omega

theorem step_connection_same {e : LifeEvent} {c : ServerConnection} (he : e.byServer = false)
    (hloop : e.ofLoop = false) (hc : s.conns i = some c) (hlife : c.life.step e = some c.life) :
    s.step (.connection i e) = some s := by
  have hsame : s.setConn i c = s := by
    rw [setConn, ← hc, Function.update_eq_self]
  simp [step, connectionStep, he, hloop, hc, hlife, hsame]

/-- The peer closes, and from then on a thread calls `shutdown`. -/
theorem rest_of_closedByPeer : ∃ (ρ : InfiniteRun step) (N : ℕ) (c : ServerConnection),
    ρ.state 0 = start ['s'] ⟨(0, 0, 0, 0), 80⟩ ⟨true, true, true, false⟩ 1 ∧
      (∀ n, (ρ.state n).server.nextConnId_ ≤ 2147483648) ∧ GoesOn ρ ∧
        (ρ.state N).conns 1 = some c ∧ 0 < c.life.closings := by
  have hrun : (run step (start ['s'] ⟨(0, 0, 0, 0), 80⟩ ⟨true, true, true, false⟩ 1)
      closedByPeer).map (fun s ↦ decide (s.server.nextConnId_ = 2 ∧
        (s.task 0 = .idle ∧ s.pending 0 = []) ∧ (s.task 1 = .idle ∧ s.pending 1 = []) ∧
          (s.conns 1).any (fun c ↦ decide (c.life.conn.state = .kDisconnected ∧
            c.life.caller 0 = .idle ∧ 0 < c.life.closings)))) = some true := by decide +kernel
  obtain ⟨s, hs, hend⟩ := Option.map_eq_some_iff.mp hrun
  obtain ⟨hnext, hbase, hio, hconn⟩ := of_decide_eq_true hend
  obtain ⟨c, hc, hconn⟩ := (Option.any_eq_true ..).mp hconn
  obtain ⟨hstate, hcaller, hclosed⟩ := of_decide_eq_true hconn
  have hstay : step s (.connection 1 (.thread 0 .shutdownTest)) = some s := by
    refine step_connection_same rfl rfl hc ?_
    simp [Life.step, Life.threadStep, hcaller, hstate]
  have hlast {n : ℕ} (hn : closedByPeer.length ≤ n) :
      (InfiniteRun.ofList closedByPeer _ hs hstay).state n = s :=
    InfiniteRun.ofList_state_of_le hs hstay hn
  refine ⟨.ofList closedByPeer _ hs hstay, closedByPeer.length, c, rfl, fun n ↦ ?_, ?_, ?_,
    hclosed⟩
  · refine (nextConnId_mono _ (Nat.le_add_right n closedByPeer.length)).trans ?_
    rw [hlast (Nat.le_add_left ..), hnext]
    decide
  · refine goesOn_of_rest (N := closedByPeer.length) fun n l hn ↦ ?_
    rw [hlast hn]
    rcases l with _ | _ | l
    · exact hbase
    · exact hio
    · have hinv : ServerInv s := (cleanupInv_of_run hs (by decide)).toServerInv
      have hdealt : Dealt 1 s :=
        run_preserves (fun _ _ _ h hstep ↦ h.step hstep) (dealt_start ..) hs
      refine hinv.rest_of_lt (fun i d hd ↦ ?_) (show 1 < l + 1 + 1 by omega)
      exact (hdealt.evenlySpread.pool Nat.one_pos i d hd).2
  · rw [hlast le_rfl]
    exact hc

theorem eventually_established_closedByPeer : ∃ ρ : InfiniteRun step,
    ρ.state 0 = start ['s'] ⟨(0, 0, 0, 0), 80⟩ ⟨true, true, true, false⟩ 1 ∧
      ∃ m, ∀ k, m ≤ k → ∃ d, (ρ.state k).conns 1 = some d ∧ d.established = 1 := by
  obtain ⟨ρ, N, c, hstart, hfew, hgoes, hc, -⟩ := rest_of_closedByPeer
  exact ⟨ρ, hstart, eventually_established ρ hstart hfew hgoes hc⟩

theorem eventually_destroyed_closedByPeer : ∃ ρ : InfiniteRun step,
    ρ.state 0 = start ['s'] ⟨(0, 0, 0, 0), 80⟩ ⟨true, true, true, false⟩ 1 ∧
      ∃ m, ∀ k, m ≤ k → (∃ d, (ρ.state k).conns 1 = some d ∧ d.destroyed = true) ∧
        ∀ name, (ρ.state k).server.connections_ name ≠ some 1 := by
  obtain ⟨ρ, N, c, hstart, hfew, hgoes, hc, hclosed⟩ := rest_of_closedByPeer
  exact ⟨ρ, hstart, eventually_destroyed ρ hstart hfew hgoes hc hclosed⟩

end ServerLoops

end Mymuduo.Net
