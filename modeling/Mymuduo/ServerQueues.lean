import Mymuduo.ServerTable

namespace Mymuduo.Net

namespace Life

/-- Before `connectEstablished` neither the loop nor the user knows a connection. -/
structure Unborn (s : Life) : Prop where
  state : s.conn.state = .kConnecting
  epoll : s.conn.poller.epoll s.conn.channel.fd = none
  ready : s.ready = none
  dispatching : s.dispatching = []
  pending : s.conn.pending = []
  destroying : s.destroying = none
  caller : ∀ t, s.caller t = .idle
  closings : s.closings = 0

theorem unborn_start (fd ptr : ℕ) (callbacks : Callbacks) (mem : Mem) :
    (start (.new fd ptr .empty callbacks) mem).Unborn :=
  ⟨rfl, rfl, rfl, rfl, rfl, rfl, fun _ ↦ rfl, rfl⟩

variable {s s' : Life}

theorem Unborn.step (h : s.Unborn) {e : LifeEvent} (he : e.byServer = false)
    (hstep : s.step e = some s') : s'.Unborn := by
  have hclosed : s.conn.state ≠ .kConnected ∧ s.conn.state ≠ .kDisconnecting := by simp [h.state]
  cases steps_of_step hstep with
  | poll _ hpoll => simp [h.epoll] at hpoll
  | handleEvent _ hready => simp [h.ready] at hready
  | callback _ hdispatching => simp [h.dispatching] at hdispatching
  | destroyFunctor _ hpending | runFunctor _ hpending => simp [h.pending] at hpending
  | shutdown =>
    rw [TcpConnection.shutdown, if_neg hclosed.1]
    exact h
  | forceClose =>
    rw [TcpConnection.forceClose, if_neg (not_or.mpr hclosed)]
    exact h
  | send _ hstate | sendTest hstate | shutdownTest hstate => exact (hclosed.1 hstate).elim
  | forceCloseTest hstate => exact (not_or.mpr hclosed hstate).elim
  | sendQueue hcaller | shutdownStore hcaller | shutdownQueue hcaller | forceCloseStore hcaller
  | forceCloseQueue hcaller => simp [h.caller] at hcaller
  | connectDestroyed | queueConnectDestroyed | destroyTested => cases he
  | sendIgnored | testFailed => exact h
  | write => exact ⟨h.state, h.epoll, h.ready, h.dispatching, h.pending, h.destroying, h.caller,
      h.closings⟩

end Life

def ServerFunctor.Fits (l : ℕ) (c : ServerConnection) : ServerFunctor → Prop
  | connectEstablished _ => c.ioLoop = l
  | removeConnectionInLoop _ => l = 0 ∧ 0 < c.established
  | connectDestroyed _ => c.ioLoop = l ∧ c.removed = true

def ServerTask.Fits (l : ℕ) (c : ServerConnection) : ServerTask → Prop
  | idle => True
  | handleClose _ => c.ioLoop = l ∧ 0 < c.established
  | removeConnectionInLoop _ => l = 0 ∧ 0 < c.established
  | erased _ => l = 0 ∧ c.removed = true
  | connectDestroyed _ => c.ioLoop = l ∧ c.removed = true

namespace ServerLoops

def Placed (conns : ℕ → Option ServerConnection) (pending : ℕ → List ServerFunctor) : Prop :=
  ∀ l, ∀ f ∈ pending l, ∃ c, conns f.conn = some c ∧ f.Fits l c

def Running (conns : ℕ → Option ServerConnection) (task : ℕ → ServerTask) : Prop :=
  ∀ l i, (task l).conn = some i → ∃ c, conns i = some c ∧ (task l).Fits l c

/-- How far a connection has come, and what is still to be done with it. -/
structure Tracked (pending : ℕ → List ServerFunctor) (task : ℕ → ServerTask) (i : ℕ)
    (c : ServerConnection) : Prop where
  once : (pending c.ioLoop).count (.connectEstablished i) + c.established = 1
  unborn : c.established = 0 → c.life.Unborn ∧ c.removed = false
  unqueued : .connectDestroyed ∉ c.life.conn.pending
  destroying : c.life.destroying ≠ none → task c.ioLoop = .connectDestroyed i
  owed : c.removed = true → task 0 = .erased i ∨ .connectDestroyed i ∈ pending c.ioLoop ∨
    task c.ioLoop = .connectDestroyed i ∨ c.destroyed = true
  destroyed : c.destroyed = true → c.removed = true

variable {conns conns' : ℕ → Option ServerConnection} {pending : ℕ → List ServerFunctor}
  {task : ℕ → ServerTask} {i : ℕ} {c : ServerConnection}

theorem Placed.fits (h : Placed conns pending) {l : ℕ} {f : ServerFunctor} (hf : f ∈ pending l)
    (hc : conns f.conn = some c) : f.Fits l c := by
  obtain ⟨d, hd, hfits⟩ := h l f hf
  cases hd.symm.trans hc
  exact hfits

theorem Running.fits (h : Running conns task) {l : ℕ} {t : ServerTask} (ht : task l = t)
    (hi : t.conn = some i) (hc : conns i = some c) : t.Fits l c := by
  subst ht
  obtain ⟨d, hd, hfits⟩ := h l i hi
  cases hd.symm.trans hc
  exact hfits

theorem Placed.later (h : Placed conns pending)
    (hl : ∀ j d, conns j = some d → ∃ d', conns' j = some d' ∧ Later d d') :
    Placed conns' pending := by
  intro l f hf
  obtain ⟨c, hc, hfits⟩ := h l f hf
  obtain ⟨c', hc', hlater⟩ := hl f.conn c hc
  refine ⟨c', hc', ?_⟩
  cases f with
  | connectEstablished => exact hlater.ioLoop.trans hfits
  | removeConnectionInLoop => exact ⟨hfits.1, Nat.lt_of_lt_of_le hfits.2 hlater.established⟩
  | connectDestroyed => exact ⟨hlater.ioLoop.trans hfits.1, hlater.removed hfits.2⟩

theorem Running.later (h : Running conns task)
    (hl : ∀ j d, conns j = some d → ∃ d', conns' j = some d' ∧ Later d d') :
    Running conns' task := by
  intro l i hi
  obtain ⟨c, hc, hfits⟩ := h l i hi
  obtain ⟨c', hc', hlater⟩ := hl i c hc
  refine ⟨c', hc', ?_⟩
  revert hfits
  cases task l with
  | idle => exact id
  | handleClose =>
    exact fun h ↦ ⟨hlater.ioLoop.trans h.1, Nat.lt_of_lt_of_le h.2 hlater.established⟩
  | removeConnectionInLoop => exact fun h ↦ ⟨h.1, Nat.lt_of_lt_of_le h.2 hlater.established⟩
  | erased => exact fun h ↦ ⟨h.1, hlater.removed h.2⟩
  | connectDestroyed => exact fun h ↦ ⟨hlater.ioLoop.trans h.1, hlater.removed h.2⟩

theorem Placed.push (h : Placed conns pending) {l : ℕ} {f : ServerFunctor}
    {q : List ServerFunctor} (hq : q.Perm (f :: pending l))
    (hf : ∃ c, conns f.conn = some c ∧ f.Fits l c) :
    Placed conns (Function.update pending l q) := by
  intro k g hg
  by_cases hk : k = l
  · subst hk
    rw [Function.update_self, hq.mem_iff, List.mem_cons] at hg
    rcases hg with rfl | hg
    · exact hf
    · exact h k g hg
  · rw [Function.update_of_ne hk] at hg
    exact h k g hg

theorem Placed.pop (h : Placed conns pending) {l : ℕ} {f : ServerFunctor}
    {rest : List ServerFunctor} (hp : pending l = f :: rest) :
    Placed conns (Function.update pending l rest) := by
  intro k g hg
  by_cases hk : k = l
  · subst hk
    rw [Function.update_self] at hg
    exact h k g (by simp [hp, hg])
  · rw [Function.update_of_ne hk] at hg
    exact h k g hg

theorem Running.setTask (h : Running conns task) {l : ℕ} {t : ServerTask}
    (ht : ∀ i, t.conn = some i → ∃ c, conns i = some c ∧ t.Fits l c) :
    Running conns (Function.update task l t) := by
  intro k j hj
  by_cases hk : k = l
  · subst hk
    simp only [Function.update_self] at hj ⊢
    exact ht j hj
  · simp only [Function.update_of_ne hk] at hj ⊢
    exact h k j hj

/-- A change of the queues that neither queues nor runs the connection's
`connectEstablished`. -/
theorem Tracked.requeue (h : Tracked pending task i c) {pending' : ℕ → List ServerFunctor}
    (hcount : (pending' c.ioLoop).count (.connectEstablished i) =
      (pending c.ioLoop).count (.connectEstablished i))
    (hmem : .connectDestroyed i ∈ pending c.ioLoop →
      .connectDestroyed i ∈ pending' c.ioLoop ∨ task c.ioLoop = .connectDestroyed i) :
    Tracked pending' task i c where
  once := by rw [hcount, h.once]
  unborn := h.unborn
  unqueued := h.unqueued
  destroying := h.destroying
  owed hr := by
    rcases h.owed hr with herased | hqueued | hrest
    · exact .inl herased
    · exact .inr ((hmem hqueued).imp_right .inl)
    · exact .inr (.inr hrest)
  destroyed := h.destroyed

theorem Tracked.push (h : Tracked pending task i c) {l : ℕ} {f : ServerFunctor}
    {q : List ServerFunctor} (hq : q.Perm (f :: pending l)) (hf : f ≠ .connectEstablished i) :
    Tracked (Function.update pending l q) task i c := by
  by_cases hl : c.ioLoop = l
  · subst hl
    refine h.requeue ?_ fun hmem ↦ .inl ?_
    · rw [Function.update_self, hq.count_eq, List.count_cons_of_ne hf]
    · rw [Function.update_self, hq.mem_iff]
      exact List.mem_cons_of_mem _ hmem
  · refine h.requeue ?_ fun hmem ↦ .inl ?_
    · rw [Function.update_of_ne hl]
    · rwa [Function.update_of_ne hl]

theorem Tracked.pop (h : Tracked pending task i c) {l : ℕ} {f : ServerFunctor}
    {rest : List ServerFunctor} (hp : pending l = f :: rest) (hf : f ≠ .connectEstablished i)
    (hd : f = .connectDestroyed i → task l = .connectDestroyed i) :
    Tracked (Function.update pending l rest) task i c := by
  by_cases hl : c.ioLoop = l
  · subst hl
    refine h.requeue ?_ fun hmem ↦ ?_
    · rw [Function.update_self, hp, List.count_cons_of_ne hf]
    · rw [Function.update_self]
      rw [hp, List.mem_cons] at hmem
      exact hmem.symm.imp_right fun hf' ↦ hd hf'.symm
  · refine h.requeue ?_ fun hmem ↦ .inl ?_
    · rw [Function.update_of_ne hl]
    · rwa [Function.update_of_ne hl]

theorem Tracked.setTask (h : Tracked pending task i c) {l : ℕ} {t : ServerTask}
    (herased : task l = .erased i → .connectDestroyed i ∈ pending c.ioLoop)
    (hdestroyed : task l = .connectDestroyed i →
      c.life.destroying = none ∧ c.destroyed = true) :
    Tracked pending (Function.update task l t) i c where
  once := h.once
  unborn := h.unborn
  unqueued := h.unqueued
  destroying hd := by
    have htask := h.destroying hd
    have hl : c.ioLoop ≠ l := by
      rintro rfl
      exact hd (hdestroyed htask).1
    exact (Function.update_of_ne hl ..).trans htask
  owed hr := by
    rcases h.owed hr with ht | hqueued | ht | hdone
    · by_cases hl : 0 = l
      · subst hl
        exact .inr (.inl (herased ht))
      · exact .inl ((Function.update_of_ne hl ..).trans ht)
    · exact .inr (.inl hqueued)
    · by_cases hl : c.ioLoop = l
      · subst hl
        exact .inr (.inr (.inr (hdestroyed ht).2))
      · exact .inr (.inr (.inl ((Function.update_of_ne hl ..).trans ht)))
    · exact .inr (.inr (.inr hdone))
  destroyed := h.destroyed

theorem Tracked.established_pos (h : Tracked pending task i c) (hr : c.removed = true) :
    0 < c.established := by
  by_contra hz
  have hkept := (h.unborn (by omega)).2
  simp [hr] at hkept

theorem Tracked.setLife (h : Tracked pending task i c) {life : Life}
    (hunborn : c.established = 0 → life.Unborn) (hunqueued : .connectDestroyed ∉ life.conn.pending)
    (hdestroying : life.destroying ≠ none → task c.ioLoop = .connectDestroyed i) :
    Tracked pending task i { c with life := life } :=
  ⟨h.once, fun hz ↦ ⟨hunborn hz, (h.unborn hz).2⟩, hunqueued, hdestroying, h.owed, h.destroyed⟩

end ServerLoops

end Mymuduo.Net
