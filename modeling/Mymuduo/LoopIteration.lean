import Mymuduo.SharedPoller
import Mathlib.Algebra.Order.Ring.Nat
import Mathlib.Data.List.Nodup

namespace Mymuduo.Net

open Execution

/-- Where the loop thread stands: at the channel `current` with the rest of
`activeChannels_` before it, or in `doPendingFunctors`, perhaps inside a
`connectDestroyed`. -/
inductive IterationPc
  | polling
  | handling (current : Option ℕ) (activeChannels : List ℕ)
  | functors (destroying : Option ℕ)
deriving DecidableEq, Repr

namespace IterationPc

def active : IterationPc → List ℕ
  | handling _ active => active
  | _ => []

def current : IterationPc → Option ℕ
  | handling current _ => current
  | _ => none

def destroying : IterationPc → Option ℕ
  | functors destroying => destroying
  | _ => none

def held (pc : IterationPc) : List ℕ := pc.current.toList ++ pc.active

end IterationPc

def LifeEvent.isUserCall : LifeEvent → Bool
  | loop (.send _ _ _) | loop .shutdown | loop .forceClose => true
  | _ => false

def LifeEvent.isOutside : LifeEvent → Bool
  | thread _ _ | queueConnectDestroyed | write _ => true
  | _ => false

/-- `size` is `events_.size()`. -/
structure Iteration where
  shared : SharedPoller
  pc : IterationPc
  size : ℕ

inductive IterationEvent
  | poll (ready : List (ℕ × BitVec 32))
  | handleEvent
  | callback (r : ReadResult) (w : WriteResult)
  | handled
  | doPendingFunctors
  | runFunctor (ptr : ℕ) (n : WriteResult)
  | connectDestroyed (ptr : ℕ)
  | destroyTested
  | drained
  | newConnection (ptr fd : ℕ) (callbacks : Callbacks) (mem : Mem)
  | connectEstablished (ptr : ℕ)
  | call (ptr : ℕ) (e : LifeEvent)
  | destructor (ptr : ℕ)

namespace Iteration

def kInitEventListSize : ℕ := 16

def start : Iteration := ⟨.start, .polling, kInitEventListSize⟩

variable (s : Iteration)

def fillActiveChannels (reported : List (ℕ × BitVec 32)) : List ℕ :=
  (reported.map Prod.fst).filterMap fun fd ↦ (s.shared.poller.epoll fd).map Prod.snd

/-- `epoll_wait` reports as many of the ready descriptors as `events_` has room for. -/
def poll (ready : List (ℕ × BitVec 32)) : Option Iteration :=
  let reported := ready.take s.size
  (run SharedPoller.step s.shared (reported.map fun e ↦ .poll e.1 e.2)).map fun shared ↦
    { shared := shared
      pc := .handling none (s.fillActiveChannels reported)
      size := if reported.length = s.size then s.size * 2 else s.size }

def on (e : ConnectionEvent) (pc : IterationPc) : Option Iteration :=
  (s.shared.step e).map fun shared ↦ { s with shared := shared, pc := pc }

def startsDestroying (shared : SharedPoller) (ptr : ℕ) : Option ℕ :=
  if (shared.conns ptr).any (·.life.destroying.isSome) then some ptr else none

/-- The kernel reports descriptors of its set, each of them once. -/
def step (s : Iteration) (e : IterationEvent) : Option Iteration :=
  match e, s.pc with
  | .poll ready, .polling =>
    if (ready.map Prod.fst).Nodup ∧ ready.all (fun e ↦ (s.shared.poller.epoll e.1).isSome) then
      s.poll ready
    else none
  | .handleEvent, .handling none (ptr :: active) =>
    s.on (.step ptr (.loop .handleEvent)) (.handling (some ptr) active)
  | .callback r w, .handling (some ptr) _ => s.on (.step ptr (.loop (.callback r w))) s.pc
  | .handled, .handling (some ptr) active =>
    if (s.shared.conns ptr).all (·.life.dispatching.isEmpty) then
      some { s with pc := .handling none active }
    else none
  | .doPendingFunctors, .handling none [] => some { s with pc := .functors none }
  | .runFunctor ptr n, .functors none =>
    (s.shared.step (.step ptr (.loop (.runFunctor n)))).map fun shared ↦
      { s with shared := shared, pc := .functors (startsDestroying shared ptr) }
  | .connectDestroyed ptr, .functors none =>
    s.on (.step ptr (.loop .connectDestroyed)) (.functors (some ptr))
  | .destroyTested, .functors (some ptr) => s.on (.step ptr .destroyTested) (.functors none)
  | .drained, .functors none => some { s with pc := .polling }
  | .newConnection ptr fd callbacks mem, pc => s.on (.newConnection ptr fd callbacks mem) pc
  | .connectEstablished ptr, pc => if pc = .polling then none else s.on (.connectEstablished ptr) pc
  | .call ptr e, pc =>
    if e.isOutside ∨ e.isUserCall ∧ pc ≠ .polling then s.on (.step ptr e) pc else none
  | .destructor ptr, pc => s.on (.destructor ptr) pc
  | _, _ => none

/-- A `connectDestroyed` is the last word on its connection. -/
def DestroysForGood : IterationEvent → Prop
  | .destroyTested => ∀ ptr ∈ s.pc.destroying, ∀ c ∈ s.shared.conns ptr, c.life.DestroysForGood
  | _ => True

/-- The loop follows no dangling address, and is never held up. -/
structure Sound : Prop where
  safe : s.shared.Safe
  live : ∀ ptr ∈ s.pc.held, ∃ c ∈ s.shared.conns ptr, c.stage ≠ .destroyed
  handleEvent : ∀ ptr active, s.pc = .handling none (ptr :: active) → (s.step .handleEvent).isSome
  poll : ∀ ready, s.pc = .polling → (ready.map Prod.fst).Nodup →
    ready.all (fun e ↦ (s.shared.poller.epoll e.1).isSome) → (s.step (.poll ready)).isSome

inductive Steps : IterationEvent → Iteration → Prop
  | poll {ready : List (ℕ × BitVec 32)} {s' : Iteration} (hpc : s.pc = .polling)
      (hnodup : (ready.map Prod.fst).Nodup)
      (hregistered : ready.all fun e ↦ (s.shared.poller.epoll e.1).isSome)
      (h : s.poll ready = some s') : Steps (.poll ready) s'
  | handleEvent {ptr : ℕ} {active : List ℕ} {shared : SharedPoller}
      (hpc : s.pc = .handling none (ptr :: active))
      (h : s.shared.step (.step ptr (.loop .handleEvent)) = some shared) :
      Steps .handleEvent { s with shared := shared, pc := .handling (some ptr) active }
  | callback {r : ReadResult} {w : WriteResult} {ptr : ℕ} {active : List ℕ} {shared : SharedPoller}
      (hpc : s.pc = .handling (some ptr) active)
      (h : s.shared.step (.step ptr (.loop (.callback r w))) = some shared) :
      Steps (.callback r w) { s with shared := shared }
  | handled {ptr : ℕ} {active : List ℕ} (hpc : s.pc = .handling (some ptr) active)
      (h : (s.shared.conns ptr).all (·.life.dispatching.isEmpty)) :
      Steps .handled { s with pc := .handling none active }
  | doPendingFunctors (hpc : s.pc = .handling none []) :
      Steps .doPendingFunctors { s with pc := .functors none }
  | runFunctor {ptr : ℕ} {n : WriteResult} {shared : SharedPoller} (hpc : s.pc = .functors none)
      (h : s.shared.step (.step ptr (.loop (.runFunctor n))) = some shared) :
      Steps (.runFunctor ptr n)
        { s with shared := shared, pc := .functors (startsDestroying shared ptr) }
  | connectDestroyed {ptr : ℕ} {shared : SharedPoller} (hpc : s.pc = .functors none)
      (h : s.shared.step (.step ptr (.loop .connectDestroyed)) = some shared) :
      Steps (.connectDestroyed ptr) { s with shared := shared, pc := .functors (some ptr) }
  | destroyTested {ptr : ℕ} {shared : SharedPoller} (hpc : s.pc = .functors (some ptr))
      (h : s.shared.step (.step ptr .destroyTested) = some shared) :
      Steps .destroyTested { s with shared := shared, pc := .functors none }
  | drained (hpc : s.pc = .functors none) : Steps .drained { s with pc := .polling }
  | newConnection {ptr fd : ℕ} {callbacks : Callbacks} {mem : Mem} {shared : SharedPoller}
      (h : s.shared.step (.newConnection ptr fd callbacks mem) = some shared) :
      Steps (.newConnection ptr fd callbacks mem) { s with shared := shared }
  | connectEstablished {ptr : ℕ} {shared : SharedPoller}
      (h : s.shared.step (.connectEstablished ptr) = some shared) :
      Steps (.connectEstablished ptr) { s with shared := shared }
  | call {ptr : ℕ} {e : LifeEvent} {shared : SharedPoller}
      (he : e.isOutside = true ∨ e.isUserCall = true)
      (h : s.shared.step (.step ptr e) = some shared) :
      Steps (.call ptr e) { s with shared := shared }
  | destructor {ptr : ℕ} {shared : SharedPoller}
      (h : s.shared.step (.destructor ptr) = some shared) :
      Steps (.destructor ptr) { s with shared := shared }

variable {s} {s' : Iteration}

theorem steps_of_step {e : IterationEvent} (hstep : s.step e = some s') : s.Steps e s' := by
  simp only [step] at hstep
  split at hstep
  case h_1 hpc =>
    split_ifs at hstep with hready
    exact .poll hpc hready.1 hready.2 hstep
  case h_2 hpc =>
    obtain ⟨shared, h, rfl⟩ := Option.map_eq_some_iff.mp hstep
    exact .handleEvent hpc h
  case h_3 hpc =>
    obtain ⟨shared, h, rfl⟩ := Option.map_eq_some_iff.mp hstep
    exact .callback hpc h
  case h_4 hpc =>
    split_ifs at hstep with h
    cases Option.some.inj hstep
    exact .handled hpc h
  case h_5 hpc =>
    cases Option.some.inj hstep
    exact .doPendingFunctors hpc
  case h_6 hpc =>
    obtain ⟨shared, h, rfl⟩ := Option.map_eq_some_iff.mp hstep
    exact .runFunctor hpc h
  case h_7 hpc =>
    obtain ⟨shared, h, rfl⟩ := Option.map_eq_some_iff.mp hstep
    exact .connectDestroyed hpc h
  case h_8 hpc =>
    obtain ⟨shared, h, rfl⟩ := Option.map_eq_some_iff.mp hstep
    exact .destroyTested hpc h
  case h_9 hpc =>
    cases Option.some.inj hstep
    exact .drained hpc
  case h_10 =>
    obtain ⟨shared, h, rfl⟩ := Option.map_eq_some_iff.mp hstep
    exact .newConnection h
  case h_11 =>
    split_ifs at hstep
    obtain ⟨shared, h, rfl⟩ := Option.map_eq_some_iff.mp hstep
    exact .connectEstablished h
  case h_12 =>
    split_ifs at hstep with he
    obtain ⟨shared, h, rfl⟩ := Option.map_eq_some_iff.mp hstep
    exact .call (he.imp_right And.left) h
  case h_13 =>
    obtain ⟨shared, h, rfl⟩ := Option.map_eq_some_iff.mp hstep
    exact .destructor h
  case h_14 => cases hstep

end Iteration

namespace LoopConnection

variable {c c' : LoopConnection} {p : EpollPoller} {pc pc' : IterationPc} {ptr : ℕ}

/-- What the loop has to do with a connection, and what the connection knows of it. -/
structure Fits (pc : IterationPc) (ptr : ℕ) (c : LoopConnection) : Prop where
  ready : c.life.ready.isSome ↔ ptr ∈ pc.active
  dispatching : c.life.dispatching ≠ [] → pc.current = some ptr
  destroying : c.life.destroying.isSome → pc.destroying = some ptr

theorem Fits.of_eq (h : Fits pc ptr c) (hready : c'.life.ready = c.life.ready)
    (hdispatching : c'.life.dispatching = c.life.dispatching)
    (hdestroying : c'.life.destroying = c.life.destroying) : Fits pc ptr c' := by
  constructor
  · rw [hready]
    exact h.ready
  · rw [hdispatching]
    exact h.dispatching
  · rw [hdestroying]
    exact h.destroying

theorem Fits.idle (h : Fits .polling ptr c) :
    c.life.ready = none ∧ c.life.dispatching = [] ∧ c.life.destroying = none := by
  refine ⟨?_, ?_, ?_⟩
  · simpa [IterationPc.active] using h.ready
  · simpa [IterationPc.current] using h.dispatching
  · simpa [IterationPc.destroying] using h.destroying

/-- A call changes nothing of what the loop has to do with the connection. -/
theorem step_call {e : LifeEvent} (he : e.isOutside = true ∨ e.isUserCall = true)
    (hstep : c.step p e = some c') : c'.life.ready = c.life.ready ∧
      c'.life.dispatching = c.life.dispatching ∧ c'.life.destroying = c.life.destroying ∧
        c'.stage = c.stage := by
  obtain ⟨life, hlife, rfl⟩ := Option.map_eq_some_iff.mp hstep
  cases Life.steps_of_step hlife with
  | poll | handleEvent | callback | destroyFunctor | runFunctor | connectDestroyed
  | destroyTested => rcases he with he | he <;> cases he
  | send | sendIgnored | shutdown | forceClose | sendTest | sendQueue | shutdownTest
  | shutdownStore | shutdownQueue | forceCloseTest | forceCloseStore | forceCloseQueue
  | testFailed | queueConnectDestroyed | write => exact ⟨rfl, rfl, rfl, rfl⟩

theorem step_runFunctor {n : WriteResult} (hstep : c.step p (.loop (.runFunctor n)) = some c') :
    c'.life.ready = c.life.ready ∧ c'.life.dispatching = c.life.dispatching := by
  obtain ⟨life, hlife, rfl⟩ := Option.map_eq_some_iff.mp hstep
  exact Life.step_isCall (s := c.life.withPoller p) rfl hlife

theorem step_connectDestroyed (hstep : c.step p (.loop .connectDestroyed) = some c') :
    c'.life.ready = c.life.ready ∧ c'.life.dispatching = c.life.dispatching := by
  obtain ⟨life, hlife, rfl⟩ := Option.map_eq_some_iff.mp hstep
  exact Life.step_isCall (s := c.life.withPoller p) rfl hlife

theorem step_destroyTested (hstep : c.step p .destroyTested = some c') :
    c'.life.ready = c.life.ready ∧ c'.life.dispatching = c.life.dispatching ∧
      c'.life.destroying = none := by
  obtain ⟨life, hlife, rfl⟩ := Option.map_eq_some_iff.mp hstep
  obtain ⟨hready, hdispatching⟩ := Life.step_isCall (s := c.life.withPoller p) rfl hlife
  cases Life.steps_of_step hlife with
  | destroyTested => exact ⟨hready, hdispatching, rfl⟩

theorem step_callback {r : ReadResult} {w : WriteResult}
    (hstep : c.step p (.loop (.callback r w)) = some c') : c'.life.ready = c.life.ready ∧
      c'.life.destroying = c.life.destroying ∧ c'.stage = c.stage := by
  obtain ⟨life, hlife, rfl⟩ := Option.map_eq_some_iff.mp hstep
  cases Life.steps_of_step hlife with
  | callback => exact ⟨rfl, rfl, rfl⟩

theorem step_handleEvent (hstep : c.step p (.loop .handleEvent) = some c') :
    c'.life.ready = none ∧ c'.life.destroying = none ∧ c'.stage = c.stage := by
  obtain ⟨life, hlife, rfl⟩ := Option.map_eq_some_iff.mp hstep
  cases Life.steps_of_step hlife with
  | handleEvent hd => exact ⟨rfl, hd, rfl⟩

theorem step_handleEvent_isSome (hready : c.life.ready.isSome)
    (hdispatching : c.life.dispatching = [])
    (hdestroying : c.life.destroying = none) : (c.step p (.loop .handleEvent)).isSome := by
  obtain ⟨revents, hrevents⟩ := Option.isSome_iff_exists.mp hready
  have hdestroying : (c.life.withPoller p).destroying = none := hdestroying
  have hrevents : (c.life.withPoller p).ready = some revents := hrevents
  have hdispatching : (c.life.withPoller p).dispatching = [] := hdispatching
  simp only [step, Life.step, hdestroying, if_true, Life.loopStep, hrevents, hdispatching,
    Option.map_some, Option.isSome_some]

def reported (c : LoopConnection) (p : EpollPoller) (revents : BitVec 32) : LoopConnection where
  life := { c.life.withPoller p with ready := some revents }
  stage := c.stage

theorem step_poll (hready : c.life.ready = none) (hdispatching : c.life.dispatching = [])
    (hdestroying : c.life.destroying = none) (hepoll : (p.epoll c.channel.fd).isSome)
    (revents : BitVec 32) : c.step p (.loop (.poll revents)) = some (c.reported p revents) := by
  have hlife : (c.life.withPoller p).step (.loop (.poll revents)) =
      some { c.life.withPoller p with ready := some revents } := by
    rw [Life.step, if_pos (show (c.life.withPoller p).destroying = none from hdestroying)]
    exact if_pos ⟨hready, hdispatching, hepoll⟩
  rw [step, hlife]
  rfl

end LoopConnection

namespace SharedPoller

variable {s s' : SharedPoller}

/-- `poll` has marked the channels at `ptrs`, and nothing else has changed. -/
structure Reports (ptrs : List ℕ) (s s' : SharedPoller) : Prop where
  back : ∀ ptr, ∀ c' ∈ s'.conns ptr, ∃ c ∈ s.conns ptr,
    (c'.life.ready.isSome ↔ c.life.ready.isSome ∨ ptr ∈ ptrs) ∧
      c'.life.dispatching = c.life.dispatching ∧ c'.life.destroying = c.life.destroying
  forth : ∀ ptr, ∀ c ∈ s.conns ptr, ∃ c' ∈ s'.conns ptr, c'.stage = c.stage

theorem Reports.trans {ptrs ptrs' : List ℕ} {s'' : SharedPoller} (h : Reports ptrs s s')
    (h' : Reports ptrs' s' s'') : Reports (ptrs ++ ptrs') s s'' where
  back ptr c'' hc'' := by
    obtain ⟨c', hc', hready', hdispatching', hdestroying'⟩ := h'.back ptr c'' hc''
    obtain ⟨c, hc, hready, hdispatching, hdestroying⟩ := h.back ptr c' hc'
    refine ⟨c, hc, ?_, hdispatching'.trans hdispatching, hdestroying'.trans hdestroying⟩
    rw [hready', hready, List.mem_append, or_assoc]
  forth ptr c hc := by
    obtain ⟨c', hc', hstage⟩ := h.forth ptr c hc
    obtain ⟨c'', hc'', hstage'⟩ := h'.forth ptr c' hc'
    exact ⟨c'', hc'', hstage'.trans hstage⟩

theorem reports_put {ptr : ℕ} {c : LoopConnection} (hc : c ∈ s.conns ptr) (revents : BitVec 32) :
    Reports [ptr] s (s.put ptr (c.reported s.poller revents)) where
  back ptr' d hd := by
    rcases update_eq_some hd with ⟨rfl, rfl⟩ | ⟨hne, hd⟩
    · exact ⟨c, hc, by simp [LoopConnection.reported], rfl, rfl⟩
    · exact ⟨d, hd, by simp [hne], rfl, rfl⟩
  forth ptr' d hd := by
    by_cases hne : ptr' = ptr
    · subst hne
      cases Option.mem_unique hc hd
      exact ⟨_, Function.update_self .., rfl⟩
    · exact ⟨d, (Function.update_of_ne hne ..).trans hd, rfl⟩

def Unreported (s : SharedPoller) (fd : ℕ) : Prop :=
  ∃ mask ptr c, s.poller.epoll fd = some (mask, ptr) ∧ c ∈ s.conns ptr ∧ c.channel.fd = fd ∧
    c.life.ready = none ∧ c.life.dispatching = [] ∧ c.life.destroying = none

theorem Unreported.put {fd ptr : ℕ} {c c' : LoopConnection} (h : s.Unreported fd)
    (hc : c ∈ s.conns ptr) (hfd : c.channel.fd ≠ fd)
    (hpoller : c'.life.conn.poller = s.poller) : (s.put ptr c').Unreported fd := by
  obtain ⟨mask, ptr', d, hepoll, hd, hdfd, hidle⟩ := h
  have hne : ptr' ≠ ptr := fun heq ↦ by
    subst heq
    cases Option.mem_unique hc hd
    exact hfd hdfd
  refine ⟨mask, ptr', d, ?_, (Function.update_of_ne hne ..).trans hd, hdfd, hidle⟩
  exact (congrArg (·.epoll fd) hpoller).trans hepoll

/-- `fillActiveChannels` over what `epoll_wait` has reported. -/
theorem run_poll {reported : List (ℕ × BitVec 32)} (h : s.Inv)
    (hnodup : (reported.map Prod.fst).Nodup) (hunreported : ∀ e ∈ reported, s.Unreported e.1) :
    ∃ s', run step s (reported.map fun e ↦ .poll e.1 e.2) = some s' ∧ s'.Inv ∧
      Reports ((reported.map Prod.fst).filterMap fun fd ↦ (s.poller.epoll fd).map Prod.snd)
        s s' := by
  induction reported generalizing s with
  | nil =>
    refine ⟨s, rfl, h, fun ptr c hc ↦ ⟨c, hc, ?_, rfl, rfl⟩, fun ptr c hc ↦ ⟨c, hc, rfl⟩⟩
    exact (or_iff_left List.not_mem_nil).symm
  | cons e reported ih =>
    obtain ⟨fd, revents⟩ := e
    obtain ⟨⟨mask, ptr, c, hepoll, hc, hfd, hready, hdispatching, hdestroying⟩, hrest⟩ :=
      List.forall_mem_cons.mp hunreported
    obtain ⟨hnotin, hnodup⟩ := List.nodup_cons.mp hnodup
    have hregistered : (s.poller.epoll c.channel.fd).isSome := by simp [hfd, hepoll]
    have hstep : s.step (.poll fd revents) = some (s.put ptr (c.reported s.poller revents)) := by
      simp only [step, hepoll, Option.bind_some, Option.mem_def.mp hc,
        LoopConnection.step_poll hready hdispatching hdestroying hregistered, Option.map_some]
    obtain ⟨s', hrun, hinv, hreports⟩ :=
      ih (step_inv (e := .poll fd revents) h trivial hstep) hnodup fun e he ↦ by
      refine (hrest e he).put hc (fun heq ↦ hnotin ?_) rfl
      exact List.mem_map.mpr ⟨e, he, heq.symm.trans hfd⟩
    refine ⟨s', run_cons_eq_some.mpr ⟨_, hstep, hrun⟩, hinv, ?_⟩
    have hptr : (s.poller.epoll fd).map Prod.snd = some ptr := by simp [hepoll]
    rw [List.map_cons, List.filterMap_cons_some (f := fun fd ↦ (s.poller.epoll fd).map _) hptr]
    exact (reports_put hc revents).trans hreports

/-- What a step of one connection's life does to the objects. -/
theorem step_cases {ptr : ℕ} {e : LifeEvent} (hstep : s.step (.step ptr e) = some s') :
    ∃ c ∈ s.conns ptr, ∃ c', c.step s.poller e = some c' ∧ s' = s.put ptr c' := by
  simp only [step] at hstep
  split_ifs at hstep
  obtain ⟨c, hc, hstep⟩ := Option.bind_eq_some_iff.mp hstep
  obtain ⟨c', hc', rfl⟩ := Option.map_eq_some_iff.mp hstep
  exact ⟨c, hc, c', hc', rfl⟩

end SharedPoller

namespace Iteration

open LoopConnection

structure Inv (s : Iteration) : Prop where
  shared : s.shared.Inv
  fits : ∀ ptr, ∀ c ∈ s.shared.conns ptr, Fits s.pc ptr c
  nodup : s.pc.active.Nodup
  live : ∀ ptr ∈ s.pc.held, ∃ c ∈ s.shared.conns ptr, c.stage ≠ .destroyed

theorem inv_start : start.Inv where
  shared := SharedPoller.inv_start
  fits _ _ h := by cases h
  nodup := List.nodup_nil
  live _ h := by cases h

variable {s s' : Iteration}

/-- A step of one connection, after which the loop stands at `pc`. -/
theorem Inv.put (h : s.Inv) {pc : IterationPc} {ptr : ℕ} {c' : LoopConnection}
    (hshared : (s.shared.put ptr c').Inv) (hself : Fits pc ptr c')
    (hothers : ∀ ptr' ≠ ptr, ∀ d, Fits s.pc ptr' d → Fits pc ptr' d) (hnodup : pc.active.Nodup)
    (hheld : ∀ ptr' ∈ pc.held, ptr' ∈ s.pc.held) (hlive : ptr ∈ pc.held → c'.stage ≠ .destroyed) :
    Inv { s with shared := s.shared.put ptr c', pc := pc } where
  shared := hshared
  fits ptr' d hd := by
    rcases update_eq_some hd with ⟨rfl, rfl⟩ | ⟨hne, hd⟩
    · exact hself
    · exact hothers ptr' hne d (h.fits ptr' d hd)
  nodup := hnodup
  live ptr' hptr' := by
    by_cases hne : ptr' = ptr
    · subst hne
      exact ⟨c', Function.update_self .., hlive hptr'⟩
    · obtain ⟨d, hd, hstage⟩ := h.live ptr' (hheld ptr' hptr')
      exact ⟨d, (Function.update_of_ne hne ..).trans hd, hstage⟩

theorem Inv.unreported (h : s.Inv) (hpc : s.pc = .polling) {fd : ℕ}
    (hfd : (s.shared.poller.epoll fd).isSome) : s.shared.Unreported fd := by
  obtain ⟨⟨mask, ptr⟩, hepoll⟩ := Option.isSome_iff_exists.mp hfd
  obtain ⟨c, hc, -, hcfd, -⟩ := h.shared.safe.epoll fd mask ptr hepoll
  have hfits := h.fits ptr c hc
  rw [hpc] at hfits
  exact ⟨mask, ptr, c, hepoll, hc, hcfd, hfits.idle⟩

theorem Inv.poll (h : s.Inv) (hpc : s.pc = .polling) {ready : List (ℕ × BitVec 32)}
    (hnodup : (ready.map Prod.fst).Nodup)
    (hregistered : ready.all fun e ↦ (s.shared.poller.epoll e.1).isSome) :
    ∃ s', s.poll ready = some s' ∧ s'.Inv := by
  have hnodup : ((ready.take s.size).map Prod.fst).Nodup :=
    hnodup.sublist ((List.take_sublist ..).map _)
  have hregistered : ∀ e ∈ ready.take s.size, s.shared.Unreported e.1 := fun e he ↦
    h.unreported hpc (List.all_eq_true.mp hregistered e (List.mem_of_mem_take he))
  obtain ⟨shared, hrun, hshared, hreports⟩ := SharedPoller.run_poll h.shared hnodup hregistered
  rw [Iteration.poll, hrun]
  refine ⟨_, rfl, hshared, fun ptr c' hc' ↦ ?_, ?_, fun ptr hptr ↦ ?_⟩
  · obtain ⟨c, hc, hready, hdispatching, hdestroying⟩ := hreports.back ptr c' hc'
    have hfits := h.fits ptr c hc
    rw [hpc] at hfits
    obtain ⟨hnone, hempty, hidle⟩ := hfits.idle
    refine ⟨?_, fun hne ↦ (hne (hdispatching.trans hempty)).elim, fun hsome ↦ ?_⟩
    · rw [hready, hnone]
      exact or_iff_right (by simp)
    · rw [hdestroying, hidle] at hsome
      cases hsome
  · refine List.Nodup.filterMap (fun fd fd' ptr hfd hfd' ↦ ?_) hnodup
    obtain ⟨⟨mask, _⟩, hepoll, rfl⟩ := Option.map_eq_some_iff.mp hfd
    obtain ⟨⟨mask', _⟩, hepoll', rfl⟩ := Option.map_eq_some_iff.mp hfd'
    obtain ⟨c, hc, -, hcfd, -⟩ := h.shared.safe.epoll fd mask _ hepoll
    obtain ⟨c', hc', -, hcfd', -⟩ := h.shared.safe.epoll fd' mask' _ hepoll'
    cases Option.mem_unique hc hc'
    exact hcfd.symm.trans hcfd'
  · obtain ⟨fd, -, hfd⟩ := List.mem_filterMap.mp (show ptr ∈ s.fillActiveChannels _ from hptr)
    obtain ⟨⟨mask, _⟩, hepoll, rfl⟩ := Option.map_eq_some_iff.mp hfd
    obtain ⟨c, hc, hstage, -⟩ := h.shared.safe.epoll fd mask _ hepoll
    obtain ⟨c', hc', hstage'⟩ := hreports.forth _ c hc
    exact ⟨c', hc', hstage'.trans_ne hstage⟩

theorem Inv.handleEvent (h : s.Inv) {ptr : ℕ} {active : List ℕ} {shared : SharedPoller}
    (hpc : s.pc = .handling none (ptr :: active))
    (hstep : s.shared.step (.step ptr (.loop .handleEvent)) = some shared) :
    Inv { s with shared := shared, pc := .handling (some ptr) active } := by
  obtain ⟨c, hc, c', hc', rfl⟩ := SharedPoller.step_cases hstep
  obtain ⟨hready, hdestroying, hstage⟩ := step_handleEvent hc'
  have hnodup := h.nodup
  have hlive := h.live ptr (by simp [hpc, IterationPc.held, IterationPc.active])
  rw [hpc] at hnodup
  obtain ⟨hnotin, hnodup⟩ := List.nodup_cons.mp hnodup
  have hshared := SharedPoller.step_inv (e := .step ptr (.loop .handleEvent)) h.shared trivial hstep
  refine h.put hshared ⟨?_, fun _ ↦ rfl, ?_⟩ (fun ptr' hne d hd ↦ ?_) hnodup
    (fun ptr' hptr' ↦ ?_) fun _ ↦ ?_
  · simpa [hready, IterationPc.active] using hnotin
  · simp [hdestroying]
  · rw [hpc] at hd
    refine ⟨hd.ready.trans ?_, fun hdispatching ↦ ?_, hd.destroying⟩
    · simp [IterationPc.active, hne]
    · cases hd.dispatching hdispatching
  · rw [hpc]
    exact hptr'
  · obtain ⟨d, hd, hlive⟩ := hlive
    cases Option.mem_unique hc hd
    exact hstage.trans_ne hlive

/-- The loop stays where it is. -/
theorem Inv.stay (h : s.Inv) {ptr : ℕ} {c c' : LoopConnection} (hc : c ∈ s.shared.conns ptr)
    (hshared : (s.shared.put ptr c').Inv) (hself : Fits s.pc ptr c')
    (hstage : c.stage ≠ .destroyed → c'.stage ≠ .destroyed) :
    Inv { s with shared := s.shared.put ptr c' } := by
  refine h.put hshared hself (fun _ _ _ hd ↦ hd) h.nodup (fun _ hptr ↦ hptr) fun hheld ↦ ?_
  obtain ⟨d, hd, hlive⟩ := h.live ptr hheld
  cases Option.mem_unique hc hd
  exact hstage hlive

/-- In `doPendingFunctors` the loop holds no channel. -/
theorem Inv.functors (h : s.Inv) {destroying destroying' : Option ℕ} {ptr : ℕ}
    {c' : LoopConnection} (hpc : s.pc = .functors destroying)
    (hother : ∀ ptr' ≠ ptr, destroying ≠ some ptr') (hshared : (s.shared.put ptr c').Inv)
    (hself : Fits (.functors destroying') ptr c') :
    Inv { s with shared := s.shared.put ptr c', pc := .functors destroying' } := by
  refine h.put hshared hself (fun ptr' hne d hd ↦ ?_) List.nodup_nil (fun ptr' hptr' ↦ ?_)
    fun hheld ↦ ?_
  · rw [hpc] at hd
    exact ⟨hd.ready, hd.dispatching, fun hsome ↦ (hother ptr' hne (hd.destroying hsome)).elim⟩
  · cases hptr'
  · cases hheld

theorem Inv.newConnection (h : s.Inv) {ptr fd : ℕ} {callbacks : Callbacks} {mem : Mem}
    {shared : SharedPoller}
    (hstep : s.shared.step (.newConnection ptr fd callbacks mem) = some shared) :
    Inv { s with shared := shared } := by
  have hshared := SharedPoller.step_inv (e := .newConnection ptr fd callbacks mem) h.shared trivial
    hstep
  simp only [SharedPoller.step] at hstep
  split_ifs at hstep with hnew
  cases Option.some.inj hstep
  have hfresh {ptr' : ℕ} (hptr' : ptr' ∈ s.pc.held) : ptr' ≠ ptr := fun heq ↦ by
    obtain ⟨c, hc, -⟩ := h.live ptr' hptr'
    rw [heq] at hc
    simp [Option.mem_def.mp hc] at hnew
  refine ⟨hshared, fun ptr' d hd ↦ ?_, h.nodup, fun ptr' hptr' ↦ ?_⟩
  · rcases update_eq_some hd with ⟨rfl, rfl⟩ | ⟨hne, hd⟩
    · have hnotin : ptr' ∉ s.pc.active := fun hin ↦ hfresh (List.mem_append_right _ hin) rfl
      refine ⟨?_, fun hne ↦ (hne rfl).elim, fun hsome ↦ by cases hsome⟩
      simpa [LoopConnection.new, Life.start] using hnotin
    · exact h.fits ptr' d hd
  · obtain ⟨d, hd, hstage⟩ := h.live ptr' hptr'
    exact ⟨d, (Function.update_of_ne (hfresh hptr') ..).trans hd, hstage⟩

theorem Inv.destructor (h : s.Inv) {ptr : ℕ} {shared : SharedPoller}
    (hstep : s.shared.step (.destructor ptr) = some shared) :
    Inv { s with shared := shared } := by
  have hshared := SharedPoller.step_inv (e := .destructor ptr) h.shared trivial hstep
  obtain ⟨c, hc, hstep⟩ := Option.bind_eq_some_iff.mp hstep
  split_ifs at hstep with hstage
  cases Option.some.inj hstep
  refine ⟨hshared, fun ptr' d hd ↦ ?_, h.nodup, fun ptr' hptr' ↦ ?_⟩
  · have hne : ptr' ≠ ptr := fun heq ↦ by
      rw [heq] at hd
      exact absurd ((Function.update_self ..).symm.trans hd) (by simp)
    exact h.fits ptr' d ((Function.update_of_ne hne ..).symm.trans hd)
  · obtain ⟨d, hd, hlive⟩ := h.live ptr' hptr'
    have hne : ptr' ≠ ptr := fun heq ↦ by
      subst heq
      cases Option.mem_unique hc hd
      exact hlive hstage
    exact ⟨d, (Function.update_of_ne hne ..).trans hd, hlive⟩

/-- The loop goes on without a step of a connection. -/
theorem Inv.goto (h : s.Inv) {pc : IterationPc} (hactive : pc.active = s.pc.active)
    (hcurrent : ∀ ptr ∈ pc.current, ptr ∈ s.pc.current)
    (hleft : ∀ ptr ∈ s.pc.current, ptr ∉ pc.current → ∀ c ∈ s.shared.conns ptr,
      c.life.dispatching = [])
    (hdestroying : s.pc.destroying = none) : Inv { s with pc := pc } where
  shared := h.shared
  fits ptr c hc := by
    have hfits := h.fits ptr c hc
    refine ⟨?_, fun hne ↦ ?_, fun hsome ↦ ?_⟩
    · rw [hactive]
      exact hfits.ready
    · by_contra hnot
      exact hne (hleft ptr (hfits.dispatching hne) hnot c hc)
    · have hin := hfits.destroying hsome
      rw [hdestroying] at hin
      cases hin
  nodup := by
    rw [hactive]
    exact h.nodup
  live ptr hptr := by
    refine h.live ptr ?_
    rcases List.mem_append.mp hptr with hptr | hptr
    · have hptr := hcurrent ptr (Option.mem_toList.mp hptr)
      exact List.mem_append_left _ (Option.mem_toList.mpr hptr)
    · rw [hactive] at hptr
      exact List.mem_append_right _ hptr

theorem step_inv {e : IterationEvent} (h : s.Inv) (hfor : s.DestroysForGood e)
    (hstep : s.step e = some s') : s'.Inv := by
  cases steps_of_step hstep with
  | poll hpc hnodup hregistered hpoll =>
    obtain ⟨t, ht, hinv⟩ := h.poll hpc hnodup hregistered
    cases hpoll.symm.trans ht
    exact hinv
  | handleEvent hpc hshared => exact h.handleEvent hpc hshared
  | @callback r w ptr active shared hpc hshared =>
    have hinv := SharedPoller.step_inv (e := .step ptr (.loop (.callback r w))) h.shared trivial
      hshared
    obtain ⟨c, hc, c', hc', rfl⟩ := SharedPoller.step_cases hshared
    obtain ⟨hready, hdestroying, hstage⟩ := step_callback hc'
    have hfits := h.fits ptr c hc
    refine h.stay hc hinv ⟨?_, fun _ ↦ ?_, ?_⟩ hstage.trans_ne
    · rw [hready]
      exact hfits.ready
    · rw [hpc]
      rfl
    · rw [hdestroying]
      exact hfits.destroying
  | @handled ptr active hpc hdispatching =>
    refine h.goto (by rw [hpc]; rfl) (fun ptr' hptr' ↦ by cases hptr') (fun ptr' hptr' _ c hc ↦ ?_)
      (by rw [hpc]; rfl)
    rw [hpc] at hptr'
    cases Option.some.inj hptr'
    simpa [Option.mem_def.mp hc] using hdispatching
  | doPendingFunctors hpc =>
    refine h.goto (by rw [hpc]; rfl) (fun ptr' hptr' ↦ by cases hptr') (fun ptr' hptr' ↦ ?_)
      (by rw [hpc]; rfl)
    rw [hpc] at hptr'
    cases hptr'
  | drained hpc =>
    refine h.goto (by rw [hpc]; rfl) (fun ptr' hptr' ↦ by cases hptr') (fun ptr' hptr' ↦ ?_)
      (by rw [hpc]; rfl)
    rw [hpc] at hptr'
    cases hptr'
  | @runFunctor ptr n shared hpc hshared =>
    have hinv := SharedPoller.step_inv (e := .step ptr (.loop (.runFunctor n))) h.shared trivial
      hshared
    obtain ⟨c, hc, c', hc', rfl⟩ := SharedPoller.step_cases hshared
    obtain ⟨hready, hdispatching⟩ := step_runFunctor hc'
    have hfits := h.fits ptr c hc
    rw [hpc] at hfits
    refine h.functors hpc (by simp) hinv ⟨?_, fun hne ↦ ?_, fun hsome ↦ ?_⟩
    · rw [hready]
      exact hfits.ready
    · rw [hdispatching] at hne
      exact hfits.dispatching hne
    · simp [IterationPc.destroying, startsDestroying, SharedPoller.put, hsome]
  | @connectDestroyed ptr shared hpc hshared =>
    have hinv := SharedPoller.step_inv (e := .step ptr (.loop .connectDestroyed)) h.shared trivial
      hshared
    obtain ⟨c, hc, c', hc', rfl⟩ := SharedPoller.step_cases hshared
    obtain ⟨hready, hdispatching⟩ := step_connectDestroyed hc'
    have hfits := h.fits ptr c hc
    rw [hpc] at hfits
    refine h.functors hpc (by simp) hinv ⟨?_, fun hne ↦ ?_, fun _ ↦ rfl⟩
    · rw [hready]
      exact hfits.ready
    · rw [hdispatching] at hne
      exact hfits.dispatching hne
  | @destroyTested ptr shared hpc hshared =>
    have hgood : s.shared.DestroysForGood (.step ptr .destroyTested) := fun c hc ↦ by
      have hfits := h.fits ptr c hc
      rw [hpc] at hfits
      have hdestroying : ptr ∈ s.pc.destroying := by
        rw [hpc]
        rfl
      refine ⟨hfor ptr hdestroying c hc, ?_, ?_⟩
      · simpa [IterationPc.active] using hfits.ready
      · simpa [IterationPc.current] using hfits.dispatching
    have hinv := SharedPoller.step_inv h.shared hgood hshared
    obtain ⟨c, hc, c', hc', rfl⟩ := SharedPoller.step_cases hshared
    obtain ⟨hready, hdispatching, hdestroying⟩ := step_destroyTested hc'
    have hfits := h.fits ptr c hc
    rw [hpc] at hfits
    refine h.functors hpc (fun ptr' hne heq ↦ hne (Option.some.inj heq).symm) hinv
      ⟨?_, fun hne ↦ ?_, fun hsome ↦ ?_⟩
    · rw [hready]
      exact hfits.ready
    · rw [hdispatching] at hne
      exact hfits.dispatching hne
    · rw [hdestroying] at hsome
      cases hsome
  | newConnection hshared => exact h.newConnection hshared
  | @connectEstablished ptr shared hshared =>
    have hinv := SharedPoller.step_inv (e := .connectEstablished ptr) h.shared trivial hshared
    obtain ⟨c, hc, hshared⟩ := Option.bind_eq_some_iff.mp hshared
    split_ifs at hshared
    cases Option.some.inj hshared
    exact h.stay hc hinv ((h.fits ptr c hc).of_eq rfl rfl rfl) fun _ hstage ↦ by cases hstage
  | @call ptr e shared he hshared =>
    have hgood : s.shared.DestroysForGood (.step ptr e) := by
      cases e with
      | destroyTested => rcases he with he | he <;> cases he
      | loop | thread | queueConnectDestroyed | write => trivial
    have hinv := SharedPoller.step_inv h.shared hgood hshared
    obtain ⟨c, hc, c', hc', rfl⟩ := SharedPoller.step_cases hshared
    obtain ⟨hready, hdispatching, hdestroying, hstage⟩ := step_call he hc'
    exact h.stay hc hinv ((h.fits ptr c hc).of_eq hready hdispatching hdestroying) hstage.trans_ne
  | destructor hshared => exact h.destructor hshared

theorem Inv.sound (h : s.Inv) : s.Sound where
  safe := h.shared.safe
  live := h.live
  handleEvent ptr active hpc := by
    have hin : ptr ∈ s.pc.active := by simp [hpc, IterationPc.active]
    obtain ⟨c, hc, -⟩ := h.live ptr (List.mem_append_right _ hin)
    have hfits := h.fits ptr c hc
    have hready := hfits.ready.mpr hin
    rw [hpc] at hfits
    have hdispatching : c.life.dispatching = [] := by
      simpa [IterationPc.current] using hfits.dispatching
    have hdestroying : c.life.destroying = none := by
      simpa [IterationPc.destroying] using hfits.destroying
    have hstep := step_handleEvent_isSome (p := s.shared.poller) hready hdispatching hdestroying
    simpa [step, hpc, on, SharedPoller.step, LifeEvent.isPoll, Option.mem_def.mp hc] using hstep
  poll ready hpc hnodup hregistered := by
    obtain ⟨t, ht, -⟩ := h.poll hpc hnodup hregistered
    have hguard := And.intro hnodup hregistered
    simp only [step, hpc, if_pos hguard, ht, Option.isSome_some]

/-- No address that the loop follows is dangling: the channels in `activeChannels_` stay
alive until the loop has handled them. -/
theorem sound_of_run {es : List IterationEvent} (hfor : Along step DestroysForGood start es)
    (hrun : run step start es = some s) : s.Sound :=
  (run_invariant (I := Inv) (fun _ _ _ h hg hs ↦ step_inv h hg hs) inv_start hfor hrun).sound

def twoReported : List IterationEvent :=
  [.newConnection 8 5 ⟨true, true, true, true⟩ .numbered,
    .newConnection 16 6 ⟨true, true, true, true⟩ .numbered, .poll [], .doPendingFunctors,
    .connectEstablished 8, .connectEstablished 16, .drained,
    .poll [(5, Channel.EPOLLHUP), (6, Channel.EPOLLOUT)], .handleEvent,
    .callback (.error .EINTR) (.error .EINTR), .call 8 .queueConnectDestroyed, .handled,
    .handleEvent, .callback (.error .EINTR) (.error .EINTR), .handled, .doPendingFunctors,
    .runFunctor 8 (.wrote 0), .destroyTested, .destructor 8, .drained]

theorem sound_of_run_twoReported : ∃ s, run step start twoReported = some s ∧ s.Sound := by
  obtain ⟨s, hrun⟩ : ∃ s, run step start twoReported = some s :=
    Option.isSome_iff_exists.mp (by decide +kernel)
  refine ⟨s, hrun, sound_of_run ?_ hrun⟩
  refine ⟨trivial, trivial, trivial, trivial, trivial, trivial, trivial, trivial, trivial, trivial,
    trivial, trivial, trivial, trivial, trivial, trivial, trivial, ?_, trivial, trivial, trivial⟩
  intro ptr hptr c hc
  cases hptr
  cases hc
  exact ⟨.inr rfl, fun _ ↦ ⟨by rintro ⟨⟩, by rintro ⟨⟩⟩⟩

/-- A `poll` for which `events_` is too small leaves ready descriptors out. -/
def leftOut (s : Iteration) (e : IterationEvent) (_ : Iteration) : List (ℕ × BitVec 32) :=
  match e with
  | .poll ready => (ready.drop s.size).take 1
  | _ => []

theorem size_of_step {e : IterationEvent} (hstep : s.step e = some s') :
    (∃ ready, e = .poll ready ∧
      s'.size = if s.size ≤ ready.length then s.size * 2 else s.size) ∨
    (∀ ready, e ≠ .poll ready) ∧ s'.size = s.size := by
  cases steps_of_step hstep with
  | @poll ready s' hpc hnodup hregistered hpoll =>
    obtain ⟨shared, -, rfl⟩ := Option.map_eq_some_iff.mp hpoll
    refine .inl ⟨ready, rfl, ?_⟩
    have hfull : (ready.take s.size).length = s.size ↔ s.size ≤ ready.length := by
      rw [List.length_take]
      omega
    simp only [hfull]
  | handleEvent | callback | handled | doPendingFunctors | runFunctor | connectDestroyed
  | destroyTested | drained | newConnection | connectEstablished | call | destructor =>
    exact .inr ⟨by simp, rfl⟩

/-- `events_` grows with the load and no further, so `poll` leaves ready descriptors out
only a few times, whatever the length of the run. -/
theorem leftOut_le {n : ℕ} {es : List IterationEvent} (hrun : run step start es = some s)
    (hready : ∀ ready, .poll ready ∈ es → ready.length ≤ n) :
    16 * 2 ^ (collect step leftOut start es).length ≤ s.size ∧ s.size ≤ max 16 (2 * n) := by
  have hall := run_collects (f := leftOut) (l := []) (H := fun e ↦ ∀ ready, e = .poll ready →
      ready.length ≤ n) (P := fun (s : Iteration) l ↦ 16 * 2 ^ l.length ≤ s.size ∧
        s.size ≤ max 16 (2 * n)) ?_ ?_ ?_ hrun
  · simpa using hall
  · intro s l e s' hs hle hstep
    rcases size_of_step hstep with ⟨ready, rfl, hsize⟩ | ⟨hnot, hsize⟩
    · have hlength := hle ready rfl
      by_cases hfull : s.size ≤ ready.length
      · rw [if_pos hfull] at hsize
        have hone : (leftOut s (.poll ready) s').length ≤ 1 := List.length_take_le ..
        have hpow : 2 ^ (l ++ leftOut s (.poll ready) s').length ≤ 2 ^ l.length * 2 := by
          rw [List.length_append, ← Nat.pow_succ]
          exact Nat.pow_le_pow_right (by omega) (by omega)
        omega
      · rw [if_neg hfull] at hsize
        have hnone : leftOut s (.poll ready) s' = [] := by
          simp only [leftOut, List.drop_eq_nil_of_le (le_of_not_ge hfull), List.take_nil]
        rwa [hnone, List.append_nil, hsize]
    · have hnone : leftOut s e s' = [] := by
        cases e with
        | poll ready => exact (hnot ready rfl).elim
        | _ => rfl
      rwa [hnone, List.append_nil, hsize]
  · exact ⟨le_rfl, le_max_left _ _⟩
  · rintro e he ready rfl
    exact hready ready he

def seventeenReported : List IterationEvent :=
  (List.range 17).map (fun i ↦
    .newConnection (8 + 8 * i) (5 + i) ⟨true, true, true, true⟩ .numbered) ++
  [.poll [], .doPendingFunctors] ++
  (List.range 17).map (fun i ↦ .connectEstablished (8 + 8 * i)) ++
  [.drained, .poll ((List.range 17).map fun i ↦ (5 + i, Channel.EPOLLOUT)), .handleEvent,
    .callback (.error .EINTR) (.error .EINTR), .handled]

theorem leftOut_le_seventeenReported : ∃ s, run step start seventeenReported = some s ∧
    collect step leftOut start seventeenReported = [(21, Channel.EPOLLOUT)] ∧ s.size = 32 ∧
      16 * 2 ^ (collect step leftOut start seventeenReported).length ≤ s.size ∧
        s.size ≤ max 16 (2 * 17) := by
  obtain ⟨s, hrun, hsize⟩ := Option.map_eq_some_iff.mp
    (show (run step start seventeenReported).map size = some 32 by decide +kernel)
  refine ⟨s, hrun, by decide +kernel, hsize, leftOut_le hrun fun ready hready ↦ ?_⟩
  simp only [seventeenReported, List.mem_append, List.mem_map, List.mem_cons,
    IterationEvent.poll.injEq, reduceCtorEq, and_false, exists_false, List.not_mem_nil, or_false,
    false_or] at hready
  rcases hready with rfl | rfl <;> simp

end Iteration

end Mymuduo.Net
