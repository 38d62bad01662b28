import Mymuduo.EventLoopThread
import Mymuduo.Lib.Liveness
import Mymuduo.ServerTeardown
import Mathlib.Data.Int.CardIntervalMod

namespace Mymuduo.Net

open Execution

namespace ServerLoops

def turn (n i : ℕ) : ℕ := if n = 0 then 0 else (i - 1) % n + 1

def load (s : ServerLoops) (l : ℕ) : ℕ :=
  Nat.count (fun i ↦ (s.conns i).map ServerConnection.ioLoop = some l) s.server.nextConnId_

structure Dealt (n : ℕ) (s : ServerLoops) : Prop where
  pool : s.server.threadPool_.loops = n
  first : 0 < s.server.nextConnId_
  next : 0 < n → s.server.threadPool_.next_ = (s.server.nextConnId_ - 1) % n
  conns : ∀ i, (s.conns i).map ServerConnection.ioLoop =
    if 0 < i ∧ i < s.server.nextConnId_ then some (turn n i) else none

variable {n : ℕ} {s s' : ServerLoops}

theorem Dealt.frame (h : Dealt n s) (hpool : s'.server.threadPool_ = s.server.threadPool_)
    (hnext : s'.server.nextConnId_ = s.server.nextConnId_)
    (hconns : ∀ i, (s'.conns i).map ServerConnection.ioLoop =
      (s.conns i).map ServerConnection.ioLoop) : Dealt n s' where
  pool := by rw [hpool, h.pool]
  first := hnext ▸ h.first
  next hn := by rw [hpool, hnext, h.next hn]
  conns i := by rw [hconns, h.conns, hnext]

theorem ioLoop_update {conns : ℕ → Option ServerConnection} {i : ℕ} {c c' : ServerConnection}
    (hc : conns i = some c) (hl : c'.ioLoop = c.ioLoop) (j : ℕ) :
    (Function.update conns i (some c') j).map ServerConnection.ioLoop =
      (conns j).map ServerConnection.ioLoop := by
  by_cases hj : j = i
  · subst hj
    rw [Function.update_self, hc, Option.map_some, Option.map_some, hl]
  · rw [Function.update_of_ne hj]

theorem ioLoop_call {l : ℕ} {f : ServerFunctor} (h : s.call l f = some s') (j : ℕ) :
    (s'.conns j).map ServerConnection.ioLoop = (s.conns j).map ServerConnection.ioLoop := by
  cases f with
  | connectEstablished =>
    obtain ⟨c, hc, h⟩ := Option.bind_eq_some_iff.mp h
    cases Option.some.inj h
    exact ioLoop_update hc (by rfl) j
  | removeConnectionInLoop =>
    cases Option.some.inj h
    rfl
  | connectDestroyed =>
    obtain ⟨c, hc, h⟩ := Option.bind_eq_some_iff.mp h
    obtain ⟨life, -, h⟩ := Option.bind_eq_some_iff.mp h
    cases Option.some.inj h
    exact ioLoop_update hc (by rfl) j

theorem ioLoop_runInLoop {caller l : ℕ} {f : ServerFunctor} (h : s.runInLoop caller l f = some s')
    (j : ℕ) : (s'.conns j).map ServerConnection.ioLoop =
      (s.conns j).map ServerConnection.ioLoop := by
  rw [runInLoop] at h
  split_ifs at h
  · exact ioLoop_call h j
  · cases Option.some.inj h
    rfl

theorem newConnection_spec {sockfd : ℕ} {mem : Mem}
    (h : s.newConnection sockfd mem = some s') :
    s'.server.threadPool_ = s.server.threadPool_.getNextLoop.2 ∧
      s'.server.nextConnId_ = s.server.nextConnId_ + 1 ∧
      ∀ i, (s'.conns i).map ServerConnection.ioLoop =
        if i = s.server.nextConnId_ then some s.server.threadPool_.getNextLoop.1
        else (s.conns i).map ServerConnection.ioLoop := by
  rw [newConnection] at h
  generalize s.server.threadPool_.getNextLoop = next at h ⊢
  obtain ⟨l, pool⟩ := next
  dsimp only at h
  have hserver := server_runInLoop h
  refine ⟨by rw [hserver]; rfl, by rw [hserver]; rfl, fun i ↦ ?_⟩
  rw [ioLoop_runInLoop h]
  simp only [setConn]
  by_cases hi : i = s.server.nextConnId_
  · rw [hi, Function.update_self, if_pos rfl, Option.map_some]
  · rw [Function.update_of_ne hi, if_neg hi]

theorem Dealt.getNextLoop (h : Dealt n s) :
    s.server.threadPool_.getNextLoop.1 = turn n s.server.nextConnId_ ∧
      s.server.threadPool_.getNextLoop.2.loops = n ∧
      (0 < n → s.server.threadPool_.getNextLoop.2.next_ = s.server.nextConnId_ % n) := by
  rcases Nat.eq_zero_or_pos n with hn | hn
  · rw [EventLoopThreadPool.getNextLoop, if_pos (h.pool.trans hn), turn, if_pos hn]
    exact ⟨rfl, h.pool, by omega⟩
  · rw [EventLoopThreadPool.getNextLoop, if_neg (h.pool.trans_ne hn.ne'), turn, if_neg hn.ne']
    refine ⟨congrArg (· + 1) (h.next hn), h.pool, fun _ ↦ ?_⟩
    dsimp only
    rw [h.pool, h.next hn, ← mod_next hn, Nat.sub_add_cancel h.first]

theorem Dealt.newConnection (h : Dealt n s) {sockfd : ℕ} {mem : Mem}
    (hstep : s.newConnection sockfd mem = some s') : Dealt n s' := by
  obtain ⟨hpool, hnext, hconns⟩ := newConnection_spec hstep
  obtain ⟨hloop, hloops, hturn⟩ := h.getNextLoop
  have hfirst := h.first
  constructor
  case pool => rw [hpool, hloops]
  case first => omega
  case next =>
    intro hn
    rw [hpool, hturn hn, hnext, Nat.add_sub_cancel]
  case conns =>
    intro i
    rw [hconns, hnext, hloop, h.conns]
    by_cases hi : i = s.server.nextConnId_
    · rw [if_pos hi, hi, if_pos ⟨hfirst, Nat.lt_succ_self _⟩]
    · rw [if_neg hi]
      exact if_congr (by omega) rfl rfl

theorem Dealt.step (h : Dealt n s) {e : ServerEvent} (hstep : s.step e = some s') :
    Dealt n s' := by
  cases steps_of_step hstep with
  | newConnection _ hnew => exact h.newConnection hnew
  | connection _ hc | handleClose _ hc | destroyTested _ hc =>
    exact h.frame rfl rfl (ioLoop_update hc (by rfl))
  | removeConnection _ hrun =>
    have hserver := server_runInLoop hrun
    exact h.frame (by rw [hserver]; rfl) (by rw [hserver]; rfl) fun i ↦ ioLoop_runInLoop hrun i
  | erase _ hc => exact h.frame rfl rfl (ioLoop_update hc (by rfl))
  | queueDestroyed => exact h.frame rfl rfl fun _ ↦ rfl
  | runFunctor _ _ hcall =>
    have hserver := server_call hcall
    exact h.frame (by rw [hserver]) (by rw [hserver]) fun i ↦ ioLoop_call hcall i

theorem dealt_start (name : List Char) (listenAddr : InetAddress) (callbacks : Callbacks)
    (n : ℕ) : Dealt n (start name listenAddr callbacks n) where
  pool := rfl
  first := Nat.one_pos
  next hn := (Nat.zero_mod n).symm
  conns i := by
    change none = if 0 < i ∧ i < 1 then some (turn n i) else none
    rw [if_neg (by omega)]

/-- The first loops of the pool have at most one connection more than the others. -/
theorem Dealt.load_eq (h : Dealt n s) {v : ℕ} (hv : v < n) :
    s.load (v + 1) = (s.server.nextConnId_ - 1) / n +
      if v < (s.server.nextConnId_ - 1) % n then 1 else 0 := by
  have hmod : v % n = v := Nat.mod_eq_of_lt hv
  obtain ⟨m, hm⟩ := Nat.exists_eq_add_of_lt h.first
  rw [Nat.zero_add] at hm
  have hcount : s.load (v + 1) = Nat.count (· ≡ v [MOD n]) m := by
    have hzero : (s.conns 0).map ServerConnection.ioLoop ≠ some (v + 1) := by
      rw [h.conns, if_neg (by omega)]
      exact (Option.some_ne_none _).symm
    have hsucc (k : ℕ) (hk : k < m) :
        (s.conns (1 + k)).map ServerConnection.ioLoop = some (v + 1) ↔ k ≡ v [MOD n] := by
      rw [h.conns, if_pos (by omega), turn, if_neg (by omega), Nat.add_sub_cancel_left,
        Option.some.injEq, Nat.add_right_cancel_iff, Nat.ModEq, hmod]
    rw [load, hm, Nat.add_comm m 1, Nat.count_add, Nat.count_one, if_neg hzero, Nat.zero_add,
      Nat.count_eq_card_filter_range, Nat.count_eq_card_filter_range]
    exact congrArg Finset.card (Finset.filter_congr fun k hk ↦ hsucc k (Finset.mem_range.mp hk))
  rw [hcount, Nat.count_modEq_card _ (by omega), hm, Nat.add_sub_cancel, hmod]

/-- How a server with `n` loops in its pool has dealt out its connections. -/
structure EvenlySpread (n : ℕ) (s : ServerLoops) : Prop where
  base : n = 0 → ∀ i c, s.conns i = some c → c.ioLoop = 0
  pool : 0 < n → ∀ i c, s.conns i = some c → 0 < c.ioLoop ∧ c.ioLoop ≤ n
  turns : 0 < n → ∀ i j c d, s.conns i = some c → s.conns j = some d →
    (c.ioLoop = d.ioLoop ↔ i ≡ j [MOD n])
  loads : ∀ l k, 0 < l → l ≤ n → 0 < k → k ≤ n → s.load l ≤ s.load k + 1

theorem Dealt.evenlySpread (h : Dealt n s) : EvenlySpread n s := by
  have hturn {i : ℕ} {c : ServerConnection} (hc : s.conns i = some c) :
      0 < i ∧ c.ioLoop = turn n i := by
    have hi := h.conns i
    rw [hc, Option.map_some] at hi
    split_ifs at hi with hlt
    exact ⟨hlt.1, Option.some.inj hi⟩
  constructor
  case base =>
    intro hn i c hc
    rw [(hturn hc).2, turn, if_pos hn]
  case pool =>
    intro hn i c hc
    have hlt := Nat.mod_lt (i - 1) hn
    rw [(hturn hc).2, turn, if_neg hn.ne']
    omega
  case turns =>
    intro hn i j c d hc hd
    obtain ⟨hi, hci⟩ := hturn hc
    obtain ⟨hj, hdj⟩ := hturn hd
    rw [hci, hdj, turn, turn, if_neg hn.ne', if_neg hn.ne', Nat.add_right_cancel_iff]
    have hshift := Nat.ModEq.add_right_cancel' (n := n) 1 (a := i - 1) (b := j - 1)
    rw [Nat.sub_add_cancel hi, Nat.sub_add_cancel hj] at hshift
    refine ⟨fun hsame ↦ ?_, hshift⟩
    have hadd := Nat.ModEq.add_right 1 hsame
    rwa [Nat.sub_add_cancel hi, Nat.sub_add_cancel hj] at hadd
  case loads =>
    intro l k hl hln hk hkn
    have hloadl := h.load_eq (v := l - 1) (by omega)
    have hloadk := h.load_eq (v := k - 1) (by omega)
    rw [Nat.sub_add_cancel hl] at hloadl
    rw [Nat.sub_add_cancel hk] at hloadk
    rw [hloadl, hloadk]
    split_ifs <;> omega

/-- In every run of a server each loop of the pool gets every `n`-th connection, and without
a pool the base loop gets them all. -/
theorem evenlySpread_of_run {name : List Char} {listenAddr : InetAddress} {callbacks : Callbacks}
    {numThreads : ℕ} (es : List ServerEvent) (s : ServerLoops)
    (hrun : run step (start name listenAddr callbacks numThreads) es = some s) :
    EvenlySpread numThreads s := by
  have hdealt : Dealt numThreads s :=
    run_preserves (fun _ _ _ h hstep ↦ h.step hstep) (dealt_start ..) hrun
  exact hdealt.evenlySpread

def threeAccepted : List ServerEvent :=
  [.newConnection 7 .numbered, .newConnection 8 .numbered, .newConnection 9 .numbered]

theorem evenlySpread_of_run_threeAccepted :
    ∃ s, run step (start ['s'] ⟨(0, 0, 0, 0), 80⟩ ⟨true, true, true, false⟩ 2) threeAccepted =
      some s ∧ EvenlySpread 2 s := by
  obtain ⟨s, hs⟩ := Option.isSome_iff_exists.mp
    (show (run step (start ['s'] ⟨(0, 0, 0, 0), 80⟩ ⟨true, true, true, false⟩ 2)
      threeAccepted).isSome by decide +kernel)
  exact ⟨s, hs, evenlySpread_of_run threeAccepted s hs⟩

end ServerLoops

/-- Where a thread is in `TcpServer::start`: at turn `i` of the loop in
`EventLoopThreadPool::start`, there in `startLoop` of thread `k`, or behind it. -/
inductive StartPc
  | idle
  | turn (i : ℕ)
  | startLoop (i k : ℕ)
  | poolStarted
deriving DecidableEq, Repr

/-- `threads_` by the phases of the threads, `loops_` by the numbers of the threads whose
loops they are. `pending` are the functors `Acceptor::listen` in the base loop; `calls` and
`listens` count the calls of `start` and of `listen`. -/
structure ServerStart where
  loops : ServerLoops
  started_ : BitVec 32
  numThreads_ : ℤ
  threads_ : List ThreadPhase
  loops_ : List ℕ
  starter : ℕ → StartPc
  pending : ℕ
  calls : ℕ
  listens : ℕ

/-- Steps of a thread `t` in `start`, the publishing of a loop by thread `k` of the pool,
and steps of the base loop. Thread 0 is that of the base loop. -/
inductive StartEvent
  | start (t : ℕ)
  | turn (t : ℕ)
  | publish (k : ℕ)
  | startLoop (t : ℕ)
  | runInLoop (t : ℕ)
  | listen
  | server (e : ServerEvent)

namespace StartEvent

def isStart : StartEvent → Bool
  | start _ => true
  | _ => false

def server? : StartEvent → Option ServerEvent
  | server e => some e
  | _ => none

end StartEvent

namespace ServerStart

/-- A server that has been constructed, after `setThreadNum`. -/
def new (name : List Char) (listenAddr : InetAddress) (callbacks : Callbacks) (numThreads : ℤ) :
    ServerStart where
  loops := .start name listenAddr callbacks 0
  started_ := 0
  numThreads_ := numThreads
  threads_ := []
  loops_ := []
  starter _ := .idle
  pending := 0
  calls := 0
  listens := 0

variable (s : ServerStart)

def setStarter (t : ℕ) (pc : StartPc) : ServerStart :=
  { s with starter := Function.update s.starter t pc }

def BaseIdle : Prop := s.starter 0 = .idle ∧ s.loops.task 0 = .idle

instance : Decidable s.BaseIdle := inferInstanceAs (Decidable (_ ∧ _))

def pushLoop (k : ℕ) : ServerStart :=
  { s with
    loops_ := s.loops_ ++ [k]
    loops := { s.loops with
      server := { s.loops.server with
        threadPool_ := { s.loops.server.threadPool_ with
          loops := s.loops.server.threadPool_.loops + 1 } } } }

def step : StartEvent → Option ServerStart
  | .start t =>
    if s.starter t = .idle ∧ (t = 0 → s.BaseIdle) then
      let s' := { s with started_ := s.started_ + 1, calls := s.calls + 1 }
      if s.started_ = 0 then some (s'.setStarter t (.turn 0)) else some s'
    else none
  | .turn t =>
    match s.starter t with
    | .turn i =>
      if (i : ℤ) < s.numThreads_ then
        some ({ s with threads_ := s.threads_ ++ [ThreadPhase.starting] }.setStarter t
          (.startLoop i s.threads_.length))
      else some (s.setStarter t .poolStarted)
    | _ => none
  | .publish k =>
    if s.threads_[k]? = some ThreadPhase.starting then
      some { s with threads_ := s.threads_.set k .published }
    else none
  | .startLoop t =>
    match s.starter t with
    | .startLoop i k =>
      if s.threads_[k]? = some .published then
        some ((s.pushLoop k).setStarter t (.turn (i + 1)))
      else none
    | _ => none
  | .runInLoop t =>
    match s.starter t with
    | .poolStarted =>
      if t = 0 then some ({ s with listens := s.listens + 1 }.setStarter t .idle)
      else some ({ s with pending := s.pending + 1 }.setStarter t .idle)
    | _ => none
  | .listen =>
    if 0 < s.pending ∧ s.BaseIdle then
      some { s with pending := s.pending - 1, listens := s.listens + 1 }
    else none
  | .server e =>
    if e.isNewConnection → 0 < s.listens ∧ s.BaseIdle then
      (s.loops.step e).map fun loops ↦ { s with loops := loops }
    else none

/-- How far the start of the pool is, with `n` threads asked for. -/
inductive Stage (n : ℕ) : Prop
  | fresh (idle : ∀ t, s.starter t = .idle) (loops : s.loops_ = []) (threads : s.threads_ = [])
      (quiet : s.pending = 0 ∧ s.listens = 0) (uncalled : s.calls = 0)
  | turn {t i : ℕ} (hpc : s.starter t = .turn i) (others : ∀ u, u ≠ t → s.starter u = .idle)
      (hle : i ≤ n) (loops : s.loops_ = List.range i) (threads : s.threads_.length = i)
      (quiet : s.pending = 0 ∧ s.listens = 0) (called : 0 < s.calls)
  | startLoop {t i : ℕ} (hpc : s.starter t = .startLoop i i)
      (others : ∀ u, u ≠ t → s.starter u = .idle) (hlt : i < n) (loops : s.loops_ = List.range i)
      (threads : s.threads_.length = i + 1) (quiet : s.pending = 0 ∧ s.listens = 0)
      (called : 0 < s.calls)
  | poolStarted {t : ℕ} (hpc : s.starter t = .poolStarted)
      (others : ∀ u, u ≠ t → s.starter u = .idle) (loops : s.loops_ = List.range n)
      (quiet : s.pending = 0 ∧ s.listens = 0) (called : 0 < s.calls)
  | done (idle : ∀ t, s.starter t = .idle) (loops : s.loops_ = List.range n)
      (once : s.pending + s.listens = 1) (called : 0 < s.calls)

/-- A starting server stands for one that has had its pool from the start. -/
structure StartsAs (name : List Char) (listenAddr : InetAddress) (callbacks : Callbacks) (n : ℕ)
    (t : ServerLoops) : Prop where
  asked : s.numThreads_.toNat = n
  counted : s.started_ = BitVec.ofNat 32 s.calls
  stage : s.Stage n
  published : ∀ k ∈ s.loops_, s.threads_[k]? = some ThreadPhase.published
  phases : ∀ p ∈ s.threads_, p = .starting ∨ p = .published
  before : s.listens = 0 → t = .start name listenAddr callbacks n ∧
    s.loops = .start name listenAddr callbacks s.loops_.length
  accepting : 0 < s.listens → s.loops = t

variable {s} {s' : ServerStart} {name : List Char} {listenAddr : InetAddress}
  {callbacks : Callbacks} {n : ℕ} {t : ServerLoops}

theorem startsAs_new (numThreads : ℤ) : (new name listenAddr callbacks numThreads).StartsAs name
    listenAddr callbacks numThreads.toNat (.start name listenAddr callbacks numThreads.toNat) where
  asked := rfl
  counted := rfl
  stage := .fresh (fun _ ↦ rfl) rfl rfl ⟨rfl, rfl⟩ rfl
  published _ hk := by cases hk
  phases _ hp := by cases hp
  before _ := ⟨rfl, rfl⟩
  accepting h := by cases h

/-- Nothing but an accepted connection happens to a server without connections. -/
theorem isNewConnection_of_step {e : ServerEvent} {u : ServerLoops}
    (h : (ServerLoops.start name listenAddr callbacks n).step e = some u) :
    e.isNewConnection = true := by
  cases ServerLoops.steps_of_step h with
  | newConnection => rfl
  | connection _ hc | handleClose _ hc => cases hc
  | removeConnection htask | erase htask | queueDestroyed htask | destroyTested htask => cases htask
  | runFunctor _ hpending => cases hpending

theorem Stage.frame (h : s.Stage n) (hstarter : s'.starter = s.starter)
    (hloops : s'.loops_ = s.loops_) (hthreads : s'.threads_.length = s.threads_.length)
    (hpending : s'.pending = s.pending) (hlistens : s'.listens = s.listens)
    (huncalled : s.calls = 0 → s'.calls = 0) (hcalls : s.calls ≤ s'.calls) : s'.Stage n := by
  cases h with
  | fresh idle loops threads quiet uncalled =>
    refine .fresh (by rwa [hstarter]) (hloops.trans loops) ?_ ?_ (huncalled uncalled)
    · rw [threads, List.length_nil, List.length_eq_zero_iff] at hthreads
      exact hthreads
    · rwa [hpending, hlistens]
  | turn hpc others hle loops threads quiet called =>
    exact .turn (by rw [hstarter, hpc]) (by rwa [hstarter]) hle (hloops.trans loops)
      (hthreads.trans threads) (by rwa [hpending, hlistens]) (by omega)
  | startLoop hpc others hlt loops threads quiet called =>
    exact .startLoop (by rw [hstarter, hpc]) (by rwa [hstarter]) hlt (hloops.trans loops)
      (hthreads.trans threads) (by rwa [hpending, hlistens]) (by omega)
  | poolStarted hpc others loops quiet called =>
    exact .poolStarted (by rw [hstarter, hpc]) (by rwa [hstarter]) (hloops.trans loops)
      (by rwa [hpending, hlistens]) (by omega)
  | done idle loops once called =>
    exact .done (by rwa [hstarter]) (hloops.trans loops) (by rwa [hpending, hlistens]) (by omega)

theorem Stage.at_turn (h : s.Stage n) {t i : ℕ} (hpc : s.starter t = .turn i) :
    (∀ u, u ≠ t → s.starter u = .idle) ∧ i ≤ n ∧ s.loops_ = List.range i ∧
      s.threads_.length = i ∧ (s.pending = 0 ∧ s.listens = 0) ∧ 0 < s.calls := by
  cases h with
  | @turn u j hpc' others hle loops threads quiet called =>
    by_cases hu : t = u
    · subst hu
      cases hpc.symm.trans hpc'
      exact ⟨others, hle, loops, threads, quiet, called⟩
    · simp [others t hu] at hpc
  | fresh idle | done idle => simp [idle] at hpc
  | @startLoop u j hpc' others | @poolStarted u hpc' others =>
    by_cases hu : t = u
    · subst hu
      simp [hpc'] at hpc
    · simp [others t hu] at hpc

theorem Stage.at_startLoop (h : s.Stage n) {t i k : ℕ} (hpc : s.starter t = .startLoop i k) :
    (∀ u, u ≠ t → s.starter u = .idle) ∧ k = i ∧ i < n ∧ s.loops_ = List.range i ∧
      s.threads_.length = i + 1 ∧ (s.pending = 0 ∧ s.listens = 0) ∧ 0 < s.calls := by
  cases h with
  | @startLoop u j hpc' others hlt loops threads quiet called =>
    by_cases hu : t = u
    · subst hu
      cases hpc.symm.trans hpc'
      exact ⟨others, rfl, hlt, loops, threads, quiet, called⟩
    · simp [others t hu] at hpc
  | fresh idle | done idle => simp [idle] at hpc
  | @turn u j hpc' others | @poolStarted u hpc' others =>
    by_cases hu : t = u
    · subst hu
      simp [hpc'] at hpc
    · simp [others t hu] at hpc

theorem Stage.at_poolStarted (h : s.Stage n) {t : ℕ} (hpc : s.starter t = .poolStarted) :
    (∀ u, u ≠ t → s.starter u = .idle) ∧ s.loops_ = List.range n ∧
      (s.pending = 0 ∧ s.listens = 0) ∧ 0 < s.calls := by
  cases h with
  | @poolStarted u hpc' others loops quiet called =>
    by_cases hu : t = u
    · subst hu
      exact ⟨others, loops, quiet, called⟩
    · simp [others t hu] at hpc
  | fresh idle | done idle => simp [idle] at hpc
  | @turn u j hpc' others | @startLoop u j hpc' others =>
    by_cases hu : t = u
    · subst hu
      simp [hpc'] at hpc
    · simp [others t hu] at hpc

theorem others_setStarter {u : ℕ} (h : ∀ v, v ≠ u → s.starter v = .idle) (pc : StartPc) :
    ∀ v, v ≠ u → (s.setStarter u pc).starter v = .idle := fun v hv ↦
  (Function.update_of_ne hv ..).trans (h v hv)

theorem starter_setStarter (s : ServerStart) (u : ℕ) (pc : StartPc) :
    (s.setStarter u pc).starter u = pc := Function.update_self ..

theorem idle_setStarter {u : ℕ} (h : ∀ v, v ≠ u → s.starter v = .idle) (v : ℕ) :
    (s.setStarter u .idle).starter v = .idle := by
  by_cases hv : v = u
  · rw [hv, starter_setStarter]
  · exact others_setStarter h _ v hv

/-- Only the first of at most `2 ^ 32` calls finds `started_` zero. -/
theorem StartsAs.start (h : s.StartsAs name listenAddr callbacks n t) {u : ℕ}
    (hfew : s'.calls ≤ 4294967296) (hstep : s.step (.start u) = some s') :
    s'.StartsAs name listenAddr callbacks n t := by
  have hnext : s.started_ + 1 = BitVec.ofNat 32 (s.calls + 1) := by
    rw [h.counted, BitVec.ofNat_add]
    rfl
  simp only [step] at hstep
  split_ifs at hstep with hidle hfirst
  · cases Option.some.inj hstep
    have hnone : s.calls = 0 := by
      have hzero := congrArg BitVec.toNat (h.counted.symm.trans hfirst)
      have hlt : s.calls < 4294967296 := hfew
      simpa [Nat.mod_eq_of_lt hlt] using hzero
    refine ⟨h.asked, hnext, ?_, h.published, h.phases, h.before, h.accepting⟩
    cases h.stage with
    | fresh idle loops threads quiet =>
      exact .turn (starter_setStarter ..)
        (fun v hv ↦ (Function.update_of_ne hv ..).trans (idle v)) (Nat.zero_le n) loops
        (List.length_eq_zero_iff.mpr threads) quiet (Nat.succ_pos _)
    | turn | startLoop | poolStarted | done => omega
  · cases Option.some.inj hstep
    have hcalled : s.calls ≠ 0 := by
      intro hnone
      exact hfirst (h.counted.trans (congrArg _ hnone))
    exact ⟨h.asked, hnext, h.stage.frame rfl rfl rfl rfl rfl (fun hnone ↦ (hcalled hnone).elim)
      (Nat.le_succ _), h.published,
      h.phases, h.before, h.accepting⟩

theorem StartsAs.turn (h : s.StartsAs name listenAddr callbacks n t) {u : ℕ}
    (hstep : s.step (.turn u) = some s') : s'.StartsAs name listenAddr callbacks n t := by
  simp only [step] at hstep
  split at hstep
  next i hpc =>
    obtain ⟨others, hle, loops, threads, quiet, called⟩ := h.stage.at_turn hpc
    have hasked := h.asked
    split_ifs at hstep with hi
    · cases Option.some.inj hstep
      refine ⟨h.asked, h.counted, ?_, fun k hk ↦ ?_, fun p hp ↦ ?_, h.before, h.accepting⟩
      · refine .startLoop (i := i) ?_ (others_setStarter others _) (by omega) loops ?_ quiet called
        · rw [starter_setStarter, threads]
        · exact (List.length_append ..).trans (congrArg (· + 1) threads)
      · have hlt : k < s.threads_.length := by
          have hmem : k ∈ s.loops_ := hk
          rw [loops, List.mem_range] at hmem
          omega
        exact (List.getElem?_append_left hlt).trans (h.published k hk)
      · rcases List.mem_append.mp hp with hp | hp
        · exact h.phases p hp
        · exact .inl (List.mem_singleton.mp hp)
    · cases Option.some.inj hstep
      obtain rfl : i = n := by omega
      exact ⟨h.asked, h.counted, .poolStarted (starter_setStarter ..) (others_setStarter others _)
        loops quiet called, h.published, h.phases, h.before, h.accepting⟩
  next => cases hstep

theorem StartsAs.publish (h : s.StartsAs name listenAddr callbacks n t) {k : ℕ}
    (hstep : s.step (.publish k) = some s') : s'.StartsAs name listenAddr callbacks n t := by
  simp only [step] at hstep
  split_ifs at hstep with hk
  cases Option.some.inj hstep
  refine ⟨h.asked, h.counted, h.stage.frame rfl rfl List.length_set rfl rfl id le_rfl,
    fun j hj ↦ ?_, fun p hp ↦ (List.mem_or_eq_of_mem_set hp).elim (h.phases p) .inr, h.before,
    h.accepting⟩
  have hpublished := h.published j hj
  have hne : k ≠ j := by
    rintro rfl
    cases hk.symm.trans hpublished
  exact (List.getElem?_set_ne hne).trans hpublished

theorem StartsAs.startLoop (h : s.StartsAs name listenAddr callbacks n t) {u : ℕ}
    (hstep : s.step (.startLoop u) = some s') : s'.StartsAs name listenAddr callbacks n t := by
  simp only [step] at hstep
  split at hstep
  next i k hpc =>
    obtain ⟨others, rfl, hlt, loops, threads, quiet, called⟩ := h.stage.at_startLoop hpc
    split_ifs at hstep with hpublished
    cases Option.some.inj hstep
    obtain ⟨ht, hs⟩ := h.before quiet.2
    refine ⟨h.asked, h.counted, ?_, fun j hj ↦ ?_, h.phases, fun _ ↦ ⟨ht, ?_⟩,
      fun hlistens ↦ ?_⟩
    · refine .turn (starter_setStarter ..) (others_setStarter others _) hlt ?_ threads quiet called
      change s.loops_ ++ [k] = _
      rw [loops, List.range_succ]
    · rcases List.mem_append.mp hj with hj | hj
      · exact h.published j hj
      · cases List.mem_singleton.mp hj
        exact hpublished
    · change (s.pushLoop k).loops = .start name listenAddr callbacks (s.loops_ ++ [k]).length
      rw [List.length_append, pushLoop, hs]
      rfl
    · have hnone : s.listens = 0 := quiet.2
      have hlistens : 0 < s.listens := hlistens
      omega
  next => cases hstep

theorem StartsAs.runInLoop (h : s.StartsAs name listenAddr callbacks n t) {u : ℕ}
    (hstep : s.step (.runInLoop u) = some s') : s'.StartsAs name listenAddr callbacks n t := by
  simp only [step] at hstep
  split at hstep
  next hpc =>
    obtain ⟨others, loops, quiet, called⟩ := h.stage.at_poolStarted hpc
    obtain ⟨ht, hs⟩ := h.before quiet.2
    split_ifs at hstep
    · cases Option.some.inj hstep
      refine ⟨h.asked, h.counted, .done (idle_setStarter others) loops ?_ called, h.published,
        h.phases, fun hlistens ↦ (by cases hlistens), fun _ ↦ ?_⟩
      · change s.pending + (s.listens + 1) = 1
        omega
      · change s.loops = t
        rw [hs, ht, loops, List.length_range]
    · cases Option.some.inj hstep
      refine ⟨h.asked, h.counted, .done (idle_setStarter others) loops ?_ called, h.published,
        h.phases, h.before, h.accepting⟩
      change s.pending + 1 + s.listens = 1
      omega
  next => cases hstep

theorem StartsAs.listen (h : s.StartsAs name listenAddr callbacks n t)
    (hstep : s.step .listen = some s') : s'.StartsAs name listenAddr callbacks n t := by
  simp only [step] at hstep
  split_ifs at hstep with hready
  cases Option.some.inj hstep
  cases h.stage with
  | done idle loops once called =>
    have hzero : s.listens = 0 := by omega
    obtain ⟨ht, hs⟩ := h.before hzero
    refine ⟨h.asked, h.counted, .done idle loops ?_ called, h.published,
      h.phases, fun hlistens ↦ (by cases hlistens), fun _ ↦ ?_⟩
    · change s.pending - 1 + (s.listens + 1) = 1
      omega
    · change s.loops = t
      rw [hs, ht, loops, List.length_range]
  | fresh | turn | startLoop | poolStarted => omega

/-- A step of the running server. -/
theorem StartsAs.server (h : s.StartsAs name listenAddr callbacks n t) {e : ServerEvent}
    (hstep : s.step (.server e) = some s') : ∃ t', t.step e = some t' ∧
      s'.StartsAs name listenAddr callbacks n t' := by
  simp only [step] at hstep
  split_ifs at hstep with hnew
  obtain ⟨loops, hloops, rfl⟩ := Option.map_eq_some_iff.mp hstep
  rcases Nat.eq_zero_or_pos s.listens with hzero | hpos
  · rw [(h.before hzero).2] at hloops
    have hlistens := (hnew (isNewConnection_of_step hloops)).1
    omega
  · obtain rfl := h.accepting hpos
    refine ⟨loops, hloops, h.asked, h.counted, h.stage.frame rfl rfl rfl rfl rfl id le_rfl,
      h.published, h.phases, fun hzero ↦ ?_, fun _ ↦ rfl⟩
    exact (hpos.ne' hzero).elim

theorem StartsAs.step (h : s.StartsAs name listenAddr callbacks n t) {e : StartEvent}
    (hfew : s'.calls ≤ 4294967296) (hstep : s.step e = some s') :
    ∃ t', run ServerLoops.step t e.server?.toList = some t' ∧
      s'.StartsAs name listenAddr callbacks n t' := by
  cases e with
  | start u => exact ⟨t, rfl, h.start hfew hstep⟩
  | turn u => exact ⟨t, rfl, h.turn hstep⟩
  | publish k => exact ⟨t, rfl, h.publish hstep⟩
  | startLoop u => exact ⟨t, rfl, h.startLoop hstep⟩
  | runInLoop u => exact ⟨t, rfl, h.runInLoop hstep⟩
  | listen => exact ⟨t, rfl, h.listen hstep⟩
  | server e =>
    obtain ⟨t', ht', hs'⟩ := h.server hstep
    exact ⟨t', run_cons_eq_some.mpr ⟨t', ht', rfl⟩, hs'⟩

theorem calls_of_step {e : StartEvent} (hstep : s.step e = some s') :
    s'.calls = s.calls + if e.isStart then 1 else 0 := by
  cases e with
  | start u =>
    simp only [ServerStart.step] at hstep
    split_ifs at hstep <;>
    · cases Option.some.inj hstep
      rfl
  | turn u | runInLoop u =>
    simp only [ServerStart.step] at hstep
    split at hstep
    · split_ifs at hstep <;>
      · cases Option.some.inj hstep
        rfl
    · cases hstep
  | startLoop u =>
    simp only [ServerStart.step] at hstep
    split at hstep
    · split_ifs at hstep
      cases Option.some.inj hstep
      rfl
    · cases hstep
  | publish k | listen =>
    simp only [ServerStart.step] at hstep
    split_ifs at hstep
    cases Option.some.inj hstep
    rfl
  | server e =>
    simp only [ServerStart.step] at hstep
    split_ifs at hstep
    obtain ⟨loops, -, rfl⟩ := Option.map_eq_some_iff.mp hstep
    rfl

theorem along_of_few {es : List StartEvent}
    (h : s.calls + es.countP StartEvent.isStart ≤ 4294967296) :
    Along ServerStart.step
      (fun s e ↦ ∀ s', s.step e = some s' → s'.calls ≤ 4294967296) s es := by
  induction es generalizing s with
  | nil => trivial
  | cons e es ih =>
    rw [List.countP_cons] at h
    refine along_cons.mpr ⟨fun s' hs' ↦ ?_, fun s' hs' ↦ ih ?_⟩
    · rw [calls_of_step hs']
      omega
    · rw [calls_of_step hs']
      omega

/-- How far a server is that is being started, by any threads. -/
structure Started (n : ℕ) (s : ServerStart) : Prop where
  once : s.listens ≤ 1
  loops : s.loops_ = List.range s.loops_.length
  pool : s.loops.server.threadPool_.loops = s.loops_.length
  few : s.loops_.length ≤ n
  published : ∀ k ∈ s.loops_, s.threads_[k]? = some ThreadPhase.published
  complete : 0 < s.listens → s.loops_.length = n
  before : s.listens = 0 → ∀ i, s.loops.conns i = none
  progress : 0 < s.calls → s.listens = 0 → ∃ e, e.isStart = false ∧ (s.step e).isSome = true

/-- From its first call on `start` does not get stuck before the base loop listens. -/
theorem StartsAs.progress (h : s.StartsAs name listenAddr callbacks n t) (hcalls : 0 < s.calls)
    (hzero : s.listens = 0) : ∃ e, e.isStart = false ∧ (s.step e).isSome = true := by
  have htask : s.loops.task 0 = .idle := by
    rw [(h.before hzero).2]
    rfl
  cases h.stage with
  | fresh => omega
  | @turn u i hpc =>
    refine ⟨.turn u, rfl, ?_⟩
    simp only [ServerStart.step, hpc]
    split_ifs <;> rfl
  | @startLoop u i hpc others hlt loops threads =>
    have hi : i < s.threads_.length := by omega
    rcases h.phases _ (List.getElem_mem hi) with hphase | hphase
    · exact ⟨.publish i, rfl, by simp [ServerStart.step, List.getElem?_eq_getElem hi, hphase]⟩
    · refine ⟨.startLoop u, rfl, ?_⟩
      simp [ServerStart.step, hpc, List.getElem?_eq_getElem hi, hphase]
  | @poolStarted u hpc =>
    refine ⟨.runInLoop u, rfl, ?_⟩
    simp only [ServerStart.step, hpc]
    split_ifs <;> rfl
  | done idle loops once =>
    refine ⟨.listen, rfl, ?_⟩
    rw [ServerStart.step, if_pos ⟨by omega, idle 0, htask⟩]
    rfl

theorem StartsAs.started (h : s.StartsAs name listenAddr callbacks n t)
    (ht : ServerLoops.Dealt n t) : s.Started n := by
  have hstage : s.listens ≤ 1 ∧ s.loops_ = List.range s.loops_.length ∧ s.loops_.length ≤ n ∧
      (0 < s.listens → s.loops_.length = n) := by
    cases h.stage with
    | fresh idle loops threads quiet => simp [loops, quiet.2]
    | turn hpc others hle loops threads quiet => simp [loops, quiet.2, hle]
    | startLoop hpc others hlt loops threads quiet => simp [loops, quiet.2, hlt.le]
    | poolStarted hpc others loops quiet => simp [loops, quiet.2]
    | done idle loops once =>
      refine ⟨by omega, ?_, ?_, fun _ ↦ ?_⟩ <;> simp [loops]
  obtain ⟨honce, hloops, hfew, hcomplete⟩ := hstage
  refine ⟨honce, hloops, ?_, hfew, h.published, hcomplete, fun hzero i ↦ ?_, h.progress⟩
  · rcases Nat.eq_zero_or_pos s.listens with hzero | hpos
    · rw [(h.before hzero).2]
      rfl
    · rw [h.accepting hpos, ht.pool, hcomplete hpos]
  · rw [(h.before hzero).2]
    rfl

/-- In every run with at most `2 ^ 32` calls of `start`, by any threads, the base loop listens
at most once, and only when all the loops of the pool are there; and the server then runs as
one that has had them from the start. -/
theorem refines_of_run {numThreads : ℤ} (es : List StartEvent) (s : ServerStart)
    (hrun : run ServerStart.step (new name listenAddr callbacks numThreads) es = some s)
    (hfew : es.countP StartEvent.isStart ≤ 4294967296) :
    s.Started numThreads.toNat ∧ ∃ t,
      run ServerLoops.step (.start name listenAddr callbacks numThreads.toNat)
        (es.filterMap StartEvent.server?) = some t ∧ (0 < s.listens → s.loops = t) := by
  have hcalls : (new name listenAddr callbacks numThreads).calls +
      es.countP StartEvent.isStart ≤ 4294967296 := (Nat.zero_add _).trans_le hfew
  have halong := along_of_few hcalls
  obtain ⟨t, ht, hs⟩ := run_simulates
    (R := fun s t ↦ s.StartsAs name listenAddr callbacks numThreads.toNat t)
    (fun s t e s' h hg hstep ↦ h.step (hg s' hstep) hstep) (startsAs_new numThreads) halong hrun
  have hdealt : ServerLoops.Dealt numThreads.toNat t :=
    run_preserves (fun _ _ _ h hstep ↦ h.step hstep) (ServerLoops.dealt_start ..) ht
  exact ⟨hs.started hdealt, t, ht, hs.accepting⟩

def startedTwice : List StartEvent :=
  [.start 1, .start 0, .turn 1, .publish 0, .startLoop 1, .turn 1, .publish 1, .startLoop 1,
    .turn 1, .runInLoop 1, .listen, .server (.newConnection 7 .numbered),
    .server (.newConnection 8 .numbered)]

theorem refines_of_run_startedTwice : ∃ s t,
    run ServerStart.step (new ['s'] ⟨(0, 0, 0, 0), 80⟩ ⟨true, true, true, false⟩ 2) startedTwice =
      some s ∧ s.Started 2 ∧
    run ServerLoops.step (.start ['s'] ⟨(0, 0, 0, 0), 80⟩ ⟨true, true, true, false⟩ 2)
      [.newConnection 7 .numbered, .newConnection 8 .numbered] = some t ∧ s.loops = t := by
  obtain ⟨s, hs, hlistens⟩ := Option.map_eq_some_iff.mp
    (show (run ServerStart.step (new ['s'] ⟨(0, 0, 0, 0), 80⟩ ⟨true, true, true, false⟩ 2)
      startedTwice).map listens = some 1 by decide +kernel)
  obtain ⟨hstarted, t, ht, hsame⟩ := refines_of_run startedTwice s hs (by decide)
  exact ⟨s, t, hs, hstarted, ht, hsame (hlistens.symm ▸ Nat.one_pos)⟩

end ServerStart

end Mymuduo.Net
