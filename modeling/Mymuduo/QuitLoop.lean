import Mymuduo.EventLoopThread
import Mymuduo.Lib.Liveness
import Mathlib.Tactic.IntervalCases

namespace Mymuduo.Net

open Execution

variable {F : Type*}

namespace LoopPc

/-- How far it is from here to the end of `loop()` when `quit_` is set: places to
pass, then steps of the batch. -/
def rank : LoopPc F → ℕ × ℕ
  | beforePoll => (8, 0)
  | polling => (7, 0)
  | handling true => (6, 0)
  | handling false => (5, 0)
  | swapping => (4, 0)
  | draining functors => (3, 2 * functors.length)
  | calling functors => (3, 2 * functors.length + 1)
  | testing | destroying => (2, 0)
  | outside => (1, 0)

end LoopPc

def Nearer : ℕ × ℕ → ℕ × ℕ → Prop := Prod.Lex (· < ·) (· < ·)

theorem nearer_wf : WellFounded Nearer := (Prod.lex Nat.lt_wfRel Nat.lt_wfRel).wf

theorem EventLoop.rank_lower {s l : EventLoop F} {e : LoopEvent F} (hstep : s.Steps e l)
    (hquit : s.quit_ = true) (he : e.control = true) (hpc : s.pc ≠ .outside) :
    Nearer l.pc.rank s.pc.rank := by
  cases hstep with
  | queueInLoop | quit | push | wakeup | quitStore | quitWakeup => cases he
  | enter h => exact (hpc h).elim
  | test h =>
    rw [EventLoop.test, if_pos hquit]
    rcases h with h | h <;> rw [h] <;> exact .left _ _ (by decide)
  | pollReturn h hw =>
    rw [h]
    cases ‹Bool› <;> exact .left _ _ (by decide)
  | poll h | handldRead h | handled h | swap h | drained h =>
    rw [h]
    exact .left _ _ (by decide)
  | call h | callReturn h =>
    rw [h]
    exact .right _ (Nat.lt_succ_self _)

namespace EventLoopThread

def QuitsInside (s : EventLoopThread F) : LoopThreadEvent F → Prop
  | .loop (.quitStore _) | .loop .quit => s.phase ≠ .starting ∧ s.phase ≠ .published
  | _ => True

/-- Once `quit` has returned there is at most one more `poll`, and it does not block. -/
structure QuitHeeded (s : EventLoopThread F) : Prop where
  once : ∀ n, s.polls = some n → n ≤ 1
  wakes : s.polls.isSome = true → s.loop.pc = .polling → 0 < s.loop.wakeupFd_

structure Inv (s : EventLoopThread F) : Prop where
  outside : s.phase = .looping ↔ s.loop.pc ≠ .outside
  inside : s.loop.quit_ = true → s.phase ≠ .starting ∧ s.phase ≠ .published
  stored : s.polls.isSome = true ∨ (∃ t, s.loop.caller t = .quitStored) → s.loop.quit_ = true
  once : ∀ n, s.polls = some n → n ≤ 1 ∧ (s.loop.pc = .beforePoll → n = 0)
  wakes : s.polls.isSome = true → s.loop.pc = .beforePoll ∨ s.loop.pc = .polling →
    0 < s.loop.wakeupFd_

variable {s s' : EventLoopThread F}

theorem Inv.quitHeeded (h : s.Inv) : s.QuitHeeded :=
  ⟨fun n hn ↦ (h.once n hn).1, fun hp hpc ↦ h.wakes hp (.inr hpc)⟩

theorem Inv.goto (h : s.Inv) {l : EventLoop F} (hphase : s.phase = .looping)
    (hout : l.pc ≠ .outside) (hbefore : l.pc ≠ .beforePoll) (hpolling : l.pc ≠ .polling)
    (hquit : l.quit_ = s.loop.quit_) (hcaller : l.caller = s.loop.caller) :
    { s with loop := l }.Inv where
  outside := iff_of_true hphase hout
  inside := by
    rw [hquit]
    exact h.inside
  stored := by
    rw [hquit, hcaller]
    exact h.stored
  once n hn := ⟨(h.once n hn).1, fun hpc ↦ (hbefore hpc).elim⟩
  wakes _ hpc := (hpc.elim hbefore hpolling).elim

theorem Inv.calm (h : s.Inv) {l : EventLoop F} (hpc : l.pc = s.loop.pc)
    (hquit : l.quit_ = s.loop.quit_)
    (hcaller : ∀ t, l.caller t = .quitStored → s.loop.caller t = .quitStored)
    (hwakeup : s.loop.wakeupFd_ ≤ l.wakeupFd_) : { s with loop := l }.Inv where
  outside := by
    rw [hpc]
    exact h.outside
  inside := by
    rw [hquit]
    exact h.inside
  stored := by
    rw [hquit]
    intro hs
    rcases hs with hp | ⟨t, ht⟩
    · exact h.stored (.inl hp)
    · exact h.stored (.inr ⟨t, hcaller t ht⟩)
  once := by
    rw [hpc]
    exact h.once
  wakes := by
    rw [hpc]
    exact fun hp hpc ↦ Nat.lt_of_lt_of_le (h.wakes hp hpc) hwakeup

theorem Inv.enter (h : s.Inv) (hphase : s.phase = .published) :
    { s with loop := s.loop.enter, phase := .looping }.Inv := by
  have hfree (hq : s.loop.quit_ = true) : False := (h.inside hq).2 hphase
  constructor
  · exact iff_of_true rfl nofun
  · intro hq
    cases hq
  · intro hs
    exact (hfree (h.stored hs)).elim
  · intro n hn
    have hsome : s.polls.isSome = true := by simp [show s.polls = some n from hn]
    exact (hfree (h.stored (.inl hsome))).elim
  · intro hp
    exact (hfree (h.stored (.inl hp))).elim

theorem Inv.test (h : s.Inv) (hphase : s.phase = .looping) :
    { s with loop := s.loop.test, phase := if s.loop.quit_ then .finished else s.phase }.Inv := by
  rw [EventLoop.test]
  cases hq : s.loop.quit_ with
  | true =>
    constructor
    · exact iff_of_false nofun fun hpc ↦ hpc rfl
    · intro _
      exact ⟨nofun, nofun⟩
    · intro _
      exact hq
    · intro n hn
      exact ⟨(h.once n hn).1, nofun⟩
    · intro _ hpc
      rcases hpc with hpc | hpc <;> cases hpc
  | false =>
    have hnone : s.polls.isSome = false := by
      rw [Bool.eq_false_iff]
      intro hp
      rw [h.stored (.inl hp)] at hq
      cases hq
    constructor
    · exact iff_of_true hphase nofun
    · exact h.inside
    · exact h.stored
    · intro n hn
      simp [show s.polls = some n from hn] at hnone
    · intro hp
      simp [show s.polls.isSome = true from hp] at hnone

theorem Inv.poll (h : s.Inv) (hphase : s.phase = .looping) (hpc : s.loop.pc = .beforePoll) :
    { s with loop := s.loop.goto .polling, polls := s.polls.map (· + 1) }.Inv := by
  constructor
  · exact iff_of_true hphase nofun
  · exact h.inside
  · rw [Option.isSome_map]
    exact h.stored
  · intro n hn
    obtain ⟨k, hk, rfl⟩ := Option.map_eq_some_iff.mp hn
    rw [(h.once k hk).2 hpc]
    exact ⟨le_rfl, nofun⟩
  · intro hp _
    rw [Option.isSome_map] at hp
    exact h.wakes hp (.inl hpc)

theorem Inv.polls_getD (h : s.Inv) :
    s.polls.getD 0 ≤ 1 ∧ (s.loop.pc = .beforePoll → s.polls.getD 0 = 0) := by
  cases hp : s.polls with
  | none => exact ⟨Nat.zero_le 1, fun _ ↦ rfl⟩
  | some k => exact h.once k hp

theorem Inv.quit (h : s.Inv) (hguard : s.phase ≠ .starting ∧ s.phase ≠ .published)
    (hpc : s.loop.pc.InUserCode) :
    { s with loop := { s.loop with quit_ := true }, polls := some (s.polls.getD 0) }.Inv := by
  constructor
  · exact h.outside
  · intro _
    exact hguard
  · intro _
    rfl
  · intro n hn
    cases hn
    exact h.polls_getD
  · intro _ hs
    rcases hs with hs | hs <;> simp [show s.loop.pc = _ from hs, LoopPc.InUserCode] at hpc

theorem Inv.quitStore (h : s.Inv) (hguard : s.phase ≠ .starting ∧ s.phase ≠ .published) {t : ℕ} :
    { s with loop := { s.loop with quit_ := true }.setCaller t .quitStored }.Inv := by
  constructor
  · exact h.outside
  · intro _
    exact hguard
  · intro _
    rfl
  · exact h.once
  · exact h.wakes

theorem Inv.quitWakeup (h : s.Inv) {t : ℕ} (ht : s.loop.caller t = .quitStored) :
    { s with loop := s.loop.wakeup.setCaller t .idle, polls := some (s.polls.getD 0) }.Inv := by
  constructor
  · exact h.outside
  · exact h.inside
  · intro _
    exact h.stored (.inr ⟨t, ht⟩)
  · intro n hn
    cases hn
    exact h.polls_getD
  · intro _ _
    exact EventLoop.wakeup_pos _

theorem Inv.loopStep (h : s.Inv) {e : LoopEvent F} (hguard : s.QuitsInside (.loop e))
    (hstep : s.loopStep e = some s') : s'.Inv := by
  rw [EventLoopThread.loopStep] at hstep
  split_ifs at hstep with hmay
  obtain ⟨l, hl, rfl⟩ := Option.map_eq_some_iff.mp hstep
  cases EventLoop.steps_of_step hl with
  | enter hpc => exact h.enter hmay
  | test hpc => exact h.test hmay
  | poll hpc => exact h.poll hmay hpc
  | pollReturn hpc hw => exact h.goto hmay nofun nofun nofun rfl rfl
  | handldRead hpc => exact h.goto hmay nofun nofun nofun rfl rfl
  | handled hpc => exact h.goto hmay nofun nofun nofun rfl rfl
  | swap hpc => exact h.goto hmay nofun nofun nofun rfl rfl
  | call hpc => exact h.goto hmay nofun nofun nofun rfl rfl
  | callReturn hpc => exact h.goto hmay nofun nofun nofun rfl rfl
  | drained hpc => exact h.goto hmay nofun nofun nofun rfl rfl
  | queueInLoop hpc =>
    simp only [EventLoop.queueInLoop]
    split
    · exact h.calm rfl rfl (fun _ ↦ id) (EventLoop.le_wakeup _)
    · exact h.calm rfl rfl (fun _ ↦ id) le_rfl
  | quit hpc => exact h.quit hguard hpc
  | @push t f ht =>
    exact h.calm rfl rfl (fun _ ↦ EventLoop.caller_of_setCaller (s := s.loop.push f) nofun) le_rfl
  | wakeup ht =>
    exact h.calm rfl rfl (fun _ ↦ EventLoop.caller_of_setCaller (s := s.loop.wakeup) nofun)
      (EventLoop.le_wakeup _)
  | quitStore ht => exact h.quitStore hguard
  | quitWakeup ht => exact h.quitWakeup ht

theorem step_inv {e : LoopThreadEvent F} (h : s.Inv) (hguard : s.QuitsInside e)
    (hstep : s.step e = some s') : s'.Inv := by
  cases e with
  | publish =>
    simp only [step] at hstep
    split_ifs at hstep with hphase
    cases Option.some.inj hstep
    refine { h with outside := ?_, inside := ?_ }
    · have hout := h.outside
      simpa [hphase] using hout
    · intro hq
      exact ((h.inside hq).1 hphase).elim
  | loop e => exact h.loopStep hguard hstep
  | unpublish =>
    simp only [step] at hstep
    split_ifs at hstep with hphase
    cases Option.some.inj hstep
    refine { h with outside := ?_, inside := ?_ }
    · have hout := h.outside
      simpa [hphase] using hout
    · intro _
      exact ⟨nofun, nofun⟩
  | startLoop t | destructor t =>
    simp only [step] at hstep
    split_ifs at hstep
    cases Option.some.inj hstep
    exact { h with }
  | join t =>
    simp only [step] at hstep
    split_ifs at hstep
    cases Option.some.inj hstep
    exact h

def rank (s : EventLoopThread F) : ℕ × ℕ :=
  match s.phase with
  | .starting | .published => (9, 0)
  | .looping | .finished => s.loop.pc.rank
  | .exited => (0, 0)

theorem rank_stay {e : LoopThreadEvent F} (he : ¬ e.control = true) (hstep : s.step e = some s') :
    s'.rank = s.rank := by
  cases e with
  | publish | unpublish => exact (he rfl).elim
  | startLoop t | destructor t | join t =>
    simp only [step] at hstep
    split_ifs at hstep
    cases Option.some.inj hstep
    rfl
  | loop e =>
    simp only [step, loopStep] at hstep
    split_ifs at hstep
    obtain ⟨l, hl, rfl⟩ := Option.map_eq_some_iff.mp hstep
    cases EventLoop.steps_of_step hl with
    | enter | test | poll | pollReturn | handldRead | handled | swap | call | callReturn
    | drained => exact (he rfl).elim
    | queueInLoop hpc =>
      simp only [EventLoop.queueInLoop]
      split <;> rfl
    | quit | push | wakeup | quitStore | quitWakeup => rfl

/-- Once `quit` has returned, each step of the thread brings it nearer to its end. -/
theorem rank_lower (h : s.Inv) (hpolls : s.polls.isSome = true) {e : LoopThreadEvent F}
    (he : e.control = true) (hstep : s.step e = some s') : Nearer s'.rank s.rank := by
  have hquit := h.stored (.inl hpolls)
  cases e with
  | publish =>
    simp only [step] at hstep
    split_ifs at hstep with hphase
    exact ((h.inside hquit).1 hphase).elim
  | unpublish =>
    simp only [step] at hstep
    split_ifs at hstep with hphase
    cases Option.some.inj hstep
    have hpc : s.loop.pc = .outside := by
      by_contra hpc
      simp [h.outside.mpr hpc] at hphase
    simp only [rank, hphase, hpc]
    exact .left _ _ (by decide)
  | startLoop | destructor | join => cases he
  | loop e =>
    simp only [step, loopStep] at hstep
    split_ifs at hstep with hmay
    obtain ⟨l, hl, rfl⟩ := Option.map_eq_some_iff.mp hstep
    have hphase : s.phase = .looping := by
      cases e with
      | enter => exact ((h.inside hquit).2 hmay).elim
      | queueInLoop | quit | push | wakeup | quitStore | quitWakeup => cases he
      | _ => exact hmay
    have hafter : s.phaseAfter e = .looping ∨ s.phaseAfter e = .finished := by
      cases e <;> simp [phaseAfter, hphase, hquit]
    have hlower := EventLoop.rank_lower (EventLoop.steps_of_step hl) hquit he
      (h.outside.mp hphase)
    rcases hafter with ha | ha <;> simpa only [rank, ha, hphase] using hlower

theorem polls_stay {e : LoopThreadEvent F} (hpolls : s.polls.isSome = true)
    (hstep : s.step e = some s') : s'.polls.isSome = true := by
  cases e with
  | loop e =>
    simp only [step, loopStep] at hstep
    split_ifs at hstep
    obtain ⟨l, hl, rfl⟩ := Option.map_eq_some_iff.mp hstep
    cases e <;> simp [pollsAfter, hpolls]
  | publish | unpublish | startLoop | destructor | join =>
    simp only [step] at hstep
    split_ifs at hstep
    cases Option.some.inj hstep
    exact hpolls

def Blocked (s : EventLoopThread F) : Prop := s.loop.pc = .polling ∧ s.loop.wakeupFd_ = 0

/-- The thread goes on unless it is blocked or at its end: it is scheduled, a
`poll` that is ready returns, and so do callbacks and functors. -/
def Fair (ρ : InfiniteRun (step (F := F))) : Prop :=
  ∀ n, (ρ.state n).phase ≠ .exited → ¬ (ρ.state n).Blocked →
    ∃ m, n ≤ m ∧ (ρ.event m).control = true

theorem exits_of_quit (ρ : InfiniteRun (step (F := F))) (h : (ρ.state 0).Inv)
    (hguard : ∀ n, (ρ.state n).QuitsInside (ρ.event n)) (hfair : Fair ρ) {n : ℕ}
    (hpolls : (ρ.state n).polls.isSome = true) :
    ∃ m, n ≤ m ∧ (ρ.state m).phase = .exited := by
  have hinv := ρ.invariant (fun _ _ _ h hg hs ↦ step_inv h hg hs) h hguard
  have hquit (k : ℕ) : (ρ.state (n + k)).polls.isSome = true := by
    induction k with
    | zero => exact hpolls
    | succ k ih => exact polls_stay ih (ρ.next (n + k))
  have hgoes (k : ℕ) (hk : (ρ.state (n + k)).phase ≠ .exited) :
      ∃ m, k ≤ m ∧ (ρ.event (n + m)).control = true := by
    have hawake : ¬ (ρ.state (n + k)).Blocked := fun ⟨hpc, hzero⟩ ↦ by
      have hpos := (hinv (n + k)).wakes (hquit k) (.inr hpc)
      omega
    obtain ⟨m, hm, he⟩ := hfair (n + k) hk hawake
    refine ⟨m - n, by omega, ?_⟩
    rwa [Nat.add_sub_cancel' (by omega)]
  obtain ⟨m, -, hm⟩ := (ρ.drop n).eventually nearer_wf rank (fun e ↦ e.control = true)
    (fun s ↦ s.phase = .exited)
    (fun k _ he ↦ rank_lower (hinv _) (hquit k) he (ρ.next (n + k)))
    (fun k he ↦ rank_stay he (ρ.next (n + k))) hgoes 0
  exact ⟨n + m, by omega, hm⟩

theorem new_inv : (new : EventLoopThread F).Inv where
  outside := iff_of_false nofun fun h ↦ h rfl
  inside := nofun
  stored := by
    intro hs
    rcases hs with hp | ⟨t, ht⟩
    · cases hp
    · cases ht
  once := nofun
  wakes := nofun

/-- When every `quit` stores after `loop()` has started, it is heeded: at most one
more `poll`, which does not block, and in every fair run the thread ends. -/
theorem quit_heeded :
    (∀ (es : List (LoopThreadEvent F)) (s : EventLoopThread F), run step new es = some s →
      Along step QuitsInside new es → s.QuitHeeded) ∧
    ∀ ρ : InfiniteRun (step (F := F)), ρ.state 0 = new →
      (∀ n, (ρ.state n).QuitsInside (ρ.event n)) → Fair ρ →
      ∀ n, (ρ.state n).polls.isSome = true → ∃ m, n ≤ m ∧ (ρ.state m).phase = .exited := by
  refine ⟨fun es s hrun hguard ↦ ?_, fun ρ h0 hguard hfair n hpolls ↦ ?_⟩
  · exact (run_invariant (fun _ _ _ h hg hs ↦ step_inv h hg hs) new_inv hguard hrun).quitHeeded
  · exact exits_of_quit ρ (h0 ▸ new_inv) hguard hfair hpolls

def quitWhilePolling : List (LoopThreadEvent Unit) :=
  [.publish, .startLoop 1, .loop .enter, .loop .test, .loop .poll, .loop (.quitStore 1),
    .loop (.quitWakeup 1), .loop (.pollReturn true), .loop .handldRead, .loop .handled,
    .loop .swap, .loop .drained, .loop .test, .unpublish]

def quitWhilePollingRun : InfiniteRun (step (F := Unit)) where
  state n := (run step new (quitWhilePolling.take n)).getD new
  event n := quitWhilePolling[n]?.getD (.join 1)
  next n := by
    rcases Nat.lt_or_ge n 14 with hn | hn
    · interval_cases n <;> rfl
    · rw [List.take_of_length_le hn, List.take_of_length_le (Nat.le_succ_of_le hn),
        List.getElem?_eq_none hn]
      rfl

theorem quit_heeded_while_polling :
    (∃ s, run step new (quitWhilePolling.take 7) = some s ∧ s.QuitHeeded) ∧
      ∃ m, 7 ≤ m ∧ (quitWhilePollingRun.state m).phase = .exited := by
  refine ⟨⟨_, rfl, quit_heeded.1 (quitWhilePolling.take 7) _ rfl ?_⟩,
    quit_heeded.2 quitWhilePollingRun rfl (fun n ↦ ?_) (fun n hn _ ↦ ?_) 7 rfl⟩
  · exact ⟨trivial, trivial, trivial, trivial, trivial, ⟨nofun, nofun⟩, trivial, trivial⟩
  · rcases Nat.lt_or_ge n 14 with hlt | hge
    · interval_cases n <;> trivial
    · simp [quitWhilePollingRun, List.getElem?_eq_none (l := quitWhilePolling) hge, QuitsInside]
  · rcases Nat.lt_or_ge n 14 with hlt | hge
    · exact ⟨13, by omega, rfl⟩
    · refine (hn ?_).elim
      simp only [quitWhilePollingRun, List.take_of_length_le (l := quitWhilePolling) hge]
      rfl

/-- The quitter stores before `loop()` does: the loop polls twice and blocks. -/
theorem not_quit_heeded :
    ¬ ∀ (es : List (LoopThreadEvent Unit)) (s : EventLoopThread Unit),
      run step new es = some s → s.QuitHeeded := by
  intro h
  have hlost := h [.publish, .startLoop 1, .loop (.quitStore 1), .loop (.quitWakeup 1),
    .loop .enter, .loop .test, .loop .poll, .loop (.pollReturn true), .loop .handldRead,
    .loop .handled, .loop .swap, .loop .drained, .loop .test, .loop .poll] _ rfl
  exact absurd (hlost.once 2 rfl) (by decide)

end EventLoopThread

end Mymuduo.Net
