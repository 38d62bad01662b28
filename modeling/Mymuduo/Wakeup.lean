import Mymuduo.EventLoop

namespace Mymuduo.Net

open Execution

variable {F : Type*}

namespace LoopPc

/-- The next swap comes before the next `poll`. -/
def Collects : LoopPc F → Prop
  | handling _ | swapping => True
  | _ => False

/-- User code in which `queueInLoop` does not wake the loop up, although a `poll` comes
before the next swap. -/
def Unattended : LoopPc F → Prop
  | outside | destroying => True
  | _ => False

instance : DecidablePred (Unattended (F := F))
  | outside | destroying => .isTrue trivial
  | testing | beforePoll | polling | handling _ | swapping | draining _ | calling _ => .isFalse id

def callsFunctors : LoopPc F → Bool
  | swapping | draining _ | calling _ => true
  | _ => false

end LoopPc

namespace EventLoop

variable (s : EventLoop F)

/-- `poll` returns at once, or some other thread is about to see to that. -/
def WakeupPending : Prop := 0 < s.wakeupFd_ ∨ ∃ t, s.caller t = .pushed

def NoLostWakeup : Prop := s.pc = .polling → s.pendingFunctors_ ≠ [] → s.WakeupPending

/-- A functor that the loop thread queues outside `loop()`, or while the functors of a
batch are destroyed, finds a wakeup pending. -/
def WokenEarly : LoopEvent F → Prop
  | .queueInLoop _ => s.pc.Unattended → s.WakeupPending
  | _ => True

variable {s} {s' : EventLoop F}

structure WakeInv (s : EventLoop F) : Prop where
  calling : s.callingPendingFunctors_ = s.pc.callsFunctors
  woken : ¬ s.pc.Collects → s.pendingFunctors_ ≠ [] → s.WakeupPending

theorem WakeInv.goto (h : s.WakeInv) (hcalling : s'.callingPendingFunctors_ = s'.pc.callsFunctors)
    (hcollects : ¬ s.pc.Collects) (hpending : s'.pendingFunctors_ = s.pendingFunctors_)
    (hwakeup : s'.wakeupFd_ = s.wakeupFd_) (hcaller : s'.caller = s.caller) : s'.WakeInv := by
  constructor
  · exact hcalling
  · intro _ hp
    rw [hpending] at hp
    rw [WakeupPending, hwakeup, hcaller]
    exact h.woken hcollects hp

theorem WakeInv.wake (h : s.WakeInv)
    (hcalling : s'.callingPendingFunctors_ = s.callingPendingFunctors_) (hpc : s'.pc = s.pc)
    (hwoken : s'.WakeupPending) : s'.WakeInv := by
  constructor
  · rw [hcalling, hpc, h.calling]
  · intro _ _
    exact hwoken

theorem WakeInv.queueInLoop (h : s.WakeInv) {f : F} (hpc : s.pc.InUserCode)
    (hguard : s.pc.Unattended → s.WakeupPending) : (s.queueInLoop f).WakeInv := by
  simp only [EventLoop.queueInLoop]
  split_ifs with hcalling
  · exact h.wake rfl rfl (.inl (wakeup_pos _))
  · constructor
    · exact h.calling
    · intro hc _
      have hnot : s.pc.callsFunctors = false := by
        rw [← h.calling]
        simpa [EventLoop.push] using hcalling
      cases hs : s.pc with
      | outside | destroying => exact hguard (by rw [hs]; trivial)
      | handling woken => exact (hc (by simp [EventLoop.push, hs, LoopPc.Collects])).elim
      | calling functors => simp [hs, LoopPc.callsFunctors] at hnot
      | testing | beforePoll | polling | swapping | draining => simp [hs, LoopPc.InUserCode] at hpc

theorem step_wakeInv {e : LoopEvent F} (h : s.WakeInv) (hguard : s.WokenEarly e)
    (hstep : s.step e = some s') : s'.WakeInv := by
  have hcalling := h.calling
  cases steps_of_step hstep with
  | enter hpc =>
    rw [hpc] at hcalling
    exact h.goto hcalling (by simp [hpc, LoopPc.Collects]) rfl rfl rfl
  | test hpc =>
    have hcalls : s.callingPendingFunctors_ = false := by
      rcases hpc with hpc | hpc <;> rw [hcalling, hpc] <;> rfl
    have hcollects : ¬ s.pc.Collects := by
      rcases hpc with hpc | hpc <;> rw [hpc] <;> exact id
    rw [test]
    split <;> exact h.goto hcalls hcollects rfl rfl rfl
  | poll hpc =>
    rw [hpc] at hcalling
    exact h.goto hcalling (by simp [hpc, LoopPc.Collects]) rfl rfl rfl
  | pollReturn hpc hw =>
    rw [hpc] at hcalling
    exact h.goto hcalling (by simp [hpc, LoopPc.Collects]) rfl rfl rfl
  | handldRead hpc =>
    rw [hpc] at hcalling
    exact ⟨hcalling, fun hc ↦ (hc trivial).elim⟩
  | handled hpc => exact ⟨rfl, fun hc ↦ (hc trivial).elim⟩
  | swap hpc =>
    rw [hpc] at hcalling
    exact ⟨hcalling, fun _ hp ↦ (hp rfl).elim⟩
  | call hpc =>
    rw [hpc] at hcalling
    exact h.goto hcalling (by simp [hpc, LoopPc.Collects]) rfl rfl rfl
  | callReturn hpc =>
    rw [hpc] at hcalling
    exact h.goto hcalling (by simp [hpc, LoopPc.Collects]) rfl rfl rfl
  | drained hpc => exact h.goto rfl (by simp [hpc, LoopPc.Collects]) rfl rfl rfl
  | queueInLoop hpc => exact h.queueInLoop hpc hguard
  | quit hpc => exact ⟨h.calling, h.woken⟩
  | push ht => exact h.wake rfl rfl (.inr ⟨_, Function.update_self ..⟩)
  | wakeup ht => exact h.wake rfl rfl (.inl (wakeup_pos _))
  | @quitStore t ht =>
    constructor
    · exact h.calling
    · intro hc hp
      rcases h.woken hc hp with hpos | ⟨u, hu⟩
      · exact .inl hpos
      · have hne : u ≠ t := by
          intro hut
          subst hut
          cases ht.symm.trans hu
        exact .inr ⟨u, (Function.update_of_ne hne ..).trans hu⟩
  | quitWakeup ht => exact h.wake rfl rfl (.inl (wakeup_pos _))

/-- In every run in which the loop thread queues nothing outside `loop()` or at the end
of `doPendingFunctors`, or finds a wakeup pending when it does, no wakeup is lost. -/
theorem noLostWakeup (es : List (LoopEvent F)) (s : EventLoop F)
    (hrun : run step new es = some s) (hguard : Along step WokenEarly new es) :
    s.NoLostWakeup := by
  have hstart : (new : EventLoop F).WakeInv := ⟨rfl, fun _ hp ↦ (hp rfl).elim⟩
  have hinv := run_invariant (fun _ _ _ h hg hs ↦ step_wakeInv h hg hs) hstart hguard hrun
  intro hpc
  apply hinv.woken
  simp [hpc, LoopPc.Collects]

/-- A functor that is queued there without a wakeup is lost in the next `poll`. -/
theorem lost_of_not_wokenEarly (h : s.WakeInv) (hpc : s.pc.Unattended) (f : F)
    (hguard : ¬ s.WakeupPending) : ∃ es s', run step s (.queueInLoop f :: es) = some s' ∧
      (∀ e ∈ es, e.control = true) ∧ ¬ s'.NoLostWakeup := by
  have hcalling : s.callingPendingFunctors_ = false := by
    rw [h.calling]
    cases hs : s.pc with
    | outside | destroying => rfl
    | testing | beforePoll | polling | handling | swapping | draining | calling =>
      simp [hs, LoopPc.Unattended] at hpc
  have hqueued : s.queueInLoop f = s.push f := by simp [EventLoop.queueInLoop, push, hcalling]
  have hlost : ¬ ({ s.push f with quit_ := false }.goto .polling).NoLostWakeup :=
    fun hnone ↦ hguard (hnone rfl (by simp [goto, push]))
  obtain ⟨es, hes, hcontrol⟩ : ∃ es,
      run step s (.queueInLoop f :: es) = some ({ s.push f with quit_ := false }.goto .polling) ∧
        ∀ e ∈ es, e.control = true := by
    cases hs : s.pc with
    | outside =>
      refine ⟨[.enter, .test, .poll], ?_, by simp [LoopEvent.control]⟩
      simp [run, step, hs, hqueued, LoopPc.InUserCode, push, enter, test, goto]
    | destroying =>
      cases hquit : s.quit_ with
      | true =>
        refine ⟨[.test, .enter, .test, .poll], ?_, by simp [LoopEvent.control]⟩
        simp [run, step, hs, hqueued, LoopPc.InUserCode, push, enter, test, goto, hquit]
      | false =>
        refine ⟨[.test, .poll], ?_, by simp [LoopEvent.control]⟩
        simp [run, step, hs, hqueued, LoopPc.InUserCode, push, test, goto, hquit]
    | testing | beforePoll | polling | handling | swapping | draining | calling =>
      simp [hs, LoopPc.Unattended] at hpc
  exact ⟨es, _, hes, hcontrol, hlost⟩

/-- What `WokenEarly` asks, with the counter of `wakeupFd_` for a wakeup that is pending. -/
def queuesWoken (s : EventLoop F) : LoopEvent F → Bool
  | .queueInLoop _ => !decide s.pc.Unattended || decide (0 < s.wakeupFd_)
  | _ => true

theorem wokenEarly_of_queuesWoken (s : EventLoop F) (e : LoopEvent F)
    (h : s.queuesWoken e = true) : s.WokenEarly e := by
  cases e with
  | queueInLoop f =>
    intro hpc
    exact .inl (by simpa [queuesWoken, hpc] using h)
  | _ => trivial

theorem noLostWakeup_nested :
    ∃ s, run step new [.push 1 0, .wakeup 1, .enter, .test, .poll, .pollReturn true, .handldRead,
        .handled, .swap, .call, .queueInLoop 1, .callReturn, .drained, .push 2 2, .queueInLoop 3,
        .test, .poll] = some s ∧ s.NoLostWakeup := by
  refine ⟨_, rfl, noLostWakeup [.push 1 0, .wakeup 1, .enter, .test, .poll, .pollReturn true,
    .handldRead, .handled, .swap, .call, .queueInLoop 1, .callReturn, .drained, .push 2 2,
    .queueInLoop 3, .test, .poll] _ rfl ?_⟩
  have hwoken : Along step (fun (s : EventLoop ℕ) e ↦ s.queuesWoken e = true) new
      [.push 1 0, .wakeup 1, .enter, .test, .poll, .pollReturn true, .handldRead, .handled, .swap,
        .call, .queueInLoop 1, .callReturn, .drained, .push 2 2, .queueInLoop 3, .test, .poll] := by
    decide
  exact hwoken.mono wokenEarly_of_queuesWoken

/-- The loop thread queues a functor and then enters `loop()`. -/
theorem not_noLostWakeup :
    ¬ ∀ (es : List (LoopEvent Unit)) (s : EventLoop Unit), run step new es = some s →
      s.NoLostWakeup := by
  intro h
  have hlost := h [.queueInLoop (), .enter, .test, .poll] _ rfl rfl (List.cons_ne_nil _ _)
  rcases hlost with hpos | ⟨t, ht⟩
  · exact absurd hpos (by decide)
  · cases ht

end EventLoop

end Mymuduo.Net
