import Mymuduo.FunctorOrder

namespace Mymuduo.Net

open Execution

variable {F : Type*}

def LoopPc.stepsToCall : LoopPc F → ℕ
  | draining (_ :: _) => 0
  | swapping => 1
  | handling false => 2
  | handling true => 3
  | polling => 4
  | beforePoll => 5
  | testing | destroying => 6
  | draining [] | outside => 7
  | calling _ => 8

def LoopEvent.thread? : LoopEvent F → Option ℕ
  | push t _ | wakeup t | quitStore t | quitWakeup t => some t
  | _ => none

namespace EventLoop

variable {s s' : EventLoop F} {e : LoopEvent F}

theorem caller_of_step (h : s.step e = some s') {t : ℕ} (ht : e.thread? ≠ some t) :
    s'.caller t = s.caller t := by
  cases steps_of_step h with
  | test =>
    rw [test]
    split_ifs <;> rfl
  | queueInLoop =>
    simp only [EventLoop.queueInLoop]
    split_ifs <;> rfl
  | push | wakeup | quitStore | quitWakeup =>
    exact Function.update_of_ne (fun hu ↦ ht (congrArg _ hu.symm)) ..
  | enter | poll | pollReturn | handldRead | handled | swap | call | callReturn | drained
  | quit => rfl

theorem pushed_of_step (h : s.step e = some s') : s.pushed <+: s'.pushed := by
  cases steps_of_step h with
  | test =>
    rw [test]
    split_ifs <;> exact List.prefix_rfl
  | queueInLoop =>
    simp only [EventLoop.queueInLoop]
    split_ifs <;> exact List.prefix_append ..
  | push => exact List.prefix_append ..
  | enter | poll | pollReturn | handldRead | handled | swap | call | callReturn | drained
  | quit | wakeup | quitStore | quitWakeup => exact List.prefix_rfl

theorem executed_of_step (h : s.step e = some s') : s.executed <+: s'.executed := by
  cases steps_of_step h with
  | test =>
    rw [test]
    split_ifs <;> exact List.prefix_rfl
  | queueInLoop =>
    simp only [EventLoop.queueInLoop]
    split_ifs <;> exact List.prefix_rfl
  | call => exact List.prefix_append ..
  | enter | poll | pollReturn | handldRead | handled | swap | callReturn | drained | quit
  | push | wakeup | quitStore | quitWakeup => exact List.prefix_rfl

/-- A step of others leaves the loop thread where it is. -/
theorem stay_of_step (h : s.step e = some s') (he : e.control = false) :
    s'.pc = s.pc ∧ s'.executed = s.executed := by
  cases steps_of_step h with
  | queueInLoop =>
    simp only [EventLoop.queueInLoop]
    split_ifs <;> exact ⟨rfl, rfl⟩
  | quit | push | wakeup | quitStore | quitWakeup => exact ⟨rfl, rfl⟩
  | enter | test | poll | pollReturn | handldRead | handled | swap | call | callReturn
  | drained => cases he

/-- While a functor waits, each step of the loop thread leads to a call. -/
theorem InOrder.control_step (h : s.InOrder) (hstep : s.step e = some s') (he : e.control = true)
    (hruns : s.pc ≠ .outside) (hruns' : s'.pc ≠ .outside) (hleft : s.executed ≠ s.pushed) :
    s.executed.length < s'.executed.length ∨
      s'.executed = s.executed ∧ s'.pc.stepsToCall < s.pc.stepsToCall := by
  cases steps_of_step hstep with
  | enter hpc => exact (hruns hpc).elim
  | test hpc =>
    rw [test] at hruns' ⊢
    split_ifs at hruns' ⊢
    · exact (hruns' rfl).elim
    · refine .inr ⟨rfl, ?_⟩
      rcases hpc with hpc | hpc <;> rw [hpc] <;> exact Nat.lt_succ_self _
  | poll hpc | handldRead hpc | handled hpc | drained hpc =>
    rw [hpc]
    exact .inr ⟨rfl, Nat.lt_succ_self _⟩
  | @pollReturn woken hpc =>
    rw [hpc]
    refine .inr ⟨rfl, ?_⟩
    cases woken
    · exact show 2 < 4 by decide
    · exact show 3 < 4 by decide
  | swap hpc =>
    refine .inr ⟨rfl, ?_⟩
    cases hpending : s.pendingFunctors_ with
    | nil =>
      rw [InOrder, hpc, hpending, List.append_nil] at h
      exact (hleft ((List.append_nil _).symm.trans h)).elim
    | cons f rest =>
      rw [hpc, swap, hpending]
      exact Nat.one_pos
  | call =>
    exact .inl (List.length_append.symm ▸ Nat.lt_succ_self _)
  | @callReturn functors hpc =>
    rw [hpc]
    refine .inr ⟨rfl, ?_⟩
    cases functors with
    | nil => exact Nat.lt_succ_self 7
    | cons => exact show 0 < 8 by decide
  | queueInLoop | quit | push | wakeup | quitStore | quitWakeup => cases he

theorem woken_of_step {t : ℕ} (h : s.step (.wakeup t) = some s') : 0 < s'.wakeupFd_ := by
  cases steps_of_step h with
  | wakeup => exact wakeup_pos _

/-- The loop thread goes on unless it waits in `poll` for a descriptor, and a thread that
has pushed a functor wakes it up. -/
structure GoesOn (ρ : InfiniteRun (step (F := F))) : Prop where
  thread : ∀ n, ((ρ.state n).pc = .polling → 0 < (ρ.state n).wakeupFd_) →
    ∃ m, n ≤ m ∧ (ρ.event m).control = true
  wakeup : ∀ n t, (ρ.state n).caller t = .pushed → ∃ m, n ≤ m ∧ ρ.event m = .wakeup t

variable {ρ : InfiniteRun (step (F := F))}

/-- With functors waiting, `poll` does not hold the loop thread up. -/
theorem GoesOn.control (h : GoesOn ρ) (hwake : ∀ n, (ρ.state n).WakeInv) {n : ℕ}
    (hpending : (ρ.state n).pc = .polling → (ρ.state n).pendingFunctors_ ≠ []) :
    ∃ m, n ≤ m ∧ (ρ.event m).control = true := by
  by_cases hpc : (ρ.state n).pc = .polling
  · rcases (hwake n).woken (by rw [hpc]; exact id) (hpending hpc) with hpos | ⟨t, ht⟩
    · exact h.thread n fun _ ↦ hpos
    · obtain ⟨m, hm, he⟩ := h.wakeup n t ht
      have hwoken : 0 < (ρ.state (m + 1)).wakeupFd_ := woken_of_step (he ▸ ρ.next m)
      obtain ⟨k, hk, hc⟩ := h.thread (m + 1) fun _ ↦ hwoken
      exact ⟨k, by omega, hc⟩
  · exact h.thread n fun hp ↦ (hpc hp).elim

theorem InOrder.executed_le (h : s.InOrder) : s.executed <+: s.pushed := by
  rw [InOrder, List.append_assoc] at h
  exact h ▸ List.prefix_append ..

theorem InOrder.pending_ne_nil (h : s.InOrder) (hpc : s.pc = .polling)
    (hleft : s.executed ≠ s.pushed) : s.pendingFunctors_ ≠ [] := by
  intro hnil
  rw [InOrder, hpc, hnil, List.append_nil] at h
  exact hleft ((List.append_nil _).symm.trans h)

/-- While functors wait, the loop thread comes to call one. -/
theorem GoesOn.calls (h : GoesOn ρ) (hwake : ∀ n, (ρ.state n).WakeInv)
    (horder : ∀ n, (ρ.state n).InOrder) {n : ℕ} (hruns : ∀ m, n ≤ m → (ρ.state m).pc ≠ .outside)
    (hleft : (ρ.state n).executed ≠ (ρ.state n).pushed) :
    ∃ m, n ≤ m ∧ (ρ.state n).executed.length < (ρ.state m).executed.length := by
  have hlt : (ρ.state n).executed.length < (ρ.state n).pushed.length := by
    by_contra hge
    exact hleft ((horder n).executed_le.eq_of_length_le (Nat.not_lt.mp hge))
  have hwaits (k : ℕ) (hk : ¬ (ρ.state n).executed.length < (ρ.state (n + k)).executed.length) :
      (ρ.state (n + k)).executed ≠ (ρ.state (n + k)).pushed := by
    intro heq
    have hle := (ρ.prefix_of_le (fun _ _ _ ↦ pushed_of_step) (Nat.le_add_right n k)).length_le
    rw [← heq] at hle
    omega
  have hgoal : ∃ m, 0 ≤ m ∧
      (ρ.state n).executed.length < ((ρ.drop n).state m).executed.length := by
    refine (ρ.drop n).eventually Nat.lt_wfRel.wf
      (fun s ↦ if (ρ.state n).executed.length < s.executed.length then 0
        else s.pc.stepsToCall + 1)
      (fun e ↦ e.control = true) (fun s ↦ (ρ.state n).executed.length < s.executed.length)
      (fun k hk he ↦ ?_) (fun k he ↦ ?_) (fun k hk ↦ ?_) 0
    · have hle := (ρ.prefix_of_le (fun _ _ _ ↦ executed_of_step) (Nat.le_add_right n k)).length_le
      rw [if_neg hk]
      split_ifs with hnext
      · exact Nat.succ_pos _
      · have hstep := (horder (n + k)).control_step (ρ.next (n + k)) he (hruns _ (by omega))
          (hruns _ (by omega)) (hwaits k hk)
        obtain hcalled | ⟨-, hless⟩ := hstep
        · exact (hnext (Nat.lt_of_le_of_lt hle hcalled)).elim
        · exact Nat.succ_lt_succ hless
    · have hstay := stay_of_step (ρ.next (n + k)) (Bool.eq_false_iff.mpr he)
      have hsame : (ρ.drop n).state (k + 1) = ρ.state (n + k + 1) := rfl
      rw [hsame, hstay.1, hstay.2]
      rfl
    · obtain ⟨m, hm, hc⟩ := h.control hwake fun hpc ↦
        (horder (n + k)).pending_ne_nil hpc (hwaits k hk)
      obtain ⟨j, rfl⟩ := Nat.exists_eq_add_of_le hm
      rw [Nat.add_assoc] at hc
      exact ⟨k + j, Nat.le_add_right k j, hc⟩
  obtain ⟨m, -, hm⟩ := hgoal
  exact ⟨n + m, by omega, hm⟩

/-- In every run of a loop that is not left, with the functors queued as `noLostWakeup` has
it, each functor queued by some moment has been called at a later one. -/
theorem eventually_executed (ρ : InfiniteRun (step (F := F))) (hstart : ρ.state 0 = new)
    (hguard : ∀ n, (ρ.state n).WokenEarly (ρ.event n)) (hgoes : GoesOn ρ) {n : ℕ}
    (hruns : ∀ m, n ≤ m → (ρ.state m).pc ≠ .outside) :
    ∃ m, n ≤ m ∧ (ρ.state n).pushed <+: (ρ.state m).executed := by
  have hwake := ρ.invariant (fun _ _ _ h hg hs ↦ step_wakeInv h hg hs)
    (hstart ▸ (⟨rfl, fun _ hp ↦ (hp rfl).elim⟩ : (new : EventLoop F).WakeInv)) hguard
  have horder := ρ.invariant (G := fun _ _ ↦ True) (fun _ _ _ h _ hs ↦ step_inOrder h hs)
    (hstart ▸ (rfl : (new : EventLoop F).InOrder)) fun _ ↦ trivial
  have hcaught : ∃ m, 0 ≤ m ∧ (ρ.state (n + 0)).pushed <+: (ρ.state (n + m)).executed := by
    refine eventually_catchesUp (w := fun k ↦ (ρ.state (n + k)).pushed)
      (r := fun k ↦ (ρ.state (n + k)).executed)
      (fun hle ↦ ρ.prefix_of_le (fun _ _ _ ↦ pushed_of_step) (Nat.add_le_add_left hle n))
      (fun k ↦ (horder (n + k)).executed_le) (fun k hleft ↦ ?_) 0
    obtain ⟨m, hm, hlt⟩ := hgoes.calls hwake horder (fun j hj ↦ hruns j (by omega)) hleft
    obtain ⟨j, rfl⟩ := Nat.exists_eq_add_of_le hm
    rw [Nat.add_assoc] at hlt
    exact ⟨k + j, Nat.le_add_right k j, hlt⟩
  obtain ⟨m, -, hm⟩ := hcaught
  exact ⟨n + m, Nat.le_add_right n m, hm⟩

def pushedInPoll : List (LoopEvent ℕ) :=
  [.enter, .test, .poll, .push 1 0, .wakeup 1, .pollReturn true, .handldRead, .handled, .swap,
    .call, .callReturn, .drained]

def idleIteration : List (LoopEvent ℕ) :=
  [.test, .poll, .pollReturn false, .handled, .swap, .drained]

def idle : EventLoop ℕ := (run step new pushedInPoll).getD new

theorem run_pushedInPoll : run step new pushedInPoll = some idle := rfl

theorem run_idleIteration : run step idle idleIteration = some idle := rfl

def idling : InfiniteRun (step (F := ℕ)) :=
  .lasso pushedInPoll idleIteration run_pushedInPoll run_idleIteration (by decide)

theorem idling_at (n : ℕ) : ∃ k, k < 18 ∧ (k = n ∨ 12 ≤ k) ∧
    idling.state n = (run step new ((pushedInPoll ++ idleIteration).take k)).getD new ∧
      (pushedInPoll ++ idleIteration)[k]? = some (idling.event n) := by
  obtain ⟨k, hk, hmoment, hs, he⟩ := InfiniteRun.lasso_at pushedInPoll idleIteration
    run_pushedInPoll run_idleIteration (by decide) n
  refine ⟨k, hk, hmoment, hs, ?_⟩
  rw [List.getElem?_eq_getElem hk]
  exact congrArg some he.symm

theorem goesOn_idling : GoesOn idling where
  thread n _ := by
    obtain ⟨k, hk, hmoment, -, he⟩ := idling_at (n + 12)
    refine ⟨n + 12, by omega, ?_⟩
    have hcontrol : ∀ k < 18, 12 ≤ k →
        ((pushedInPoll ++ idleIteration)[k]?).any LoopEvent.control = true := by decide
    have hthis := hcontrol k hk (by omega)
    rwa [he] at hthis
  wakeup n t ht := by
    obtain rfl : t = 1 := by
      by_contra hne
      have hidle (m : ℕ) : (idling.state m).caller t = .idle := by
        induction m with
        | zero => rfl
        | succ m ih =>
          rw [caller_of_step (idling.next m) ?_, ih]
          obtain ⟨k, hk, -, -, he⟩ := idling_at m
          have hthread : ∀ k < 18, ((pushedInPoll ++ idleIteration)[k]?).all
              (fun e ↦ e.thread? = none ∨ e.thread? = some 1) = true := by decide
          have hthis := hthread k hk
          rw [he] at hthis
          rcases of_decide_eq_true hthis with hnone | hone
          · simp [hnone]
          · simpa [hone] using Ne.symm hne
      rw [hidle n] at ht
      cases ht
    obtain ⟨k, hk, hmoment, hs, he⟩ := idling_at n
    have hwakes : ∀ k < 18, ((run step new ((pushedInPoll ++ idleIteration).take k)).getD
        (new : EventLoop ℕ)).caller 1 = .pushed →
          (pushedInPoll ++ idleIteration)[k]? = some (.wakeup 1) := by decide
    rw [hs] at ht
    exact ⟨n, le_rfl, Option.some.inj (he.symm.trans (hwakes k hk ht))⟩

theorem eventually_executed_idling : (idling.state 4).pushed = [0] ∧
    ∃ m, 4 ≤ m ∧ (idling.state 4).pushed <+: (idling.state m).executed := by
  refine ⟨rfl, eventually_executed idling rfl (fun n ↦ ?_) goesOn_idling fun m hm ↦ ?_⟩
  · obtain ⟨k, hk, -, hs, he⟩ := idling_at n
    have hwoken : ∀ k < 18, ((pushedInPoll ++ idleIteration)[k]?).all
        (((run step new ((pushedInPoll ++ idleIteration).take k)).getD
          (new : EventLoop ℕ)).queuesWoken ·) = true := by decide
    have hthis := hwoken k hk
    rw [he, ← hs] at hthis
    exact wokenEarly_of_queuesWoken _ _ hthis
  · obtain ⟨k, hk, hmoment, hs, -⟩ := idling_at m
    have hruns : ∀ k < 18, 4 ≤ k → ((run step new
        ((pushedInPoll ++ idleIteration).take k)).getD (new : EventLoop ℕ)).pc ≠ .outside := by
      decide
    rw [hs]
    exact hruns k hk (by omega)

end EventLoop

end Mymuduo.Net
