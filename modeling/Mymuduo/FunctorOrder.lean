import Mymuduo.EventLoopThread
import Mymuduo.Wakeup
import Mymuduo.Lib.Liveness

namespace Mymuduo.Net

open Execution

variable {F : Type*}

namespace LoopPc

def batch : LoopPc F → List F
  | draining functors | calling functors => functors
  | _ => []

def stepsLeft : LoopPc F → ℕ
  | draining functors => 2 * functors.length
  | calling functors => 2 * functors.length + 1
  | _ => 0

end LoopPc

namespace EventLoop

def InOrder (s : EventLoop F) : Prop := s.executed ++ s.pc.batch ++ s.pendingFunctors_ = s.pushed

/-- The loop thread is in `doPendingFunctors` past its swap, and `functors` will
have been executed at its end. -/
def WillHaveExecuted (functors : List F) (s : EventLoop F) : Prop :=
  ∃ rest, (s.pc = .draining rest ∨ s.pc = .calling rest) ∧ s.executed ++ rest = functors

variable {s s' : EventLoop F} {functors : List F}

theorem InOrder.goto (h : s.InOrder) (hbatch : s.pc.batch = []) (hbatch' : s'.pc.batch = [])
    (hexecuted : s'.executed = s.executed) (hpending : s'.pendingFunctors_ = s.pendingFunctors_)
    (hpushed : s'.pushed = s.pushed) : s'.InOrder := by
  rw [InOrder, hbatch', hexecuted, hpending, hpushed, ← hbatch]
  exact h

theorem InOrder.push (h : s.InOrder) (f : F) : (s.push f).InOrder := by
  have hpushed : s.executed ++ s.pc.batch ++ (s.pendingFunctors_ ++ [f]) = s.pushed ++ [f] := by
    rw [← List.append_assoc, show s.executed ++ s.pc.batch ++ s.pendingFunctors_ = s.pushed from h]
  exact hpushed

theorem step_inOrder {e : LoopEvent F} (h : s.InOrder) (hstep : s.step e = some s') :
    s'.InOrder := by
  cases steps_of_step hstep with
  | enter hpc => exact h.goto (by rw [hpc]; rfl) rfl rfl rfl rfl
  | test hpc =>
    have hbatch : s.pc.batch = [] := by rcases hpc with hpc | hpc <;> rw [hpc] <;> rfl
    rw [test]
    split_ifs <;> exact h.goto hbatch rfl rfl rfl rfl
  | poll hpc | pollReturn hpc | handldRead hpc | handled hpc | drained hpc =>
    exact h.goto (by rw [hpc]; rfl) rfl rfl rfl rfl
  | swap hpc =>
    simpa [InOrder, EventLoop.swap, EventLoop.goto, LoopPc.batch, hpc] using h
  | call hpc | callReturn hpc =>
    simpa [InOrder, EventLoop.call, EventLoop.goto, LoopPc.batch, hpc] using h
  | queueInLoop hpc =>
    simp only [EventLoop.queueInLoop]
    split_ifs <;> exact h.push _
  | quit => exact h
  | push => exact h.push _
  | wakeup => exact h
  | quitStore => exact h
  | quitWakeup => exact h

theorem willHaveExecuted_swap (hstep : s.step .swap = some s') :
    s'.WillHaveExecuted (s.executed ++ s.pendingFunctors_) := by
  cases steps_of_step hstep with
  | swap => exact ⟨s.pendingFunctors_, .inl rfl, rfl⟩

theorem WillHaveExecuted.keep {e : LoopEvent F} (h : s.WillHaveExecuted functors)
    (he : e ≠ .drained) (hstep : s.step e = some s') : s'.WillHaveExecuted functors := by
  obtain ⟨rest, hpc, hrest⟩ := h
  cases steps_of_step hstep with
  | drained => exact (he rfl).elim
  | test h => rcases h with h | h <;> simp [h] at hpc
  | enter h | poll h | pollReturn h | handldRead h | handled h | swap h => simp [h] at hpc
  | call h =>
    rw [h] at hpc
    obtain ⟨rfl⟩ : _ = rest := by simpa using hpc
    exact ⟨_, .inr rfl, by simpa [EventLoop.call, EventLoop.goto] using hrest⟩
  | callReturn h =>
    rw [h] at hpc
    obtain ⟨rfl⟩ : _ = rest := by simpa using hpc
    exact ⟨_, .inl rfl, hrest⟩
  | queueInLoop =>
    simp only [EventLoop.queueInLoop]
    split_ifs <;> exact ⟨rest, hpc, hrest⟩
  | quit | push | wakeup | quitStore | quitWakeup => exact ⟨rest, hpc, hrest⟩

theorem WillHaveExecuted.drained (h : s.WillHaveExecuted functors)
    (hstep : s.step .drained = some s') : s'.executed = functors := by
  obtain ⟨rest, hpc, hrest⟩ := h
  cases steps_of_step hstep with
  | drained h =>
    rw [h] at hpc
    obtain ⟨rfl⟩ : [] = rest := by simpa using hpc
    rwa [List.append_nil] at hrest

theorem WillHaveExecuted.stepsLeft_lower {e : LoopEvent F} (h : s.WillHaveExecuted functors)
    (hcontrol : e.control = true) (he : e ≠ .drained) (hstep : s.step e = some s') :
    s'.pc.stepsLeft < s.pc.stepsLeft := by
  obtain ⟨rest, hpc, -⟩ := h
  cases steps_of_step hstep with
  | drained => exact (he rfl).elim
  | test h => rcases h with h | h <;> simp [h] at hpc
  | enter h | poll h | pollReturn h | handldRead h | handled h | swap h => simp [h] at hpc
  | call h | callReturn h =>
    rw [h]
    exact Nat.lt_succ_self _
  | queueInLoop | quit | push | wakeup | quitStore | quitWakeup => cases hcontrol

theorem stepsLeft_stay {e : LoopEvent F} (he : ¬ e.control = true) (hstep : s.step e = some s') :
    s'.pc.stepsLeft = s.pc.stepsLeft := by
  cases steps_of_step hstep with
  | enter | test | poll | pollReturn | handldRead | handled | swap | call | callReturn
  | drained => exact (he rfl).elim
  | queueInLoop =>
    simp only [EventLoop.queueInLoop]
    split_ifs <;> rfl
  | quit | push | wakeup | quitStore | quitWakeup => rfl

/-- The loop thread goes on while it is in `doPendingFunctors`: it is scheduled,
and every functor returns. -/
def FunctorsReturn (ρ : InfiniteRun (step (F := F))) : Prop :=
  ∀ n, (ρ.state n).pc.callsFunctors = true → ∃ m, n ≤ m ∧ (ρ.event m).control = true

theorem WillHaveExecuted.eventually_drained {ρ : InfiniteRun (step (F := F))}
    (h : (ρ.state 0).WillHaveExecuted functors) (hreturn : FunctorsReturn ρ) :
    ∃ m, ρ.event m = .drained ∧ (ρ.state (m + 1)).executed = functors := by
  classical
  have hbatch (n : ℕ) (hn : ∀ k < n, ρ.event k ≠ .drained) :
      (ρ.state n).WillHaveExecuted functors := by
    induction n with
    | zero => exact h
    | succ n ih =>
      exact (ih fun k hk ↦ hn k (by omega)).keep (hn n (by omega)) (ρ.next n)
  have hex : ∃ m, ρ.event m = .drained := by
    by_contra hnever
    have hnever (m : ℕ) : ρ.event m ≠ .drained := fun hm ↦ hnever ⟨m, hm⟩
    have hin (n : ℕ) := hbatch n fun k _ ↦ hnever k
    obtain ⟨m, -, hm⟩ := ρ.eventually Nat.lt_wfRel.wf (fun s ↦ s.pc.stepsLeft)
      (fun e ↦ e.control = true) (fun _ ↦ False)
      (fun n _ he ↦ (hin n).stepsLeft_lower he (hnever n) (ρ.next n))
      (fun n he ↦ stepsLeft_stay he (ρ.next n))
      (fun n _ ↦ hreturn n (by
        obtain ⟨rest, hpc | hpc, -⟩ := hin n <;> rw [hpc] <;> rfl)) 0
    exact hm
  refine ⟨Nat.find hex, Nat.find_spec hex, ?_⟩
  have hlast := ρ.next (Nat.find hex)
  rw [Nat.find_spec hex] at hlast
  exact (hbatch _ fun k hk ↦ Nat.find_min hex hk).drained hlast

def nested : List (LoopEvent ℕ) :=
  [.push 1 0, .wakeup 1, .enter, .test, .poll, .pollReturn true, .handldRead, .handled, .swap,
    .call, .queueInLoop 1, .push 2 2, .quit, .callReturn, .drained, .test]

def nestedRun : InfiniteRun (step (F := ℕ)) := .ofList (s := new) nested .quit rfl rfl

end EventLoop

end Mymuduo.Net
