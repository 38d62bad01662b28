import Mymuduo.FunctorOrder

namespace Mymuduo.Net

open Execution

variable {F : Type*}

/-- A loop with the calls on it: `pushing` is the place in `pushed` of the functor
of a thread's running `queueInLoop`, `returned` are the places of those whose
call has returned, `owed` what this was at the latest call of `quit`. -/
structure QuitHandover (F : Type*) where
  loop : EventLoop F
  pushing : ℕ → ℕ
  returned : List ℕ
  owed : List ℕ

namespace LoopPc

/-- The loop can get from here to the test of `quit_` without a swap. -/
def PastSwap : LoopPc F → Prop
  | testing | draining _ | calling _ | destroying => True
  | _ => False

instance : DecidablePred (PastSwap (F := F))
  | testing | draining _ | calling _ | destroying => .isTrue trivial
  | outside | beforePoll | polling | handling _ | swapping => .isFalse id

end LoopPc

namespace QuitHandover

def new : QuitHandover F := ⟨.new, fun _ ↦ 0, [], []⟩

variable (s : QuitHandover F)

def pushingAfter (e : LoopEvent F) : ℕ → ℕ :=
  match e with
  | .push t _ => Function.update s.pushing t s.loop.pushed.length
  | _ => s.pushing

def returnedAfter (e : LoopEvent F) : List ℕ :=
  match e with
  | .queueInLoop _ => s.loop.pushed.length :: s.returned
  | .wakeup t => s.pushing t :: s.returned
  | _ => s.returned

def owedAfter (e : LoopEvent F) : List ℕ :=
  match e with
  | .quit | .quitStore _ => s.returned
  | _ => s.owed

def step (e : LoopEvent F) : Option (QuitHandover F) :=
  (s.loop.step e).map fun loop ↦ ⟨loop, s.pushingAfter e, s.returnedAfter e, s.owedAfter e⟩

def Waiting (i : ℕ) : Prop := s.loop.pushed.length ≤ i + s.loop.pendingFunctors_.length

instance (i : ℕ) : Decidable (s.Waiting i) := inferInstanceAs (Decidable (_ ≤ _))

/-- No functor that was handed over waits for a swap when `quit` stores on the way
from the swap to the test of `quit_`. -/
def QuitsInTime : LoopEvent F → Prop
  | .quit | .quitStore _ => s.loop.pc.PastSwap → ∀ i ∈ s.returned, ¬ s.Waiting i
  | _ => True

instance : DecidablePred s.QuitsInTime
  | .quit | .quitStore _ =>
    inferInstanceAs (Decidable (s.loop.pc.PastSwap → ∀ i ∈ s.returned, ¬ s.Waiting i))
  | .enter | .test | .poll | .pollReturn _ | .handldRead | .handled | .swap | .call | .callReturn
  | .drained | .queueInLoop _ | .push _ _ | .wakeup _ | .quitWakeup _ => .isTrue trivial

def HandoverKept : Prop :=
  ∀ i ∈ s.owed, ∃ f, s.loop.pushed[i]? = some f ∧ s.loop.executed[i]? = some f

structure Inv (s : QuitHandover F) : Prop where
  inOrder : s.loop.InOrder
  pushing : ∀ t, s.loop.caller t = .pushed → s.pushing t < s.loop.pushed.length
  returned : ∀ i ∈ s.returned, i < s.loop.pushed.length
  owed : ∀ i ∈ s.owed, i < s.loop.pushed.length
  taken : s.loop.quit_ = true → s.loop.pc.PastSwap → ∀ i ∈ s.owed, ¬ s.Waiting i

variable {s} {s' : QuitHandover F}

theorem waiting_push {f : F} {i : ℕ} {l : EventLoop F} (hpushed : l.pushed = s.loop.pushed ++ [f])
    (hpending : l.pendingFunctors_ = s.loop.pendingFunctors_ ++ [f]) :
    ({ s with loop := l } : QuitHandover F).Waiting i ↔ s.Waiting i := by
  simp only [Waiting, hpushed, hpending, List.length_append, List.length_singleton]
  omega

/-- A step that pushes nothing, takes nothing over and leaves the calls as they are. -/
theorem Inv.goto (h : s.Inv) {l : EventLoop F} (hinOrder : l.InOrder)
    (hpushed : l.pushed = s.loop.pushed) (hcaller : l.caller = s.loop.caller)
    (htaken : l.quit_ = true → l.pc.PastSwap →
      ∀ i ∈ s.owed, ¬ QuitHandover.Waiting { s with loop := l } i) :
    Inv { s with loop := l } where
  inOrder := hinOrder
  pushing := by
    rw [hpushed, hcaller]
    exact h.pushing
  returned := by
    rw [hpushed]
    exact h.returned
  owed := by
    rw [hpushed]
    exact h.owed
  taken := htaken

theorem Inv.pushed (h : s.Inv) {l : EventLoop F} {f : F} {pushing : ℕ → ℕ} {returned : List ℕ}
    (hinOrder : l.InOrder) (hpushed : l.pushed = s.loop.pushed ++ [f])
    (hpending : l.pendingFunctors_ = s.loop.pendingFunctors_ ++ [f])
    (hquit : l.quit_ = s.loop.quit_) (hpc : l.pc = s.loop.pc)
    (hpushing : ∀ t, l.caller t = .pushed → pushing t ≤ s.loop.pushed.length)
    (hreturned : ∀ i ∈ returned, i ≤ s.loop.pushed.length) :
    Inv ⟨l, pushing, returned, s.owed⟩ := by
  have hlength : l.pushed.length = s.loop.pushed.length + 1 := by simp [hpushed]
  constructor
  · exact hinOrder
  · intro t ht
    rw [hlength]
    exact Nat.lt_succ_of_le (hpushing t ht)
  · intro i hi
    rw [hlength]
    exact Nat.lt_succ_of_le (hreturned i hi)
  · intro i hi
    rw [hlength]
    exact Nat.lt_succ_of_lt (h.owed i hi)
  · intro hq hp i hi hw
    simp only [hquit, hpc] at hq hp
    exact h.taken hq hp i hi ((waiting_push hpushed hpending).mp hw)

theorem Inv.quits (h : s.Inv) {l : EventLoop F} (hinOrder : l.InOrder)
    (hpushed : l.pushed = s.loop.pushed)
    (hpending : l.pendingFunctors_ = s.loop.pendingFunctors_) (hpc : l.pc = s.loop.pc)
    (hcaller : ∀ t, l.caller t = .pushed → s.loop.caller t = .pushed)
    (hguard : s.loop.pc.PastSwap → ∀ i ∈ s.returned, ¬ s.Waiting i) :
    Inv { s with loop := l, owed := s.returned } := by
  constructor
  · exact hinOrder
  · intro t ht
    rw [hpushed]
    exact h.pushing t (hcaller t ht)
  · rw [hpushed]
    exact h.returned
  · rw [hpushed]
    exact h.returned
  · intro _ hp
    simp only [hpc] at hp
    simpa only [Waiting, hpushed, hpending] using hguard hp

theorem step_inv {e : LoopEvent F} (h : s.Inv) (hguard : s.QuitsInTime e)
    (hstep : s.step e = some s') : s'.Inv := by
  obtain ⟨l, hl, rfl⟩ := Option.map_eq_some_iff.mp hstep
  have hinOrder := EventLoop.step_inOrder h.inOrder hl
  cases EventLoop.steps_of_step hl with
  | enter hpc => exact h.goto hinOrder rfl rfl fun hq ↦ (Bool.false_ne_true hq).elim
  | test hpc =>
    rw [EventLoop.test] at hinOrder ⊢
    split_ifs at hinOrder ⊢ <;> exact h.goto hinOrder rfl rfl fun _ hp ↦ hp.elim
  | poll hpc | pollReturn hpc hw | handldRead hpc | handled hpc =>
    exact h.goto hinOrder rfl rfl fun _ hp ↦ hp.elim
  | swap hpc =>
    exact h.goto hinOrder rfl rfl fun _ _ i hi ↦ Nat.not_le.mpr (h.owed i hi)
  | call hpc | callReturn hpc | drained hpc =>
    refine h.goto hinOrder rfl rfl fun hq _ ↦ h.taken hq ?_
    rw [hpc]
    trivial
  | @queueInLoop f hpc =>
    have hreturned : ∀ i ∈ s.loop.pushed.length :: s.returned, i ≤ s.loop.pushed.length := by
      intro i hi
      rcases List.mem_cons.mp hi with rfl | hi
      · exact le_rfl
      · exact Nat.le_of_lt (h.returned i hi)
    simp only [EventLoop.queueInLoop] at hinOrder ⊢
    split_ifs at hinOrder ⊢ <;>
      exact h.pushed (f := f) hinOrder rfl rfl rfl rfl (fun t ht ↦ Nat.le_of_lt (h.pushing t ht))
        hreturned
  | quit hpc => exact h.quits hinOrder rfl rfl rfl (fun _ ↦ id) hguard
  | @push t f ht =>
    refine h.pushed (f := f) hinOrder rfl rfl rfl rfl (fun u hu ↦ ?_) fun i hi ↦
      Nat.le_of_lt (h.returned i hi)
    by_cases hut : u = t
    · subst hut
      simp [pushingAfter]
    · rw [pushingAfter, Function.update_of_ne hut]
      refine Nat.le_of_lt (h.pushing u ?_)
      simpa [EventLoop.setCaller, EventLoop.push, hut] using hu
  | @wakeup t ht =>
    refine { h with inOrder := hinOrder, pushing := ?_, returned := ?_ }
    · intro u hu
      exact h.pushing u (EventLoop.caller_of_setCaller (s := s.loop.wakeup) (by simp) hu)
    · intro i hi
      rcases List.mem_cons.mp hi with rfl | hi
      · exact h.pushing t ht
      · exact h.returned i hi
  | @quitStore t ht =>
    refine h.quits hinOrder rfl rfl rfl (fun u hu ↦ ?_) hguard
    exact EventLoop.caller_of_setCaller (s := { s.loop with quit_ := true }) (by simp) hu
  | @quitWakeup t ht =>
    refine { h with inOrder := hinOrder, pushing := ?_ }
    intro u hu
    exact h.pushing u (EventLoop.caller_of_setCaller (s := s.loop.wakeup) (by simp) hu)

theorem getElem?_of_inOrder {l : EventLoop F} (h : l.InOrder) {i : ℕ}
    (hi : i < l.executed.length) : ∃ f, l.pushed[i]? = some f ∧ l.executed[i]? = some f := by
  refine ⟨l.executed[i], ?_, List.getElem?_eq_getElem hi⟩
  rw [← show l.executed ++ l.pc.batch ++ l.pendingFunctors_ = l.pushed from h, List.append_assoc,
    List.getElem?_append_left hi, List.getElem?_eq_getElem hi]

theorem Inv.handoverKept (h : s.Inv) (hpc : s.loop.pc = .testing ∨ s.loop.pc = .destroying)
    (hquit : s.loop.quit_ = true) : s.HandoverKept := by
  intro i hi
  have hpast : s.loop.pc.PastSwap := by rcases hpc with hpc | hpc <;> rw [hpc] <;> trivial
  have hbatch : s.loop.pc.batch = [] := by rcases hpc with hpc | hpc <;> rw [hpc] <;> rfl
  have htaken := h.taken hquit hpast i hi
  have hlength := congrArg List.length h.inOrder
  simp only [hbatch, List.append_nil, List.length_append] at hlength
  simp only [Waiting, Nat.not_le] at htaken
  exact getElem?_of_inOrder h.inOrder (by omega)

/-- In every run in which each `quit` comes in time, all functors whose
`queueInLoop` returned before it have been executed when `loop()` returns. -/
theorem handoverKept_of_quitsInTime (es : List (LoopEvent F)) (s s' : QuitHandover F)
    (hrun : run step new es = some s) (hguard : Along step QuitsInTime new es)
    (hreturn : s.step .test = some s') (hpc : s'.loop.pc = .outside) : s'.HandoverKept := by
  have hnew : (new : QuitHandover F).Inv := by
    constructor
    case inOrder => rfl
    case pushing =>
      intro t ht
      cases ht
    case returned | owed =>
      intro i hi
      cases hi
    case taken =>
      intro hq
      cases hq
  have hinv := run_invariant (fun _ _ _ h hg hs ↦ step_inv h hg hs) hnew hguard hrun
  obtain ⟨l, hl, rfl⟩ := Option.map_eq_some_iff.mp hreturn
  cases EventLoop.steps_of_step hl with
  | test htesting =>
    rw [EventLoop.test] at hpc ⊢
    split_ifs at hpc ⊢ with hquit
    · exact hinv.handoverKept htesting hquit
    · cases hpc

/-- The functor at place `i` has been left behind: `loop()` returns without a swap. -/
structure LeftBehind (i : ℕ) (s : QuitHandover F) : Prop where
  quit : s.loop.quit_ = true
  pc : s.loop.pc = .outside ∨ s.loop.pc.PastSwap
  behind : s.loop.executed.length + s.loop.pc.batch.length ≤ i

theorem LeftBehind.keep {e : LoopEvent F} {i : ℕ} (h : s.LeftBehind i) (he : e ≠ .enter)
    (hstep : s.step e = some s') : s'.LeftBehind i := by
  obtain ⟨l, hl, rfl⟩ := Option.map_eq_some_iff.mp hstep
  obtain ⟨hquit, hpc, hbehind⟩ := h
  cases EventLoop.steps_of_step hl with
  | enter => exact (he rfl).elim
  | poll h | pollReturn h | handldRead h | handled h | swap h =>
    simp [h, LoopPc.PastSwap] at hpc
  | test h =>
    have hbatch : s.loop.pc.batch = [] := by rcases h with h | h <;> rw [h] <;> rfl
    rw [EventLoop.test, if_pos hquit]
    rw [hbatch] at hbehind
    exact ⟨hquit, .inl rfl, hbehind⟩
  | call h =>
    rw [h] at hbehind
    refine ⟨hquit, .inr trivial, ?_⟩
    simp only [LoopPc.batch, List.length_cons] at hbehind
    simp only [EventLoop.call, EventLoop.goto, LoopPc.batch, List.length_append,
      List.length_singleton]
    omega
  | callReturn h | drained h =>
    rw [h] at hbehind
    exact ⟨hquit, .inr trivial, hbehind⟩
  | queueInLoop =>
    simp only [EventLoop.queueInLoop]
    split_ifs <;> exact ⟨hquit, hpc, hbehind⟩
  | quit | quitStore => exact ⟨rfl, hpc, hbehind⟩
  | push | wakeup | quitWakeup => exact ⟨hquit, hpc, hbehind⟩

theorem leftBehind_of_waiting {i : ℕ} (h : s.loop.InOrder) (hpc : s.loop.pc.PastSwap)
    (hw : s.Waiting i) {caller : ℕ → LoopCaller} {owed : List ℕ} :
    LeftBehind i
      { s with loop := { s.loop with quit_ := true, caller := caller }, owed := owed } := by
  refine ⟨rfl, .inr hpc, ?_⟩
  have hlength := congrArg List.length h
  simp only [List.length_append] at hlength
  simp only [Waiting] at hw
  show s.loop.executed.length + s.loop.pc.batch.length ≤ i
  omega

/-- A `quit` that does not come in time leaves a functor behind, whatever follows. -/
theorem leftBehind_of_not_quitsInTime {e : LoopEvent F} {t : QuitHandover F}
    {es : List (LoopEvent F)} (h : s.loop.InOrder) (hguard : ¬ s.QuitsInTime e)
    (hstep : s.step e = some s') (hes : .enter ∉ es) (hrun : run step s' es = some t) :
    ∃ i ∈ s'.owed, t.loop.executed[i]? = none := by
  obtain ⟨i, hi, hbehind⟩ : ∃ i ∈ s'.owed, s'.LeftBehind i := by
    obtain ⟨l, hl, rfl⟩ := Option.map_eq_some_iff.mp hstep
    cases EventLoop.steps_of_step hl with
    | quit | quitStore =>
      simp only [QuitsInTime, Classical.not_imp, not_forall, not_not] at hguard
      obtain ⟨hpc, i, hi, hw⟩ := hguard
      exact ⟨i, hi, leftBehind_of_waiting h hpc hw⟩
    | enter | test | poll | pollReturn | handldRead | handled | swap | call | callReturn | drained
    | queueInLoop | push | wakeup | quitWakeup => exact (hguard trivial).elim
  have hnot : ∀ e ∈ es, e ≠ .enter := fun e he hd ↦ hes (hd ▸ he)
  have hend := run_invariant_of_mem (fun _ _ _ h he hs ↦ LeftBehind.keep h he hs) hbehind hnot hrun
  refine ⟨i, hi, List.getElem?_eq_none ?_⟩
  have hlength := hend.behind
  omega

theorem handoverKept_while_polling :
    ∃ s s' : QuitHandover ℕ, run step new [.push 1 0, .enter, .test, .poll, .wakeup 1, .push 2 7,
        .wakeup 2, .quitStore 1, .quitWakeup 1, .pollReturn true, .handldRead, .handled, .swap,
        .call, .push 1 9, .callReturn, .call, .callReturn, .drained] = some s ∧
      s.step .test = some s' ∧ s'.HandoverKept := by
  refine ⟨_, _, rfl, rfl, handoverKept_of_quitsInTime [.push 1 0, .enter, .test, .poll, .wakeup 1,
    .push 2 7, .wakeup 2, .quitStore 1, .quitWakeup 1, .pollReturn true, .handldRead, .handled,
    .swap, .call, .push 1 9, .callReturn, .call, .callReturn, .drained] _ _ rfl ?_ rfl rfl⟩
  decide

/-- A thread hands over a functor and then calls `quit`, while the loop executes
the batch that it took before. -/
theorem not_handoverKept :
    ¬ ∀ (es : List (LoopEvent ℕ)) (s s' : QuitHandover ℕ), run step new es = some s →
      s.step .test = some s' → s'.loop.pc = .outside → s'.HandoverKept := by
  intro h
  have hkept := h [.push 1 0, .enter, .test, .poll, .wakeup 1, .pollReturn true, .handldRead,
    .handled, .swap, .call, .push 1 7, .wakeup 1, .quitStore 1, .quitWakeup 1, .callReturn,
    .drained] _ _ rfl rfl rfl
  obtain ⟨f, -, hf⟩ := hkept 1 (by decide)
  cases hf

end QuitHandover

end Mymuduo.Net
