import Mathlib.Data.Nat.Notation
import Mathlib.Logic.Function.Basic
import Mathlib.Tactic.SplitIfs
import Mymuduo.Lib.Execution

namespace Mymuduo.Net

variable {F : Type*}

/-- Where the loop thread stands. User code runs in `outside`, before and after
`loop()`, in `handling`, in `calling`, and in `destroying`: there `doPendingFunctors`
destroys its vector, and with it what the functors captured. -/
inductive LoopPc (F : Type*)
  | outside
  | testing
  | beforePoll
  | polling
  | handling (woken : Bool)
  | swapping
  | draining (functors : List F)
  | calling (functors : List F)
  | destroying
deriving DecidableEq, Repr

/-- Where another thread stands: outside of any call, or before the `wakeup()`
of `queueInLoop` or of `quit`. -/
inductive LoopCaller
  | idle
  | pushed
  | quitStored
deriving DecidableEq, Repr

/-- `wakeupFd_` is the counter of the descriptor, `pushed` and `executed` are all functors
so far, in order. A call from another thread is cut where it touches what the threads
share; in the loop thread it is one step. -/
structure EventLoop (F : Type*) where
  pc : LoopPc F
  quit_ : Bool
  callingPendingFunctors_ : Bool
  pendingFunctors_ : List F
  wakeupFd_ : ℕ
  caller : ℕ → LoopCaller
  pushed : List F
  executed : List F

/-- The steps of the loop thread, then those of another thread `t`. -/
inductive LoopEvent (F : Type*)
  | enter
  | test
  | poll
  | pollReturn (woken : Bool)
  | handldRead
  | handled
  | swap
  | call
  | callReturn
  | drained
  | queueInLoop (f : F)
  | quit
  | push (t : ℕ) (f : F)
  | wakeup (t : ℕ)
  | quitStore (t : ℕ)
  | quitWakeup (t : ℕ)
deriving DecidableEq, Repr

namespace LoopPc

def InUserCode : LoopPc F → Prop
  | outside | handling _ | calling _ | destroying => True
  | _ => False

instance : DecidablePred (InUserCode (F := F))
  | outside | handling _ | calling _ | destroying => .isTrue trivial
  | testing | beforePoll | polling | swapping | draining _ => .isFalse id

end LoopPc

namespace LoopEvent

def control : LoopEvent F → Bool
  | enter | test | poll | pollReturn _ | handldRead | handled | swap | call | callReturn
  | drained => true
  | _ => false

end LoopEvent

namespace EventLoop

def new : EventLoop F where
  pc := .outside
  quit_ := false
  callingPendingFunctors_ := false
  pendingFunctors_ := []
  wakeupFd_ := 0
  caller := fun _ ↦ .idle
  pushed := []
  executed := []

variable (s : EventLoop F)

def goto (pc : LoopPc F) : EventLoop F := { s with pc := pc }

def setCaller (t : ℕ) (p : LoopCaller) : EventLoop F :=
  { s with caller := Function.update s.caller t p }

def push (f : F) : EventLoop F :=
  { s with pendingFunctors_ := s.pendingFunctors_ ++ [f], pushed := s.pushed ++ [f] }

/-- The largest counter of an eventfd, `UINT64_MAX - 1`. -/
def maxCounter : ℕ := 0xfffffffffffffffe

def wakeup : EventLoop F :=
  { s with wakeupFd_ := if s.wakeupFd_ < maxCounter then s.wakeupFd_ + 1 else s.wakeupFd_ }

def queueInLoop (f : F) : EventLoop F :=
  let s := s.push f
  if s.callingPendingFunctors_ then s.wakeup else s

def enter : EventLoop F := { s with quit_ := false }.goto .testing

def test : EventLoop F := if s.quit_ then s.goto .outside else s.goto .beforePoll

def handldRead : EventLoop F := { s with wakeupFd_ := 0 }.goto (.handling false)

def handled : EventLoop F := { s with callingPendingFunctors_ := true }.goto .swapping

def swap : EventLoop F := { s with pendingFunctors_ := [] }.goto (.draining s.pendingFunctors_)

def call (f : F) (functors : List F) : EventLoop F :=
  { s with executed := s.executed ++ [f] }.goto (.calling functors)

def drained : EventLoop F := { s with callingPendingFunctors_ := false }.goto .destroying

/-- The step of an event, where it can happen. `poll` reports `wakeupFd_` only
when its counter is positive, and `handldRead` is then called before
`doPendingFunctors`. -/
def step : LoopEvent F → Option (EventLoop F)
  | .enter =>
    match s.pc with
    | .outside => some s.enter
    | _ => none
  | .test =>
    match s.pc with
    | .testing | .destroying => some s.test
    | _ => none
  | .poll =>
    match s.pc with
    | .beforePoll => some (s.goto .polling)
    | _ => none
  | .pollReturn woken =>
    match s.pc with
    | .polling => if woken = true → 0 < s.wakeupFd_ then some (s.goto (.handling woken)) else none
    | _ => none
  | .handldRead =>
    match s.pc with
    | .handling true => some s.handldRead
    | _ => none
  | .handled =>
    match s.pc with
    | .handling false => some s.handled
    | _ => none
  | .swap =>
    match s.pc with
    | .swapping => some s.swap
    | _ => none
  | .call =>
    match s.pc with
    | .draining (f :: functors) => some (s.call f functors)
    | _ => none
  | .callReturn =>
    match s.pc with
    | .calling functors => some (s.goto (.draining functors))
    | _ => none
  | .drained =>
    match s.pc with
    | .draining [] => some s.drained
    | _ => none
  | .queueInLoop f => if s.pc.InUserCode then some (s.queueInLoop f) else none
  | .quit => if s.pc.InUserCode then some { s with quit_ := true } else none
  | .push t f => if s.caller t = .idle then some ((s.push f).setCaller t .pushed) else none
  | .wakeup t => if s.caller t = .pushed then some (s.wakeup.setCaller t .idle) else none
  | .quitStore t =>
    if s.caller t = .idle then some ({ s with quit_ := true }.setCaller t .quitStored) else none
  | .quitWakeup t => if s.caller t = .quitStored then some (s.wakeup.setCaller t .idle) else none

theorem wakeup_pos : 0 < s.wakeup.wakeupFd_ := by
  have hmax : 0 < maxCounter := by decide
  simp only [wakeup]
  split_ifs <;> omega

theorem le_wakeup : s.wakeupFd_ ≤ s.wakeup.wakeupFd_ := by
  simp only [wakeup]
  split_ifs <;> omega

variable {s} in
theorem caller_of_setCaller {t u : ℕ} {p q : LoopCaller} (hp : p ≠ q)
    (h : (s.setCaller t p).caller u = q) : s.caller u = q := by
  by_cases hut : u = t
  · subst hut
    exact (hp (by simpa [setCaller] using h)).elim
  · simpa [setCaller, hut] using h

inductive Steps : LoopEvent F → EventLoop F → Prop
  | enter (h : s.pc = .outside) : Steps .enter s.enter
  | test (h : s.pc = .testing ∨ s.pc = .destroying) : Steps .test s.test
  | poll (h : s.pc = .beforePoll) : Steps .poll (s.goto .polling)
  | pollReturn {woken : Bool} (h : s.pc = .polling) (hw : woken = true → 0 < s.wakeupFd_) :
      Steps (.pollReturn woken) (s.goto (.handling woken))
  | handldRead (h : s.pc = .handling true) : Steps .handldRead s.handldRead
  | handled (h : s.pc = .handling false) : Steps .handled s.handled
  | swap (h : s.pc = .swapping) : Steps .swap s.swap
  | call {f : F} {functors : List F} (h : s.pc = .draining (f :: functors)) :
      Steps .call (s.call f functors)
  | callReturn {functors : List F} (h : s.pc = .calling functors) :
      Steps .callReturn (s.goto (.draining functors))
  | drained (h : s.pc = .draining []) : Steps .drained s.drained
  | queueInLoop {f : F} (h : s.pc.InUserCode) : Steps (.queueInLoop f) (s.queueInLoop f)
  | quit (h : s.pc.InUserCode) : Steps .quit { s with quit_ := true }
  | push {t : ℕ} {f : F} (h : s.caller t = .idle) :
      Steps (.push t f) ((s.push f).setCaller t .pushed)
  | wakeup {t : ℕ} (h : s.caller t = .pushed) : Steps (.wakeup t) (s.wakeup.setCaller t .idle)
  | quitStore {t : ℕ} (h : s.caller t = .idle) :
      Steps (.quitStore t) ({ s with quit_ := true }.setCaller t .quitStored)
  | quitWakeup {t : ℕ} (h : s.caller t = .quitStored) :
      Steps (.quitWakeup t) (s.wakeup.setCaller t .idle)

theorem steps_of_step {s s' : EventLoop F} {e : LoopEvent F} (h : s.step e = some s') :
    s.Steps e s' := by
  cases e with
  | enter | poll | handldRead | handled | swap | call | callReturn | drained =>
    simp only [step] at h
    split at h
    next hpc =>
      cases Option.some.inj h
      constructor
      exact hpc
    next => cases h
  | test =>
    simp only [step] at h
    split at h
    next hpc =>
      cases Option.some.inj h
      exact .test (.inl hpc)
    next hpc =>
      cases Option.some.inj h
      exact .test (.inr hpc)
    next => cases h
  | pollReturn woken =>
    simp only [step] at h
    split at h
    next hpc =>
      split_ifs at h with hw
      cases Option.some.inj h
      exact .pollReturn hpc hw
    next => cases h
  | queueInLoop | quit | push | wakeup | quitStore | quitWakeup =>
    simp only [step] at h
    split_ifs at h with hc
    cases Option.some.inj h
    constructor
    exact hc

end EventLoop

end Mymuduo.Net
