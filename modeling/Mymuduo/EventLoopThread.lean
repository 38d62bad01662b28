import Mymuduo.EventLoop

namespace Mymuduo.Net

variable {F : Type*}

/-- How far `threadFunc` is: in the thread's init callback, before `loop()`, in
`loop()`, after it, and at its end. -/
inductive ThreadPhase
  | starting | published | looping | finished | exited
deriving DecidableEq, Repr

/-- `loop_` tells whether the pointer is set, `holds` which threads have it.
`polls` counts the polls since a call of `quit` has returned. -/
structure EventLoopThread (F : Type*) where
  loop : EventLoop F
  phase : ThreadPhase
  loop_ : Bool
  holds : ℕ → Bool
  polls : Option ℕ

/-- The steps of `threadFunc` around those of the loop, and, by a thread `t`, the
return of `startLoop`, the destructor's look at `loop_` and its `join`. -/
inductive LoopThreadEvent (F : Type*)
  | publish
  | loop (e : LoopEvent F)
  | unpublish
  | startLoop (t : ℕ)
  | destructor (t : ℕ)
  | join (t : ℕ)
deriving DecidableEq, Repr

namespace LoopThreadEvent

def control : LoopThreadEvent F → Bool
  | publish | unpublish => true
  | loop e => e.control
  | startLoop _ | destructor _ | join _ => false

end LoopThreadEvent

namespace EventLoopThread

def new : EventLoopThread F := ⟨.new, .starting, false, fun _ ↦ false, none⟩

variable (s : EventLoopThread F)

/-- Who may take a step of the loop: `threadFunc` enters it once, the init
callback and the loop run user code, and other threads need the pointer. -/
def May : LoopEvent F → Prop
  | .enter => s.phase = .published
  | .queueInLoop _ | .quit => s.phase = .starting ∨ s.phase = .looping
  | .push t _ | .wakeup t | .quitStore t | .quitWakeup t => s.holds t = true
  | _ => s.phase = .looping

instance : DecidablePred s.May
  | .enter => inferInstanceAs (Decidable (s.phase = .published))
  | .queueInLoop _ | .quit => inferInstanceAs (Decidable (s.phase = .starting ∨ s.phase = .looping))
  | .push t _ | .wakeup t | .quitStore t | .quitWakeup t =>
    inferInstanceAs (Decidable (s.holds t = true))
  | .test | .poll | .pollReturn _ | .handldRead | .handled | .swap | .call | .callReturn
  | .drained => inferInstanceAs (Decidable (s.phase = .looping))

def phaseAfter (e : LoopEvent F) : ThreadPhase :=
  match e with
  | .enter => .looping
  | .test => if s.loop.quit_ then .finished else s.phase
  | _ => s.phase

def pollsAfter (e : LoopEvent F) : Option ℕ :=
  match e with
  | .quit | .quitWakeup _ => some (s.polls.getD 0)
  | .poll => s.polls.map (· + 1)
  | _ => s.polls

def loopStep (e : LoopEvent F) : Option (EventLoopThread F) :=
  if s.May e then
    (s.loop.step e).map fun loop ↦
      { s with loop := loop, phase := s.phaseAfter e, polls := s.pollsAfter e }
  else none

def hold (t : ℕ) : EventLoopThread F := { s with holds := Function.update s.holds t true }

def step : LoopThreadEvent F → Option (EventLoopThread F)
  | .publish =>
    if s.phase = .starting then some { s with phase := .published, loop_ := true } else none
  | .loop e => s.loopStep e
  | .unpublish =>
    if s.phase = .finished then some { s with phase := .exited, loop_ := false } else none
  | .startLoop t | .destructor t => if s.loop_ then some (s.hold t) else none
  | .join t => if s.phase = .exited ∧ s.holds t then some s else none

end EventLoopThread

end Mymuduo.Net
