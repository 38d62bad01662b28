import Mymuduo.Syscall
import Mathlib.Logic.Function.Basic
import Mathlib.Data.List.Basic

namespace Mymuduo.Net

inductive Index
  | kNew | kAdded | kDeleted
deriving DecidableEq, Repr

/-- A channel; `ptr` is the address of the object. -/
structure Channel where
  fd : ℕ
  ptr : ℕ
  events : BitVec 32
  index : Index
deriving DecidableEq, Repr

inductive EpollOp
  | add | mod | del
deriving DecidableEq, Repr

/-- `channels_`, the kernel's epoll set (mask and `data.ptr` for each descriptor),
and the `epoll_ctl` calls that the kernel has refused. -/
structure EpollPoller where
  channels : ℕ → Option ℕ
  epoll : ℕ → Option (BitVec 32 × ℕ)
  refused : List (EpollOp × ℕ)

namespace Channel

def EPOLLIN : BitVec 32 := 1
def EPOLLPRI : BitVec 32 := 2
def EPOLLOUT : BitVec 32 := 4
def EPOLLERR : BitVec 32 := 8
def EPOLLHUP : BitVec 32 := 16

def kReadEvent : BitVec 32 := EPOLLIN ||| EPOLLPRI
def kWriteEvent : BitVec 32 := EPOLLOUT
def kNonEvent : BitVec 32 := 0

def new (fd ptr : ℕ) : Channel := ⟨fd, ptr, kNonEvent, .kNew⟩

def isWriting (ch : Channel) : Bool := ch.events &&& kWriteEvent != 0
def isReading (ch : Channel) : Bool := ch.events &&& kReadEvent != 0
def isNonEvent (ch : Channel) : Bool := ch.events == kNonEvent

end Channel

namespace EpollPoller

def empty : EpollPoller := ⟨fun _ ↦ none, fun _ ↦ none, []⟩

/-- `update`: the `epoll_ctl` call. The kernel refuses to add a descriptor that
is present and to change or delete one that is absent. -/
def update (p : EpollPoller) (op : EpollOp) (ch : Channel) : EpollPoller :=
  match op, p.epoll ch.fd with
  | .add, none | .mod, some _ =>
    { p with epoll := Function.update p.epoll ch.fd (some (ch.events, ch.ptr)) }
  | .del, some _ => { p with epoll := Function.update p.epoll ch.fd none }
  | op, _ => { p with refused := p.refused ++ [(op, ch.fd)] }

def updateChannel (p : EpollPoller) (ch : Channel) : EpollPoller × Channel :=
  match ch.index with
  | .kNew =>
    let p := { p with channels := Function.update p.channels ch.fd (some ch.ptr) }
    let ch := { ch with index := .kAdded }
    (p.update .add ch, ch)
  | .kDeleted =>
    let ch := { ch with index := .kAdded }
    (p.update .add ch, ch)
  | .kAdded =>
    if ch.isNonEvent then (p.update .del ch, { ch with index := .kDeleted })
    else (p.update .mod ch, ch)

def removeChannel (p : EpollPoller) (ch : Channel) : EpollPoller × Channel :=
  let p := { p with channels := Function.update p.channels ch.fd none }
  let p := if ch.index = .kAdded then p.update .del ch else p
  (p, { ch with index := .kNew })

end EpollPoller

namespace Channel

variable (p : EpollPoller) (ch : Channel)

def enableReading : EpollPoller × Channel :=
  p.updateChannel { ch with events := ch.events ||| kReadEvent }
def disableReading : EpollPoller × Channel :=
  p.updateChannel { ch with events := ch.events &&& ~~~kReadEvent }
def enableWriting : EpollPoller × Channel :=
  p.updateChannel { ch with events := ch.events ||| kWriteEvent }
def disableWriting : EpollPoller × Channel :=
  p.updateChannel { ch with events := ch.events &&& ~~~kWriteEvent }
def disableAll : EpollPoller × Channel := p.updateChannel { ch with events := kNonEvent }
def remove : EpollPoller × Channel := p.removeChannel ch

end Channel

namespace EpollPoller

variable (p : EpollPoller) (ch : Channel)

@[simp] theorem updateChannel_events : (p.updateChannel ch).2.events = ch.events := by
  rw [updateChannel]
  split <;> first | rfl | (split <;> rfl)

@[simp] theorem updateChannel_fd : (p.updateChannel ch).2.fd = ch.fd := by
  rw [updateChannel]
  split <;> first | rfl | (split <;> rfl)

@[simp] theorem updateChannel_ptr : (p.updateChannel ch).2.ptr = ch.ptr := by
  rw [updateChannel]
  split <;> first | rfl | (split <;> rfl)

end EpollPoller

namespace Channel

variable (p : EpollPoller) (ch : Channel)

@[simp] theorem isWriting_new (fd ptr : ℕ) : (new fd ptr).isWriting = false := by
  simp [isWriting, new, kNonEvent]

@[simp] theorem isWriting_enableWriting : (ch.enableWriting p).2.isWriting = true := by
  have h : (ch.events ||| kWriteEvent) &&& kWriteEvent = kWriteEvent := by
    apply BitVec.eq_of_getLsbD_eq
    intro i _
    simpa using Or.inr
  simp only [isWriting, enableWriting, EpollPoller.updateChannel_events, h]
  decide

@[simp] theorem isWriting_disableWriting : (ch.disableWriting p).2.isWriting = false := by
  have h : ch.events &&& ~~~kWriteEvent &&& kWriteEvent = 0 := by
    rw [BitVec.and_assoc, show ~~~kWriteEvent &&& kWriteEvent = 0 by decide]
    exact BitVec.and_zero
  simp only [isWriting, disableWriting, EpollPoller.updateChannel_events, h]
  decide

@[simp] theorem isWriting_disableAll : (ch.disableAll p).2.isWriting = false := by
  simp only [isWriting, disableAll, EpollPoller.updateChannel_events]
  decide

@[simp] theorem isWriting_enableReading : (ch.enableReading p).2.isWriting = ch.isWriting := by
  have h : (ch.events ||| kReadEvent) &&& kWriteEvent = ch.events &&& kWriteEvent := by
    apply BitVec.eq_of_getLsbD_eq
    intro i _
    have hdisjoint : (kReadEvent &&& kWriteEvent).getLsbD i = false := by
      rw [show kReadEvent &&& kWriteEvent = 0 by decide]
      exact BitVec.getLsbD_zero
    rw [BitVec.getLsbD_and] at hdisjoint
    simp only [BitVec.getLsbD_and, BitVec.getLsbD_or, Bool.and_or_distrib_right, hdisjoint,
      Bool.or_false]
  simp only [isWriting, enableReading, EpollPoller.updateChannel_events, h]

@[simp] theorem isWriting_kWriteEvent (fd ptr : ℕ) (index : Index) :
    (⟨fd, ptr, kWriteEvent, index⟩ : Channel).isWriting = true := by
  simp only [isWriting]
  decide

theorem enableWriting_new {p : EpollPoller} {fd ptr : ℕ} (h : p.epoll fd = none) :
    (new fd ptr).enableWriting p =
      (⟨Function.update p.channels fd (some ptr),
        Function.update p.epoll fd (some (kWriteEvent, ptr)), p.refused⟩,
        ⟨fd, ptr, kWriteEvent, .kAdded⟩) := by
  have hevents : kNonEvent ||| kWriteEvent = kWriteEvent := by decide
  simp only [enableWriting, new, EpollPoller.updateChannel, EpollPoller.update, h, hevents]

theorem remove_disableAll {p : EpollPoller} {ch : Channel} (hindex : ch.index = .kAdded)
    (h : (p.epoll ch.fd).isSome) :
    (ch.disableAll p).2.remove (ch.disableAll p).1 =
      (⟨Function.update p.channels ch.fd none, Function.update p.epoll ch.fd none, p.refused⟩,
        ⟨ch.fd, ch.ptr, kNonEvent, .kNew⟩) := by
  obtain ⟨e, he⟩ := Option.isSome_iff_exists.mp h
  simp [disableAll, remove, EpollPoller.removeChannel, EpollPoller.updateChannel,
    EpollPoller.update, isNonEvent, hindex, he]

end Channel

end Mymuduo.Net
