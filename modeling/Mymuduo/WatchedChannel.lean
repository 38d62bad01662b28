import Mymuduo.Lib.Execution
import Mymuduo.PollerAgreement

namespace Mymuduo.Net

open Execution

def ChannelOp.disables : ChannelOp → Bool
  | disableReading | disableWriting | disableAll => true
  | _ => false

/-- A channel with its poller, and the operation that was made last. -/
structure WatchedChannel where
  poller : EpollPoller
  channel : Channel
  last : Option ChannelOp

namespace WatchedChannel

def start (p : EpollPoller) (fd ptr : ℕ) : WatchedChannel := ⟨p, .new fd ptr, none⟩

variable (s : WatchedChannel)

def apply (op : ChannelOp) : WatchedChannel :=
  ⟨(op.apply s.poller s.channel).1, (op.apply s.poller s.channel).2, some op⟩

def step (op : ChannelOp) : Option WatchedChannel := some (s.apply op)

def InEpoll : Prop := (s.poller.epoll s.channel.fd).isSome

instance : Decidable s.InEpoll :=
  inferInstanceAs (Decidable ((s.poller.epoll s.channel.fd).isSome = true))

/-- What an operation must do for no channel without interest to be watched. -/
structure Lawful (op : ChannelOp) : Prop where
  watched : (s.apply op).InEpoll → (s.apply op).channel.isNonEvent = false
  addsNone : op.disables = true → (s.apply op).InEpoll → s.InEpoll
  repeated : op = .disableAll → s.last = some .disableAll →
    (s.apply op).poller.epoll = s.poller.epoll
  unregistered : op.disables = true → ¬ s.InEpoll → (s.apply op).poller.epoll = s.poller.epoll

/-- No disabling operation meets a channel that is not in the epoll set. -/
def DisablesAdded (op : ChannelOp) : Prop := op.disables = true → s.channel.index = .kAdded

instance (op : ChannelOp) : Decidable (s.DisablesAdded op) :=
  inferInstanceAs (Decidable (op.disables = true → s.channel.index = .kAdded))

structure Watching : Prop where
  known : Known s.poller s.channel
  interested : s.channel.index = .kAdded → s.channel.isNonEvent = false
  last : s.last = some .disableAll → s.channel.isNonEvent = true

variable {s}

theorem Watching.inEpoll_iff (h : s.Watching) : s.InEpoll ↔ s.channel.index = .kAdded :=
  h.known.epoll.symm

theorem known_apply (h : s.Watching) (op : ChannelOp) :
    Known (s.apply op).poller (s.apply op).channel := (op.apply_agrees h.known).1.toKnown

theorem isNonEvent_iff {ch : Channel} : ch.isNonEvent = true ↔ ch.events = 0 := by
  rw [Channel.isNonEvent, beq_iff_eq, Channel.kNonEvent]

theorem isNonEvent_eq_false_iff {ch : Channel} : ch.isNonEvent = false ↔ ch.events ≠ 0 := by
  rw [Ne, ← isNonEvent_iff, Bool.not_eq_true]

theorem or_ne_zero {events mask : BitVec 32} (h : mask ≠ 0) : events ||| mask ≠ 0 :=
  fun h' ↦ h (BitVec.or_eq_zero_iff.mp h').2

/-- `updateChannel` leaves a channel of the epoll set there while its mask is not
empty, and adds one that is not in it. -/
theorem index_updateChannel (p : EpollPoller) (ch : Channel) :
    (p.updateChannel ch).2.index =
      if ch.index = .kAdded ∧ ch.isNonEvent = true then .kDeleted else .kAdded := by
  rw [EpollPoller.updateChannel]
  cases hindex : ch.index with
  | kNew | kDeleted => rfl
  | kAdded => cases hmask : ch.isNonEvent <;> simp [hindex]

theorem apply_enables {op : ChannelOp} (hop : op.disables = false) (hremove : op ≠ .remove) :
    (s.apply op).channel.isNonEvent = false := by
  rw [isNonEvent_eq_false_iff]
  cases op with
  | enableReading =>
    simp only [apply, ChannelOp.apply, Channel.enableReading, EpollPoller.updateChannel_events]
    exact or_ne_zero (by decide)
  | enableWriting =>
    simp only [apply, ChannelOp.apply, Channel.enableWriting, EpollPoller.updateChannel_events]
    exact or_ne_zero (by decide)
  | disableReading | disableWriting | disableAll => cases hop
  | remove => exact (hremove rfl).elim

theorem apply_disables {op : ChannelOp} (hop : op.disables = true) :
    ∃ events, op.apply s.poller s.channel =
      s.poller.updateChannel { s.channel with events := events } := by
  cases op with
  | disableReading | disableWriting | disableAll => exact ⟨_, rfl⟩
  | enableReading | enableWriting | remove => cases hop

/-- A disabling operation keeps a channel of the epoll set exactly for what is left
of its mask. -/
theorem index_disables {op : ChannelOp} (hop : op.disables = true)
    (hindex : s.channel.index = .kAdded) :
    (s.apply op).channel.index =
      if (s.apply op).channel.isNonEvent = true then .kDeleted else .kAdded := by
  obtain ⟨events, happly⟩ := apply_disables (s := s) hop
  simp only [apply, happly, index_updateChannel, hindex, true_and, isNonEvent_iff,
    EpollPoller.updateChannel_events]

theorem Watching.apply (h : s.Watching) {op : ChannelOp} (hop : s.DisablesAdded op) :
    (s.apply op).Watching := by
  refine ⟨known_apply h op, fun hindex ↦ ?_, fun hlast ↦ ?_⟩
  · cases hd : op.disables with
    | true =>
      rw [index_disables hd (hop hd)] at hindex
      split_ifs at hindex with hmask
      simpa using hmask
    | false =>
      refine apply_enables hd fun hremove ↦ ?_
      subst hremove
      cases hindex
  · cases Option.some.inj hlast
    rw [isNonEvent_iff]
    exact EpollPoller.updateChannel_events ..

theorem Watching.step_lawful (h : s.Watching) (op : ChannelOp) :
    s.Lawful op ↔ s.DisablesAdded op := by
  constructor
  · intro hl hd
    by_contra hindex
    obtain ⟨events, happly⟩ := apply_disables (s := s) hd
    have hadded : (s.apply op).channel.index = .kAdded := by
      simp [WatchedChannel.apply, happly, index_updateChannel, hindex]
    have hin : (s.apply op).InEpoll := (known_apply h op).epoll.mp hadded
    exact hindex (h.inEpoll_iff.mp (hl.addsNone hd hin))
  · intro hop
    have hafter := h.apply hop
    constructor
    · exact fun hin ↦ hafter.interested (hafter.inEpoll_iff.mp hin)
    · exact fun hd _ ↦ h.inEpoll_iff.mpr (hop hd)
    · -- after a lawful `disableAll` the channel is not in the epoll set
      rintro rfl hlast
      have hmask := h.interested (hop rfl)
      rw [h.last hlast] at hmask
      cases hmask
    · exact fun hd hout ↦ (hout (h.inEpoll_iff.mpr (hop hd))).elim

theorem watching_start {p : EpollPoller} {fd ptr : ℕ} (hp : Known p (.new fd ptr)) :
    (start p fd ptr).Watching := by
  refine ⟨hp, fun hindex ↦ ?_, fun hlast ↦ ?_⟩
  · cases hindex
  · cases hlast

/-- A sequence of operations on a fresh channel keeps the law throughout if and only
if none of its disabling operations meets a channel outside the epoll set. -/
theorem lawful_iff (p : EpollPoller) (fd ptr : ℕ) (hp : Known p (.new fd ptr))
    (ops : List ChannelOp) :
    Along step Lawful (start p fd ptr) ops ↔ Along step DisablesAdded (start p fd ptr) ops := by
  refine along_iff_along (I := Watching) (fun s op h ↦ h.step_lawful op) ?_ (watching_start hp)
  intro s op s' h hop hs
  cases Option.some.inj hs
  exact h.apply hop

theorem known_empty (fd ptr : ℕ) : Known .empty (.new fd ptr) :=
  ⟨by simp [Channel.new, EpollPoller.empty], by simp [Channel.new, EpollPoller.empty]⟩

theorem lawful_iff_mixed :
    Along step Lawful (start .empty 3 8)
      [.enableReading, .enableWriting, .disableWriting, .disableAll, .enableReading, .remove] :=
  (lawful_iff .empty 3 8 (known_empty 3 8) _).mpr (by decide +kernel)

/-- `disableAll` on a fresh channel adds it with an empty mask. -/
theorem not_lawful : ¬ ∀ ops : List ChannelOp, Along step Lawful (start .empty 3 8) ops := by
  intro h
  have hmask := (along_cons.mp (h [.disableAll])).1.watched (by decide)
  exact absurd hmask (by decide)

end WatchedChannel

end Mymuduo.Net
