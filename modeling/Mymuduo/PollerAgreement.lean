import Mymuduo.Channel

namespace Mymuduo.Net

/-- Index and poller say the same of whether the channel is known. This is what
an operation needs; it says nothing of the registered mask. -/
structure Known (p : EpollPoller) (ch : Channel) : Prop where
  epoll : ch.index = .kAdded ↔ (p.epoll ch.fd).isSome
  channels : ch.index = .kAdded ∨ ch.index = .kDeleted ↔ p.channels ch.fd = some ch.ptr

structure Agrees (p : EpollPoller) (ch : Channel) : Prop extends Known p ch where
  registered : ch.index = .kAdded → p.epoll ch.fd = some (ch.events, ch.ptr)

structure SameElsewhere (fd : ℕ) (p p' : EpollPoller) : Prop where
  channels : ∀ n ≠ fd, p'.channels n = p.channels n
  epoll : ∀ n ≠ fd, p'.epoll n = p.epoll n

/-- What a user of a channel calls. -/
inductive ChannelOp
  | enableReading | disableReading | enableWriting | disableWriting | disableAll | remove
deriving DecidableEq, Repr

def ChannelOp.apply (op : ChannelOp) (p : EpollPoller) (ch : Channel) : EpollPoller × Channel :=
  match op with
  | enableReading => ch.enableReading p
  | disableReading => ch.disableReading p
  | enableWriting => ch.enableWriting p
  | disableWriting => ch.disableWriting p
  | disableAll => ch.disableAll p
  | remove => ch.remove p

namespace EpollPoller

variable {p : EpollPoller} {ch : Channel}

theorem update_elsewhere (p : EpollPoller) (op : EpollOp) (ch : Channel) :
    SameElsewhere ch.fd p (p.update op ch) := by
  have hset (e : Option (BitVec 32 × ℕ)) :
      SameElsewhere ch.fd p { p with epoll := Function.update p.epoll ch.fd e } :=
    ⟨fun _ _ ↦ rfl, fun _ hn ↦ Function.update_of_ne hn ..⟩
  cases op <;> cases hepoll : p.epoll ch.fd <;> simp only [update, hepoll] <;>
    first | exact hset _ | exact ⟨fun _ _ ↦ rfl, fun _ _ ↦ rfl⟩

theorem update_channels (p : EpollPoller) (op : EpollOp) (ch : Channel) :
    (p.update op ch).channels = p.channels := by
  cases op <;> cases hepoll : p.epoll ch.fd <;> simp only [update, hepoll]

theorem update_add (h : p.epoll ch.fd = none) :
    p.update .add ch =
      { p with epoll := Function.update p.epoll ch.fd (some (ch.events, ch.ptr)) } := by
  simp only [update, h]

theorem update_mod (h : (p.epoll ch.fd).isSome) :
    p.update .mod ch =
      { p with epoll := Function.update p.epoll ch.fd (some (ch.events, ch.ptr)) } := by
  obtain ⟨e, he⟩ := Option.isSome_iff_exists.mp h
  simp only [update, he]

theorem update_del (h : (p.epoll ch.fd).isSome) :
    p.update .del ch = { p with epoll := Function.update p.epoll ch.fd none } := by
  obtain ⟨e, he⟩ := Option.isSome_iff_exists.mp h
  simp only [update, he]

theorem updateChannel_elsewhere (p : EpollPoller) (ch : Channel) :
    SameElsewhere ch.fd p (p.updateChannel ch).1 := by
  rw [updateChannel]
  split
  next =>
    obtain ⟨hchannels, hepoll⟩ := update_elsewhere
      { p with channels := Function.update p.channels ch.fd (some ch.ptr) } .add
      { ch with index := .kAdded }
    refine ⟨fun n hn ↦ (hchannels n hn).trans ?_, hepoll⟩
    exact Function.update_of_ne hn ..
  next => exact update_elsewhere p .add { ch with index := .kAdded }
  next =>
    split
    · exact update_elsewhere p .del ch
    · exact update_elsewhere p .mod ch

theorem removeChannel_elsewhere (p : EpollPoller) (ch : Channel) :
    SameElsewhere ch.fd p (p.removeChannel ch).1 := by
  rw [removeChannel]
  split_ifs
  · obtain ⟨hchannels, hepoll⟩ := update_elsewhere
      { p with channels := Function.update p.channels ch.fd none } .del ch
    refine ⟨fun n hn ↦ (hchannels n hn).trans ?_, hepoll⟩
    exact Function.update_of_ne hn ..
  · exact ⟨fun n hn ↦ Function.update_of_ne hn .., fun _ _ ↦ rfl⟩

theorem removeChannel_channels (p : EpollPoller) (ch : Channel) :
    (p.removeChannel ch).1.channels ch.fd = none := by
  rw [removeChannel]
  split_ifs
  · rw [update_channels]
    exact Function.update_self ..
  · exact Function.update_self ..

end EpollPoller

namespace Known

variable {p : EpollPoller} {ch : Channel}

theorem withEvents (h : Known p ch) (events : BitVec 32) : Known p { ch with events := events } :=
  ⟨h.epoll, h.channels⟩

theorem epoll_none (h : Known p ch) (hindex : ch.index ≠ .kAdded) : p.epoll ch.fd = none := by
  rw [← Option.not_isSome_iff_eq_none, ← h.epoll]
  exact hindex

/-- `updateChannel` on a known channel issues a legal `epoll_ctl` and leaves the
kernel with the channel's mask. -/
theorem updateChannel (h : Known p ch) :
    Agrees (p.updateChannel ch).1 (p.updateChannel ch).2 ∧
      (p.updateChannel ch).1.refused = p.refused := by
  rw [EpollPoller.updateChannel]
  cases hindex : ch.index with
  | kNew =>
    have hnone : p.epoll ch.fd = none := h.epoll_none (by simp [hindex])
    simp only [EpollPoller.update_add, hnone]
    refine ⟨⟨⟨?_, ?_⟩, ?_⟩, trivial⟩ <;> simp
  | kDeleted =>
    have hnone : p.epoll ch.fd = none := h.epoll_none (by simp [hindex])
    have hptr := h.channels.mp (.inr hindex)
    simp only [EpollPoller.update_add, hnone]
    refine ⟨⟨⟨?_, ?_⟩, ?_⟩, trivial⟩ <;> simp [hptr]
  | kAdded =>
    have hsome := h.epoll.mp hindex
    have hptr := h.channels.mp (.inl hindex)
    simp only
    split_ifs
    · rw [EpollPoller.update_del hsome]
      refine ⟨⟨⟨?_, ?_⟩, ?_⟩, rfl⟩ <;> simp [hptr]
    · rw [EpollPoller.update_mod hsome]
      refine ⟨⟨⟨?_, ?_⟩, ?_⟩, rfl⟩ <;> simp [hptr, hindex]

theorem removeChannel (h : Known p ch) :
    Agrees (p.removeChannel ch).1 (p.removeChannel ch).2 ∧
      (p.removeChannel ch).1.refused = p.refused := by
  rw [EpollPoller.removeChannel]
  split_ifs with hindex
  · have hsome := h.epoll.mp hindex
    simp only [EpollPoller.update_del, hsome]
    refine ⟨⟨⟨?_, ?_⟩, ?_⟩, trivial⟩ <;> simp
  · have hnone := h.epoll_none hindex
    refine ⟨⟨⟨?_, ?_⟩, ?_⟩, rfl⟩ <;> simp [hnone]

theorem elsewhere {p' : EpollPoller} {fd : ℕ} (h : Known p ch) (hfd : ch.fd ≠ fd)
    (hsame : SameElsewhere fd p p') : Known p' ch := by
  constructor
  · rw [hsame.epoll _ hfd]
    exact h.epoll
  · rw [hsame.channels _ hfd]
    exact h.channels

end Known

theorem Agrees.elsewhere {p p' : EpollPoller} {ch : Channel} {fd : ℕ} (h : Agrees p ch)
    (hfd : ch.fd ≠ fd) (hsame : SameElsewhere fd p p') : Agrees p' ch := by
  refine { h.toKnown.elsewhere hfd hsame with registered := ?_ }
  rw [hsame.epoll _ hfd]
  exact h.registered

namespace ChannelOp

variable {p : EpollPoller} {ch : Channel}

/-- All operations but `remove` change the mask and update the poller. -/
theorem apply_cases (op : ChannelOp) (p : EpollPoller) (ch : Channel) :
    op.apply p ch = p.removeChannel ch ∨
      ∃ events, op.apply p ch = p.updateChannel { ch with events := events } := by
  cases op with
  | remove => exact .inl rfl
  | enableReading | disableReading | enableWriting | disableWriting | disableAll =>
    exact .inr ⟨_, rfl⟩

theorem apply_fd (op : ChannelOp) : (op.apply p ch).2.fd = ch.fd := by
  rcases op.apply_cases p ch with h | ⟨events, h⟩
  · rw [h]
    rfl
  · rw [h, EpollPoller.updateChannel_fd]

theorem apply_ptr (op : ChannelOp) : (op.apply p ch).2.ptr = ch.ptr := by
  rcases op.apply_cases p ch with h | ⟨events, h⟩
  · rw [h]
    rfl
  · rw [h, EpollPoller.updateChannel_ptr]

theorem apply_elsewhere (op : ChannelOp) : SameElsewhere ch.fd p (op.apply p ch).1 := by
  rcases op.apply_cases p ch with h | ⟨events, h⟩
  · rw [h]
    exact EpollPoller.removeChannel_elsewhere p ch
  · rw [h]
    exact EpollPoller.updateChannel_elsewhere p { ch with events := events }

theorem apply_agrees (op : ChannelOp) (h : Known p ch) :
    Agrees (op.apply p ch).1 (op.apply p ch).2 ∧ (op.apply p ch).1.refused = p.refused := by
  rcases op.apply_cases p ch with happly | ⟨events, happly⟩
  · rw [happly]
    exact h.removeChannel
  · rw [happly]
    exact (h.withEvents events).updateChannel

end ChannelOp

/-- The poller of a loop and the loop's channels. -/
structure Channels (ι : Type*) where
  poller : EpollPoller
  channel : ι → Channel

namespace Channels

variable {ι : Type*}

def new (fd ptr : ι → ℕ) : Channels ι := ⟨.empty, fun i ↦ .new (fd i) (ptr i)⟩

def apply [DecidableEq ι] (s : Channels ι) (o : ι × ChannelOp) : Channels ι :=
  let (poller, ch) := o.2.apply s.poller (s.channel o.1)
  ⟨poller, Function.update s.channel o.1 ch⟩

/-- The three records agree for every channel, and no `epoll_ctl` was refused. -/
structure Agreement (fd ptr : ι → ℕ) (s : Channels ι) : Prop where
  fd : ∀ i, (s.channel i).fd = fd i
  ptr : ∀ i, (s.channel i).ptr = ptr i
  agrees : ∀ i, Agrees s.poller (s.channel i)
  refused : s.poller.refused = []

variable {fd ptr : ι → ℕ} {s : Channels ι}

theorem new_agreement : (new fd ptr).Agreement fd ptr where
  fd _ := rfl
  ptr _ := rfl
  agrees i := by
    refine ⟨⟨?_, ?_⟩, ?_⟩ <;> simp [new, Channel.new, EpollPoller.empty]
  refused := rfl

variable [DecidableEq ι]

theorem channel_apply_of_ne (s : Channels ι) {i j : ι} (op : ChannelOp) (hji : j ≠ i) :
    (s.apply (i, op)).channel j = s.channel j := Function.update_of_ne hji ..

theorem Agreement.apply (h : s.Agreement fd ptr) (hfd : Function.Injective fd)
    (o : ι × ChannelOp) : (s.apply o).Agreement fd ptr := by
  obtain ⟨i, op⟩ := o
  obtain ⟨hagrees, hrefused⟩ := op.apply_agrees (h.agrees i).toKnown
  have hself : (s.apply (i, op)).channel i = (op.apply s.poller (s.channel i)).2 :=
    Function.update_self ..
  constructor
  case fd =>
    intro j
    by_cases hji : j = i
    · rw [hji, hself, op.apply_fd, h.fd]
    · rw [s.channel_apply_of_ne op hji, h.fd]
  case ptr =>
    intro j
    by_cases hji : j = i
    · rw [hji, hself, op.apply_ptr, h.ptr]
    · rw [s.channel_apply_of_ne op hji, h.ptr]
  case agrees =>
    intro j
    by_cases hji : j = i
    · rw [hji, hself]
      exact hagrees
    · rw [s.channel_apply_of_ne op hji]
      have hother : (s.channel j).fd ≠ (s.channel i).fd := by
        rw [h.fd, h.fd]
        exact fun heq ↦ hji (hfd heq)
      exact (h.agrees j).elsewhere hother op.apply_elsewhere
  case refused => exact hrefused.trans h.refused

theorem Agreement.foldl_apply (h : s.Agreement fd ptr) (hfd : Function.Injective fd)
    (ops : List (ι × ChannelOp)) : (ops.foldl Channels.apply s).Agreement fd ptr := by
  induction ops generalizing s with
  | nil => exact h
  | cons o ops ih => exact ih (h.apply hfd o)

/-- After any operations on channels with distinct descriptors, index, `channels_`
and epoll set agree, every `epoll_ctl` was legal, and an operation changes
nothing of the other channels. -/
theorem agreement (hfd : Function.Injective fd) (ops : List (ι × ChannelOp)) (i : ι)
    (op : ChannelOp) :
    (ops.foldl apply (new fd ptr)).Agreement fd ptr ∧
      SameElsewhere (fd i) (ops.foldl apply (new fd ptr)).poller
        ((ops.foldl apply (new fd ptr)).apply (i, op)).poller ∧
      ∀ j ≠ i, ((ops.foldl apply (new fd ptr)).apply (i, op)).channel j =
        (ops.foldl apply (new fd ptr)).channel j := by
  have h : (ops.foldl apply (new fd ptr)).Agreement fd ptr := new_agreement.foldl_apply hfd ops
  refine ⟨h, ?_, fun j hj ↦ channel_apply_of_ne _ op hj⟩
  rw [← h.fd i]
  exact op.apply_elsewhere

theorem agreement_mixed :
    (([(0, .disableAll), (1, .enableReading), (0, .disableAll), (0, .remove), (1, .enableWriting),
        (0, .enableWriting), (1, .disableAll)] : List (ℕ × ChannelOp)).foldl apply
          (new (· + 3) (8 * ·))).Agreement (· + 3) (8 * ·) :=
  (agreement (fun _ _ h ↦ Nat.add_right_cancel h) _ 0 .remove).1

end Channels

end Mymuduo.Net
