import Mymuduo.DestroyedConnection
import Mymuduo.OwnedConnection
import Mymuduo.Registrations

namespace Mymuduo.Net

open Execution

inductive Stage
  | made | established | destroyed
deriving DecidableEq, Repr

def Stage.after (stage : Stage) : LifeEvent → Stage
  | .destroyTested => .destroyed
  | _ => stage

def LifeEvent.isPoll : LifeEvent → Bool
  | loop (.poll _) => true
  | _ => false

def Life.withPoller (s : Life) (p : EpollPoller) : Life :=
  { s with conn := { s.conn with poller := p } }

/-- A `TcpConnection` object. The poller in it is as the object's last step left it. -/
structure LoopConnection where
  life : Life
  stage : Stage

namespace LoopConnection

variable (c : LoopConnection)

def channel : Channel := c.life.conn.channel

def new (ptr fd : ℕ) (callbacks : Callbacks) (mem : Mem) : LoopConnection where
  life := .start (.new fd ptr .empty callbacks) mem
  stage := .made

def connectEstablished (p : EpollPoller) : LoopConnection where
  life := (c.life.withPoller p).setConn (c.life.withPoller p).conn.connectEstablished
  stage := .established

def step (p : EpollPoller) (e : LifeEvent) : Option LoopConnection :=
  ((c.life.withPoller p).step e).map (⟨·, c.stage.after e⟩)

end LoopConnection

/-- The poller, the open sockets with the objects that own them, and the objects by
their addresses. -/
structure SharedPoller where
  poller : EpollPoller
  sockets : ℕ → Option ℕ
  conns : ℕ → Option LoopConnection

inductive ConnectionEvent
  | newConnection (ptr fd : ℕ) (callbacks : Callbacks) (mem : Mem)
  | connectEstablished (ptr : ℕ)
  | poll (fd : ℕ) (revents : BitVec 32)
  | step (ptr : ℕ) (e : LifeEvent)
  | destructor (ptr : ℕ)

namespace SharedPoller

def start : SharedPoller := ⟨.empty, fun _ ↦ none, fun _ ↦ none⟩

variable (s : SharedPoller)

def put (ptr : ℕ) (c : LoopConnection) : SharedPoller :=
  { s with poller := c.life.conn.poller, conns := Function.update s.conns ptr (some c) }

def add (ptr fd : ℕ) (c : LoopConnection) : SharedPoller :=
  { s with
    sockets := Function.update s.sockets fd (some ptr)
    conns := Function.update s.conns ptr (some c) }

/-- The object goes, with the functors that it has queued, and `~Socket` closes the
descriptor. -/
def destructor (ptr fd : ℕ) : SharedPoller :=
  { s with
    sockets := Function.update s.sockets fd none
    conns := Function.update s.conns ptr none }

/-- `poll` finds the object through the address in the epoll set. The allocator gives
an address that is not in use, the kernel a descriptor that is not open. -/
def step : ConnectionEvent → Option SharedPoller
  | .newConnection ptr fd callbacks mem =>
    if (s.conns ptr).isNone ∧ s.sockets fd = none then
      some (s.add ptr fd (.new ptr fd callbacks mem))
    else none
  | .connectEstablished ptr =>
    (s.conns ptr).bind fun c ↦
      if c.stage = .made then some (s.put ptr (c.connectEstablished s.poller)) else none
  | .poll fd revents =>
    (s.poller.epoll fd).bind fun entry ↦ (s.conns entry.2).bind fun c ↦
      (c.step s.poller (.loop (.poll revents))).map (s.put entry.2)
  | .step ptr e =>
    if e.isPoll then none
    else (s.conns ptr).bind fun c ↦ (c.step s.poller e).map (s.put ptr)
  | .destructor ptr =>
    (s.conns ptr).bind fun c ↦
      if c.stage = .destroyed then some (s.destructor ptr c.channel.fd) else none

/-- A `connectDestroyed` is the last word on its connection, and the loop has handled
what `poll` has reported of it. -/
def DestroysForGood : ConnectionEvent → Prop
  | .step ptr .destroyTested => ∀ c ∈ s.conns ptr,
      c.life.DestroysForGood ∧ c.life.ready = none ∧ c.life.dispatching = []
  | _ => True

/-- What the poller has is of a live connection, and up to date. -/
structure Safe : Prop where
  refused : s.poller.refused = []
  epoll : ∀ fd mask ptr, s.poller.epoll fd = some (mask, ptr) → ∃ c ∈ s.conns ptr,
    c.stage ≠ .destroyed ∧ c.channel.fd = fd ∧ c.channel.events = mask
  channels : ∀ fd ptr, s.poller.channels fd = some ptr → ∃ c ∈ s.conns ptr,
    c.stage ≠ .destroyed ∧ c.channel.fd = fd
  handled : ∀ ptr, ∀ c ∈ s.conns ptr, c.stage = .destroyed →
    c.life.ready = none ∧ c.life.dispatching = []

end SharedPoller

namespace Life

open TcpConnection

variable {s s' : Life} {p p' : EpollPoller}

/-- Nothing brings the connection back to the poller. -/
structure Gone (s : Life) : Prop extends DestroyedInv s where
  ready : s.ready = none
  dispatching : s.dispatching = []

theorem Gone.elsewhere {fd : ℕ} (h : (s.withPoller p).Gone) (hfd : s.conn.channel.fd ≠ fd)
    (hsame : SameElsewhere fd p p') : (s.withPoller p').Gone := by
  have hout : (s.withPoller p').conn.Out :=
    ⟨(hsame.channels _ hfd).trans h.out.channels, (hsame.epoll _ hfd).trans h.out.epoll,
      h.out.index⟩
  exact ⟨⟨hout, h.state, h.destroying, h.idle⟩, h.ready, h.dispatching⟩

theorem step_isCall {e : LifeEvent} (he : e.isCall = true) (hstep : s.step e = some s') :
    s'.ready = s.ready ∧ s'.dispatching = s.dispatching := by
  cases steps_of_step hstep with
  | poll | handleEvent | callback => cases he
  | destroyFunctor | runFunctor | send | sendIgnored | shutdown | forceClose | connectDestroyed
  | destroyTested | sendTest | sendQueue | shutdownTest | shutdownStore | shutdownQueue
  | forceCloseTest | forceCloseStore | forceCloseQueue | testFailed | queueConnectDestroyed
  | write => exact ⟨rfl, rfl⟩

theorem Gone.isCall {e : LifeEvent} (h : s.Gone) (he : e.isPoll = false)
    (hstep : s.step e = some s') : e.isCall = true := by
  cases steps_of_step hstep with
  | poll => cases he
  | handleEvent _ hready => simp [h.ready] at hready
  | callback _ hdispatching => simp [h.dispatching] at hdispatching
  | destroyFunctor | runFunctor | send | sendIgnored | shutdown | forceClose | connectDestroyed
  | destroyTested | sendTest | sendQueue | shutdownTest | shutdownStore | shutdownQueue
  | forceCloseTest | forceCloseStore | forceCloseQueue | testFailed | queueConnectDestroyed
  | write => rfl

theorem Gone.step {e : LifeEvent} (h : s.Gone) (he : e.isPoll = false)
    (hstep : s.step e = some s') : s'.Gone := by
  have hcall := h.isCall he hstep
  obtain ⟨hready, hdispatching⟩ := step_isCall hcall hstep
  exact ⟨step_destroyedInv h.toDestroyedInv hcall hstep, hready.trans h.ready,
    hdispatching.trans h.dispatching⟩

theorem gone_destroyTested (hknown : Known s.conn.poller s.conn.channel)
    (hfor : s.DestroysForGood) (hready : s.ready = none) (hdispatching : s.dispatching = [])
    (hstep : s.step .destroyTested = some s') : s'.Gone := by
  obtain ⟨connected, hd, rfl⟩ := Option.map_eq_some_iff.mp hstep
  refine ⟨⟨out_destroyTested hknown connected, ?_, by simp, hfor.idle⟩, hready, hdispatching⟩
  have hdisconnected := hfor.disconnected
  rw [hd] at hdisconnected
  rw [state_destroyTested]
  cases connected with
  | true => rfl
  | false => simpa using hdisconnected

end Life

namespace SharedPoller

open TcpConnection

/-- An object, its socket and what the poller has under its descriptor. -/
structure Keeps (s : SharedPoller) (ptr : ℕ) (c : LoopConnection) : Prop where
  address : c.channel.ptr = ptr
  socket : s.sockets c.channel.fd = some ptr
  owned : Owned s.poller c.channel
  gone : c.stage = .destroyed → (c.life.withPoller s.poller).Gone

structure Inv (s : SharedPoller) : Prop where
  refused : s.poller.refused = []
  closed : ∀ fd, s.sockets fd = none → s.poller.channels fd = none ∧ s.poller.epoll fd = none
  opened : ∀ fd ptr, s.sockets fd = some ptr → ∃ c ∈ s.conns ptr, c.channel.fd = fd
  keeps : ∀ ptr, ∀ c ∈ s.conns ptr, s.Keeps ptr c

theorem inv_start : start.Inv where
  refused := rfl
  closed _ _ := ⟨rfl, rfl⟩
  opened _ _ h := by cases h
  keeps _ _ h := by cases h

variable {s s' : SharedPoller} {ptr fd : ℕ} {c c' : LoopConnection}

/-- What is under a descriptor belongs to the owner of the socket. -/
theorem Inv.owner (h : s.Inv)
    (hfd : s.poller.channels fd ≠ none ∨ s.poller.epoll fd ≠ none) :
    ∃ ptr, ∃ c ∈ s.conns ptr, c.channel.fd = fd := by
  cases hsocket : s.sockets fd with
  | none =>
    obtain ⟨hchannels, hepoll⟩ := h.closed fd hsocket
    rcases hfd with hfd | hfd
    · exact (hfd hchannels).elim
    · exact (hfd hepoll).elim
  | some ptr =>
    obtain ⟨c, hc, hcfd⟩ := h.opened fd ptr hsocket
    exact ⟨ptr, c, hc, hcfd⟩

theorem Inv.safe (h : s.Inv) : s.Safe where
  refused := h.refused
  epoll fd mask ptr hepoll := by
    have hfound : s.poller.epoll fd ≠ none := by simp [hepoll]
    obtain ⟨ptr', c, hc, rfl⟩ := h.owner (.inr hfound)
    have hkeeps := h.keeps ptr' c hc
    have hadded := hkeeps.owned.epoll.mpr (by simp [hepoll])
    have hentry := hkeeps.owned.registered hadded
    rw [hepoll, hkeeps.address] at hentry
    cases Option.some.inj hentry
    refine ⟨c, hc, fun hstage ↦ ?_, rfl, rfl⟩
    have hnone : s.poller.epoll c.channel.fd = none := (hkeeps.gone hstage).out.epoll
    simp [hepoll] at hnone
  channels fd ptr hchannels := by
    have hfound : s.poller.channels fd ≠ none := by simp [hchannels]
    obtain ⟨ptr', c, hc, rfl⟩ := h.owner (.inl hfound)
    have hkeeps := h.keeps ptr' c hc
    have hptr := hkeeps.owned.own ptr hchannels
    rw [hkeeps.address] at hptr
    subst hptr
    refine ⟨c, hc, fun hstage ↦ ?_, rfl⟩
    have hnone : s.poller.channels c.channel.fd = none := (hkeeps.gone hstage).out.channels
    simp [hchannels] at hnone
  handled ptr c hc hstage :=
    have hgone := (h.keeps ptr c hc).gone hstage
    ⟨hgone.ready, hgone.dispatching⟩

/-- A step of one object does not disturb the others. -/
theorem Keeps.other {ptr' : ℕ} {d : LoopConnection} (h : s.Keeps ptr' d)
    (hc : s.Keeps ptr c) (hne : ptr' ≠ ptr)
    (hsame : SameElsewhere c.channel.fd s.poller c'.life.conn.poller) :
    (s.put ptr c').Keeps ptr' d := by
  have hfd : d.channel.fd ≠ c.channel.fd := fun heq ↦ by
    have hsocket := h.socket
    rw [heq, hc.socket] at hsocket
    exact hne (Option.some.inj hsocket).symm
  exact ⟨h.address, h.socket, h.owned.elsewhere hfd hsame,
    fun hstage ↦ (h.gone hstage).elsewhere hfd hsame⟩

theorem Inv.put (h : s.Inv) (hc : c ∈ s.conns ptr)
    {P : ChannelOp → Prop} (hregisters : Registers P (c.life.withPoller s.poller).conn c'.life.conn)
    (hgone : c'.stage = .destroyed → c'.life.Gone) : (s.put ptr c').Inv := by
  have hkeeps := h.keeps ptr c hc
  have hfd : c'.channel.fd = c.channel.fd := hregisters.fd
  have hsame : SameElsewhere c.channel.fd s.poller c'.life.conn.poller := hregisters.elsewhere
  obtain ⟨howned, hrefused⟩ := hregisters.owned hkeeps.owned
  constructor
  case refused => exact hrefused.trans h.refused
  case closed =>
    intro n hn
    have hne : n ≠ c.channel.fd := fun heq ↦ by
      rw [heq] at hn
      exact absurd (hn.symm.trans hkeeps.socket) (by simp)
    obtain ⟨hchannels, hepoll⟩ := h.closed n hn
    exact ⟨(hsame.channels n hne).trans hchannels, (hsame.epoll n hne).trans hepoll⟩
  case opened =>
    intro n ptr' hn
    obtain ⟨d, hd, hdfd⟩ := h.opened n ptr' hn
    by_cases hne : ptr' = ptr
    · subst hne
      cases Option.mem_unique hc hd
      exact ⟨c', Function.update_self .., hfd.trans hdfd⟩
    · exact ⟨d, (Function.update_of_ne hne ..).trans hd, hdfd⟩
  case keeps =>
    intro ptr' d hd
    rcases update_eq_some hd with ⟨rfl, rfl⟩ | ⟨hne, hd⟩
    · refine ⟨hregisters.ptr.trans hkeeps.address, ?_, howned, hgone⟩
      rw [hfd]
      exact hkeeps.socket
    · exact (h.keeps ptr' d hd).other hkeeps hne hsame

theorem Inv.add (h : s.Inv) (hptr : (s.conns ptr).isNone) (hfd : s.sockets fd = none)
    (callbacks : Callbacks) (mem : Mem) : (s.add ptr fd (.new ptr fd callbacks mem)).Inv := by
  obtain ⟨hchannels, hepoll⟩ := h.closed fd hfd
  constructor
  case refused => exact h.refused
  case closed =>
    intro n hn
    by_cases hne : n = fd
    · rw [hne]
      exact ⟨hchannels, hepoll⟩
    · exact h.closed n ((Function.update_of_ne hne ..).symm.trans hn)
  case opened =>
    intro n ptr' hn
    rcases update_eq_some hn with ⟨rfl, rfl⟩ | ⟨hne, hn⟩
    · exact ⟨_, Function.update_self .., rfl⟩
    · obtain ⟨d, hd, hdfd⟩ := h.opened n ptr' hn
      have hother : ptr' ≠ ptr := fun heq ↦ by
        rw [heq] at hd
        simp [Option.mem_def.mp hd] at hptr
      exact ⟨d, (Function.update_of_ne hother ..).trans hd, hdfd⟩
  case keeps =>
    intro ptr' d hd
    rcases update_eq_some hd with ⟨rfl, rfl⟩ | ⟨hne, hd⟩
    · exact ⟨rfl, Function.update_self .., owned_new hchannels hepoll, fun hstage ↦ by cases hstage⟩
    · have hkeeps := h.keeps ptr' d hd
      have hother : d.channel.fd ≠ fd := fun heq ↦ by
        have hsocket := hkeeps.socket
        rw [heq, hfd] at hsocket
        cases hsocket
      exact ⟨hkeeps.address, (Function.update_of_ne hother ..).trans hkeeps.socket, hkeeps.owned,
        hkeeps.gone⟩

/-- The descriptor of a destroyed connection can be given away. -/
theorem Inv.destructor (h : s.Inv) (hc : c ∈ s.conns ptr) (hstage : c.stage = .destroyed) :
    (s.destructor ptr c.channel.fd).Inv := by
  have hkeeps := h.keeps ptr c hc
  have hout := (hkeeps.gone hstage).out
  constructor
  case refused => exact h.refused
  case closed =>
    intro n hn
    by_cases hne : n = c.channel.fd
    · rw [hne]
      exact ⟨hout.channels, hout.epoll⟩
    · exact h.closed n ((Function.update_of_ne hne ..).symm.trans hn)
  case opened =>
    intro n ptr' hn
    have hne : n ≠ c.channel.fd := fun heq ↦ by
      rw [heq] at hn
      exact absurd ((Function.update_self ..).symm.trans hn) (by simp)
    have hn := (Function.update_of_ne hne ..).symm.trans hn
    obtain ⟨d, hd, hdfd⟩ := h.opened n ptr' hn
    have hother : ptr' ≠ ptr := fun heq ↦ by
      subst heq
      cases Option.mem_unique hc hd
      exact hne hdfd.symm
    exact ⟨d, (Function.update_of_ne hother ..).trans hd, hdfd⟩
  case keeps =>
    intro ptr' d hd
    have hne : ptr' ≠ ptr := fun heq ↦ by
      rw [heq] at hd
      exact absurd ((Function.update_self ..).symm.trans hd) (by simp)
    have hd := (Function.update_of_ne hne ..).symm.trans hd
    have hother := h.keeps ptr' d hd
    have hfd : d.channel.fd ≠ c.channel.fd := fun heq ↦ by
      have hsocket := hother.socket
      rw [heq, hkeeps.socket] at hsocket
      exact hne (Option.some.inj hsocket).symm
    exact ⟨hother.address, (Function.update_of_ne hfd ..).trans hother.socket, hother.owned,
      hother.gone⟩

theorem Inv.step_put {e : LifeEvent} (h : s.Inv) (hc : c ∈ s.conns ptr)
    (hpoll : c.stage = .destroyed → e.isPoll = false)
    (hfor : s.DestroysForGood (.step ptr e)) (hstep : c.step s.poller e = some c') :
    (s.put ptr c').Inv := by
  have hkeeps := h.keeps ptr c hc
  obtain ⟨life, hlife, rfl⟩ := Option.map_eq_some_iff.mp hstep
  refine h.put hc (Life.step_registers hlife) fun hstage ↦ ?_
  by_cases hdestroyed : c.stage = .destroyed
  · exact (hkeeps.gone hdestroyed).step (hpoll hdestroyed) hlife
  · cases e with
    | destroyTested =>
      obtain ⟨hgood, hready, hdispatching⟩ := hfor c hc
      exact Life.gone_destroyTested (s := c.life.withPoller s.poller) hkeeps.owned.toKnown
        ⟨hgood.disconnected, hgood.idle⟩ hready hdispatching hlife
    | loop | thread | queueConnectDestroyed | write => exact (hdestroyed hstage).elim

theorem step_inv {e : ConnectionEvent} (h : s.Inv) (hfor : s.DestroysForGood e)
    (hstep : s.step e = some s') : s'.Inv := by
  cases e with
  | newConnection ptr fd callbacks mem =>
    simp only [step] at hstep
    split_ifs at hstep with hnew
    cases Option.some.inj hstep
    exact h.add hnew.1 hnew.2 callbacks mem
  | connectEstablished ptr =>
    obtain ⟨c, hc, hstep⟩ := Option.bind_eq_some_iff.mp hstep
    split_ifs at hstep
    cases Option.some.inj hstep
    exact h.put hc registers_connectEstablished fun hstage ↦ by cases hstage
  | poll fd revents =>
    obtain ⟨⟨mask, ptr⟩, hepoll, hstep⟩ := Option.bind_eq_some_iff.mp hstep
    obtain ⟨c, hc, hstep⟩ := Option.bind_eq_some_iff.mp hstep
    obtain ⟨c', hc', rfl⟩ := Option.map_eq_some_iff.mp hstep
    refine h.step_put (e := .loop (.poll revents)) hc (fun hstage ↦ ?_) trivial hc'
    obtain ⟨d, hd, hlive, -⟩ := h.safe.epoll fd mask ptr hepoll
    cases Option.mem_unique hc hd
    exact (hlive hstage).elim
  | step ptr e =>
    simp only [step] at hstep
    split_ifs at hstep with hpoll
    obtain ⟨c, hc, hstep⟩ := Option.bind_eq_some_iff.mp hstep
    obtain ⟨c', hc', rfl⟩ := Option.map_eq_some_iff.mp hstep
    exact h.step_put hc (fun _ ↦ by simpa using hpoll) hfor hc'
  | destructor ptr =>
    obtain ⟨c, hc, hstep⟩ := Option.bind_eq_some_iff.mp hstep
    split_ifs at hstep with hstage
    cases Option.some.inj hstep
    exact h.destructor hc hstage

/-- Descriptors are reused, and the poller never has anything of a connection that is
destroyed. -/
theorem safe_of_run {es : List ConnectionEvent} (hfor : Along step DestroysForGood start es)
    (hrun : run step start es = some s) : s.Safe :=
  (run_invariant (I := Inv) (fun _ _ _ h hg hs ↦ step_inv h hg hs) inv_start hfor hrun).safe

def reuse : List ConnectionEvent :=
  [.newConnection 8 5 ⟨true, true, true, true⟩ .numbered, .connectEstablished 8,
    .newConnection 16 6 ⟨true, true, true, true⟩ .numbered, .connectEstablished 16,
    .poll 5 Channel.EPOLLHUP, .step 8 (.loop .handleEvent),
    .step 8 (.loop (.callback (.error .EINTR) (.error .EINTR))), .step 8 .queueConnectDestroyed,
    .step 8 (.loop (.runFunctor (.wrote 0))), .step 8 .destroyTested, .destructor 8,
    .newConnection 24 5 ⟨true, true, true, true⟩ .numbered, .connectEstablished 24]

theorem safe_of_run_reuse : ∃ s, run step start reuse = some s ∧ s.Safe := by
  obtain ⟨s, hrun⟩ : ∃ s, run step start reuse = some s :=
    Option.isSome_iff_exists.mp (by decide +kernel)
  refine ⟨s, hrun, safe_of_run ?_ hrun⟩
  have hdestroy : ∀ c, (run step start (reuse.take 9)).bind (·.conns 8) = some c →
      c.life.DestroysForGood ∧ c.life.ready = none ∧ c.life.dispatching = [] := by
    intro c hc
    cases hc
    refine ⟨⟨.inr rfl, fun _ ↦ ?_⟩, rfl, rfl⟩
    exact ⟨by rintro ⟨⟩, by rintro ⟨⟩⟩
  exact ⟨trivial, trivial, trivial, trivial, trivial, trivial, trivial, trivial, trivial, hdestroy,
    trivial, trivial, trivial, trivial⟩

end SharedPoller

end Mymuduo.Net
