import Mymuduo.Connector
import Mymuduo.Lib.Execution

namespace Mymuduo.Net

open Execution

structure Watched (p : EpollPoller) (ch : Channel) : Prop where
  index : ch.index = .kAdded
  writing : ch.isWriting = true
  channels : p.channels ch.fd = some ch.ptr
  epoll : p.epoll ch.fd = some (ch.events, ch.ptr)

def Forgotten (p : EpollPoller) (fd : ℕ) : Prop := p.channels fd = none ∧ p.epoll fd = none

namespace Connector

def Waits (c : Connector) : Prop :=
  c.state = .kConnecting → ∃ ch, c.channel = some ch ∧ Watched c.poller ch ∧
    (openSockets c.log).head? = some ch.fd

/-- Channels are destroyed when the poller has forgotten them and they are not
running, and by no other channel's `resetChannel`. -/
def CleanDestroys (log : List ConnectorAction) : Prop :=
  ∀ ptr registered running queuedBy, .destroyChannel ptr registered running queuedBy ∈ log →
    registered = false ∧ running = false ∧ ∀ q ∈ queuedBy, q = ptr

def isReset : ConnectorFunctor → Bool
  | .resetChannel _ => true
  | .stopInLoop => false

structure Inv (c : Connector) : Prop where
  waits : c.Waits
  resets : ∀ q, .resetChannel q ∈ c.pending → c.state ≠ .kConnecting ∧
    ∃ ch, c.channel = some ch ∧ ch.ptr = q ∧ Forgotten c.poller ch.fd
  single : c.pending.countP isReset ≤ 1
  only : ∀ fd, Forgotten c.poller fd ∨ ∃ ch, c.channel = some ch ∧ ch.fd = fd
  clean : CleanDestroys c.log

/-- The answers of `connect` let an attempt wait for its socket. -/
def Connects : List Attempt → Bool
  | .socket _ saveErrno :: attempts =>
    match Attempt.outcome saveErrno with
    | .connecting => true
    | .retry => Connects attempts
    | .close => false
  | _ => false

end Connector

def ConnectorCall.Connects : ConnectorCall → Bool
  | start attempts | restart attempts => Connector.Connects attempts
  | stop => false

namespace Connector

variable {c c' : Connector} {attempts rest : List Attempt}

theorem cleanDestroys_cons {a : ConnectorAction} {log : List ConnectorAction}
    (h : CleanDestroys log) (ha : ∀ ptr registered running queuedBy,
      a = .destroyChannel ptr registered running queuedBy →
        registered = false ∧ running = false ∧ ∀ q ∈ queuedBy, q = ptr) :
    CleanDestroys (a :: log) := by
  intro ptr registered running queuedBy hmem
  rcases List.mem_cons.mp hmem with heq | hmem
  · exact ha _ _ _ _ heq.symm
  · exact h _ _ _ _ hmem

theorem Inv.frame (h : c.Inv) (hchannel : c'.channel = c.channel) (hpoller : c'.poller = c.poller)
    (hpending : c'.pending = c.pending) (hclean : CleanDestroys c'.log)
    (hstate : c'.state = .kConnecting →
      c.state = .kConnecting ∧ openSockets c'.log = openSockets c.log) : c'.Inv where
  waits := by
    intro hc
    obtain ⟨hc, hopen⟩ := hstate hc
    rw [hchannel, hpoller, hopen]
    exact h.waits hc
  resets := by
    intro q hq
    rw [hpending] at hq
    obtain ⟨hne, hch⟩ := h.resets q hq
    rw [hchannel, hpoller]
    exact ⟨fun hc ↦ hne (hstate hc).1, hch⟩
  single := by
    rw [hpending]
    exact h.single
  only := by
    rw [hchannel, hpoller]
    exact h.only
  clean := hclean

theorem Inv.connecting (h : c.Inv) (hchannel : c.channel = none) {sockfd : ℕ}
    (hopen : (openSockets c.log).head? = some sockfd) : (c.connecting sockfd).Inv := by
  have hforgotten (fd : ℕ) : Forgotten c.poller fd :=
    (h.only fd).resolve_right (by simp [hchannel])
  have heq : c.connecting sockfd = { c with
      state := .kConnecting
      poller := ((Channel.new sockfd c.nextPtr).enableWriting c.poller).1
      channel := some ((Channel.new sockfd c.nextPtr).enableWriting c.poller).2
      nextPtr := c.nextPtr + 1 } := by
    simp [Connector.connecting, destroyChannel, setStates, hchannel]
  rw [heq, Channel.enableWriting_new (hforgotten sockfd).2]
  have hnone (q : ℕ) : .resetChannel q ∉ c.pending := by
    intro hq
    obtain ⟨-, ch, hch, -⟩ := h.resets q hq
    simp [hchannel] at hch
  constructor
  case waits =>
    intro _
    refine ⟨_, rfl, ⟨rfl, ?_, ?_, ?_⟩, hopen⟩
    · exact Channel.isWriting_kWriteEvent _ _ _
    · simp
    · simp
  case resets =>
    intro q hq
    exact (hnone q hq).elim
  case single => exact h.single
  case only =>
    intro fd
    by_cases hfd : sockfd = fd
    · exact .inr ⟨_, rfl, hfd⟩
    · left
      simpa [Forgotten, Function.update_of_ne (Ne.symm hfd)] using hforgotten fd
  case clean => exact h.clean

theorem connecting_log (c : Connector) (sockfd : ℕ) : (c.connecting sockfd).log = c.log ∨
    ∃ ptr registered running, (c.connecting sockfd).log =
      .destroyChannel ptr registered running none :: c.log := by
  cases hchannel : c.channel with
  | none =>
    left
    simp [Connector.connecting, destroyChannel, setStates, hchannel]
  | some ch =>
    right
    simp [Connector.connecting, destroyChannel, setStates, did, hchannel]

theorem connecting_running (hchannel : c.channel = none) (sockfd : ℕ) :
    (c.connecting sockfd).running = c.running := by
  simp [Connector.connecting, destroyChannel, setStates, hchannel]

/-- What a call of `connect` or `startInLoop` keeps; `waiting` says that no attempt
gets to `connecting`. -/
structure Kept (waiting : Prop) (c c' : Connector) : Prop where
  inv : c'.Inv
  running : c'.running = c.running
  channel : waiting → c'.channel = c.channel
  state : waiting → c'.state = .kConnecting → c.state = .kConnecting

theorem Kept.mono {waiting waiting' : Prop} (h : Kept waiting c c') (hw : waiting' → waiting) :
    Kept waiting' c c' :=
  ⟨h.inv, h.running, fun hw' ↦ h.channel (hw hw'), fun hw' ↦ h.state (hw hw')⟩

theorem Inv.slept {sockfd : ℕ} (h : (c.gaveUp sockfd).Inv) : (c.slept sockfd).Inv :=
  h.frame rfl rfl rfl (cleanDestroys_cons h.clean fun _ _ _ _ heq ↦ (by cases heq))
    fun hc ↦ ⟨hc, rfl⟩

theorem Kept.slowedDown {waiting : Prop} {sockfd : ℕ} (h : Kept waiting (c.slept sockfd) c') :
    Kept waiting (c.gaveUp sockfd) c'.slowedDown :=
  ⟨h.inv.frame rfl rfl rfl h.inv.clean fun hc ↦ ⟨hc, rfl⟩, h.running, h.channel, h.state⟩

theorem Inv.clean_create (h : c.Inv) (fd : Option ℕ) :
    CleanDestroys (.createNonBlocking fd :: c.log) :=
  cleanDestroys_cons h.clean fun _ _ _ _ heq ↦ (by cases heq)

theorem Inv.clean_close (h : c.Inv) (fd : ℕ) :
    CleanDestroys (.close fd :: .createNonBlocking (some fd) :: c.log) :=
  cleanDestroys_cons (h.clean_create fd) fun _ _ _ _ heq ↦ (by cases heq)

theorem Inv.gaveUp (h : c.Inv) (fd : ℕ) :
    ((c.did (.createNonBlocking (some fd))).gaveUp fd).Inv :=
  h.frame rfl rfl rfl (h.clean_close fd) fun hc ↦ (by cases hc)

theorem Inv.tries (h : c.Inv) (hguard : Connects attempts = true → c.channel = none)
    (htries : Tries attempts c c') : Kept (Connects attempts = false) c c' := by
  induction htries with
  | noSocket =>
    exact ⟨h.frame rfl rfl rfl (h.clean_create none) fun hc ↦ ⟨hc, rfl⟩, rfl, fun _ ↦ rfl,
      fun _ ↦ id⟩
  | @connecting sockfd _ _ c ho =>
    simp only [Connects, ho] at hguard ⊢
    have hchannel := hguard trivial
    have hidle (hc : c.state = .kConnecting) : False := by
      obtain ⟨ch, hch, -⟩ := h.waits hc
      simp [hchannel] at hch
    have hinv : (c.did (.createNonBlocking (some sockfd))).Inv :=
      h.frame rfl rfl rfl (h.clean_create sockfd) fun hc ↦ (hidle hc).elim
    exact ⟨hinv.connecting hchannel rfl,
      Connector.connecting_running (c := c.did _) hchannel sockfd, fun hw ↦ (by cases hw),
      fun hw ↦ (by cases hw)⟩
  | @close sockfd _ _ c ho =>
    have hopen : openSockets (.close sockfd :: .createNonBlocking (some sockfd) :: c.log) =
        openSockets c.log := List.erase_cons_head ..
    exact ⟨h.frame rfl rfl rfl (h.clean_close sockfd) fun hc ↦ ⟨hc, hopen⟩, rfl, fun _ ↦ rfl,
      fun _ ↦ id⟩
  | giveUp => exact ⟨h.gaveUp _, rfl, fun _ ↦ rfl, fun _ hc ↦ (by cases hc)⟩
  | again ho _ _ ih =>
    simp only [Connects, ho] at hguard ⊢
    have hkept := (ih (h.gaveUp _).slept hguard).slowedDown
    exact ⟨hkept.inv, hkept.running, hkept.channel, fun hw hc ↦ (by cases hkept.state hw hc)⟩

theorem Inv.startInLoop (h : c.Inv) (hguard : Connects attempts = true → c.channel = none)
    (heq : c.startInLoop attempts = some (c', rest)) : Kept (Connects attempts = false) c c' := by
  rcases startInLoop_cases heq with rfl | htries
  · exact ⟨h, rfl, fun _ ↦ rfl, fun _ ↦ id⟩
  · exact h.tries hguard htries

theorem Inv.retry {sockfd : ℕ} (h : (c.setStates .kDisConnected).Inv)
    (hguard : c.connect_ = true → Connects attempts = false)
    (heq : c.retry sockfd attempts = some (c', rest)) : Kept True (c.gaveUp sockfd) c' := by
  have hgaveUp : (c.gaveUp sockfd).Inv :=
    h.frame rfl rfl rfl (cleanDestroys_cons h.clean fun _ _ _ _ heq ↦ (by cases heq))
      fun hc ↦ (by cases hc)
  rcases retry_cases heq with ⟨-, rfl⟩ | ⟨hconnect, c₂, htries, rfl⟩
  · exact ⟨hgaveUp, rfl, fun _ ↦ rfl, fun _ ↦ id⟩
  · have hw := hguard hconnect
    exact ((hgaveUp.slept.tries (by simp [hw]) htries).mono fun _ ↦ hw).slowedDown

theorem Inv.call (h : c.Inv) {k : ConnectorCall} (hguard : k.Connects = true → c.channel = none)
    (heq : c.call k = some c') :
    c'.Inv ∧ c'.running = c.running ∧ (k.Connects = false → c'.channel = c.channel) := by
  have hstart {attempts : List Attempt} {c₁ : Connector} (h₁ : c₁.Inv)
      (hguard : Connects attempts = true → c₁.channel = none)
      (heq : (c₁.startInLoop attempts).map Prod.fst = some c') :
      Kept (Connects attempts = false) c₁ c' := by
    obtain ⟨⟨c₂, rest⟩, hc₂, rfl⟩ := Option.map_eq_some_iff.mp heq
    exact h₁.startInLoop hguard hc₂
  cases k with
  | start attempts =>
    have hinv : { c with connect_ := true }.Inv :=
      h.frame rfl rfl rfl h.clean fun hc ↦ ⟨hc, rfl⟩
    have hkept := hstart hinv hguard heq
    exact ⟨hkept.inv, hkept.running, hkept.channel⟩
  | restart attempts =>
    have hinv : { c.setStates .kDisConnected with
        retryDelayMs := kInitRetryDelayMs, connect_ := true }.Inv :=
      h.frame rfl rfl rfl h.clean fun hc ↦ (by cases hc)
    have hkept := hstart hinv hguard heq
    exact ⟨hkept.inv, hkept.running, hkept.channel⟩
  | stop =>
    cases Option.some.inj heq
    refine ⟨{ h with resets := ?_, single := ?_ }, rfl, fun _ ↦ rfl⟩
    · intro q hq
      apply h.resets q
      simpa [Connector.stop, queueInLoop] using hq
    · simpa [Connector.stop, queueInLoop, isReset] using h.single

theorem Inv.removeAndResetChannel (h : c.Inv) (hc : c.state = .kConnecting) :
    ∃ sockfd c', c.removeAndResetChannel = some (sockfd, c') ∧ c'.connect_ = c.connect_ ∧
      c'.running = c.running ∧ c'.channel ≠ none ∧
      ∀ s ≠ .kConnecting, (c'.setStates s).Inv := by
  obtain ⟨ch, hch, hwatched, -⟩ := h.waits hc
  have hnone (q : ℕ) : .resetChannel q ∉ c.pending := fun hq ↦ (h.resets q hq).1 hc
  have hadded : (c.poller.epoll ch.fd).isSome := by simp [hwatched.epoll]
  refine ⟨ch.fd, { c with
    poller := ⟨Function.update c.poller.channels ch.fd none,
      Function.update c.poller.epoll ch.fd none, c.poller.refused⟩
    channel := some ⟨ch.fd, ch.ptr, Channel.kNonEvent, .kNew⟩
    pending := c.pending ++ [.resetChannel ch.ptr] }, ?_, rfl, rfl, by simp, ?_⟩
  · simp only [Connector.removeAndResetChannel, hch, Option.bind_eq_bind, Option.bind_some,
      Channel.remove_disableAll hwatched.index hadded]
    rfl
  · intro s hs
    have hforgotten : Forgotten ⟨Function.update c.poller.channels ch.fd none,
        Function.update c.poller.epoll ch.fd none, c.poller.refused⟩ ch.fd := by
      simp [Forgotten]
    constructor
    case waits =>
      intro hc
      exact (hs hc).elim
    case resets =>
      intro q hq
      refine ⟨hs, _, rfl, ?_, hforgotten⟩
      have hq := (List.mem_append.mp hq).resolve_left (hnone q)
      simpa [eq_comm] using hq
    case single =>
      have hzero : c.pending.countP isReset = 0 := by
        rw [List.countP_eq_zero]
        intro f hf
        cases f with
        | resetChannel q => exact (hnone q hf).elim
        | stopInLoop => exact Bool.false_ne_true
      simp [setStates, hzero, isReset]
    case clean => exact h.clean
    case only =>
      intro fd
      rcases h.only fd with hfd | ⟨ch', hch', rfl⟩
      · left
        by_cases hne : fd = ch.fd
        · rwa [hne]
        · simpa [Forgotten, setStates, Function.update_of_ne hne] using hfd
      · rw [hch] at hch'
        cases hch'
        exact .inl hforgotten

theorem Inv.giveUp {sockfd : ℕ} (h : (c.setStates .kDisConnected).Inv)
    (hguard : c.connect_ = true → Connects attempts = false)
    (heq : (c.retry sockfd attempts).map Prod.fst = some c') :
    c'.Inv ∧ c'.running = c.running ∧ c'.state ≠ .kConnecting := by
  obtain ⟨⟨c₁, rest⟩, hc₁, rfl⟩ := Option.map_eq_some_iff.mp heq
  obtain ⟨hinv, hrunning, -, hstate⟩ := h.retry hguard hc₁
  exact ⟨hinv, hrunning, fun hc ↦ (by cases hstate trivial hc)⟩

theorem Inv.handleError (h : c.Inv)
    (hguard : c.state = .kConnecting → c.connect_ = true → Connects attempts = false)
    (heq : c.handleError attempts = some c') :
    c'.Inv ∧ c'.running = c.running ∧ c'.state ≠ .kConnecting := by
  rw [Connector.handleError] at heq
  split_ifs at heq with hc
  · obtain ⟨sockfd, c₁, hremoved, hconnect, hrunning, -, hinv⟩ := h.removeAndResetChannel hc
    simp only [hremoved, Option.bind_eq_bind, Option.bind_some] at heq
    rw [← hconnect] at hguard
    rw [← hrunning]
    exact (hinv .kDisConnected (by decide)).giveUp (hguard hc) heq
  · cases Option.some.inj heq
    exact ⟨h, rfl, hc⟩

theorem Inv.calls {calls : List ConnectorCall} (h : c.Inv)
    (hguard : ∀ k ∈ calls, k.Connects = false) (heq : calls.foldlM Connector.call c = some c') :
    c'.Inv ∧ c'.running = c.running := by
  induction calls generalizing c with
  | nil =>
    cases Option.some.inj heq
    exact ⟨h, rfl⟩
  | cons k calls ih =>
    obtain ⟨hk, hcalls⟩ := List.forall_mem_cons.mp hguard
    obtain ⟨c₁, hc₁, heq⟩ := Option.bind_eq_some_iff.mp heq
    obtain ⟨hinv, hrunning, -⟩ := h.call (by simp [hk]) hc₁
    rw [← hrunning]
    exact ih hinv hcalls heq

def QuietWrite (c : Connector) (err : Option Errno) (selfConnect : Bool)
    (attempts : List Attempt) (calls : List ConnectorCall) : Prop :=
  c.state = .kConnecting → c.connect_ = true →
    if err.isSome ∨ selfConnect then Connects attempts = false
    else ∀ k ∈ calls, k.Connects = false

instance (c : Connector) (err : Option Errno) (selfConnect : Bool) (attempts : List Attempt)
    (calls : List ConnectorCall) : Decidable (c.QuietWrite err selfConnect attempts calls) :=
  inferInstanceAs (Decidable (c.state = .kConnecting → c.connect_ = true →
    if err.isSome ∨ selfConnect then Connects attempts = false
    else ∀ k ∈ calls, k.Connects = false))

def QuietEvent (c : Connector) (revents : BitVec 32) (r : EventAnswers) : Prop :=
  if revents &&& Channel.kReadEvent != 0 then
    c.state = .kConnecting → c.connect_ = true → Connects r.readAttempts = false
  else if revents &&& Channel.kWriteEvent != 0 then
    c.QuietWrite r.err r.selfConnect r.writeAttempts r.calls
  else True

instance (c : Connector) (revents : BitVec 32) (r : EventAnswers) :
    Decidable (c.QuietEvent revents r) :=
  inferInstanceAs (Decidable (if revents &&& Channel.kReadEvent != 0 then
    c.state = .kConnecting → c.connect_ = true → Connects r.readAttempts = false
  else if revents &&& Channel.kWriteEvent != 0 then
    c.QuietWrite r.err r.selfConnect r.writeAttempts r.calls
  else True))

theorem Inv.handleWrite (h : c.Inv) {err : Option Errno} {selfConnect : Bool}
    {calls : List ConnectorCall} (hguard : c.QuietWrite err selfConnect attempts calls)
    (heq : c.handleWrite err selfConnect attempts calls = some c') :
    c'.Inv ∧ c'.running = c.running := by
  rw [Connector.handleWrite] at heq
  by_cases hc : c.state = .kConnecting
  · obtain ⟨sockfd, c₁, hremoved, hconnect, hrunning, -, hinv⟩ := h.removeAndResetChannel hc
    simp only [if_pos hc, hremoved, Option.bind_eq_bind, Option.bind_some] at heq
    have hguard := hguard hc
    rw [← hconnect] at hguard
    rw [← hrunning]
    have hidle := hinv .kDisConnected (by decide)
    have hconnected (a : ConnectorAction) (ha : a = .newConnection sockfd ∨ a = .close sockfd) :
        ((c₁.setStates .kConnected).did a).Inv := by
      have h₁ := hinv .kConnected (by decide)
      refine h₁.frame rfl rfl rfl (cleanDestroys_cons h₁.clean ?_) fun hc ↦ (by cases hc)
      rcases ha with rfl | rfl <;> exact fun _ _ _ _ heq ↦ (by cases heq)
    split_ifs at heq with herr hself hwanted
    · obtain ⟨h', hr, -⟩ := hidle.giveUp (fun hc ↦ by simpa [herr] using hguard hc) heq
      exact ⟨h', hr⟩
    · obtain ⟨h', hr, -⟩ := hidle.giveUp (fun hc ↦ by simpa [hself] using hguard hc) heq
      exact ⟨h', hr⟩
    · refine (hconnected _ (.inl rfl)).calls ?_ heq
      simpa [herr, hself] using hguard hwanted
    · cases Option.some.inj heq
      exact ⟨hconnected _ (.inr rfl), rfl⟩
  · rw [if_neg hc] at heq
    cases Option.some.inj heq
    exact ⟨h, rfl⟩

theorem Inv.stopInLoop (h : c.Inv)
    (hguard : c.state = .kConnecting → c.connect_ = true → Connects attempts = false)
    (heq : c.stopInLoop attempts = some c') : c'.Inv ∧ c'.running = c.running := by
  rw [stopInLoop_eq] at heq
  obtain ⟨hinv, hrunning, -⟩ := h.handleError hguard heq
  exact ⟨hinv, hrunning⟩

/-- The functor that resets the channel finds it forgotten, and the right one. -/
theorem Inv.resetChannel {q : ℕ} {fs : List ConnectorFunctor}
    (h : c.Inv) (hpending : c.pending = .resetChannel q :: fs) (hrunning : c.running = none) :
    ({ c with pending := fs }.resetChannel q).Inv := by
  obtain ⟨hstate, ch, hch, rfl, hforgotten⟩ := h.resets q (by simp [hpending])
  have hsingle := h.single
  simp only [hpending, List.countP_cons, isReset, if_true] at hsingle
  have hzero : fs.countP isReset = 0 := by omega
  have hnone (q : ℕ) : .resetChannel q ∉ fs := fun hq ↦ List.countP_eq_zero.mp hzero _ hq rfl
  have heq : { c with pending := fs }.resetChannel ch.ptr =
      { c with pending := fs, channel := none }.did
        (.destroyChannel ch.ptr false false (some ch.ptr)) := by
    simp [Connector.resetChannel, destroyChannel, hch, registered, hrunning, hforgotten.1,
      hforgotten.2]
  rw [heq]
  constructor
  case waits =>
    intro hc
    exact (hstate hc).elim
  case resets =>
    intro q hq
    exact (hnone q hq).elim
  case single =>
    simp only [did]
    omega
  case only =>
    intro fd
    left
    rcases h.only fd with hfd | ⟨ch', hch', rfl⟩
    · exact hfd
    · rw [hch] at hch'
      cases hch'
      exact hforgotten
  case clean =>
    apply cleanDestroys_cons h.clean
    intro _ _ _ _ heq
    cases heq
    simp

theorem resetChannel_running (q : ℕ) : (c.resetChannel q).running = c.running := by
  unfold Connector.resetChannel destroyChannel
  split <;> rfl

theorem Inv.pop {fs : List ConnectorFunctor} (h : c.Inv)
    (hpending : c.pending = .stopInLoop :: fs) : { c with pending := fs }.Inv where
  waits := h.waits
  resets q hq := h.resets q (by simp [hpending, show .resetChannel q ∈ fs from hq])
  single := by simpa [hpending, isReset] using h.single
  only := h.only
  clean := h.clean

end Connector

namespace ConnectorLoop

variable (s : ConnectorLoop)

/-- No attempt gets to `connecting` while `channel_` holds a channel. -/
def NoOverlap : ConnectorEvent → Prop
  | .call k => k.Connects = true → s.conn.channel = none
  | .handleEvent r =>
    match s.phase with
    | .handling ((_, revents) :: _) => s.conn.QuietEvent revents r
    | _ => True
  | .runFunctor attempts => s.conn.pending.head? = some .stopInLoop →
    s.conn.state = .kConnecting → s.conn.connect_ = true → Connector.Connects attempts = false
  | _ => True

instance (e : ConnectorEvent) : Decidable (s.NoOverlap e) :=
  match e with
  | .call k => inferInstanceAs (Decidable (k.Connects = true → s.conn.channel = none))
  | .handleEvent r =>
    show Decidable (match s.phase with
      | .handling ((_, revents) :: _) => s.conn.QuietEvent revents r
      | _ => True) from
    match s.phase with
    | .handling ((_, revents) :: _) => inferInstanceAs (Decidable (s.conn.QuietEvent revents r))
    | .handling [] | .draining _ => .isTrue trivial
  | .runFunctor attempts => inferInstanceAs (Decidable (s.conn.pending.head? = some .stopInLoop →
      s.conn.state = .kConnecting → s.conn.connect_ = true → Connector.Connects attempts = false))
  | .poll _ | .doPendingFunctors => .isTrue trivial

structure Sound (s : ConnectorLoop) : Prop where
  waits : s.conn.Waits
  clean : Connector.CleanDestroys s.conn.log

structure Inv (s : ConnectorLoop) : Prop where
  conn : s.conn.Inv
  running : s.conn.running = none

variable {s} {s' : ConnectorLoop}

theorem Inv.handleEvent (h : s.Inv) {ptr : ℕ} {revents : BitVec 32} {r : Connector.EventAnswers}
    {active : List (ℕ × BitVec 32)} (hphase : s.phase = .handling ((ptr, revents) :: active))
    (hguard : s.NoOverlap (.handleEvent r)) {c : Connector}
    (heq : s.conn.handleEvent ptr revents r = some c) : c.Inv ∧ c.running = none := by
  have hentered : { s.conn with running := some ptr }.Inv :=
    h.conn.frame rfl rfl rfl h.conn.clean fun hc ↦ ⟨hc, rfl⟩
  simp only [NoOverlap, hphase, Connector.QuietEvent] at hguard
  simp only [Connector.handleEvent, Option.bind_eq_some_iff, Option.map_eq_some_iff] at heq
  obtain ⟨c₁, hc₁, c₂, hc₂, rfl⟩ := heq
  have hread : c₁.Inv ∧ (revents &&& Channel.kWriteEvent != 0 →
      c₁.QuietWrite r.err r.selfConnect r.writeAttempts r.calls) := by
    split_ifs at hc₁ with hr
    · rw [if_pos hr] at hguard
      obtain ⟨hinv, -, hstate⟩ := hentered.handleError hguard hc₁
      exact ⟨hinv, fun _ hc ↦ (hstate hc).elim⟩
    · cases Option.some.inj hc₁
      rw [if_neg hr] at hguard
      exact ⟨hentered, fun hw ↦ by rwa [if_pos hw] at hguard⟩
  have hwrite : c₂.Inv := by
    split_ifs at hc₂ with hw
    · exact (hread.1.handleWrite (hread.2 hw) hc₂).1
    · cases Option.some.inj hc₂
      exact hread.1
  exact ⟨hwrite.frame rfl rfl rfl hwrite.clean fun hc ↦ ⟨hc, rfl⟩, rfl⟩

theorem step_inv {e : ConnectorEvent} (h : s.Inv) (hguard : s.NoOverlap e)
    (hstep : s.step e = some s') : s'.Inv := by
  cases steps_of_step hstep with
  | call hc =>
    obtain ⟨hinv, hrunning, -⟩ := h.conn.call hguard hc
    exact ⟨hinv, hrunning.trans h.running⟩
  | handleEvent hphase hc =>
    obtain ⟨hinv, hrunning⟩ := h.handleEvent hphase hguard hc
    exact ⟨hinv, hrunning⟩
  | @runFunctor attempts _ f fs _ hpending hc =>
    cases f with
    | resetChannel q =>
      cases Option.some.inj hc
      exact ⟨h.conn.resetChannel hpending h.running,
        (Connector.resetChannel_running q).trans h.running⟩
    | stopInLoop =>
      obtain ⟨hinv, hrunning⟩ :=
        (h.conn.pop hpending).stopInLoop (hguard (by simp [hpending])) hc
      exact ⟨hinv, hrunning.trans h.running⟩
  | poll | doPendingFunctors => exact ⟨h.conn, h.running⟩

/-- In every run of a connector in which no two attempts overlap, it waits on
its socket while it is connecting and destroys its channels in time. -/
theorem sound_of_noOverlap (retryDelayMs : ℤ) (es : List ConnectorEvent) (s : ConnectorLoop)
    (hrun : run step (start retryDelayMs) es = some s)
    (hguard : Along step NoOverlap (start retryDelayMs) es) : s.Sound := by
  have hstart : (start retryDelayMs).Inv :=
    ⟨⟨fun hc ↦ (by cases hc), fun _ hq ↦ (by cases hq), Nat.zero_le 1,
      fun _ ↦ .inl ⟨rfl, rfl⟩, fun _ _ _ _ hmem ↦ (by cases hmem)⟩, rfl⟩
  have hinv := run_invariant (fun _ _ _ h hg hs ↦ step_inv h hg hs) hstart hguard hrun
  exact ⟨hinv.conn.waits, hinv.conn.clean⟩

theorem sound_of_noOverlap_retry :
    ∃ s, run step (start 0) [.call (.start [.socket 5 (some .EINPROGRESS)]),
        .poll [(5, Channel.EPOLLOUT)],
        .handleEvent ⟨[], some .ECONNREFUSED, false, [.socket 5 (some .EACCES)], []⟩,
        .doPendingFunctors, .runFunctor [],
        .call (.start [.socket 5 (some .ECONNREFUSED), .socket 5 none])] = some s ∧
      s.Sound := by
  obtain ⟨s, hs⟩ := Option.isSome_iff_exists.mp (show (run step (start 0)
    [.call (.start [.socket 5 (some .EINPROGRESS)]), .poll [(5, Channel.EPOLLOUT)],
      .handleEvent ⟨[], some .ECONNREFUSED, false, [.socket 5 (some .EACCES)], []⟩,
      .doPendingFunctors, .runFunctor [],
      .call (.start [.socket 5 (some .ECONNREFUSED), .socket 5 none])]).isSome by decide +kernel)
  exact ⟨s, hs, sound_of_noOverlap 0 _ s hs (by decide +kernel)⟩

/-- The retry in `handleWrite` destroys the channel that is running. -/
theorem not_sound :
    ¬ ∀ (es : List ConnectorEvent) (s : ConnectorLoop), run step (start 0) es = some s →
      s.Sound := by
  intro h
  have hrun : (run step (start 0) [.call (.start [.socket 5 (some .EINPROGRESS)]),
      .poll [(5, Channel.EPOLLOUT)],
      .handleEvent ⟨[], some .ECONNREFUSED, false, [.socket 5 (some .EINPROGRESS)], []⟩]).map
        (fun s ↦ decide (.destroyChannel 0 false true none ∈ s.conn.log)) = some true := by
    decide +kernel
  obtain ⟨s, hs, hmem⟩ := Option.map_eq_some_iff.mp hrun
  have hclean := (h _ s hs).clean _ _ _ _ (of_decide_eq_true hmem)
  exact absurd hclean.2.1 (by decide)

end ConnectorLoop

end Mymuduo.Net
