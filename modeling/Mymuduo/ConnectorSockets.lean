import Mymuduo.ConnectorWait
import Mathlib.Logic.Relation

namespace Mymuduo.Net

open Execution

namespace ConnectorAction

def disposed : ConnectorAction → Option ℕ
  | close fd | newConnection fd => some fd
  | _ => none

end ConnectorAction

def Legal : List ConnectorAction → Prop
  | [] => True
  | a :: log => (∀ fd ∈ a.disposed, fd ∈ openSockets log) ∧ Legal log

/-- From one log to the other the open sockets have a property all the time. -/
structure Moments (P : List ℕ → Prop) (log log' : List ConnectorAction) : Prop where
  older : log <:+ log'
  each : ∀ l, log <:+ l → l <:+ log' → P (openSockets l)

variable {P Q : List ℕ → Prop} {log log' log'' : List ConnectorAction}

theorem Legal.count (h : Legal log) (fd : ℕ) :
    log.count (.createNonBlocking (some fd)) =
      log.count (.close fd) + log.count (.newConnection fd) + (openSockets log).count fd := by
  induction log with
  | nil => rfl
  | cons a log ih =>
    obtain ⟨ha, hlog⟩ := h
    have ih := ih hlog
    have herase (fd' : ℕ) (hmem : fd' ∈ openSockets log) : (openSockets log).count fd =
        ((openSockets log).erase fd').count fd + if fd' = fd then 1 else 0 := by
      rw [(List.perm_cons_erase hmem).count_eq, List.count_cons]
      simp
    cases a with
    | createNonBlocking created =>
      cases created with
      | none => simpa [openSockets, List.count_cons] using ih
      | some fd' =>
        simp only [openSockets, List.count_cons, ih, beq_iff_eq,
          ConnectorAction.createNonBlocking.injEq, Option.some.injEq, reduceCtorEq, if_false]
        omega
    | close fd' =>
      have hcount := herase fd' (ha fd' rfl)
      simp only [openSockets, List.count_cons, ih, beq_iff_eq, ConnectorAction.close.injEq,
        reduceCtorEq, if_false]
      omega
    | newConnection fd' =>
      have hcount := herase fd' (ha fd' rfl)
      simp only [openSockets, List.count_cons, ih, beq_iff_eq, ConnectorAction.newConnection.injEq,
        reduceCtorEq, if_false]
      omega
    | sleep | destroyChannel => simpa [openSockets, List.count_cons] using ih

theorem Legal.cons_of_disposed_none (h : Legal log) {a : ConnectorAction} (ha : a.disposed = none) :
    Legal (a :: log) := ⟨by simp [ha], h⟩

theorem Moments.refl (h : P (openSockets log)) : Moments P log log :=
  ⟨List.suffix_rfl, fun l hl hl' ↦ by
    rwa [hl'.eq_of_length (Nat.le_antisymm hl'.length_le hl.length_le)]⟩

theorem Moments.trans (h : Moments P log log') (h' : Moments P log' log'') :
    Moments P log log'' := by
  refine ⟨h.older.trans h'.older, fun l hl hl' ↦ ?_⟩
  rcases List.suffix_or_suffix_of_suffix hl' h'.older with hin | hin
  · exact h.each l hl hin
  · exact h'.each l hin hl'

theorem Moments.cons (h : Moments P log log') {a : ConnectorAction}
    (ha : P (openSockets (a :: log'))) : Moments P log (a :: log') := by
  refine ⟨h.older.trans (List.suffix_cons a log'), fun l hl hl' ↦ ?_⟩
  rcases List.suffix_cons_iff.mp hl' with rfl | hl'
  · exact ha
  · exact h.each l hl hl'

theorem Moments.mono (h : Moments P log log') (hPQ : ∀ fds, P fds → Q fds) : Moments Q log log' :=
  ⟨h.older, fun l hl hl' ↦ hPQ _ (h.each l hl hl')⟩

def AtMostOne (fds : List ℕ) : Prop := fds.length ≤ 1

theorem moments_create (hopen : openSockets log = []) (fd : ℕ) :
    Moments AtMostOne log (.createNonBlocking (some fd) :: log) := by
  refine (Moments.refl ?_).cons ?_ <;> simp [AtMostOne, openSockets, hopen]

theorem openSockets_close_create (fd : ℕ) (log : List ConnectorAction) :
    openSockets (.close fd :: .createNonBlocking (some fd) :: log) = openSockets log :=
  List.erase_cons_head ..

theorem Legal.close_create (h : Legal log) (fd : ℕ) :
    Legal (.close fd :: .createNonBlocking (some fd) :: log) :=
  ⟨by simp [ConnectorAction.disposed, openSockets], h.cons_of_disposed_none rfl⟩

theorem moments_close_create (hopen : openSockets log = []) (fd : ℕ) :
    Moments AtMostOne log (.close fd :: .createNonBlocking (some fd) :: log) := by
  refine (moments_create hopen fd).cons ?_
  simp [openSockets_close_create, AtMostOne, hopen]

namespace Connector

/-- Every socket is closed or passed on once, or it is the one that the registered
channel of the attempt in progress waits on. -/
structure Accounted (c : Connector) : Prop where
  legal : Legal c.log
  waiting : c.state = .kConnecting → ∃ ch, c.channel = some ch ∧ Watched c.poller ch ∧
    (∀ fd ≠ ch.fd, Forgotten c.poller fd) ∧ openSockets c.log = [ch.fd]
  idle : c.state ≠ .kConnecting →
    (∀ fd, Forgotten c.poller fd) ∧ openSockets c.log = []

/-- The socket of an attempt that waits from the one state to the other. -/
def kept (c c' : Connector) : List ℕ :=
  if c.state = .kConnecting ∧ c'.state = .kConnecting ∧ c'.channel = c.channel then
    (c.channel.map Channel.fd).toList
  else []

/-- On the way there is at most one open socket besides the one that is kept. -/
def Passes (c c' : Connector) : Prop :=
  Moments (fun fds ↦ AtMostOne (fds.diff (c.kept c'))) c.log c'.log

/-- The poller holds nothing and all sockets are closed or passed on. -/
structure Clear (c : Connector) : Prop where
  legal : Legal c.log
  forgotten : ∀ fd, Forgotten c.poller fd
  none_open : openSockets c.log = []

/-- What a function does that no attempt waits through; `waits` tells whether it
may leave one waiting. -/
structure Settles (waits : Prop) (c c' : Connector) : Prop where
  single : Moments AtMostOne c.log c'.log
  accounted : c'.Accounted
  idle : ¬ waits → c'.state ≠ .kConnecting

/-- The first answer of `connect` ends the call and leaves the state as it is. -/
def EndsAtOnce : List Attempt → Prop
  | .socket _ saveErrno :: _ => Attempt.outcome saveErrno = .close
  | _ => True

instance : DecidablePred EndsAtOnce
  | .socket _ saveErrno :: _ => inferInstanceAs (Decidable (Attempt.outcome saveErrno = .close))
  | .noSocket :: _ | [] => .isTrue trivial

end Connector

def ConnectorCall.Spares : ConnectorCall → Prop
  | start attempts => Connector.EndsAtOnce attempts
  | restart _ => False
  | stop => True

instance : DecidablePred ConnectorCall.Spares
  | .start attempts => inferInstanceAs (Decidable (Connector.EndsAtOnce attempts))
  | .restart _ => .isFalse id
  | .stop => .isTrue trivial

namespace Connector

/-- Once one of the calls has an attempt wait, the later ones leave it alone. -/
def InOrder : List ConnectorCall → Prop
  | [] => True
  | k :: calls => if k.Connects then ∀ k' ∈ calls, k'.Spares else InOrder calls

instance decidableInOrder : DecidablePred InOrder
  | [] => .isTrue trivial
  | k :: calls =>
    have := decidableInOrder calls
    inferInstanceAs (Decidable (if k.Connects then ∀ k' ∈ calls, k'.Spares else InOrder calls))

variable {c c' : Connector} {attempts rest : List Attempt}

theorem passes_of_single (h : Moments AtMostOne c.log c'.log) : c.Passes c' :=
  h.mono fun fds hfds ↦ Nat.le_trans (List.diff_sublist fds _).length_le hfds

theorem Accounted.clear (h : c.Accounted) (hidle : c.state ≠ .kConnecting) : c.Clear :=
  ⟨h.legal, (h.idle hidle).1, (h.idle hidle).2⟩

theorem Clear.accounted (h : c.Clear) (hidle : c.state ≠ .kConnecting) : c.Accounted :=
  ⟨h.legal, fun hc ↦ (hidle hc).elim, fun _ ↦ ⟨h.forgotten, h.none_open⟩⟩

theorem Clear.settles (h : c.Clear) (hidle : c.state ≠ .kConnecting) (waits : Prop) :
    Settles waits c c :=
  ⟨.refl (by simp [AtMostOne, h.none_open]), h.accounted hidle, fun _ ↦ hidle⟩

theorem Settles.mono {waits waits' : Prop} (h : Settles waits c c') (hw : waits → waits') :
    Settles waits' c c' := ⟨h.single, h.accounted, fun hn ↦ h.idle fun hs ↦ hn (hw hs)⟩

theorem Clear.slept {sockfd : ℕ} (h : (c.did (.close sockfd)).Clear) : (c.slept sockfd).Clear :=
  ⟨h.legal.cons_of_disposed_none rfl, h.forgotten, h.none_open⟩

theorem Clear.gaveUp {sockfd : ℕ} (h : (c.did (.close sockfd)).Clear) (waits : Prop) :
    Settles waits (c.did (.close sockfd)) (c.gaveUp sockfd) := by
  obtain ⟨hsingle, haccounted, hidle⟩ := Clear.settles (c := c.gaveUp sockfd)
    ⟨h.legal, h.forgotten, h.none_open⟩ (fun hc ↦ (by cases hc)) waits
  exact ⟨hsingle, haccounted, hidle⟩

theorem Clear.slowedDown {waits : Prop} {sockfd : ℕ} (h : (c.did (.close sockfd)).Clear)
    (hs : Settles waits (c.slept sockfd) c') :
    Settles waits (c.did (.close sockfd)) c'.slowedDown := by
  have hsleep : Moments AtMostOne (c.did (.close sockfd)).log (c.slept sockfd).log :=
    (Moments.refl (by simp [AtMostOne, h.none_open])).cons
      (by simp [AtMostOne, openSockets, h.none_open])
  exact ⟨hsleep.trans hs.single,
    ⟨hs.accounted.legal, hs.accounted.waiting, hs.accounted.idle⟩, hs.idle⟩

theorem connecting_eq (hforgotten : ∀ fd, Forgotten c.poller fd) (sockfd : ℕ) :
    ∃ ch, (c.connecting sockfd).state = .kConnecting ∧
      (c.connecting sockfd).channel = some ch ∧ ch.fd = sockfd ∧
      Watched (c.connecting sockfd).poller ch ∧
      ∀ fd ≠ sockfd, Forgotten (c.connecting sockfd).poller fd := by
  have hnew (ptr : ℕ) : (Channel.new sockfd ptr).enableWriting c.poller = _ :=
    Channel.enableWriting_new (hforgotten sockfd).2
  have hothers (ptr fd : ℕ) (hne : fd ≠ sockfd) :
      Forgotten ((Channel.new sockfd ptr).enableWriting c.poller).1 fd := by
    simpa [hnew, Forgotten, Function.update_of_ne hne] using hforgotten fd
  have hwatched (ptr : ℕ) : Watched ((Channel.new sockfd ptr).enableWriting c.poller).1
      ((Channel.new sockfd ptr).enableWriting c.poller).2 := by
    rw [hnew]
    exact ⟨rfl, Channel.isWriting_kWriteEvent _ _ _, by simp, by simp⟩
  have hfd (ptr : ℕ) : ((Channel.new sockfd ptr).enableWriting c.poller).2.fd = sockfd := by
    rw [hnew]
  cases hchannel : c.channel <;>
    simp only [connecting, destroyChannel, setStates, did, hchannel] <;>
    exact ⟨_, trivial, rfl, hfd _, hwatched _, hothers _⟩

/-- An attempt that waits for the socket that was just created. -/
theorem settles_connecting (h : c.Clear) (sockfd : ℕ) :
    Settles True c ((c.did (.createNonBlocking (some sockfd))).connecting sockfd) := by
  obtain ⟨ch, hstate, hchannel, rfl, hwatched, hothers⟩ :=
    connecting_eq (c := c.did (.createNonBlocking (some sockfd))) h.forgotten sockfd
  have hopen : openSockets (.createNonBlocking (some ch.fd) :: c.log) = [ch.fd] :=
    congrArg (ch.fd :: ·) h.none_open
  have hlegal : Legal (.createNonBlocking (some ch.fd) :: c.log) :=
    h.legal.cons_of_disposed_none rfl
  have hcreate := moments_create h.none_open ch.fd
  have hend (log : List ConnectorAction) (hl : Legal log) (ho : openSockets log = [ch.fd])
      (hm : Moments AtMostOne c.log log)
      (heq : ((c.did (.createNonBlocking (some ch.fd))).connecting ch.fd).log = log) :
      Settles True c ((c.did (.createNonBlocking (some ch.fd))).connecting ch.fd) := by
    subst heq
    exact ⟨hm, ⟨hl, fun _ ↦ ⟨ch, hchannel, hwatched, hothers, ho⟩, fun hc ↦ (hc hstate).elim⟩,
      fun hw ↦ (hw trivial).elim⟩
  rcases connecting_log (c.did (.createNonBlocking (some ch.fd))) ch.fd with
    hlog | ⟨ptr, registered, running, hlog⟩
  · exact hend _ hlegal hopen hcreate hlog
  · have hone : AtMostOne (openSockets (.createNonBlocking (some ch.fd) :: c.log)) := by
      simp [AtMostOne, hopen]
    exact hend _ (hlegal.cons_of_disposed_none rfl) hopen (hcreate.cons hone) hlog

theorem Clear.close_create (h : c.Clear) (sockfd : ℕ) :
    ((c.did (.createNonBlocking (some sockfd))).did (.close sockfd)).Clear :=
  ⟨h.legal.close_create sockfd, h.forgotten,
    (openSockets_close_create sockfd c.log).trans h.none_open⟩

theorem settles_tries (h : c.Clear) (hidle : c.state ≠ .kConnecting)
    (htries : Tries attempts c c') : Settles (Connects attempts = true) c c' := by
  induction htries with
  | @noSocket _ c =>
    have hnone : (c.did (.createNonBlocking none)).Clear :=
      ⟨h.legal.cons_of_disposed_none rfl, h.forgotten, h.none_open⟩
    refine ⟨(Moments.refl ?_).cons ?_, hnone.accounted hidle, fun _ ↦ hidle⟩ <;>
      simp [AtMostOne, openSockets, h.none_open]
  | @connecting sockfd _ _ c ho =>
    exact (settles_connecting h sockfd).mono fun _ ↦ by simp [Connects, ho]
  | @close sockfd _ _ c ho =>
    exact ⟨moments_close_create h.none_open sockfd, (h.close_create sockfd).accounted hidle,
      fun _ ↦ hidle⟩
  | @giveUp sockfd _ _ c ho =>
    obtain ⟨hsingle, haccounted, hidle'⟩ := (h.close_create sockfd).gaveUp False
    exact ⟨(moments_close_create h.none_open sockfd).trans hsingle, haccounted,
      fun _ ↦ hidle' id⟩
  | @again sockfd _ attempts c c' ho _ _ ih =>
    simp only [Connects, ho]
    have hclear := h.close_create sockfd
    obtain ⟨hsingle, haccounted, hidle'⟩ :=
      hclear.slowedDown (ih hclear.slept fun hc ↦ (by cases hc))
    exact ⟨(moments_close_create h.none_open sockfd).trans hsingle, haccounted, hidle'⟩

theorem settles_startInLoop (h : c.Clear) (hidle : c.state ≠ .kConnecting)
    (heq : c.startInLoop attempts = some (c', rest)) :
    Settles (Connects attempts = true) c c' := by
  rcases startInLoop_cases heq with rfl | htries
  · exact h.settles hidle _
  · exact settles_tries h hidle htries

/-- `removeAndResetChannel` leaves the socket of the attempt to its caller. -/
theorem Accounted.removeAndResetChannel (h : c.Accounted) (hc : c.state = .kConnecting) :
    ∃ sockfd c', c.removeAndResetChannel = some (sockfd, c') ∧ c'.log = c.log ∧
      (∀ fd, Forgotten c'.poller fd) ∧ openSockets c.log = [sockfd] := by
  obtain ⟨ch, hch, hwatched, hothers, hopen⟩ := h.waiting hc
  have hadded : (c.poller.epoll ch.fd).isSome := by simp [hwatched.epoll]
  refine ⟨ch.fd, { c with
    poller := ⟨Function.update c.poller.channels ch.fd none,
      Function.update c.poller.epoll ch.fd none, c.poller.refused⟩
    channel := some ⟨ch.fd, ch.ptr, Channel.kNonEvent, .kNew⟩
    pending := c.pending ++ [.resetChannel ch.ptr] }, ?_, rfl, fun fd ↦ ?_, hopen⟩
  · simp only [Connector.removeAndResetChannel, hch, Option.bind_eq_bind, Option.bind_some,
      Channel.remove_disableAll hwatched.index hadded]
    rfl
  · by_cases hne : fd = ch.fd
    · simp [hne, Forgotten]
    · simpa [Forgotten, Function.update_of_ne hne] using hothers fd hne

/-- The caller of `removeAndResetChannel` closes the socket and tries again. -/
theorem settles_retry {sockfd : ℕ} (hlegal : Legal c.log)
    (hforgotten : ∀ fd, Forgotten c.poller fd) (hopen : openSockets c.log = [sockfd])
    (heq : (c.retry sockfd attempts).map Prod.fst = some c') : Settles True c c' := by
  obtain ⟨⟨c₁, rest⟩, hc₁, rfl⟩ := Option.map_eq_some_iff.mp heq
  have hclosed : openSockets (.close sockfd :: c.log) = [] := by simp [openSockets, hopen]
  have hclear : (c.did (.close sockfd)).Clear :=
    ⟨⟨by simp [ConnectorAction.disposed, hopen], hlegal⟩, hforgotten, hclosed⟩
  have hclose : Moments AtMostOne c.log (.close sockfd :: c.log) :=
    (Moments.refl (by simp [AtMostOne, hopen])).cons (by simp [AtMostOne, hclosed])
  have hsettles : Settles True (c.did (.close sockfd)) c₁ := by
    rcases retry_cases hc₁ with ⟨-, rfl⟩ | ⟨-, c₂, htries, rfl⟩
    · exact hclear.gaveUp True
    · have hs := settles_tries hclear.slept (fun hc ↦ (by cases hc)) htries
      exact hclear.slowedDown (hs.mono fun _ ↦ trivial)
  exact ⟨hclose.trans hsettles.single, hsettles.accounted, hsettles.idle⟩

theorem Accounted.atMostOne (h : c.Accounted) : AtMostOne (openSockets c.log) := by
  by_cases hc : c.state = .kConnecting
  · obtain ⟨ch, -, -, -, hopen⟩ := h.waiting hc
    simp [AtMostOne, hopen]
  · simp [AtMostOne, (h.idle hc).2]

theorem Accounted.frame (h : c.Accounted) (hstate : c'.state = c.state)
    (hchannel : c'.channel = c.channel) (hpoller : c'.poller = c.poller) (hlog : c'.log = c.log) :
    c'.Accounted ∧ c.Passes c' := by
  refine ⟨⟨?_, ?_, ?_⟩, passes_of_single ?_⟩
  · rw [hlog]
    exact h.legal
  · rw [hstate, hchannel, hpoller, hlog]
    exact h.waiting
  · rw [hstate, hpoller, hlog]
    exact h.idle
  · rw [hlog]
    exact .refl h.atMostOne

theorem Settles.passes {waits : Prop} (h : Settles waits c c') : c'.Accounted ∧ c.Passes c' :=
  ⟨h.accounted, passes_of_single h.single⟩

/-- `connect` during another attempt, which keeps its channel. -/
theorem Accounted.connect_waiting (h : c.Accounted) (hc : c.state = .kConnecting)
    (hends : EndsAtOnce attempts) (heq : Connector.connect attempts c = some (c', rest)) :
    c'.Accounted ∧ c.Passes c' := by
  obtain ⟨ch, hch, hwatched, hothers, hopen⟩ := h.waiting hc
  cases attempts with
  | nil => simp [Connector.connect] at heq
  | cons a attempts =>
    cases a with
    | noSocket =>
      simp only [Connector.connect, Option.some.injEq, Prod.mk.injEq] at heq
      obtain ⟨rfl, rfl⟩ := heq
      refine ⟨⟨h.legal.cons_of_disposed_none rfl, h.waiting, h.idle⟩, passes_of_single ?_⟩
      exact (Moments.refl h.atMostOne).cons h.atMostOne
    | socket sockfd saveErrno =>
      simp only [EndsAtOnce] at hends
      simp only [Connector.connect, hends] at heq
      split_ifs at heq
      simp only [Option.some.injEq, Prod.mk.injEq] at heq
      obtain ⟨rfl, rfl⟩ := heq
      have hsame := openSockets_close_create sockfd c.log
      have hkept : c.kept ((c.did (.createNonBlocking (some sockfd))).did (.close sockfd)) =
          [ch.fd] := by simp [kept, did, hc, hch]
      refine ⟨⟨h.legal.close_create sockfd, fun _ ↦ ?_, fun hn ↦ (hn hc).elim⟩, ?_⟩
      · exact ⟨ch, hch, hwatched, hothers, hsame.trans hopen⟩
      · rw [Passes, hkept]
        refine ((Moments.refl ?_).cons ?_).cons ?_
        · simp [AtMostOne, hopen]
        · have herase := List.length_erase_of_mem (show ch.fd ∈ [sockfd, ch.fd] by simp)
          simp [AtMostOne, openSockets, hopen, List.diff_cons, herase]
        · simp [AtMostOne, hsame, hopen]

theorem Accounted.call (h : c.Accounted) {k : ConnectorCall}
    (hguard : c.state = .kConnecting → k.Spares) (heq : c.call k = some c') :
    c'.Accounted ∧ c.Passes c' := by
  cases k with
  | start attempts =>
    obtain ⟨⟨c₁, rest⟩, hc₁, rfl⟩ := Option.map_eq_some_iff.mp heq
    by_cases hc : c.state = .kConnecting
    · exact Accounted.connect_waiting (c := { c with connect_ := true })
        ⟨h.legal, h.waiting, h.idle⟩ hc (hguard hc) hc₁
    · exact (settles_startInLoop (c := { c with connect_ := true })
        ⟨h.legal, (h.idle hc).1, (h.idle hc).2⟩ hc hc₁).passes
  | restart attempts =>
    obtain ⟨⟨c₁, rest⟩, hc₁, rfl⟩ := Option.map_eq_some_iff.mp heq
    have hc : c.state ≠ .kConnecting := hguard
    have hsettles := settles_startInLoop (c := { c.setStates .kDisConnected with
      retryDelayMs := kInitRetryDelayMs, connect_ := true })
        ⟨h.legal, (h.idle hc).1, (h.idle hc).2⟩ (by simp [setStates]) hc₁
    exact ⟨hsettles.accounted, passes_of_single hsettles.single⟩
  | stop =>
    cases Option.some.inj heq
    exact h.frame rfl rfl rfl rfl

theorem idle_of_call (h : c.Accounted) {k : ConnectorCall} (hidle : c.state ≠ .kConnecting)
    (hk : k.Connects = false) (heq : c.call k = some c') : c'.state ≠ .kConnecting := by
  cases k with
  | start attempts =>
    obtain ⟨⟨c₁, rest⟩, hc₁, rfl⟩ := Option.map_eq_some_iff.mp heq
    exact (settles_startInLoop (c := { c with connect_ := true })
      ⟨h.legal, (h.idle hidle).1, (h.idle hidle).2⟩ hidle hc₁).idle
        (by simpa [ConnectorCall.Connects] using hk)
  | restart attempts =>
    obtain ⟨⟨c₁, rest⟩, hc₁, rfl⟩ := Option.map_eq_some_iff.mp heq
    exact (settles_startInLoop (c := { c.setStates .kDisConnected with
      retryDelayMs := kInitRetryDelayMs, connect_ := true })
        ⟨h.legal, (h.idle hidle).1, (h.idle hidle).2⟩ (by simp [setStates]) hc₁).idle
          (by simpa [ConnectorCall.Connects] using hk)
  | stop =>
    cases Option.some.inj heq
    exact hidle

/-- The functions that the loop and the user call, and what happens between them. -/
inductive Stage : Connector → Connector → Prop
  | handleError {c c' : Connector} {attempts : List Attempt}
    (heq : c.handleError attempts = some c') : Stage c c'
  | handleWrite {c c' : Connector} {err : Option Errno} {selfConnect : Bool}
    {attempts : List Attempt} (heq : c.handleWrite err selfConnect attempts [] = some c') :
    Stage c c'
  | call {c c' : Connector} {k : ConnectorCall} (heq : c.call k = some c') : Stage c c'
  | callFunctor {c c' : Connector} {attempts : List Attempt} {f : ConnectorFunctor}
    (heq : c.callFunctor attempts f = some c') : Stage c c'
  | between {c c' : Connector} (hstate : c'.state = c.state) (hchannel : c'.channel = c.channel)
    (hpoller : c'.poller = c.poller) (hlog : c'.log = c.log) : Stage c c'

def Proceeds : Connector → Connector → Prop :=
  Relation.ReflTransGen fun c c' ↦ Stage c c' ∧ c.Passes c'

theorem Accounted.between (h : c.Accounted) (c' : Connector) (hstate : c'.state = c.state)
    (hchannel : c'.channel = c.channel) (hpoller : c'.poller = c.poller) (hlog : c'.log = c.log) :
    c'.Accounted ∧ c.Proceeds c' :=
  ⟨(h.frame hstate hchannel hpoller hlog).1,
    .single ⟨.between hstate hchannel hpoller hlog, (h.frame hstate hchannel hpoller hlog).2⟩⟩

theorem Accounted.calls_spare {calls : List ConnectorCall} (h : c.Accounted)
    (hspares : ∀ k ∈ calls, k.Spares) (heq : calls.foldlM Connector.call c = some c') :
    c'.Accounted ∧ c.Proceeds c' := by
  induction calls generalizing c with
  | nil =>
    cases Option.some.inj heq
    exact ⟨h, .refl⟩
  | cons k calls ih =>
    obtain ⟨hk, hcalls⟩ := List.forall_mem_cons.mp hspares
    obtain ⟨c₁, hc₁, heq⟩ := Option.bind_eq_some_iff.mp heq
    obtain ⟨haccounted, hpasses⟩ := h.call (fun _ ↦ hk) hc₁
    obtain ⟨haccounted', hproceeds⟩ := ih haccounted hcalls heq
    exact ⟨haccounted', hproceeds.head ⟨.call hc₁, hpasses⟩⟩

theorem Accounted.calls {calls : List ConnectorCall} (h : c.Accounted)
    (hidle : c.state ≠ .kConnecting) (hinorder : InOrder calls)
    (heq : calls.foldlM Connector.call c = some c') : c'.Accounted ∧ c.Proceeds c' := by
  induction calls generalizing c with
  | nil =>
    cases Option.some.inj heq
    exact ⟨h, .refl⟩
  | cons k calls ih =>
    obtain ⟨c₁, hc₁, heq⟩ := Option.bind_eq_some_iff.mp heq
    obtain ⟨haccounted, hpasses⟩ := h.call (fun hc ↦ (hidle hc).elim) hc₁
    have hrest : c'.Accounted ∧ c₁.Proceeds c' := by
      rw [InOrder] at hinorder
      split_ifs at hinorder with hk
      · exact haccounted.calls_spare hinorder heq
      · exact ih haccounted (idle_of_call h hidle (by simpa using hk) hc₁) hinorder heq
    exact ⟨hrest.1, hrest.2.head ⟨.call hc₁, hpasses⟩⟩

/-- `retry` after `removeAndResetChannel`. -/
theorem Accounted.retry (h : c.Accounted) (hc : c.state = .kConnecting)
    (heq : (c.removeAndResetChannel.bind fun r ↦ (r.2.retry r.1 attempts).map Prod.fst) =
      some c') : c'.Accounted ∧ c.Passes c' := by
  obtain ⟨sockfd, c₁, hremoved, hlog, hforgotten, hopen⟩ := h.removeAndResetChannel hc
  rw [hremoved, Option.bind_some] at heq
  rw [← hlog] at hopen
  have hsettles := settles_retry (hlog ▸ h.legal) hforgotten hopen heq
  exact ⟨hsettles.accounted, passes_of_single (hlog ▸ hsettles.single)⟩

theorem Accounted.handleError (h : c.Accounted) (heq : c.handleError attempts = some c') :
    c'.Accounted ∧ c.Passes c' := by
  rw [Connector.handleError] at heq
  split_ifs at heq with hc
  · exact h.retry hc heq
  · cases Option.some.inj heq
    exact h.frame rfl rfl rfl rfl

/-- The connection goes to the callback, or its socket is closed. -/
theorem Accounted.finish (h : c.Accounted) (hc : c.state = .kConnecting) {sockfd : ℕ}
    {c₁ : Connector} (hremoved : c.removeAndResetChannel = some (sockfd, c₁))
    {a : ConnectorAction} (ha : a = .newConnection sockfd ∨ a = .close sockfd) :
    ((c₁.setStates .kConnected).did a).Accounted ∧
      c.Passes ((c₁.setStates .kConnected).did a) := by
  obtain ⟨sockfd, c₁, heq, hlog, hforgotten, hopen⟩ := h.removeAndResetChannel hc
  cases heq.symm.trans hremoved
  have hclosed : openSockets (a :: c.log) = [] := by
    rcases ha with rfl | rfl <;> simp [openSockets, hopen]
  have hlegal : Legal (a :: c.log) := by
    refine ⟨?_, h.legal⟩
    rcases ha with rfl | rfl <;> simp [ConnectorAction.disposed, hopen]
  rw [← hlog] at hclosed hlegal
  have hclear : ((c₁.setStates .kConnected).did a).Clear := ⟨hlegal, hforgotten, hclosed⟩
  refine ⟨hclear.accounted (by simp [did, setStates]), passes_of_single ?_⟩
  rw [show ((c₁.setStates .kConnected).did a).log = a :: c₁.log from rfl, hlog]
  rw [hlog] at hclosed
  exact (Moments.refl h.atMostOne).cons (by simp [AtMostOne, hclosed])

theorem Accounted.handleWrite (h : c.Accounted) {err : Option Errno} {selfConnect : Bool}
    (heq : c.handleWrite err selfConnect attempts [] = some c') :
    c'.Accounted ∧ c.Passes c' := by
  rw [Connector.handleWrite] at heq
  by_cases hc : c.state = .kConnecting
  · obtain ⟨sockfd, c₁, hremoved, -⟩ := h.removeAndResetChannel hc
    have hretry (hr : (c₁.retry sockfd attempts).map Prod.fst = some c') :
        c'.Accounted ∧ c.Passes c' := h.retry hc (by rw [hremoved]; exact hr)
    simp only [if_pos hc, hremoved, Option.bind_eq_bind, Option.bind_some] at heq
    split_ifs at heq
    · exact hretry heq
    · exact hretry heq
    · cases Option.some.inj heq
      exact h.finish hc hremoved (.inl rfl)
    · cases Option.some.inj heq
      exact h.finish hc hremoved (.inr rfl)
  · rw [if_neg hc] at heq
    cases Option.some.inj heq
    exact h.frame rfl rfl rfl rfl

/-- The calls of the callback come after the rest of `handleWrite`. -/
theorem handleWrite_calls {err : Option Errno} {selfConnect : Bool} {calls : List ConnectorCall}
    (heq : c.handleWrite err selfConnect attempts calls = some c') :
    ∃ c₁, c.handleWrite err selfConnect attempts [] = some c₁ ∧
      (c₁ = c' ∨ c₁.state ≠ .kConnecting ∧ calls.foldlM Connector.call c₁ = some c') := by
  rw [Connector.handleWrite] at heq ⊢
  by_cases hc : c.state = .kConnecting
  · rw [if_pos hc] at heq ⊢
    obtain ⟨⟨sockfd, c₁⟩, hremoved, heq⟩ := Option.bind_eq_some_iff.mp heq
    simp only [hremoved, Option.bind_eq_bind, Option.bind_some]
    by_cases hfailed : err.isSome ∨ selfConnect
    · refine ⟨c', ?_, .inl rfl⟩
      rcases hfailed with herr | hself
      · simpa [herr] using heq
      · simpa [hself] using heq
    · obtain ⟨herr, hself⟩ := not_or.mp hfailed
      dsimp only at heq
      rw [if_neg herr, if_neg hself] at heq ⊢
      split_ifs at heq ⊢
      · exact ⟨_, rfl, .inr ⟨by simp [did, setStates], heq⟩⟩
      · exact ⟨c', heq, .inl rfl⟩
  · rw [if_neg hc] at heq ⊢
    exact ⟨c', heq, .inl rfl⟩

theorem Accounted.handleEvent (h : c.Accounted) {ptr : ℕ} {revents : BitVec 32}
    {r : EventAnswers} (hinorder : InOrder r.calls)
    (heq : c.handleEvent ptr revents r = some c') : c'.Accounted ∧ c.Proceeds c' := by
  simp only [Connector.handleEvent, Option.bind_eq_some_iff, Option.map_eq_some_iff] at heq
  obtain ⟨c₁, hc₁, c₂, hc₂, rfl⟩ := heq
  obtain ⟨h₀, hentered⟩ :=
    h.between { c with running := some ptr } rfl rfl rfl rfl
  have hread : c₁.Accounted ∧ c.Proceeds c₁ := by
    split_ifs at hc₁
    · obtain ⟨h₁, hpasses⟩ := h₀.handleError hc₁
      exact ⟨h₁, hentered.tail ⟨.handleError hc₁, hpasses⟩⟩
    · cases Option.some.inj hc₁
      exact ⟨h₀, hentered⟩
  have hwrite : c₂.Accounted ∧ c.Proceeds c₂ := by
    split_ifs at hc₂
    · obtain ⟨c₃, hc₃, hcalls⟩ := handleWrite_calls hc₂
      obtain ⟨h₃, hpasses⟩ := hread.1.handleWrite hc₃
      have hproceeds : c.Proceeds c₃ := hread.2.tail ⟨.handleWrite hc₃, hpasses⟩
      rcases hcalls with rfl | ⟨hidle, hcalls⟩
      · exact ⟨h₃, hproceeds⟩
      · obtain ⟨h₂, hrest⟩ := h₃.calls hidle hinorder hcalls
        exact ⟨h₂, hproceeds.trans hrest⟩
    · cases Option.some.inj hc₂
      exact hread
  obtain ⟨h', hleft⟩ := hwrite.1.between { c₂ with running := none } rfl rfl rfl rfl
  exact ⟨h', hwrite.2.trans hleft⟩

theorem Accounted.callFunctor (h : c.Accounted) {f : ConnectorFunctor}
    (hguard : isReset f → c.state ≠ .kConnecting) (heq : c.callFunctor attempts f = some c') :
    c'.Accounted ∧ c.Passes c' := by
  cases f with
  | resetChannel queuedBy =>
    cases Option.some.inj heq
    have hidle := hguard rfl
    cases hchannel : c.channel with
    | none =>
      simp only [Connector.resetChannel, destroyChannel, hchannel]
      exact h.frame rfl rfl rfl rfl
    | some ch =>
      simp only [Connector.resetChannel, destroyChannel, hchannel]
      have hclear := h.clear hidle
      refine ⟨Clear.accounted ⟨hclear.legal.cons_of_disposed_none rfl, hclear.forgotten,
        hclear.none_open⟩ hidle, passes_of_single ?_⟩
      exact (Moments.refl h.atMostOne).cons h.atMostOne
  | stopInLoop =>
    rw [Connector.callFunctor, stopInLoop_eq] at heq
    exact h.handleError heq

end Connector

namespace ConnectorLoop

variable (s : ConnectorLoop)

/-- The attempt that waits is not started over, and `resetChannel` does not run
while an attempt waits. -/
def Undisturbed : ConnectorEvent → Prop
  | .call k => s.conn.state = .kConnecting → k.Spares
  | .handleEvent r => Connector.InOrder r.calls
  | .runFunctor _ => s.conn.pending.head?.any Connector.isReset → s.conn.state ≠ .kConnecting
  | .poll _ | .doPendingFunctors => True

instance : DecidablePred s.Undisturbed
  | .call k => inferInstanceAs (Decidable (s.conn.state = .kConnecting → k.Spares))
  | .handleEvent r => inferInstanceAs (Decidable (Connector.InOrder r.calls))
  | .runFunctor _ => inferInstanceAs (Decidable (s.conn.pending.head?.any Connector.isReset →
      s.conn.state ≠ .kConnecting))
  | .poll _ | .doPendingFunctors => .isTrue trivial

variable {s} {s' : ConnectorLoop}

theorem step_accounted {e : ConnectorEvent} (h : s.conn.Accounted) (hguard : s.Undisturbed e)
    (hstep : s.step e = some s') : s'.conn.Accounted ∧ s.conn.Proceeds s'.conn := by
  cases steps_of_step hstep with
  | call hc =>
    obtain ⟨haccounted, hpasses⟩ := h.call hguard hc
    exact ⟨haccounted, .single ⟨.call hc, hpasses⟩⟩
  | handleEvent _ hc => exact h.handleEvent hguard hc
  | @runFunctor attempts _ f fs c hpending hc =>
    obtain ⟨hpopped, hproceeds⟩ := h.between { s.conn with pending := fs } rfl rfl rfl rfl
    have hreset (hf : Connector.isReset f) : s.conn.state ≠ .kConnecting :=
      hguard (by simpa [hpending] using hf)
    obtain ⟨haccounted, hpasses⟩ := hpopped.callFunctor hreset hc
    exact ⟨haccounted, hproceeds.tail ⟨.callFunctor hc, hpasses⟩⟩
  | poll | doPendingFunctors => exact ⟨h, .refl⟩

/-- In every run of a connector that leaves the attempt that waits alone, each
socket is closed once, passed on once or waited on, and never are two of them
unaccounted. -/
theorem accounted_of_undisturbed (retryDelayMs : ℤ) (es : List ConnectorEvent) (s : ConnectorLoop)
    (hrun : run step (start retryDelayMs) es = some s)
    (hguard : Along step Undisturbed (start retryDelayMs) es) :
    s.conn.Accounted ∧
      (∀ fd, s.conn.log.count (.createNonBlocking (some fd)) =
        s.conn.log.count (.close fd) + s.conn.log.count (.newConnection fd) +
          (openSockets s.conn.log).count fd) ∧
      ∀ e s', s.Undisturbed e → s.step e = some s' → s.conn.Proceeds s'.conn := by
  have hstart : (start retryDelayMs).conn.Accounted :=
    ⟨trivial, fun hc ↦ (by cases hc), fun _ ↦ ⟨fun _ ↦ ⟨rfl, rfl⟩, rfl⟩⟩
  have haccounted : s.conn.Accounted := run_invariant
    (fun _ _ _ h hg hs ↦ (step_accounted h hg hs).1) hstart hguard hrun
  exact ⟨haccounted, haccounted.legal.count, fun e s' he hs ↦ (step_accounted haccounted he hs).2⟩

theorem accounted_of_undisturbed_retry :
    ∃ s, run step (start 0) [.call (.start [.socket 5 (some .EINPROGRESS)]),
        .call (.start [.socket 6 (some .EACCES)]), .poll [(5, Channel.EPOLLOUT)],
        .handleEvent ⟨[], some .ECONNREFUSED, false, [.socket 5 (some .EACCES)], []⟩,
        .doPendingFunctors, .runFunctor [], .call (.start [.socket 5 none])] = some s ∧
      s.conn.Accounted := by
  obtain ⟨s, hs⟩ := Option.isSome_iff_exists.mp (show (run step (start 0)
    [.call (.start [.socket 5 (some .EINPROGRESS)]),
      .call (.start [.socket 6 (some .EACCES)]), .poll [(5, Channel.EPOLLOUT)],
      .handleEvent ⟨[], some .ECONNREFUSED, false, [.socket 5 (some .EACCES)], []⟩,
      .doPendingFunctors, .runFunctor [], .call (.start [.socket 5 none])]).isSome by
        decide +kernel)
  exact ⟨s, hs, (accounted_of_undisturbed 0 _ s hs (by decide +kernel)).1⟩

/-- A second `start` leaves the socket of the first attempt behind. -/
theorem not_accounted :
    ¬ ∀ (es : List ConnectorEvent) (s : ConnectorLoop), run step (start 0) es = some s →
      s.conn.Accounted := by
  intro h
  have hrun : (run step (start 0) [.call (.start [.socket 5 (some .EINPROGRESS)]),
      .call (.start [.socket 6 (some .EINPROGRESS)])]).map
        (fun s ↦ decide (openSockets s.conn.log = [6, 5] ∧ s.conn.state = .kConnecting)) =
          some true := by decide +kernel
  obtain ⟨s, hs, hleft⟩ := Option.map_eq_some_iff.mp hrun
  obtain ⟨hopen, hstate⟩ := of_decide_eq_true hleft
  obtain ⟨ch, -, -, -, hone⟩ := (h _ s hs).waiting hstate
  simp [hopen] at hone

end ConnectorLoop

end Mymuduo.Net
