import Mymuduo.ClientWish

namespace Mymuduo.Net

open Execution

namespace ClientLoop

variable (s : ClientLoop)

/-- The client, a queued functor or a running function refers to the connection. -/
def Refers (i : ℕ) : Prop :=
  s.client.connection_ = some i ∨ s.closing = some i ∨ i ∈ s.pending ∨
    ∃ c, s.conns i = some c ∧ c.life.destroying ≠ none

/-- The connection that `connection_` holds, unless it is the one that is closing. -/
def standing : Option ℕ := if s.client.connection_ = s.closing then none else s.client.connection_

/-- `connect` leaves no attempt waiting while there is a connection that is not closing,
and no connection closes once more while there is another. -/
def Careful : ClientEvent → Prop
  | .connect attempts => s.standing = none ∨ Connector.Connects attempts = false
  | .connection i e => ∀ c ∈ s.conns i, c.life.Closes e → 0 < c.life.closings →
      s.client.connection_ = none
  | _ => True

instance : DecidablePred s.Careful
  | .connect attempts => inferInstanceAs
      (Decidable (s.standing = none ∨ Connector.Connects attempts = false))
  | .connection i e => inferInstanceAs (Decidable (∀ c ∈ s.conns i, c.life.Closes e →
      0 < c.life.closings → s.client.connection_ = none))
  | .disconnect | .stop | .enableRetry | .connector _ _ _ | .removeConnection _
  | .runFunctor => .isTrue trivial

structure ClientInv (s : ClientLoop) : Prop where
  fresh : ∀ i, s.client.nextConnId_ ≤ i → s.conns i = none
  idle : s.standing ≠ none → s.connector.conn.state ≠ .kConnecting
  current : ∀ i, s.client.connection_ = some i →
    ∃ c, s.conns i = some c ∧ (c.life.closings = 0 ∨ s.closing = some i)
  closing : ∀ i, s.closing = some i →
    (s.client.connection_ = none ∨ s.client.connection_ = some i) ∧
      ∃ c, s.conns i = some c ∧ 0 < c.life.closings
  opened : ∀ i c, s.conns i = some c → c.life.closings = 0 → s.client.connection_ = some i
  closed : ∀ i c, s.conns i = some c → 0 < c.life.closings →
    s.closing = some i ∨ i ∈ s.pending ∨ c.life.destroying ≠ none ∨ c.destroyed = true

variable {s} {s' : ClientLoop}

theorem standing_of_closing (h : s.closing = none) : s.standing = s.client.connection_ := by
  rw [standing, h]
  split_ifs with hnone
  · exact hnone.symm
  · rfl

theorem ClientInv.connector (h : ClientInv s) {connector : ConnectorLoop}
    (hidle : s.standing ≠ none → connector.conn.state ≠ .kConnecting) :
    ClientInv { s with connector := connector } :=
  ⟨h.fresh, hidle, h.current, h.closing, h.opened, h.closed⟩

theorem ClientInv.flags (h : ClientInv s) (retry connect : Bool) :
    ClientInv { s with client := { s.client with retry_ := retry, connect_ := connect } } :=
  ⟨h.fresh, h.idle, h.current, h.closing, h.opened, h.closed⟩

/-- What `connectionStep` puts in the place of the connection. -/
structure Stepped (c c' : ClientConnection) (e : LifeEvent) : Prop where
  life : c.life.step e = some c'.life
  destroyed : c.destroyed = true → c'.destroyed = true
  destroyTested : e = .destroyTested → c'.destroyed = true

theorem connectionStep_eq {i : ℕ} {e : LifeEvent} (h : s.connectionStep i e = some s') :
    ∃ c c', s.conns i = some c ∧ Stepped c c' e ∧ s' = { s with
      conns := Function.update s.conns i (some c')
      closing := if c.life.closings < c'.life.closings then some i else s.closing } := by
  obtain ⟨c, hc, h⟩ := Option.bind_eq_some_iff.mp h
  obtain ⟨life, hlife, h⟩ := Option.bind_eq_some_iff.mp h
  refine ⟨c, _, hc, ?_, (Option.some.inj h).symm⟩
  refine ⟨hlife, fun hd ↦ ?_, fun he ↦ ?_⟩
  · split
    · rfl
    · exact hd
  · subst he
    rfl

theorem ClientInv.fresh_update (h : ClientInv s) {i : ℕ} {c c' : ClientConnection}
    (hc : s.conns i = some c) (j : ℕ) (hj : s.client.nextConnId_ ≤ j) :
    Function.update s.conns i (some c') j = none := by
  have hne : j ≠ i := by
    rintro rfl
    simp [h.fresh j hj] at hc
  exact (Function.update_of_ne hne ..).trans (h.fresh j hj)

/-- A step of a connection that is not closed by it. -/
theorem ClientInv.stays (h : ClientInv s) {i : ℕ} {e : LifeEvent} {c c' : ClientConnection}
    (hc : s.conns i = some c) (hstep : Stepped c c' e)
    (hsame : c'.life.closings = c.life.closings) :
    ClientInv { s with conns := Function.update s.conns i (some c') } where
  fresh := h.fresh_update hc
  idle := h.idle
  current j hj := by
    obtain ⟨d, hd, hopen⟩ := h.current j hj
    by_cases hne : j = i
    · subst hne
      cases hc.symm.trans hd
      exact ⟨c', Function.update_self .., by rwa [hsame]⟩
    · exact ⟨d, (Function.update_of_ne hne ..).trans hd, hopen⟩
  closing j hj := by
    obtain ⟨hnull, d, hd, hclosed⟩ := h.closing j hj
    refine ⟨hnull, ?_⟩
    by_cases hne : j = i
    · subst hne
      cases hc.symm.trans hd
      exact ⟨c', Function.update_self .., by rwa [hsame]⟩
    · exact ⟨d, (Function.update_of_ne hne ..).trans hd, hclosed⟩
  opened j d hd hopen := by
    rcases update_eq_some hd with ⟨rfl, rfl⟩ | ⟨-, hd⟩
    · exact h.opened j c hc (hsame.symm.trans hopen)
    · exact h.opened j d hd hopen
  closed j d hd hclosed := by
    rcases update_eq_some hd with ⟨rfl, rfl⟩ | ⟨-, hd⟩
    · rw [hsame] at hclosed
      refine (h.closed j c hc hclosed).imp id (Or.imp id ?_)
      rintro (hdestroying | hdestroyed)
      · by_cases he : e = .destroyTested
        · exact .inr (hstep.destroyTested he)
        · exact .inl (Life.destroying_of_step hstep.life hdestroying he)
      · exact .inr (hstep.destroyed hdestroyed)
    · exact h.closed j d hd hclosed

/-- A step that closes a connection. -/
theorem ClientInv.closes (h : ClientInv s) {i : ℕ} {c c' : ClientConnection}
    (hc : s.conns i = some c) (hlt : c.life.closings < c'.life.closings)
    (hclosing : s.closing = none) (hnull : 0 < c.life.closings → s.client.connection_ = none) :
    ClientInv { s with conns := Function.update s.conns i (some c'), closing := some i } where
  fresh := h.fresh_update hc
  idle hstanding := h.idle fun hnone ↦ hstanding (by
    rw [standing_of_closing hclosing] at hnone
    simp [standing, hnone])
  current j hj := by
    obtain ⟨d, hd, hopen⟩ := h.current j hj
    by_cases hne : j = i
    · subst hne
      exact ⟨c', Function.update_self .., .inr rfl⟩
    · refine ⟨d, (Function.update_of_ne hne ..).trans hd, .inl (hopen.resolve_right ?_)⟩
      simp [hclosing]
  closing j hj := by
    cases Option.some.inj hj
    refine ⟨?_, c', Function.update_self .., by omega⟩
    by_cases hopen : c.life.closings = 0
    · exact .inr (h.opened i c hc hopen)
    · exact .inl (hnull (by omega))
  opened j d hd hopen := by
    rcases update_eq_some hd with ⟨rfl, rfl⟩ | ⟨-, hd⟩
    · omega
    · exact h.opened j d hd hopen
  closed j d hd hclosed := by
    rcases update_eq_some hd with ⟨rfl, rfl⟩ | ⟨-, hd⟩
    · exact .inl rfl
    · refine .inr ((h.closed j d hd hclosed).resolve_left ?_)
      simp [hclosing]

theorem ClientInv.connectionStep (h : ClientInv s) {i : ℕ} {e : LifeEvent}
    (hcloses : ∀ c, s.conns i = some c → c.life.Closes e →
      s.closing = none ∧ (0 < c.life.closings → s.client.connection_ = none))
    (hstep : s.connectionStep i e = some s') : ClientInv s' := by
  obtain ⟨c, c', hc, hstepped, rfl⟩ := connectionStep_eq hstep
  have hle := Life.closings_le_of_step hstepped.life
  by_cases hlt : c.life.closings < c'.life.closings
  · have hclose : c.life.Closes e := by
      by_contra hn
      have hsame := Life.closings_of_step hstepped.life hn
      omega
    obtain ⟨hclosing, hnull⟩ := hcloses c hc hclose
    simpa only [if_pos hlt] using h.closes hc hlt hclosing hnull
  · simpa only [if_neg hlt] using h.stays hc hstepped (by omega)

/-- The functor that has started goes on as `destroying`. -/
theorem ClientInv.pop (h : ClientInv s) {i : ℕ} {rest : List ℕ} (hpending : s.pending = i :: rest)
    (hdestroying : ∀ c, s.conns i = some c → c.life.destroying ≠ none) :
    ClientInv { s with pending := rest } where
  fresh := h.fresh
  idle := h.idle
  current := h.current
  closing := h.closing
  opened := h.opened
  closed j c hc hclosed := by
    rcases h.closed j c hc hclosed with hclosing | hin | hrest
    · exact .inl hclosing
    · rw [hpending] at hin
      rcases List.mem_cons.mp hin with rfl | hin
      · exact .inr (.inr (.inl (hdestroying c hc)))
      · exact .inr (.inl hin)
    · exact .inr (.inr hrest)

theorem ClientInv.newConnection (h : ClientInv s) (hnull : s.client.connection_ = none)
    (hclosing : s.closing = none) (hstate : s.connector.conn.state ≠ .kConnecting) (sockfd : ℕ)
    (peer : InetAddress) (mem : Mem) : ClientInv (s.newConnection sockfd peer mem) where
  fresh j hj := by
    have hlt : s.client.nextConnId_ < j := hj
    simp only [ClientLoop.newConnection]
    rw [Function.update_of_ne (by omega)]
    exact h.fresh j (Nat.le_of_lt hlt)
  idle _ := hstate
  current j hj := by
    cases Option.some.inj hj
    exact ⟨_, Function.update_self .., .inl rfl⟩
  closing j hj := by
    have hsome : s.closing = some j := hj
    simp [hclosing] at hsome
  opened j d hd hopen := by
    rcases update_eq_some hd with ⟨rfl, rfl⟩ | ⟨-, hd⟩
    · rfl
    · have hj := h.opened j d hd hopen
      simp [hnull] at hj
  closed j d hd hclosed := by
    rcases update_eq_some hd with ⟨rfl, rfl⟩ | ⟨-, hd⟩
    · exact absurd hclosed (Nat.lt_irrefl 0)
    · exact h.closed j d hd hclosed

theorem ClientInv.removed (h : ClientInv s) {i : ℕ} (hclosing : s.closing = some i) :
    ClientInv (s.removed i) where
  fresh := h.fresh
  idle hc := (hc rfl).elim
  current j hj := by cases hj
  closing j hj := by cases hj
  opened j c hc hopen := by
    obtain ⟨hnull, d, hd, hclosed⟩ := h.closing i hclosing
    have hj := h.opened j c hc hopen
    rcases hnull with hnull | hi
    · simp [hnull] at hj
    · cases hi.symm.trans hj
      cases hc.symm.trans hd
      omega
  closed j c hc hclosed := by
    rcases h.closed j c hc hclosed with hj | hin | hrest
    · cases hclosing.symm.trans hj
      exact .inr (.inl (by simp [ClientLoop.removed]))
    · exact .inr (.inl (List.mem_append_left _ hin))
    · exact .inr (.inr hrest)

/-- The loop takes `connectDestroyed` off the queue and runs it to its test. -/
theorem ClientInv.runFunctor (h : ClientInv s) {i : ℕ} {rest : List ℕ}
    (hpending : s.pending = i :: rest)
    (hstep : { s with pending := rest }.connectionStep i (.loop .connectDestroyed) = some s') :
    ClientInv s' := by
  obtain ⟨c, c', hc, hstepped, rfl⟩ := connectionStep_eq hstep
  have hsame : c'.life.closings = c.life.closings := Life.closings_of_step hstepped.life id
  rw [if_neg (by omega)]
  refine (h.stays hc hstepped hsame).pop hpending fun d hd ↦ ?_
  rcases update_eq_some hd with ⟨-, rfl⟩ | ⟨hne, -⟩
  · exact Life.destroying_of_connectDestroyed hstepped.life
  · exact (hne rfl).elim

theorem step_clientInv {e : ClientEvent} (h : ClientInv s) (hguard : s.Careful e)
    (hstep : s.step e = some s') : ClientInv s' := by
  cases steps_of_step hstep with
  | @connect attempts c hc =>
    refine (h.flags s.client.retry_ true).connector fun hne hstate ↦ h.idle hne ?_
    exact Connector.state_startInLoop (c := { s.connector.conn with connect_ := true })
      (hguard.resolve_left hne) hc hstate
  | disconnect hc =>
    exact (h.flags s.client.retry_ false).connectionStep (e := .loop .shutdown)
      (fun _ _ hcloses ↦ False.elim hcloses) hc
  | disconnectNull => exact h.flags s.client.retry_ false
  | stop => exact (h.flags s.client.retry_ false).connector h.idle
  | enableRetry => exact h.flags true s.client.connect_
  | @newConnection e peer mem connector sockfd hclosing he hc hpassed =>
    have hmoves := ConnectorLoop.step_moves he hc
    obtain ⟨hwakes, hstate⟩ := ConnectorLoop.passedSocket_of_moves hmoves hpassed
    have hnull : s.client.connection_ = none := by
      by_contra hne
      rw [← standing_of_closing hclosing] at hne
      exact h.idle hne (ConnectorLoop.state_of_wakes hwakes)
    have hnext : ClientInv { s with connector := connector } :=
      h.connector fun hne ↦ hmoves.idle (h.idle hne)
    exact hnext.newConnection hnull hclosing hstate sockfd peer mem
  | connector he hc =>
    exact h.connector fun hne ↦ (ConnectorLoop.step_moves he hc).idle (h.idle hne)
  | connection hclosing hc =>
    exact h.connectionStep (fun c hc' hcloses ↦
      ⟨hclosing (Life.ofLoop_of_closes hcloses), hguard c hc' hcloses⟩) hc
  | restart hclosing => exact (h.removed hclosing).connector fun hne ↦ (hne rfl).elim
  | removeConnection hclosing => exact h.removed hclosing
  | runFunctor hpending hc => exact h.runFunctor hpending hc

/-- `connection_` is cleared only when its own connection is removed, and never
replaced by another one. -/
theorem connection_of_step {e : ClientEvent} (h : ClientInv s) (hstep : s.step e = some s') {i : ℕ}
    (hi : s.client.connection_ = some i) : s'.client.connection_ = some i ∨
      (∃ attempts, e = .removeConnection attempts) ∧ s.closing = some i := by
  have howner {j : ℕ} (hclosing : s.closing = some j) : s.closing = some i := by
    have hj := (h.closing j hclosing).1
    rw [hi] at hj
    cases hj.resolve_left (by simp)
    exact hclosing
  cases steps_of_step hstep with
  | connect | disconnectNull | stop | enableRetry | connector => exact .inl hi
  | disconnect hc =>
    left
    rw [(connectionStep_frame hc).1]
    exact hi
  | newConnection hclosing he hc hpassed =>
    have hmoves := ConnectorLoop.step_moves he hc
    have hwakes := (ConnectorLoop.passedSocket_of_moves hmoves hpassed).1
    have hne : s.standing ≠ none := by simp [standing_of_closing hclosing, hi]
    exact (h.idle hne (ConnectorLoop.state_of_wakes hwakes)).elim
  | connection _ hc | runFunctor _ hc =>
    left
    rw [(connectionStep_frame hc).1, hi]
  | restart hclosing | removeConnection hclosing => exact .inr ⟨⟨_, rfl⟩, howner hclosing⟩

theorem ClientInv.refers (h : ClientInv s) {i : ℕ} {c : ClientConnection}
    (hc : s.conns i = some c) (hd : c.destroyed = false) : s.Refers i := by
  by_cases hopen : c.life.closings = 0
  · exact .inl (h.opened i c hc hopen)
  · rcases h.closed i c hc (by omega) with hclosing | hin | hdestroying | hdestroyed
    · exact .inr (.inl hclosing)
    · exact .inr (.inr (.inl hin))
    · exact .inr (.inr (.inr ⟨c, hc, hdestroying⟩))
    · simp [hd] at hdestroyed

/-- In every run of a client that is used carefully, each connection is referred to
until its `connectDestroyed` has run, and `connection_` changes only when the
connection that closes is the one that it holds. -/
theorem refers_of_careful {name : List Char} {callbacks : Callbacks} {retryDelayMs : ℤ}
    (es : List ClientEvent) (s : ClientLoop)
    (hrun : run step (start name callbacks retryDelayMs) es = some s)
    (hguard : Along step Careful (start name callbacks retryDelayMs) es) :
    (∀ i c, s.conns i = some c → c.destroyed = false → s.Refers i) ∧
      ∀ e s', s.step e = some s' → ∀ i, s.client.connection_ = some i →
        s'.client.connection_ = some i ∨
          (∃ attempts, e = .removeConnection attempts) ∧ s.closing = some i := by
  have hstart : ClientInv (start name callbacks retryDelayMs) :=
    ⟨fun _ _ ↦ rfl, fun hne ↦ (hne rfl).elim, fun _ h ↦ (by cases h), fun _ h ↦ (by cases h),
      fun _ _ h ↦ (by cases h), fun _ _ h ↦ (by cases h)⟩
  have hinv : ClientInv s :=
    run_invariant (fun _ _ _ h hg hs ↦ step_clientInv h hg hs) hstart hguard hrun
  exact ⟨fun i c hc hd ↦ hinv.refers hc hd, fun e s' hs i hi ↦ connection_of_step hinv hs hi⟩

def connected : List ClientEvent :=
  [waits] ++ succeeds ++ [.connector .doPendingFunctors peer .numbered,
    .connector (.runFunctor []) peer .numbered]

def connectAgain : ClientEvent := .connect [.socket 6 (some .EINPROGRESS)]

def succeedsAgain : List ClientEvent :=
  [.connector (.poll [(6, Channel.EPOLLOUT)]) peer .numbered,
    .connector (.handleEvent ⟨[], none, false, [], []⟩) peer .numbered]

def reconnects : List ClientEvent :=
  [.connection 1 (.loop (.poll Channel.EPOLLIN)), .connection 1 (.loop .handleEvent),
    .connection 1 (.loop (.callback (.read []) (.wrote 0))), connectAgain, .removeConnection [],
    .runFunctor, .connection 1 .destroyTested]

theorem refers_of_careful_reconnect :
    ∃ s, run step attempting (connected ++ reconnects ++ succeedsAgain) = some s ∧
      s.client.connection_ = some 2 ∧
      ∀ i c, s.conns i = some c → c.destroyed = false → s.Refers i := by
  have hrun : (run step attempting (connected ++ reconnects ++ succeedsAgain)).map
      (·.client.connection_) = some (some 2) := by decide +kernel
  obtain ⟨s, hs, hconnection⟩ := Option.map_eq_some_iff.mp hrun
  exact ⟨s, hs, hconnection, (refers_of_careful _ s hs (by decide +kernel)).1⟩

/-- A second `connect` succeeds while the first connection is established. -/
theorem not_refers :
    ¬ ∀ (es : List ClientEvent) (s : ClientLoop), run step attempting es = some s →
      ∀ i c, s.conns i = some c → c.destroyed = false → s.Refers i := by
  intro h
  have hrun : (run step attempting (connected ++ connectAgain :: succeedsAgain)).map (fun s ↦
      ((s.conns 1).map fun c ↦ (c.destroyed, c.life.destroying),
        s.client.connection_, s.closing, s.pending)) =
          some (some (false, none), some 2, none, []) := by decide +kernel
  obtain ⟨s, hs, heq⟩ := Option.map_eq_some_iff.mp hrun
  simp only [Prod.mk.injEq] at heq
  obtain ⟨hconns, hconnection, hclosing, hpending⟩ := heq
  obtain ⟨c, hc, hflags⟩ := Option.map_eq_some_iff.mp hconns
  simp only [Prod.mk.injEq] at hflags
  have hrefers := h _ s hs 1 c hc hflags.1
  simp [Refers, hconnection, hclosing, hpending, hc, hflags.2] at hrefers

end ClientLoop

end Mymuduo.Net
