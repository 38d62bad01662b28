import Mymuduo.ConnectorAttempts

namespace Mymuduo.Net

open Execution

def ConnectorAction.delay : ConnectorAction → Option ℕ
  | sleep ms => some ms
  | _ => none

namespace Connector

def delays (c : Connector) : List ℕ := c.log.filterMap ConnectorAction.delay

def InRange (retryDelayMs : ℤ) : Prop :=
  kInitRetryDelayMs ≤ retryDelayMs ∧ retryDelayMs ≤ kMaxRetryDelayMs

instance (retryDelayMs : ℤ) : Decidable (InRange retryDelayMs) :=
  inferInstanceAs (Decidable (_ ∧ _))

def backOff (k : ℕ) : ℤ := min (kInitRetryDelayMs * Nat.pow 2 (k - 1)) kMaxRetryDelayMs

def FirstRefused (answers : List Attempt) : Prop := ∃ a ∈ answers.head?, a.refused = true

instance (answers : List Attempt) : Decidable (FirstRefused answers) :=
  inferInstanceAs (Decidable (∃ a ∈ answers.head?, a.refused = true))

/-- Between the two states are `n` retries. -/
structure Slows (n : ℕ) (c c' : Connector) : Prop where
  delays : c'.delays = List.replicate n 50000 ++ c.delays
  inRange : InRange c.retryDelayMs → InRange c'.retryDelayMs

variable {c c' c'' : Connector} {answers : List Attempt} {m n : ℕ}

theorem backOff_lt (k : ℕ) : backOff k < 50000 :=
  Int.lt_of_le_of_lt (Int.min_le_right ..) (by decide)

theorem inRange_double {retryDelayMs : ℤ} (h : InRange retryDelayMs) :
    InRange (min (retryDelayMs * 2) kMaxRetryDelayMs) := by
  simp only [InRange, kInitRetryDelayMs, kMaxRetryDelayMs] at h ⊢
  omega

theorem Slows.refl (c : Connector) : Slows 0 c c := ⟨rfl, id⟩

theorem Slows.trans (h : Slows m c c') (h' : Slows n c' c'') : Slows (n + m) c c'' where
  delays := by rw [h'.delays, h.delays, ← List.append_assoc, List.replicate_append_replicate]
  inRange := h'.inRange ∘ h.inRange

theorem slows_slowedDown (c : Connector) : Slows 0 c c.slowedDown := ⟨rfl, inRange_double⟩

theorem slows_gaveUp (c : Connector) (sockfd : ℕ) : Slows 0 c (c.gaveUp sockfd) := ⟨rfl, id⟩

theorem slows_slept (c : Connector) (sockfd : ℕ) : Slows 1 c (c.slept sockfd) := ⟨rfl, id⟩

theorem slows_destroyChannel (c : Connector) (queuedBy : Option ℕ) :
    Slows 0 c (c.destroyChannel queuedBy) := by
  rw [destroyChannel]
  cases c.channel with
  | none => exact Slows.refl c
  | some ch => exact ⟨rfl, id⟩

theorem slows_connecting (c : Connector) (sockfd : ℕ) : Slows 0 c (c.connecting sockfd) := by
  obtain ⟨hdelays, hrange⟩ := slows_destroyChannel (c.setStates .kConnecting) none
  exact ⟨hdelays, hrange⟩

theorem slows_removeAndResetChannel {sockfd : ℕ}
    (h : c.removeAndResetChannel = some (sockfd, c')) : Slows 0 c c' := by
  obtain ⟨ch, -, heq⟩ := Option.bind_eq_some_iff.mp h
  simp only [Option.pure_def, Option.some.injEq, Prod.mk.injEq] at heq
  obtain ⟨-, rfl⟩ := heq
  exact ⟨rfl, id⟩

theorem slows_tries (h : Tries answers c c') :
    ∃ n, Slows n c c' ∧ (0 < n ↔ c.connect_ = true ∧ FirstRefused answers) := by
  induction h with
  | @noSocket _ c => exact ⟨0, ⟨rfl, id⟩, by simp [FirstRefused, Attempt.refused]⟩
  | @connecting sockfd _ _ c ho =>
    obtain ⟨hdelays, hrange⟩ := slows_connecting (c.did (.createNonBlocking (some sockfd))) sockfd
    exact ⟨0, ⟨hdelays, hrange⟩, by simp [FirstRefused, Attempt.refused, ho]⟩
  | close ho => exact ⟨0, ⟨rfl, id⟩, by simp [FirstRefused, Attempt.refused, ho]⟩
  | giveUp _ hconnect => exact ⟨0, ⟨rfl, id⟩, by simp [hconnect]⟩
  | @again sockfd _ _ c c' ho hconnect _ ih =>
    obtain ⟨n, htries, -⟩ := ih
    have hslept : Slows 1 c ((c.did (.createNonBlocking (some sockfd))).slept sockfd) := ⟨rfl, id⟩
    exact ⟨_, (hslept.trans htries).trans (slows_slowedDown c'),
      by simp [FirstRefused, Attempt.refused, ho, hconnect]⟩

theorem slows_startInLoop (h : (c.startInLoop answers).map Prod.fst = some c') :
    ∃ n, Slows n c c' ∧ (0 < n ↔ c.connect_ = true ∧ FirstRefused answers) := by
  obtain ⟨⟨c₁, rest⟩, hc₁, rfl⟩ := Option.map_eq_some_iff.mp h
  rw [startInLoop] at hc₁
  split_ifs at hc₁ with hconnect
  · exact slows_tries (tries_of_connect hc₁)
  · cases Option.some.inj hc₁
    exact ⟨0, Slows.refl c, by simp [hconnect]⟩

theorem slows_retry {sockfd : ℕ} (h : (c.retry sockfd answers).map Prod.fst = some c') :
    ∃ n, Slows n c c' ∧ (0 < n ↔ c.connect_ = true) := by
  obtain ⟨⟨c₁, rest⟩, hc₁, rfl⟩ := Option.map_eq_some_iff.mp h
  rcases retry_cases hc₁ with ⟨hconnect, rfl⟩ | ⟨hconnect, c₂, htries, rfl⟩
  · exact ⟨0, slows_gaveUp c sockfd, by simp [hconnect]⟩
  · obtain ⟨n, hslows, -⟩ := slows_tries htries
    exact ⟨_, ((slows_slept c sockfd).trans hslows).trans (slows_slowedDown c₂), by simp [hconnect]⟩

/-- `removeAndResetChannel` and then `retry`. -/
theorem slows_handler
    (h : (c.removeAndResetChannel.bind fun r ↦ (r.2.retry r.1 answers).map Prod.fst) = some c') :
    ∃ n, Slows n c c' ∧ (0 < n ↔ c.connect_ = true) := by
  obtain ⟨⟨sockfd, c₁⟩, hremoved, h⟩ := Option.bind_eq_some_iff.mp h
  obtain ⟨n, hslows, hn⟩ := slows_retry h
  rw [(removeAndResetChannel_log hremoved).2] at hn
  exact ⟨n, (slows_removeAndResetChannel hremoved).trans hslows, hn⟩

theorem slows_handleError (h : c.handleError answers = some c') :
    ∃ n, Slows n c c' ∧ (0 < n ↔ c.Active) := by
  rw [handleError] at h
  split_ifs at h with hstate
  · obtain ⟨n, hslows, hn⟩ := slows_handler h
    exact ⟨n, hslows, by simp [hn, Active, hstate]⟩
  · cases Option.some.inj h
    exact ⟨0, Slows.refl c, by simp [Active, hstate]⟩

theorem slows_handleWrite {err : Option Errno} {selfConnect : Bool}
    (h : c.handleWrite err selfConnect answers [] = some c') :
    ∃ n, Slows n c c' ∧ (0 < n ↔ c.Active ∧ (err.isSome = true ∨ selfConnect = true)) := by
  by_cases hstate : c.state = .kConnecting
  · by_cases hfails : err.isSome = true ∨ selfConnect = true
    · obtain ⟨n, hslows, hn⟩ := slows_handler ((handleWrite_of_fails hstate hfails).symm.trans h)
      exact ⟨n, hslows, by simp [hn, Active, hstate, hfails]⟩
    · simp only [handleWrite, if_pos hstate, Option.bind_eq_bind] at h
      obtain ⟨⟨sockfd, c₁⟩, hremoved, h⟩ := Option.bind_eq_some_iff.mp h
      have hslows := slows_removeAndResetChannel hremoved
      obtain ⟨herr, hself⟩ := not_or.mp hfails
      rw [if_neg herr, if_neg hself] at h
      refine ⟨0, ?_, by simp [hfails]⟩
      split_ifs at h
      · cases Option.some.inj h
        exact hslows.trans ⟨rfl, id⟩
      · cases Option.some.inj h
        exact hslows.trans ⟨rfl, id⟩
  · rw [handleWrite, if_neg hstate] at h
    cases Option.some.inj h
    exact ⟨0, Slows.refl c, by simp [Active, hstate]⟩

def Fails (revents : BitVec 32) (r : EventAnswers) : Prop :=
  revents &&& Channel.kReadEvent != 0 ∨
    revents &&& Channel.kWriteEvent != 0 ∧ (r.err.isSome = true ∨ r.selfConnect = true)

instance (revents : BitVec 32) (r : EventAnswers) : Decidable (Fails revents r) :=
  inferInstanceAs (Decidable (_ ∨ _ ∧ _))

theorem slows_handleEvent {ptr : ℕ} {revents : BitVec 32} {r : EventAnswers} (hcalls : r.calls = [])
    (h : c.handleEvent ptr revents r = some c') :
    ∃ n, Slows n c c' ∧ (0 < n ↔ c.Active ∧ Fails revents r) := by
  simp only [handleEvent, Option.bind_eq_some_iff, Option.map_eq_some_iff, hcalls] at h
  obtain ⟨c₁, hc₁, c₂, hc₂, rfl⟩ := h
  have hframe {n : ℕ} (h : Slows n { c with running := some ptr } c₂) :
      Slows n c { c₂ with running := none } := ⟨h.delays, h.inRange⟩
  by_cases hr : revents &&& Channel.kReadEvent != 0
  · rw [if_pos hr] at hc₁
    obtain ⟨m, hread, hm⟩ := slows_handleError hc₁
    have hm' : 0 < m ↔ c.Active := hm
    by_cases hw : revents &&& Channel.kWriteEvent != 0
    · rw [if_pos hw] at hc₂
      obtain ⟨n, hwrite, hn⟩ := slows_handleWrite hc₂
      refine ⟨n + m, hframe (hread.trans hwrite), ?_⟩
      -- once the read callback has given up there is nothing left for the other
      have hquiet : ¬ c.Active → ¬ c₁.Active :=
        fun ha ↦ not_active ((handler_handleError hc₁).1.quiet ha).2
      constructor
      · intro hpos
        refine ⟨?_, .inl hr⟩
        by_contra ha
        have hm0 : ¬ 0 < m := fun h ↦ ha (hm'.mp h)
        have hn0 : ¬ 0 < n := fun h ↦ hquiet ha (hn.mp h).1
        omega
      · exact fun ha ↦ Nat.add_pos_right n (hm'.mpr ha.1)
    · rw [if_neg hw] at hc₂
      cases Option.some.inj hc₂
      exact ⟨m, hframe hread, hm'.trans ⟨fun ha ↦ ⟨ha, .inl hr⟩, And.left⟩⟩
  · rw [if_neg hr] at hc₁
    cases Option.some.inj hc₁
    by_cases hw : revents &&& Channel.kWriteEvent != 0
    · rw [if_pos hw] at hc₂
      obtain ⟨n, hwrite, hn⟩ := slows_handleWrite hc₂
      refine ⟨n, hframe hwrite, hn.trans (and_congr_right fun _ ↦ ?_)⟩
      exact ⟨fun h ↦ .inr ⟨hw, h⟩, fun h ↦ (h.resolve_left hr).2⟩
    · rw [if_neg hw] at hc₂
      cases Option.some.inj hc₂
      exact ⟨0, hframe (Slows.refl _), iff_of_false (Nat.lt_irrefl 0) fun h ↦
        h.2.elim hr fun hwrite ↦ hw hwrite.1⟩

end Connector

/-- What the user calls in `newConnectionCallback_`, which `handleWrite` calls last,
comes as events of its own. -/
def ConnectorEvent.alone : ConnectorEvent → ConnectorEvent
  | handleEvent r => handleEvent { r with calls := [] }
  | e => e

namespace ConnectorLoop

open Connector

def Retries (s : ConnectorLoop) : ConnectorEvent → Prop
  | .call (.start answers) | .call (.restart answers) => FirstRefused answers
  | .handleEvent r => s.conn.Active ∧ ∃ revents ∈ s.phase.revents, Fails revents r
  | .runFunctor _ => s.conn.Active ∧ s.conn.pending.head? = some .stopInLoop
  | .call .stop | .poll _ | .doPendingFunctors => False

instance (s : ConnectorLoop) : DecidablePred s.Retries
  | .call (.start answers) | .call (.restart answers) =>
    inferInstanceAs (Decidable (FirstRefused answers))
  | .handleEvent r => inferInstanceAs
      (Decidable (s.conn.Active ∧ ∃ revents ∈ s.phase.revents, Fails revents r))
  | .runFunctor _ =>
    inferInstanceAs (Decidable (s.conn.Active ∧ s.conn.pending.head? = some .stopInLoop))
  | .call .stop | .poll _ | .doPendingFunctors => .isFalse id

variable {s s' : ConnectorLoop} {e : ConnectorEvent}

theorem step_slows (h : s.step e.alone = some s') :
    ∃ n, Slows n s.conn s'.conn ∧ (0 < n ↔ s.Retries e) := by
  cases e with
  | call k =>
    obtain ⟨c, hc, rfl⟩ := Option.map_eq_some_iff.mp h
    cases k with
    | start answers =>
      obtain ⟨n, hslows, hn⟩ := slows_startInLoop hc
      exact ⟨n, ⟨hslows.delays, hslows.inRange⟩, hn.trans (and_iff_right rfl)⟩
    | restart answers =>
      obtain ⟨n, hslows, hn⟩ := slows_startInLoop hc
      have hinit : InRange kInitRetryDelayMs := by decide
      exact ⟨n, ⟨hslows.delays, fun _ ↦ hslows.inRange hinit⟩, hn.trans (and_iff_right rfl)⟩
    | stop =>
      cases Option.some.inj hc
      exact ⟨0, ⟨rfl, id⟩, iff_of_false (Nat.lt_irrefl 0) id⟩
  | handleEvent r =>
    cases steps_of_step h with
    | @handleEvent _ _ revents _ _ hphase hc =>
      obtain ⟨n, hslows, hn⟩ := slows_handleEvent rfl hc
      exact ⟨n, hslows, hn.trans (by simp [Retries, LoopPhase.revents, hphase, Fails])⟩
  | runFunctor answers =>
    cases steps_of_step h with
    | @runFunctor _ _ f fs c hpending hc =>
      cases f with
      | resetChannel q =>
        cases Option.some.inj hc
        obtain ⟨hdelays, hrange⟩ := slows_destroyChannel { s.conn with pending := fs } (some q)
        exact ⟨0, ⟨hdelays, hrange⟩, by simp [Retries, hpending]⟩
      | stopInLoop =>
        rw [callFunctor, stopInLoop_eq] at hc
        obtain ⟨n, hslows, hn⟩ := slows_handleError hc
        refine ⟨n, ⟨hslows.delays, hslows.inRange⟩, hn.trans ?_⟩
        exact (and_iff_left (by simp [hpending])).symm
  | poll ready =>
    cases steps_of_step h with
    | poll => exact ⟨0, Slows.refl _, iff_of_false (Nat.lt_irrefl 0) id⟩
  | doPendingFunctors =>
    cases steps_of_step h with
    | doPendingFunctors => exact ⟨0, Slows.refl _, iff_of_false (Nat.lt_irrefl 0) id⟩

end ConnectorLoop

/-- A connector whose retries are numbered. `fresh` says that it has not been started;
`count` is how many retries there were since `start` found it so or since `restart`, and
`none` after another `start`; `retries` has their numbers and delays. -/
structure BackOff where
  loop : ConnectorLoop
  fresh : Bool
  count : Option ℕ
  retries : List (ℕ × ℕ)

namespace BackOff

open Connector

def start (retryDelayMs : ℤ) : BackOff := ⟨.start retryDelayMs, true, none, []⟩

variable (b : BackOff)

def countBefore : ConnectorEvent → Option ℕ
  | .call (.start _) => if b.fresh then some 0 else none
  | .call (.restart _) => some 0
  | _ => b.count

def staysFresh : ConnectorEvent → Bool
  | .call (.start _) | .call (.restart _) => false
  | _ => b.fresh

def numbered (count : Option ℕ) (delays : List ℕ) : List (ℕ × ℕ) :=
  match count with
  | some k => (delays.zipIdx (k + 1)).map Prod.swap
  | none => []

def step (e : ConnectorEvent) : Option BackOff :=
  (b.loop.step e.alone).map fun loop ↦
    let delays := loop.conn.delays.take (loop.conn.delays.length - b.loop.conn.delays.length)
    { loop := loop
      fresh := b.staysFresh e
      count := (b.countBefore e).map (· + delays.length)
      retries := b.retries ++ numbered (b.countBefore e) delays.reverse }

/-- The retries have come after the delays of the back-off, and doubling
`retryDelayMs_` does not overflow. -/
structure Exact : Prop where
  retries : ∀ r ∈ b.retries, r.2 = backOff r.1
  inRange : InRange b.loop.conn.retryDelayMs
  fits : b.loop.conn.retryDelayMs * 2 ≤ 2147483647

def Counts (e : ConnectorEvent) : Prop := b.loop.Retries e ∧ (b.countBefore e).isSome

instance : DecidablePred b.Counts := fun e ↦
  inferInstanceAs (Decidable (b.loop.Retries e ∧ (b.countBefore e).isSome))

variable {b} {b' : BackOff} {e : ConnectorEvent}

theorem mem_numbered {count : Option ℕ} {n : ℕ} {r : ℕ × ℕ}
    (h : r ∈ numbered count (List.replicate n 50000)) : r.2 = 50000 := by
  cases count with
  | none => cases h
  | some k =>
    obtain ⟨⟨d, i⟩, hmem, rfl⟩ := List.mem_map.mp h
    exact List.eq_of_mem_replicate (List.fst_mem_of_mem_zipIdx hmem)

theorem numbered_eq_nil {count : Option ℕ} {n : ℕ} :
    numbered count (List.replicate n 50000) = [] ↔ ¬ (0 < n ∧ count.isSome = true) := by
  cases count <;> cases n <;> simp [numbered, List.replicate_succ]

theorem step_retries (h : b.step e = some b') :
    ∃ n, (0 < n ↔ b.loop.Retries e) ∧
      b'.retries = b.retries ++ numbered (b.countBefore e) (List.replicate n 50000) ∧
        (InRange b.loop.conn.retryDelayMs → InRange b'.loop.conn.retryDelayMs) := by
  obtain ⟨loop, hloop, rfl⟩ := Option.map_eq_some_iff.mp h
  obtain ⟨n, ⟨hdelays, hrange⟩, hn⟩ := ConnectorLoop.step_slows hloop
  have htake : loop.conn.delays.take (loop.conn.delays.length - b.loop.conn.delays.length) =
      List.replicate n 50000 := by
    rw [hdelays]
    simp
  refine ⟨n, hn, ?_, hrange⟩
  simp only [htake, List.reverse_replicate]

/-- A retry with a number is never after the delay that it should have. -/
theorem step_exact (h : b.step e = some b') :
    (∀ r ∈ b'.retries, r.2 = backOff r.1) ↔
      (∀ r ∈ b.retries, r.2 = backOff r.1) ∧ ¬ b.Counts e := by
  obtain ⟨n, hn, hretries, -⟩ := step_retries h
  have hnil : numbered (b.countBefore e) (List.replicate n 50000) = [] ↔ ¬ b.Counts e := by
    rw [numbered_eq_nil, hn, Counts]
  rw [hretries, List.forall_mem_append, ← hnil]
  refine and_congr_right fun _ ↦ ⟨fun hexact ↦ List.eq_nil_iff_forall_not_mem.mpr fun r hr ↦ ?_, ?_⟩
  · have hdelay := hexact r hr
    rw [mem_numbered hr] at hdelay
    have hlt := backOff_lt r.1
    omega
  · intro hempty r hr
    rw [hempty] at hr
    cases hr

/-- In every state of a run the retries have come after the right delays and
`retryDelayMs_` is in its range if and only if it was in its range at first and none of the
steps comes to a retry with a number. -/
theorem exact_iff (retryDelayMs : ℤ) {es : List ConnectorEvent}
    (h : run step (start retryDelayMs) es = some b) :
    (∀ es' b', es' <+: es → run step (start retryDelayMs) es' = some b' → b'.Exact) ↔
      InRange retryDelayMs ∧ Along step (fun b e ↦ ¬ b.Counts e) (start retryDelayMs) es := by
  have hexact {es' : List ConnectorEvent} {b' : BackOff}
      (h : run step (start retryDelayMs) es' = some b') :
      (∀ r ∈ b'.retries, r.2 = backOff r.1) ↔
        Along step (fun b e ↦ ¬ b.Counts e) (start retryDelayMs) es' :=
    (run_iff_along (P := fun b ↦ ∀ r ∈ b.retries, r.2 = backOff r.1)
      (fun _ _ _ ↦ step_exact) h).trans (and_iff_right fun _ hr ↦ absurd hr List.not_mem_nil)
  constructor
  · intro hall
    exact ⟨(hall [] _ List.nil_prefix rfl).inRange,
      (hexact h).mp (hall es b List.prefix_rfl h).retries⟩
  · rintro ⟨hrange, halong⟩ es' b' ⟨rest, rfl⟩ hrun
    have hrange' : InRange b'.loop.conn.retryDelayMs := by
      refine run_preserves (I := fun b ↦ InRange b.loop.conn.retryDelayMs) ?_ hrange hrun
      intro b e b' hb hstep
      obtain ⟨n, -, -, hkeeps⟩ := step_retries hstep
      exact hkeeps hb
    refine ⟨(hexact hrun).mpr (halong.of_append hrun).1, hrange', ?_⟩
    have hle := hrange'.2
    simp only [kMaxRetryDelayMs] at hle
    omega

def startInProgress : List ConnectorEvent := [.call (.start [.socket 3 (some .EINPROGRESS)])]

theorem exact_iff_inProgress :
    ∃ b, run step (start 500) startInProgress = some b ∧
      ∀ es' b', es' <+: startInProgress → run step (start 500) es' = some b' → b'.Exact := by
  have hsome : (run step (start 500) startInProgress).isSome = true := by decide +kernel
  obtain ⟨b, hb⟩ := Option.isSome_iff_exists.mp hsome
  exact ⟨b, hb, (exact_iff 500 hb).mpr (by decide +kernel)⟩

def startRefused : List ConnectorEvent :=
  [.call (.start [.socket 3 (some .ECONNREFUSED), .socket 4 (some .EINPROGRESS)])]

/-- The first retry comes after 50 seconds. -/
theorem not_exact :
    ¬ ∀ (retryDelayMs : ℤ) (es : List ConnectorEvent) (b : BackOff),
      run step (start retryDelayMs) es = some b → b.Exact := by
  intro h
  have hretries : (run step (start 500) startRefused).map retries = some [(1, 50000)] := by
    decide +kernel
  obtain ⟨b, hb, hlist⟩ := Option.map_eq_some_iff.mp hretries
  have hdelay := (h 500 startRefused b hb).retries (1, 50000) (by simp [hlist])
  exact absurd hdelay (by decide)

end BackOff

end Mymuduo.Net
