import Mymuduo.ConnectorStarts

namespace Mymuduo.Net

namespace Attempt

def refused : Attempt → Bool
  | socket _ saveErrno => outcome saveErrno = .retry
  | noSocket => false

/-- The kernel hands out no descriptor that is open. -/
def Fresh (fds : List ℕ) : Attempt → Prop
  | socket sockfd _ => sockfd ∉ fds
  | noSocket => True

instance (fds : List ℕ) : DecidablePred (Fresh fds)
  | socket sockfd _ => inferInstanceAs (Decidable (sockfd ∉ fds))
  | noSocket => .isTrue trivial

end Attempt

def ConnectorAction.isAttempt : ConnectorAction → Bool
  | createNonBlocking _ => true
  | _ => false

namespace Connector

def attempts (c : Connector) : ℕ := c.log.countP ConnectorAction.isAttempt

variable {c c' : Connector} {a : Attempt} {answers rest : List Attempt}

theorem attempts_createNonBlocking (c : Connector) (fd : Option ℕ) :
    (c.did (.createNonBlocking fd)).attempts = c.attempts + 1 := List.countP_cons_of_pos rfl

theorem attempts_did {action : ConnectorAction} (h : action.isAttempt = false) (c : Connector) :
    (c.did action).attempts = c.attempts := List.countP_cons_of_neg (by simp [h])

theorem attempts_gaveUp (c : Connector) (sockfd : ℕ) :
    (c.gaveUp sockfd).attempts = c.attempts :=
  attempts_did (show (ConnectorAction.close sockfd).isAttempt = false from rfl) c

theorem attempts_slept (c : Connector) (sockfd : ℕ) : (c.slept sockfd).attempts = c.attempts :=
  (attempts_did rfl _).trans (c.attempts_gaveUp sockfd)

theorem attempts_connecting (c : Connector) (sockfd : ℕ) :
    (c.connecting sockfd).attempts = c.attempts := countP_connecting (fun _ _ _ ↦ rfl) c sockfd

theorem attempts_of_log_eq (h : c'.log = c.log) : c'.attempts = c.attempts := by
  rw [attempts, h, attempts]

theorem attempts_tries (h : Tries answers c c') : c.attempts < c'.attempts := by
  induction h with
  | @noSocket _ c => rw [attempts_createNonBlocking]; omega
  | @connecting sockfd _ _ c => rw [attempts_connecting, attempts_createNonBlocking]; omega
  | @close sockfd _ _ c => rw [attempts_did rfl, attempts_createNonBlocking]; omega
  | @giveUp sockfd _ _ c => rw [attempts_gaveUp, attempts_createNonBlocking]; omega
  | @again sockfd _ _ c c' _ _ _ ih =>
    rw [attempts_slept, attempts_createNonBlocking] at ih
    exact Nat.lt_of_succ_lt ih

/-- An attempt that is refused is followed by another one. -/
theorem attempts_tries_refused (h : Tries (a :: answers) c c') (ha : a.refused = true)
    (hconnect : c.connect_ = true) : c.attempts + 1 < c'.attempts := by
  cases h with
  | noSocket => cases ha
  | connecting ho | close ho => simp [Attempt.refused, ho] at ha
  | giveUp _ hgiveUp => simp [hconnect] at hgiveUp
  | again _ _ htries =>
    have hmore := attempts_tries htries
    rwa [attempts_slept, attempts_createNonBlocking] at hmore

theorem exists_not_refused (h : Tries answers c c') (hconnect : c.connect_ = true) :
    ∃ a ∈ answers, a.refused = false := by
  induction h with
  | noSocket => exact ⟨_, List.mem_cons_self, rfl⟩
  | connecting ho | close ho => exact ⟨_, List.mem_cons_self, by simp [Attempt.refused, ho]⟩
  | giveUp _ hgiveUp => simp [hconnect] at hgiveUp
  | again _ _ _ ih =>
    obtain ⟨a, hmem, ha⟩ := ih hconnect
    exact ⟨a, List.mem_cons_of_mem _ hmem, ha⟩

/-- As long as every attempt is refused the call does not return. -/
theorem connect_refused (hrefused : ∀ a ∈ answers, a.refused = true)
    (hconnect : c.connect_ = true) : connect answers c = none := by
  cases hc : connect answers c with
  | none => rfl
  | some r =>
    obtain ⟨c', rest⟩ := r
    obtain ⟨a, hmem, ha⟩ := exists_not_refused (tries_of_connect hc) hconnect
    rw [hrefused a hmem] at ha
    cases ha

/-- One answer is enough for an attempt that is not refused. -/
theorem connect_one (hfresh : a.Fresh (openSockets c.log)) (ha : a.refused = false) :
    ∃ c', connect [a] c = some (c', []) ∧ c'.attempts = c.attempts + 1 := by
  cases a with
  | noSocket => exact ⟨_, rfl, attempts_createNonBlocking c none⟩
  | socket sockfd saveErrno =>
    simp only [connect, if_neg (show ¬ sockfd ∈ openSockets c.log from hfresh)]
    cases ho : Attempt.outcome saveErrno with
    | connecting =>
      exact ⟨_, rfl, (attempts_connecting _ sockfd).trans (attempts_createNonBlocking c _)⟩
    | retry => simp [Attempt.refused, ho] at ha
    | close => exact ⟨_, rfl, (attempts_did rfl _).trans (attempts_createNonBlocking c _)⟩

theorem exists_removeAndResetChannel {ch : Channel} (h : c.channel = some ch) :
    ∃ c₁, c.removeAndResetChannel = some (ch.fd, c₁) := by
  have hfd : (((ch.disableAll c.poller).2).remove (ch.disableAll c.poller).1).2.fd = ch.fd :=
    EpollPoller.updateChannel_fd ..
  simp only [removeAndResetChannel, h, Option.bind_eq_bind, Option.bind_some, Option.pure_def, hfd]
  exact ⟨_, rfl⟩

theorem handleWrite_of_fails {err : Option Errno} {selfConnect : Bool} {calls : List ConnectorCall}
    (hstate : c.state = .kConnecting) (hfails : err.isSome = true ∨ selfConnect = true) :
    c.handleWrite err selfConnect answers calls =
      c.removeAndResetChannel.bind fun r ↦ (r.2.retry r.1 answers).map Prod.fst := by
  simp only [handleWrite, if_pos hstate, Option.bind_eq_bind]
  congr 1
  funext r
  split_ifs with herr hself
  · rfl
  · rfl
  all_goals exact (hfails.elim herr hself).elim

end Connector

/-- The functions of the connector that the loop calls. -/
inductive ConnectorFunction
  | startInLoop
  | handleWrite (err : Option Errno) (selfConnect : Bool)
  | handleError
deriving DecidableEq, Repr

namespace ConnectorFunction

open Connector

/-- A call of the function, given the answers of `connect`. What
`newConnectionCallback_` calls is counted with those calls. -/
def call (f : ConnectorFunction) (c : Connector) (answers : List Attempt) : Option Connector :=
  match f with
  | startInLoop => (c.startInLoop answers).map Prod.fst
  | handleWrite err selfConnect => c.handleWrite err selfConnect answers []
  | handleError => c.handleError answers

def Tries (f : ConnectorFunction) (c : Connector) : Prop :=
  c.connect_ = true ∧
    match f with
    | startInLoop => True
    | handleWrite err selfConnect => c.state = .kConnecting ∧ (err.isSome ∨ selfConnect)
    | handleError => c.state = .kConnecting

instance (c : Connector) : DecidablePred (Tries · c)
  | startInLoop => inferInstanceAs (Decidable (_ ∧ True))
  | handleWrite err selfConnect => inferInstanceAs
      (Decidable (c.connect_ = true ∧ c.state = .kConnecting ∧ (err.isSome ∨ selfConnect)))
  | handleError => inferInstanceAs (Decidable (c.connect_ = true ∧ c.state = .kConnecting))

/-- The handlers are called by the channel, so it is there; its socket is closed before
the first attempt. -/
def Ready (f : ConnectorFunction) (c : Connector) (a : Attempt) : Prop :=
  match f with
  | startInLoop => a.Fresh (openSockets c.log)
  | handleWrite _ _ | handleError => c.state = .kConnecting →
    ∃ ch, c.channel = some ch ∧ a.Fresh ((openSockets c.log).erase ch.fd)

/-- The call returns after so many answers, with one attempt at most. -/
def Prompt (f : ConnectorFunction) (c : Connector) (answers : ℕ → Attempt) : Prop :=
  ∃ n c', f.call c ((List.range n).map answers) = some c' ∧ c'.attempts ≤ c.attempts + 1

variable {f : ConnectorFunction} {c c' : Connector} {a : Attempt} {answers : List Attempt}

/-- What `removeAndResetChannel` and `retry` do in the handlers. -/
theorem tries_of_retry (hconnect : c.connect_ = true)
    (h : (c.removeAndResetChannel.bind fun r ↦ (r.2.retry r.1 answers).map Prod.fst) = some c') :
    ∃ c₁ c₂, Connector.Tries answers c₁ c₂ ∧ c₁.connect_ = true ∧ c₁.attempts = c.attempts ∧
      c'.attempts = c₂.attempts := by
  obtain ⟨⟨sockfd, c₀⟩, hremoved, h⟩ := Option.bind_eq_some_iff.mp h
  obtain ⟨⟨c₃, rest⟩, hc₃, rfl⟩ := Option.map_eq_some_iff.mp h
  obtain ⟨hlog, hsame⟩ := removeAndResetChannel_log hremoved
  rcases retry_cases hc₃ with ⟨hgiveUp, -⟩ | ⟨hconnect', c₂, htries, rfl⟩
  · rw [hsame, hconnect] at hgiveUp
    cases hgiveUp
  · have hsame := (attempts_slept c₀ sockfd).trans (attempts_of_log_eq hlog)
    exact ⟨_, c₂, htries, hconnect', hsame, rfl⟩

theorem tries_of_call (h : f.call c answers = some c') (htries : f.Tries c) :
    ∃ c₁ c₂, Connector.Tries answers c₁ c₂ ∧ c₁.connect_ = true ∧ c₁.attempts = c.attempts ∧
      c'.attempts = c₂.attempts := by
  obtain ⟨hconnect, hf⟩ := htries
  cases f with
  | startInLoop =>
    obtain ⟨⟨c₂, rest⟩, hc₂, rfl⟩ := Option.map_eq_some_iff.mp h
    rw [Connector.startInLoop, if_pos hconnect] at hc₂
    exact ⟨c, c₂, tries_of_connect hc₂, hconnect, rfl, rfl⟩
  | handleWrite err selfConnect =>
    exact tries_of_retry hconnect ((handleWrite_of_fails hf.1 hf.2).symm.trans h)
  | handleError => exact tries_of_retry hconnect ((if_pos hf).symm.trans h)

theorem retry_of_not_connect {sockfd : ℕ} (hconnect : c.connect_ = false) :
    (c.retry sockfd answers).map Prod.fst = some (c.gaveUp sockfd) := by
  have hgiveUp : c.retry sockfd answers = some (c.gaveUp sockfd, answers) :=
    if_neg (show ¬ c.connect_ = true by simp [hconnect])
  rw [hgiveUp]
  rfl

theorem retry_of_connect {sockfd : ℕ} (hconnect : c.connect_ = true)
    {r : Connector × List Attempt} (hr : connect answers (c.slept sockfd) = some r) :
    (c.retry sockfd answers).map Prod.fst = some r.1.slowedDown := by
  have hslept : (c.slept sockfd).startInLoop answers = some r := (if_pos hconnect).trans hr
  have hretry : c.retry sockfd answers =
      ((c.slept sockfd).startInLoop answers).bind fun r ↦ some (r.1.slowedDown, r.2) :=
    if_pos hconnect
  rw [hretry, hslept]
  rfl

/-- A call that comes to no attempt returns. -/
theorem call_of_not_tries (hready : f.Ready c a) (htries : ¬ f.Tries c) :
    ∃ c', f.call c [] = some c' ∧ c'.attempts = c.attempts := by
  have hretry (hstate : c.state = .kConnecting) (hconnect : c.connect_ = false)
      (hchannel : ∃ ch, c.channel = some ch ∧ a.Fresh ((openSockets c.log).erase ch.fd)) :
      ∃ c', (c.removeAndResetChannel.bind fun r ↦ (r.2.retry r.1 []).map Prod.fst) = some c' ∧
        c'.attempts = c.attempts := by
    obtain ⟨ch, hch, -⟩ := hchannel
    obtain ⟨c₁, hremoved⟩ := exists_removeAndResetChannel hch
    obtain ⟨hlog, hsame⟩ := removeAndResetChannel_log hremoved
    refine ⟨c₁.gaveUp ch.fd, ?_, (attempts_gaveUp c₁ ch.fd).trans (attempts_of_log_eq hlog)⟩
    rw [hremoved]
    exact retry_of_not_connect (hsame.trans hconnect)
  cases f with
  | startInLoop =>
    have hconnect : ¬ c.connect_ = true := fun hc ↦ htries ⟨hc, trivial⟩
    exact ⟨c, by rw [call, Connector.startInLoop, if_neg hconnect]; rfl, rfl⟩
  | handleError =>
    by_cases hstate : c.state = .kConnecting
    · have hconnect : c.connect_ = false := by
        rw [← Bool.not_eq_true]
        exact fun hc ↦ htries ⟨hc, hstate⟩
      obtain ⟨c', hc', hcount⟩ := hretry hstate hconnect (hready hstate)
      exact ⟨c', (if_pos hstate).trans hc', hcount⟩
    · exact ⟨c, if_neg hstate, rfl⟩
  | handleWrite err selfConnect =>
    by_cases hstate : c.state = .kConnecting
    · by_cases hfails : err.isSome = true ∨ selfConnect = true
      · have hconnect : c.connect_ = false := by
          rw [← Bool.not_eq_true]
          exact fun hc ↦ htries ⟨hc, hstate, hfails⟩
        obtain ⟨c', hc', hcount⟩ := hretry hstate hconnect (hready hstate)
        exact ⟨c', (handleWrite_of_fails hstate hfails).trans hc', hcount⟩
      · obtain ⟨ch, hch, -⟩ := hready hstate
        obtain ⟨c₁, hremoved⟩ := exists_removeAndResetChannel hch
        obtain ⟨hlog, -⟩ := removeAndResetChannel_log hremoved
        rw [not_or] at hfails
        simp only [call, Connector.handleWrite, if_pos hstate, hremoved, Option.bind_eq_bind,
          Option.bind_some, if_neg hfails.1, if_neg hfails.2]
        split_ifs
        · exact ⟨_, rfl, (attempts_did rfl _).trans (attempts_of_log_eq hlog)⟩
        · exact ⟨_, rfl, (attempts_did rfl _).trans (attempts_of_log_eq hlog)⟩
    · exact ⟨c, if_neg hstate, rfl⟩

/-- A call whose attempt is not refused returns after it. -/
theorem call_of_tries (hready : f.Ready c a) (htries : f.Tries c) (ha : a.refused = false) :
    ∃ c', f.call c [a] = some c' ∧ c'.attempts = c.attempts + 1 := by
  obtain ⟨hconnect, hf⟩ := htries
  have hretry (hchannel : ∃ ch, c.channel = some ch ∧ a.Fresh ((openSockets c.log).erase ch.fd)) :
      ∃ c', (c.removeAndResetChannel.bind fun r ↦ (r.2.retry r.1 [a]).map Prod.fst) = some c' ∧
        c'.attempts = c.attempts + 1 := by
    obtain ⟨ch, hch, hfresh⟩ := hchannel
    obtain ⟨c₁, hremoved⟩ := exists_removeAndResetChannel hch
    obtain ⟨hlog, hsame⟩ := removeAndResetChannel_log hremoved
    have hfresh' : a.Fresh (openSockets (c₁.slept ch.fd).log) := by
      have hopen : openSockets (c₁.slept ch.fd).log = (openSockets c.log).erase ch.fd := by
        rw [← hlog]
        rfl
      rw [hopen]
      exact hfresh
    obtain ⟨c₂, hc₂, hcount⟩ := connect_one hfresh' ha
    rw [attempts_slept, attempts_of_log_eq hlog] at hcount
    refine ⟨c₂.slowedDown, ?_, hcount⟩
    rw [hremoved]
    exact retry_of_connect (hsame.trans hconnect) hc₂
  cases f with
  | startInLoop =>
    obtain ⟨c₂, hc₂, hcount⟩ := connect_one hready ha
    refine ⟨c₂, ?_, hcount⟩
    rw [call, Connector.startInLoop, if_pos hconnect, hc₂]
    rfl
  | handleError =>
    obtain ⟨c', hc', hcount⟩ := hretry (hready hf)
    exact ⟨c', (if_pos hf).trans hc', hcount⟩
  | handleWrite err selfConnect =>
    obtain ⟨c', hc', hcount⟩ := hretry (hready hf.1)
    exact ⟨c', (handleWrite_of_fails hf.1 hf.2).trans hc', hcount⟩

/-- Whatever the kernel answers, a call of `startInLoop`, `handleWrite` or `handleError`
returns after one attempt at most if and only if it does not come to an attempt that is
refused. -/
theorem prompt_iff (f : ConnectorFunction) (c : Connector) (answers : ℕ → Attempt)
    (hready : f.Ready c (answers 0)) :
    f.Prompt c answers ↔ ¬ (f.Tries c ∧ (answers 0).refused = true) := by
  constructor
  · rintro ⟨n, c', hcall, hle⟩ ⟨htries, hrefused⟩
    obtain ⟨c₁, c₂, hattempts, hconnect, hcount₁, hcount₂⟩ := tries_of_call hcall htries
    cases n with
    | zero => cases hattempts
    | succ n =>
      rw [List.range_succ_eq_map, List.map_cons] at hattempts
      have hmore := attempts_tries_refused hattempts hrefused hconnect
      omega
  · intro h
    by_cases htries : f.Tries c
    · have ha : (answers 0).refused = false := by
        rw [← Bool.not_eq_true]
        exact fun hrefused ↦ h ⟨htries, hrefused⟩
      obtain ⟨c', hc', hcount⟩ := call_of_tries hready htries ha
      exact ⟨1, c', hc', Nat.le_of_eq hcount⟩
    · obtain ⟨c', hc', hcount⟩ := call_of_not_tries hready htries
      exact ⟨0, c', hc', by omega⟩

def started : Connector := { Connector.new 0 with connect_ := true }

def attempting : Connector := (started.did (.createNonBlocking (some 3))).connecting 3

/-- The attempt fails and the next one waits; what `connect` would answer later is not
asked for. -/
theorem prompt_iff_refusedOnce :
    (handleWrite (some .ECONNREFUSED) false).Prompt attempting fun n ↦
      if n = 0 then .socket 3 (some .EINPROGRESS) else .socket 3 (some .ECONNREFUSED) :=
  (prompt_iff (handleWrite (some .ECONNREFUSED) false) attempting
    (fun n ↦ if n = 0 then .socket 3 (some .EINPROGRESS) else .socket 3 (some .ECONNREFUSED))
    fun _ ↦ ⟨_, rfl, List.not_mem_nil (a := 3)⟩).mpr (by decide)

/-- A server that is down: each attempt starts the next, and `startInLoop` never
returns. -/
theorem not_prompt :
    ¬ ∀ answers : ℕ → Attempt, startInLoop.Ready started (answers 0) →
      startInLoop.Prompt started answers := by
  intro h
  have hready : startInLoop.Ready started (.socket 3 (some .ECONNREFUSED)) :=
    List.not_mem_nil (a := 3)
  obtain ⟨n, c', hc', -⟩ := h (fun _ ↦ .socket 3 (some .ECONNREFUSED)) hready
  have hnever : connect ((List.range n).map fun _ ↦ Attempt.socket 3 (some .ECONNREFUSED)) started =
      none := by
    refine connect_refused ?_ rfl
    intro a ha
    obtain ⟨-, -, rfl⟩ := List.mem_map.mp ha
    decide
  rw [call, Connector.startInLoop, if_pos (show started.connect_ = true from rfl), hnever] at hc'
  cases hc'

end ConnectorFunction

end Mymuduo.Net
