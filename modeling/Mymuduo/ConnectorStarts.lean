import Mymuduo.TcpClient
import Mymuduo.ConnectorWait

namespace Mymuduo.Net

def ConnectorAction.isStart : ConnectorAction → Bool
  | createNonBlocking _ | newConnection _ => true
  | _ => false

namespace Connector

def starts (c : Connector) : ℕ := c.log.countP ConnectorAction.isStart

def Active (c : Connector) : Prop := c.state = .kConnecting ∧ c.connect_ = true

instance (c : Connector) : Decidable c.Active :=
  inferInstanceAs (Decidable (c.state = .kConnecting ∧ c.connect_ = true))

def PassesNone (log : List ConnectorAction) : Prop := ∀ fd, log.head? ≠ some (.newConnection fd)

/-- What a handler of the connector does: it starts something when an attempt is
active, and leaves none waiting otherwise. -/
structure Handler (c c' : Connector) : Prop where
  older : c.log <:+ c'.log
  starts : c.Active → c.starts < c'.starts
  quiet : ¬ c.Active → c'.starts = c.starts ∧ c'.state ≠ .kConnecting

variable {c c' c'' : Connector} {attempts rest : List Attempt}

theorem Handler.le (h : Handler c c') : c.starts ≤ c'.starts := by
  by_cases ha : c.Active
  · exact Nat.le_of_lt (h.starts ha)
  · exact Nat.le_of_eq (h.quiet ha).1.symm

theorem not_active (h : c.state ≠ .kConnecting) : ¬ c.Active := fun ha ↦ h ha.1

@[simp] theorem starts_createNonBlocking (c : Connector) (fd : Option ℕ) :
    (c.did (.createNonBlocking fd)).starts = c.starts + 1 := List.countP_cons_of_pos rfl

@[simp] theorem starts_newConnection (c : Connector) (fd : ℕ) :
    (c.did (.newConnection fd)).starts = c.starts + 1 := List.countP_cons_of_pos rfl

theorem starts_did {a : ConnectorAction} (ha : a.isStart = false) (c : Connector) :
    (c.did a).starts = c.starts := List.countP_cons_of_neg (by simp [ha])

/-- `connecting` does nothing but to destroy the channel that was there. -/
theorem countP_connecting {p : ConnectorAction → Bool}
    (hp : ∀ ptr registered running, p (.destroyChannel ptr registered running none) = false)
    (c : Connector) (sockfd : ℕ) : (c.connecting sockfd).log.countP p = c.log.countP p := by
  rcases c.connecting_log sockfd with hlog | ⟨ptr, registered, running, hlog⟩
  · rw [hlog]
  · rw [hlog]
    exact List.countP_cons_of_neg (by simp [hp])

theorem starts_connecting (c : Connector) (sockfd : ℕ) :
    (c.connecting sockfd).starts = c.starts := countP_connecting (fun _ _ _ ↦ rfl) c sockfd

theorem passesNone_cons {a : ConnectorAction} (ha : ∀ fd, a ≠ .newConnection fd)
    (log : List ConnectorAction) : PassesNone (a :: log) := fun fd h ↦ ha fd (by simpa using h)

/-- What `connect` does, which starts at least one attempt. -/
structure Starts (c c' : Connector) : Prop where
  older : c.log <:+ c'.log
  starts : c.starts < c'.starts
  passes : PassesNone c'.log

/-- What `retry` does, which starts attempts if `connect_` is set. -/
structure Retries (c c' : Connector) : Prop where
  older : c.log <:+ c'.log
  starts : c.connect_ = true → c.starts < c'.starts
  quiet : c.connect_ = false → c'.starts = c.starts ∧ c'.state = .kDisConnected
  passes : PassesNone c'.log

theorem starts_gaveUp (c : Connector) (sockfd : ℕ) : (c.gaveUp sockfd).starts = c.starts :=
  starts_did (a := .close sockfd) rfl c

theorem starts_slept (c : Connector) (sockfd : ℕ) : (c.slept sockfd).starts = c.starts :=
  (starts_did rfl _).trans (c.starts_gaveUp sockfd)

theorem slept_log (c : Connector) (sockfd : ℕ) : c.log <:+ (c.slept sockfd).log :=
  (List.suffix_cons _ _).trans (List.suffix_cons _ _)

theorem starts_tries (htries : Tries attempts c c') : Starts c c' := by
  have holder (c : Connector) (fd : Option ℕ) : c.log <:+ (c.did (.createNonBlocking fd)).log :=
    List.suffix_cons _ _
  induction htries with
  | @noSocket _ c => exact ⟨holder c none, by simp, passesNone_cons (by simp) _⟩
  | @connecting sockfd _ _ c =>
    have hstarts := starts_connecting (c.did (.createNonBlocking (some sockfd))) sockfd
    rcases (c.did (.createNonBlocking (some sockfd))).connecting_log sockfd with
      hlog | ⟨ptr, registered, running, hlog⟩
    · refine ⟨hlog ▸ holder c _, by simp [hstarts], hlog ▸ passesNone_cons (by simp) _⟩
    · refine ⟨hlog ▸ (holder c _).trans (List.suffix_cons _ _), by simp [hstarts],
        hlog ▸ passesNone_cons (by simp) _⟩
  | @close sockfd _ _ c =>
    refine ⟨(holder c _).trans (List.suffix_cons _ _), ?_, passesNone_cons (by simp) _⟩
    rw [starts_did rfl]
    simp
  | @giveUp sockfd _ _ c =>
    refine ⟨(holder c _).trans (List.suffix_cons _ _), ?_, passesNone_cons (by simp) _⟩
    rw [starts_gaveUp]
    simp
  | @again sockfd _ _ c c' _ _ _ ih =>
    refine ⟨(holder c _).trans ((slept_log _ sockfd).trans ih.older), ?_, ih.passes⟩
    have hlt := ih.starts
    rw [starts_slept, starts_createNonBlocking] at hlt
    exact Nat.lt_of_succ_lt hlt

/-- Attempts that do not get to `connecting` leave none waiting. -/
theorem state_tries (hconnects : Connects attempts = false) (htries : Tries attempts c c')
    (hc : c'.state = .kConnecting) : c.state = .kConnecting := by
  induction htries with
  | noSocket | close => exact hc
  | connecting ho => simp [Connects, ho] at hconnects
  | giveUp => cases hc
  | again ho _ _ ih =>
    simp only [Connects, ho] at hconnects
    cases ih hconnects hc

theorem state_startInLoop (hconnects : Connects attempts = false)
    (heq : (c.startInLoop attempts).map Prod.fst = some c') (hc : c'.state = .kConnecting) :
    c.state = .kConnecting := by
  obtain ⟨⟨c₁, rest⟩, hc₁, rfl⟩ := Option.map_eq_some_iff.mp heq
  rcases startInLoop_cases hc₁ with rfl | htries
  · exact hc
  · exact state_tries hconnects htries hc

theorem retries_retry {sockfd : ℕ} (heq : (c.retry sockfd attempts).map Prod.fst = some c') :
    Retries c c' := by
  obtain ⟨⟨c₁, rest⟩, hc₁, rfl⟩ := Option.map_eq_some_iff.mp heq
  rcases retry_cases hc₁ with ⟨hconnect, rfl⟩ | ⟨hconnect, c₂, htries, rfl⟩
  · refine ⟨List.suffix_cons _ _, fun hc ↦ ?_, fun _ ↦ ⟨c.starts_gaveUp sockfd, rfl⟩,
      passesNone_cons (by simp) _⟩
    simp [hconnect] at hc
  · obtain ⟨holder, hstarts, hpasses⟩ := starts_tries htries
    rw [starts_slept] at hstarts
    refine ⟨(slept_log c sockfd).trans holder, fun _ ↦ hstarts, fun hc ↦ ?_, hpasses⟩
    simp [hconnect] at hc

theorem removeAndResetChannel_log {sockfd : ℕ} (h : c.removeAndResetChannel = some (sockfd, c')) :
    c'.log = c.log ∧ c'.connect_ = c.connect_ := by
  obtain ⟨ch, -, heq⟩ := Option.bind_eq_some_iff.mp h
  simp only [Option.pure_def, Option.some.injEq, Prod.mk.injEq] at heq
  obtain ⟨-, rfl⟩ := heq
  exact ⟨rfl, rfl⟩

/-- `removeAndResetChannel` and then `retry`. -/
theorem handler_retry (hc : c.state = .kConnecting)
    (heq : (c.removeAndResetChannel.bind fun r ↦ (r.2.retry r.1 attempts).map Prod.fst) =
      some c') : Handler c c' ∧ PassesNone c'.log := by
  obtain ⟨⟨sockfd, c₁⟩, hremoved, heq⟩ := Option.bind_eq_some_iff.mp heq
  obtain ⟨hlog, hconnect⟩ := removeAndResetChannel_log hremoved
  have hstarts : c₁.starts = c.starts := by rw [starts, hlog, starts]
  obtain ⟨holder, hsome, hnone, hpasses⟩ := retries_retry heq
  rw [hlog] at holder
  rw [hstarts, hconnect] at hsome
  rw [hstarts, hconnect] at hnone
  refine ⟨⟨holder, fun ha ↦ hsome ha.2, fun ha ↦ ?_⟩, hpasses⟩
  obtain ⟨hsame, hstate⟩ := hnone (by simpa [Active, hc] using ha)
  exact ⟨hsame, by simp [hstate]⟩

theorem handler_refl (h : c.state ≠ .kConnecting) : Handler c c :=
  ⟨List.suffix_rfl, fun ha ↦ (h ha.1).elim, fun _ ↦ ⟨rfl, h⟩⟩

theorem handler_handleError (heq : c.handleError attempts = some c') :
    Handler c c' ∧ (c' = c ∨ PassesNone c'.log) := by
  rw [handleError] at heq
  split_ifs at heq with hc
  · obtain ⟨hhandler, hpasses⟩ := handler_retry hc heq
    exact ⟨hhandler, .inr hpasses⟩
  · cases Option.some.inj heq
    exact ⟨handler_refl hc, .inl rfl⟩

/-- `handleWrite` does not wait after it has passed a socket on. -/
theorem handler_handleWrite {err : Option Errno} {selfConnect : Bool}
    (heq : c.handleWrite err selfConnect attempts [] = some c') :
    Handler c c' ∧ (c'.state = .kConnecting → c' = c ∨ PassesNone c'.log) := by
  rw [handleWrite] at heq
  by_cases hc : c.state = .kConnecting
  · rw [if_pos hc] at heq
    obtain ⟨⟨sockfd, c₁⟩, hremoved, heq⟩ := Option.bind_eq_some_iff.mp heq
    obtain ⟨hlog, hconnect⟩ := removeAndResetChannel_log hremoved
    have hstarts : c₁.starts = c.starts := by rw [starts, hlog, starts]
    have hretry (hr : (c₁.retry sockfd attempts).map Prod.fst = some c') :
        Handler c c' ∧ (c'.state = .kConnecting → c' = c ∨ PassesNone c'.log) := by
      have hretry : (c.removeAndResetChannel.bind fun r ↦ (r.2.retry r.1 attempts).map Prod.fst) =
          some c' := by
        rw [hremoved]
        exact hr
      obtain ⟨hhandler, hpasses⟩ := handler_retry hc hretry
      exact ⟨hhandler, fun _ ↦ .inr hpasses⟩
    dsimp only at heq
    split_ifs at heq with _ _ hwanted
    · exact hretry heq
    · exact hretry heq
    · cases Option.some.inj heq
      have hactive : c.Active := ⟨hc, hconnect ▸ hwanted⟩
      refine ⟨⟨hlog ▸ List.suffix_cons _ _, fun _ ↦ ?_, fun ha ↦ (ha hactive).elim⟩, ?_⟩
      · rw [starts_newConnection]
        exact Nat.lt_succ_of_le (Nat.le_of_eq hstarts.symm)
      · simp [did, setStates]
    · cases Option.some.inj heq
      have hactive : ¬ c.Active := fun ha ↦ hwanted (hconnect ▸ ha.2)
      refine ⟨⟨hlog ▸ List.suffix_cons _ _, fun ha ↦ (hactive ha).elim, fun _ ↦ ?_⟩, ?_⟩
      · exact ⟨(starts_did rfl _).trans hstarts, by simp [did, setStates]⟩
      · simp [did, setStates]
  · rw [if_neg hc] at heq
    cases Option.some.inj heq
    exact ⟨handler_refl hc, fun _ ↦ .inl rfl⟩

theorem Handler.trans (h : Handler c c') (h' : Handler c' c'') : Handler c c'' where
  older := h.older.trans h'.older
  starts ha := Nat.lt_of_lt_of_le (h.starts ha) h'.le
  quiet ha := by
    obtain ⟨hstarts, hstate⟩ := h.quiet ha
    obtain ⟨hstarts', hstate'⟩ := h'.quiet (not_active hstate)
    exact ⟨hstarts'.trans hstarts, hstate'⟩

def Handled (revents : BitVec 32) : Prop :=
  revents &&& Channel.kReadEvent != 0 ∨ revents &&& Channel.kWriteEvent != 0

instance (revents : BitVec 32) : Decidable (Handled revents) :=
  inferInstanceAs (Decidable (_ ∨ _))

theorem handler_handleEvent {ptr : ℕ} {revents : BitVec 32} {r : EventAnswers}
    (hcalls : r.calls = []) (heq : c.handleEvent ptr revents r = some c') :
    (Handled revents → Handler c c') ∧
      (¬ Handled revents → c' = { c with running := none }) ∧
        (c'.state = .kConnecting → c'.log = c.log ∨ PassesNone c'.log) := by
  simp only [handleEvent, Option.bind_eq_some_iff, Option.map_eq_some_iff, hcalls] at heq
  obtain ⟨c₁, hc₁, c₂, hc₂, rfl⟩ := heq
  have hframe (h : Handler { c with running := some ptr } c₂) :
      Handler c { c₂ with running := none } := ⟨h.older, h.starts, h.quiet⟩
  split_ifs at hc₁ with hr <;> split_ifs at hc₂ with hw
  · obtain ⟨hread, hpassed⟩ := handler_handleError hc₁
    obtain ⟨hwrite, hpasses⟩ := handler_handleWrite hc₂
    refine ⟨fun _ ↦ hframe (hread.trans hwrite), fun h ↦ (h (.inl hr)).elim, fun hc ↦ ?_⟩
    rcases hpasses hc with rfl | hnone
    · rcases hpassed with rfl | hnone
      · exact .inl rfl
      · exact .inr hnone
    · exact .inr hnone
  · obtain ⟨hread, hpassed⟩ := handler_handleError hc₁
    cases Option.some.inj hc₂
    refine ⟨fun _ ↦ hframe hread, fun h ↦ (h (.inl hr)).elim, fun _ ↦ ?_⟩
    rcases hpassed with rfl | hnone
    · exact .inl rfl
    · exact .inr hnone
  · cases Option.some.inj hc₁
    obtain ⟨hwrite, hpasses⟩ := handler_handleWrite hc₂
    refine ⟨fun _ ↦ hframe hwrite, fun h ↦ (h (.inr hw)).elim, fun hc ↦ ?_⟩
    rcases hpasses hc with rfl | hnone
    · exact .inl rfl
    · exact .inr hnone
  · cases Option.some.inj hc₁
    cases Option.some.inj hc₂
    exact ⟨fun h ↦ (h.elim hr hw).elim, fun _ ↦ rfl, fun _ ↦ .inl rfl⟩

theorem resetChannel_frame (c : Connector) (q : ℕ) :
    (c.resetChannel q).state = c.state ∧ (c.resetChannel q).connect_ = c.connect_ := by
  simp only [resetChannel, destroyChannel]
  split <;> exact ⟨rfl, rfl⟩

theorem resetChannel_log (c : Connector) (q : ℕ) :
    (c.resetChannel q).starts = c.starts ∧ c.log <:+ (c.resetChannel q).log ∧
      ((c.resetChannel q).log = c.log ∨ PassesNone (c.resetChannel q).log) := by
  cases hchannel : c.channel with
  | none =>
    simp only [resetChannel, destroyChannel, hchannel]
    exact ⟨trivial, List.suffix_rfl, .inl trivial⟩
  | some ch =>
    simp only [resetChannel, destroyChannel, hchannel]
    exact ⟨starts_did rfl _, List.suffix_cons _ _, .inr (passesNone_cons (by simp) _)⟩

end Connector

def LoopPhase.revents : LoopPhase → Option (BitVec 32)
  | handling ((_, revents) :: _) => some revents
  | _ => none

namespace ConnectorLoop

open Connector

/-- The step runs a handler of the connector over an attempt that is active. -/
def Wakes (s : ConnectorLoop) : ConnectorEvent → Prop
  | .handleEvent _ => s.conn.Active ∧ ∃ revents ∈ s.phase.revents, Handled revents
  | .runFunctor _ => s.conn.Active ∧ s.conn.pending.head? = some .stopInLoop
  | _ => False

instance (s : ConnectorLoop) : DecidablePred s.Wakes
  | .handleEvent _ => inferInstanceAs
      (Decidable (s.conn.Active ∧ ∃ revents ∈ s.phase.revents, Handled revents))
  | .runFunctor _ =>
    inferInstanceAs (Decidable (s.conn.Active ∧ s.conn.pending.head? = some .stopInLoop))
  | .call _ | .poll _ | .doPendingFunctors => .isFalse id

/-- What a step that is no call does to the attempts of the connector. -/
structure Moves (s s' : ConnectorLoop) (e : ConnectorEvent) : Prop where
  older : s.conn.log <:+ s'.conn.log
  starts : s.Wakes e → s.conn.starts < s'.conn.starts
  quiet : ¬ s.Wakes e → s'.conn.starts = s.conn.starts
  idle : s.conn.state ≠ .kConnecting → s'.conn.state ≠ .kConnecting
  inactive : ¬ s.conn.Active → ¬ s'.conn.Active
  passes : s'.conn.state = .kConnecting → s'.conn.log = s.conn.log ∨ PassesNone s'.conn.log

variable {s s' : ConnectorLoop} {e : ConnectorEvent}

theorem moves_of_conn_eq (hconn : s'.conn = s.conn) (hwakes : ¬ s.Wakes e) : Moves s s' e := by
  constructor
  · exact hconn ▸ List.suffix_rfl
  · exact fun h ↦ (hwakes h).elim
  · rw [hconn]
    exact fun _ ↦ rfl
  · rw [hconn]
    exact id
  · rw [hconn]
    exact id
  · rw [hconn]
    exact fun _ ↦ .inl rfl

theorem step_moves (he : e.ofLoop) (hstep : s.step e = some s') : Moves s s' e := by
  cases steps_of_step hstep with
  | call => cases he
  | @handleEvent r _ revents _ _ hphase hc =>
    obtain ⟨hhandled, hother, hpasses⟩ := handler_handleEvent (List.isEmpty_iff.mp he) hc
    have hwakes : s.Wakes (.handleEvent r) ↔ s.conn.Active ∧ Handled revents := by
      simp [Wakes, LoopPhase.revents, hphase]
    by_cases hr : Handled revents
    · obtain ⟨holder, hstarts, hquiet⟩ := hhandled hr
      exact ⟨holder, fun h ↦ hstarts (hwakes.mp h).1,
        fun h ↦ (hquiet fun ha ↦ h (hwakes.mpr ⟨ha, hr⟩)).1,
        fun h ↦ (hquiet (not_active h)).2, fun h ↦ not_active (hquiet h).2, hpasses⟩
    · cases hother hr
      exact ⟨List.suffix_rfl, fun h ↦ (hr (hwakes.mp h).2).elim, fun _ ↦ rfl, id, id, hpasses⟩
  | @runFunctor attempts _ f fs c hpending hc =>
    cases f with
    | resetChannel q =>
      cases Option.some.inj hc
      obtain ⟨hstarts, holder, hpasses⟩ := resetChannel_log { s.conn with pending := fs } q
      obtain ⟨hstate, hconnect⟩ := resetChannel_frame { s.conn with pending := fs } q
      refine ⟨holder, fun h ↦ ?_, fun _ ↦ hstarts, fun h hc ↦ h (hstate.symm.trans hc),
        fun h ha ↦ h ⟨hstate.symm.trans ha.1, hconnect.symm.trans ha.2⟩, fun _ ↦ hpasses⟩
      simp [Wakes, hpending] at h
    | stopInLoop =>
      rw [callFunctor, stopInLoop_eq] at hc
      obtain ⟨⟨holder, hstarts, hquiet⟩, hpasses⟩ := handler_handleError hc
      refine ⟨holder, fun h ↦ hstarts h.1, fun h ↦ ?_, fun h ↦ ?_,
        fun h ↦ not_active (hquiet h).2, fun _ ↦ ?_⟩
      · exact (hquiet fun ha ↦ h ⟨ha, by simp [hpending]⟩).1
      · exact (hquiet (not_active (c := { s.conn with pending := fs }) h)).2
      · rcases hpasses with rfl | hnone
        · exact .inl rfl
        · exact .inr hnone
  | poll | doPendingFunctors => exact moves_of_conn_eq rfl id

theorem active_of_wakes (h : s.Wakes e) : s.conn.Active := by
  cases e with
  | handleEvent | runFunctor => exact h.1
  | call k | poll ready | doPendingFunctors => exact h.elim

theorem state_of_wakes (h : s.Wakes e) : s.conn.state = .kConnecting := (active_of_wakes h).1

/-- A socket is passed on by an attempt that was active, and is not waited for any more. -/
theorem passedSocket_of_moves (h : Moves s s' e) {sockfd : ℕ}
    (hpassed : passedSocket s.conn.log s'.conn.log = some sockfd) :
    s.Wakes e ∧ s'.conn.state ≠ .kConnecting := by
  simp only [passedSocket] at hpassed
  split at hpassed
  next fd l hlog =>
    split_ifs at hpassed with hlt
    constructor
    · by_contra hwakes
      have hsame := h.quiet hwakes
      have hin : s.conn.log <:+ l := by
        rcases List.suffix_cons_iff.mp (hlog ▸ h.older) with heq | hin
        · rw [hlog, heq] at hlt
          omega
        · exact hin
      have hle := hin.sublist.countP_le (p := ConnectorAction.isStart)
      rw [Connector.starts, hlog, List.countP_cons_of_pos rfl, Connector.starts] at hsame
      omega
    · intro hc
      rcases h.passes hc with heq | hnone
      · rw [heq] at hlt
        omega
      · exact hnone fd (by rw [hlog]; rfl)
  next => cases hpassed

end ConnectorLoop

end Mymuduo.Net
