import Mymuduo.ConnectorStarts
import Mymuduo.Lib.Execution

namespace Mymuduo.Net

open Execution

def ClientEvent.isConnect : ClientEvent → Bool
  | connect _ => true
  | _ => false

namespace ClientLoop

variable (s : ClientLoop)

def starts : ℕ := s.connector.conn.starts

/-- No handler of the connector runs over an attempt that is active. -/
def KeepsOff : ClientEvent → Prop
  | .connector e _ _ => ¬ s.connector.Wakes e
  | _ => True

instance (s : ClientLoop) : DecidablePred s.KeepsOff
  | .connector e _ _ => inferInstanceAs (Decidable (¬ s.connector.Wakes e))
  | .connect _ | .disconnect | .stop | .enableRetry | .connection _ _ | .removeConnection _
  | .runFunctor => .isTrue trivial

variable {s} {s' : ClientLoop}

theorem connectionStep_frame {i : ℕ} {e : LifeEvent} (h : s.connectionStep i e = some s') :
    s'.client = s.client ∧ s'.connector = s.connector := by
  obtain ⟨c, -, h⟩ := Option.bind_eq_some_iff.mp h
  obtain ⟨life, -, h⟩ := Option.bind_eq_some_iff.mp h
  cases Option.some.inj h
  exact ⟨rfl, rfl⟩

/-- A client that is told not to connect starts something in a step exactly when a
handler of the connector finds an attempt active. -/
theorem step_starts {e : ClientEvent} (hoff : s.client.connect_ = false)
    (he : e.isConnect = false) (hstep : s.step e = some s') :
    s'.client.connect_ = false ∧ s.starts ≤ s'.starts ∧ (s'.starts = s.starts ↔ s.KeepsOff e) := by
  have hsame (hoff' : s'.client.connect_ = false) (hstarts : s'.starts = s.starts)
      (hk : s.KeepsOff e) : s'.client.connect_ = false ∧ s.starts ≤ s'.starts ∧
        (s'.starts = s.starts ↔ s.KeepsOff e) :=
    ⟨hoff', Nat.le_of_eq hstarts.symm, fun _ ↦ hk, fun _ ↦ hstarts⟩
  have hmoved {e : ConnectorEvent} {peer : InetAddress} {mem : Mem} {connector : ConnectorLoop}
      (hofLoop : e.ofLoop) (h : s.connector.step e = some connector)
      (hoff' : s'.client.connect_ = false) (hconnector : s'.connector = connector) :
      s'.client.connect_ = false ∧ s.starts ≤ s'.starts ∧
        (s'.starts = s.starts ↔ s.KeepsOff (.connector e peer mem)) := by
    subst hconnector
    have hmoves := ConnectorLoop.step_moves hofLoop h
    refine ⟨hoff', hmoves.older.sublist.countP_le, fun heq hwakes ↦ ?_, hmoves.quiet⟩
    exact Nat.ne_of_lt (hmoves.starts hwakes) heq.symm
  cases steps_of_step hstep with
  | connect => cases he
  | disconnect h =>
    obtain ⟨hclient, hconnector⟩ := connectionStep_frame h
    exact hsame (by rw [hclient]; rfl) (by rw [starts, hconnector]; rfl) trivial
  | newConnection _ hofLoop h | connector hofLoop h => exact hmoved hofLoop h hoff rfl
  | connection _ h | runFunctor _ h =>
    obtain ⟨hclient, hconnector⟩ := connectionStep_frame h
    exact hsame (by rw [hclient, hoff]) (by rw [starts, hconnector, starts]) trivial
  | restart _ hwanted => simp [hoff] at hwanted
  | disconnectNull | stop => exact hsame rfl rfl trivial
  | enableRetry | removeConnection => exact hsame hoff rfl trivial

theorem off_of_step {e : ClientEvent} (he : e = .disconnect ∨ e = .stop)
    (hstep : s.step e = some s') : s'.client.connect_ = false := by
  rcases he with rfl | rfl
  · cases steps_of_step hstep with
    | disconnect h =>
      rw [(connectionStep_frame h).1]
      rfl
    | disconnectNull => rfl
  · cases steps_of_step hstep
    rfl

def Stopped (s : ClientLoop) : Prop := s.client.connect_ = false ∧ ¬ s.connector.conn.Active

theorem Stopped.keepsOff (h : s.Stopped) : ∀ e, s.KeepsOff e
  | .connector _ _ _ => fun hwakes ↦ h.2 (ConnectorLoop.active_of_wakes hwakes)
  | .connect _ | .disconnect | .stop | .enableRetry | .connection _ _ | .removeConnection _
  | .runFunctor => trivial

theorem stopped_of_step {e : ClientEvent} (h : s.Stopped) (he : e.isConnect = false)
    (hstep : s.step e = some s') : s'.Stopped := by
  refine ⟨(step_starts h.1 he hstep).1, ?_⟩
  cases steps_of_step hstep with
  | connect => cases he
  | disconnect hc | connection _ hc | runFunctor _ hc =>
    rw [(connectionStep_frame hc).2]
    exact h.2
  | newConnection _ hofLoop hc _ | connector hofLoop hc =>
    exact (ConnectorLoop.step_moves hofLoop hc).inactive h.2
  | restart _ hwanted => simp [h.1] at hwanted
  | stop => exact fun ha ↦ Bool.false_ne_true ha.2
  | disconnectNull | enableRetry | removeConnection => exact h.2

/-- `stop` clears both flags, and without another `connect` nothing sets them again. -/
theorem keepsOff_of_stop {t : ClientLoop} (hstop : s.step .stop = some t)
    {es : List ClientEvent} (hes : ∀ e ∈ es, e.isConnect = false) : Along step KeepsOff t es := by
  have hstopped : t.Stopped := by
    refine ⟨off_of_step (.inr rfl) hstop, ?_⟩
    cases steps_of_step hstop
    exact fun ha ↦ Bool.false_ne_true ha.2
  exact (along_of_forall_mem hes).mono_of_invariant (fun _ e hu _ ↦ hu.keepsOff e)
    (fun _ _ _ ↦ stopped_of_step) hstopped

/-- From the return of `disconnect` or `stop` to the next `connect`, a client starts
no attempt and makes no connection if and only if no handler of the connector
finds an attempt active. -/
theorem staysOff_iff {name : List Char} {callbacks : Callbacks} {retryDelayMs : ℤ}
    {off : ClientEvent} (hoff : off = .disconnect ∨ off = .stop) (es₁ es₂ : List ClientEvent)
    (hes : ∀ e ∈ es₂, e.isConnect = false) (s t : ClientLoop)
    (hs : run step (start name callbacks retryDelayMs) (es₁ ++ [off]) = some s)
    (ht : run step s es₂ = some t) : t.starts = s.starts ↔ Along step KeepsOff s es₂ := by
  have hclient : s.client.connect_ = false := by
    rw [run_append] at hs
    obtain ⟨s₁, -, hs⟩ := Option.bind_eq_some_iff.mp hs
    obtain ⟨s₂, hs₂, hs⟩ := run_cons_eq_some.mp hs
    cases Option.some.inj hs
    exact off_of_step hoff hs₂
  have hiff := run_iff_along_of_mem
    (I := fun u ↦ u.client.connect_ = false ∧ s.starts ≤ u.starts)
    (P := fun u ↦ u.starts = s.starts) (G := KeepsOff)
    (H := fun e ↦ e.isConnect = false) ?_ ⟨hclient, Nat.le_refl _⟩ hes ht
  · exact hiff.trans (and_iff_right rfl)
  intro u e u' hu he hstep
  obtain ⟨hu', hle, hkeeps⟩ := step_starts hu.1 he hstep
  refine ⟨⟨hu', Nat.le_trans hu.2 hle⟩, fun heq ↦ ?_, fun ⟨heq, hk⟩ ↦ (hkeeps.mpr hk).trans heq⟩
  have hsame : u.starts = s.starts := Nat.le_antisymm (heq ▸ hle) hu.2
  exact ⟨hsame, hkeeps.mp (heq.trans hsame.symm)⟩

def attempting : ClientLoop := start ['c'] ⟨true, true, true, false⟩ 0

def waits : ClientEvent := .connect [.socket 5 (some .EINPROGRESS)]

def peer : InetAddress := ⟨(127, 0, 0, 1), 80⟩

def succeeds : List ClientEvent :=
  [.connector (.poll [(5, Channel.EPOLLOUT)]) peer .numbered,
    .connector (.handleEvent ⟨[], none, false, [], []⟩) peer .numbered]

theorem staysOff_iff_stop :
    ∃ s t, run step attempting ([waits] ++ [.stop]) = some s ∧ run step s succeeds = some t ∧
      t.starts = s.starts := by
  have hrun : (run step attempting ([waits] ++ [.stop])).map (fun s ↦
      (decide (Along step KeepsOff s succeeds), (run step s succeeds).isSome)) =
        some (true, true) := by decide +kernel
  obtain ⟨s, hs, heq⟩ := Option.map_eq_some_iff.mp hrun
  simp only [Prod.mk.injEq, decide_eq_true_eq] at heq
  obtain ⟨t, ht⟩ := Option.isSome_iff_exists.mp heq.2
  exact ⟨s, t, hs, ht,
    (staysOff_iff (.inr rfl) [waits] succeeds (by decide) s t hs ht).mpr heq.1⟩

/-- The attempt goes on after `disconnect`. -/
theorem not_staysOff :
    ¬ ∀ (off : ClientEvent) (es₁ es₂ : List ClientEvent) (s t : ClientLoop),
      off = .disconnect ∨ off = .stop → (∀ e ∈ es₂, e.isConnect = false) →
        run step attempting (es₁ ++ [off]) = some s → run step s es₂ = some t →
          t.starts = s.starts := by
  intro h
  have hrun : (run step attempting ([waits] ++ [.disconnect])).map (fun s ↦
      (s.starts, (run step s succeeds).map starts)) = some (1, some 2) := by decide +kernel
  obtain ⟨s, hs, heq⟩ := Option.map_eq_some_iff.mp hrun
  simp only [Prod.mk.injEq] at heq
  obtain ⟨t, ht, hstarts⟩ := Option.map_eq_some_iff.mp heq.2
  have hsame := h .disconnect [waits] succeeds s t (.inl rfl) (by decide) hs ht
  rw [heq.1, hstarts] at hsame
  cases hsame

end ClientLoop

end Mymuduo.Net
