import Mymuduo.Lib.Liveness

namespace Mymuduo.Duplex

open Execution

variable {σ τ ε δ α : Type*}

/-- A machine that reads a stream and writes another one. After the end of its own
stream it writes nothing more. -/
structure Party (σ ε α : Type*) where
  step : σ → ε → Option σ
  received : σ → List α
  written : σ → List α
  sawEnd : σ → Bool
  ended : σ → Bool
  Inv : σ → Prop
  inv_step : ∀ {s s' e}, Inv s → step s e = some s' → Inv s'
  written_grows : ∀ {s s' e}, Inv s → step s e = some s' → written s <+: written s'
  ended_step : ∀ {s s' e}, Inv s → step s e = some s' → ended s = true →
    ended s' = true ∧ written s' = written s

/-- The streams from `Q` to `P` in the states `s` of `P` and `t` of `Q`. -/
structure Reads (P : Party σ ε α) (Q : Party τ δ α) (s : σ) (t : τ) : Prop where
  received : P.received s <+: Q.written t
  sawEnd : P.sawEnd s = true → Q.ended t = true ∧ P.received s = Q.written t

instance [DecidableEq α] (P : Party σ ε α) (Q : Party τ δ α) (s : σ) (t : τ) :
    Decidable (Reads P Q s t) :=
  decidable_of_iff (P.received s <+: Q.written t ∧
    (P.sawEnd s = true → Q.ended t = true ∧ P.received s = Q.written t))
    ⟨fun ⟨h, h'⟩ ↦ ⟨h, h'⟩, fun h ↦ ⟨h.received, h.sawEnd⟩⟩

def step [DecidableEq α] (P : Party σ ε α) (Q : Party τ δ α) : σ × τ → ε ⊕ δ → Option (σ × τ)
  | (s, t), .inl e => (P.step s e).bind fun s' ↦ if Reads P Q s' t then some (s', t) else none
  | (s, t), .inr d => (Q.step t d).bind fun t' ↦ if Reads Q P t' s then some (s, t') else none

/-- The invariants of the machines and of the streams between them. -/
structure Joined (P : Party σ ε α) (Q : Party τ δ α) (p : σ × τ) : Prop where
  left : P.Inv p.1
  right : Q.Inv p.2
  leftReads : Reads P Q p.1 p.2
  rightReads : Reads Q P p.2 p.1

variable {P : Party σ ε α} {Q : Party τ δ α}

theorem Reads.of_step {s : σ} {t t' : τ} {d : δ} (h : Reads P Q s t) (ht : Q.Inv t)
    (hstep : Q.step t d = some t') : Reads P Q s t' where
  received := h.received.trans (Q.written_grows ht hstep)
  sawEnd hs := by
    obtain ⟨hended, hall⟩ := h.sawEnd hs
    obtain ⟨hended', hwritten⟩ := Q.ended_step ht hstep hended
    exact ⟨hended', hall.trans hwritten.symm⟩

theorem joined_start {s : σ} {t : τ} (hs : P.Inv s) (ht : Q.Inv t) (hsr : P.received s = [])
    (htr : Q.received t = []) (hse : P.sawEnd s = false) (hte : Q.sawEnd t = false) :
    Joined P Q (s, t) where
  left := hs
  right := ht
  leftReads := ⟨by simp [hsr], by simp [hse]⟩
  rightReads := ⟨by simp [htr], by simp [hte]⟩

variable [DecidableEq α]

theorem step_inl {s : σ} {t : τ} {e : ε} {p : σ × τ} (h : step P Q (s, t) (.inl e) = some p) :
    P.step s e = some p.1 ∧ p.2 = t ∧ Reads P Q p.1 t := by
  obtain ⟨s', hs', h⟩ := Option.bind_eq_some_iff.mp h
  split_ifs at h with hreads
  cases Option.some.inj h
  exact ⟨hs', rfl, hreads⟩

theorem step_inr {s : σ} {t : τ} {d : δ} {p : σ × τ} (h : step P Q (s, t) (.inr d) = some p) :
    Q.step t d = some p.2 ∧ p.1 = s ∧ Reads Q P p.2 s := by
  obtain ⟨t', ht', h⟩ := Option.bind_eq_some_iff.mp h
  split_ifs at h with hreads
  cases Option.some.inj h
  exact ⟨ht', rfl, hreads⟩

theorem step_joined {p p' : σ × τ} {e : ε ⊕ δ} (h : Joined P Q p) (hstep : step P Q p e = some p') :
    Joined P Q p' := by
  obtain ⟨s, t⟩ := p
  obtain ⟨s', t'⟩ := p'
  cases e with
  | inl e =>
    obtain ⟨hs, rfl, hreads⟩ := step_inl hstep
    exact ⟨P.inv_step h.left hs, h.right, hreads, h.rightReads.of_step h.left hs⟩
  | inr d =>
    obtain ⟨ht, rfl, hreads⟩ := step_inr hstep
    exact ⟨h.left, Q.inv_step h.right ht, h.leftReads.of_step h.right ht, hreads⟩

/-- In every run of the two machines, whatever the order of their steps. -/
theorem run_joined {p p' : σ × τ} {es : List (ε ⊕ δ)} (h : Joined P Q p)
    (hrun : run (step P Q) p es = some p') : Joined P Q p' :=
  run_preserves (fun _ _ _ h hstep ↦ step_joined h hstep) h hrun

theorem joined_of_infiniteRun {ρ : InfiniteRun (step P Q)} (h : Joined P Q (ρ.state 0)) (n : ℕ) :
    Joined P Q (ρ.state n) :=
  ρ.invariant (G := fun _ _ ↦ True) (fun _ _ _ h _ hstep ↦ step_joined h hstep) h
    (fun _ ↦ trivial) n

theorem written_mono {ρ : InfiniteRun (step P Q)} (h : ∀ n, Joined P Q (ρ.state n)) {n m : ℕ}
    (hnm : n ≤ m) : Q.written (ρ.state n).2 <+: Q.written (ρ.state m).2 := by
  induction m, hnm using Nat.le_induction with
  | base => exact List.prefix_rfl
  | succ m _ ih =>
    refine ih.trans ?_
    have hnext := ρ.next m
    cases he : ρ.event m with
    | inl e =>
      rw [he] at hnext
      have hsame : (ρ.state (m + 1)).2 = (ρ.state m).2 := (step_inl hnext).2.1
      exact hsame ▸ List.prefix_rfl
    | inr d =>
      rw [he] at hnext
      exact Q.written_grows (h m).right (step_inr hnext).1

end Mymuduo.Duplex
