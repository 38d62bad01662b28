import Mathlib.Data.List.Basic

namespace Mymuduo.Execution

variable {σ τ ε ω α : Type*}

/-- The state after a list of events; `none` when one of them cannot happen in
the state where it stands. -/
def run (step : σ → ε → Option σ) : σ → List ε → Option σ
  | s, [] => some s
  | s, e :: es => (step s e).bind fun s' ↦ run step s' es

/-- Every event of the list is taken in a state that meets the guard. -/
def Along (step : σ → ε → Option σ) (G : σ → ε → Prop) : σ → List ε → Prop
  | _, [] => True
  | s, e :: es => G s e ∧
    match step s e with
    | some s' => Along step G s' es
    | none => True

instance decidableAlong (step : σ → ε → Option σ) (G : σ → ε → Prop)
    [∀ s e, Decidable (G s e)] : ∀ s es, Decidable (Along step G s es)
  | _, [] => .isTrue trivial
  | s, e :: es =>
    have : Decidable (match step s e with
        | some s' => Along step G s' es
        | none => True) :=
      match step s e with
      | some s' => decidableAlong step G s' es
      | none => .isTrue trivial
    inferInstanceAs (Decidable (_ ∧ _))

variable {step : σ → ε → Option σ} {G : σ → ε → Prop} {I : σ → Prop}

theorem along_cons {s : σ} {e : ε} {es : List ε} :
    Along step G s (e :: es) ↔ G s e ∧ ∀ s', step s e = some s' → Along step G s' es := by
  rw [Along]
  cases step s e <;> simp

theorem run_cons_eq_some {s t : σ} {e : ε} {es : List ε} :
    run step s (e :: es) = some t ↔ ∃ s', step s e = some s' ∧ run step s' es = some t :=
  Option.bind_eq_some_iff

theorem run_append {s : σ} {es fs : List ε} :
    run step s (es ++ fs) = (run step s es).bind fun s' ↦ run step s' fs := by
  induction es generalizing s with
  | nil => rfl
  | cons e es ih =>
    simp only [List.cons_append, run, ih]
    exact (Option.bind_assoc ..).symm

theorem Along.mono_of_invariant {H : σ → ε → Prop} (h : ∀ s e, I s → G s e → H s e)
    (hstep : ∀ s e s', I s → G s e → step s e = some s' → I s') {s : σ} {es : List ε} (hs : I s)
    (hg : Along step G s es) : Along step H s es := by
  induction es generalizing s with
  | nil => trivial
  | cons e es ih =>
    obtain ⟨hge, hgs⟩ := along_cons.mp hg
    refine along_cons.mpr ⟨h s e hs hge, fun s' hs' ↦ ?_⟩
    exact ih (hstep s e s' hs hge hs') (hgs s' hs')

theorem Along.mono {H : σ → ε → Prop} {s : σ} {es : List ε} (hg : Along step G s es)
    (h : ∀ s e, G s e → H s e) : Along step H s es :=
  hg.mono_of_invariant (I := fun _ ↦ True) (fun s e _ ↦ h s e) (fun _ _ _ _ _ _ ↦ trivial) trivial

theorem Along.of_append {s t : σ} {es fs : List ε} (hg : Along step G s (es ++ fs))
    (h : run step s es = some t) : Along step G s es ∧ Along step G t fs := by
  induction es generalizing s with
  | nil =>
    cases Option.some.inj h
    exact ⟨trivial, hg⟩
  | cons e es ih =>
    obtain ⟨s', hs', h⟩ := run_cons_eq_some.mp h
    obtain ⟨hge, hgs⟩ := along_cons.mp hg
    obtain ⟨hes, hfs⟩ := ih (hgs s' hs') h
    refine ⟨along_cons.mpr ⟨hge, fun u hu ↦ ?_⟩, hfs⟩
    cases hs'.symm.trans hu
    exact hes

theorem Along.append {s : σ} {es fs : List ε} (hes : Along step G s es)
    (hfs : ∀ t, run step s es = some t → Along step G t fs) : Along step G s (es ++ fs) := by
  induction es generalizing s with
  | nil => exact hfs s rfl
  | cons e es ih =>
    obtain ⟨hge, hgs⟩ := along_cons.mp hes
    refine along_cons.mpr ⟨hge, fun s' hs' ↦ ih (hgs s' hs') fun t ht ↦ hfs t ?_⟩
    exact run_cons_eq_some.mpr ⟨s', hs', ht⟩

/-- Two guards that say the same in every state of an invariant that one of them keeps. -/
theorem along_iff_along {H : σ → ε → Prop} (h : ∀ s e, I s → (G s e ↔ H s e))
    (hstep : ∀ s e s', I s → H s e → step s e = some s' → I s') {s : σ} {es : List ε} (hs : I s) :
    Along step G s es ↔ Along step H s es := by
  induction es generalizing s with
  | nil => exact Iff.rfl
  | cons e es ih =>
    rw [along_cons, along_cons, h s e hs]
    refine and_congr_right fun he ↦ forall_congr' fun s' ↦ imp_congr_right fun hs' ↦ ?_
    exact ih (hstep s e s' hs he hs')

theorem along_of_forall_mem {H : ε → Prop} {s : σ} {es : List ε} (h : ∀ e ∈ es, H e) :
    Along step (fun _ e ↦ H e) s es := by
  induction es generalizing s with
  | nil => trivial
  | cons e es ih =>
    obtain ⟨he, hes⟩ := List.forall_mem_cons.mp h
    exact along_cons.mpr ⟨he, fun s' _ ↦ ih hes⟩

theorem Along.and_of_forall_mem {H : ε → Prop} {s : σ} {es : List ε} (hg : Along step G s es)
    (h : ∀ e ∈ es, H e) : Along step (fun s e ↦ H e ∧ G s e) s es := by
  induction es generalizing s with
  | nil => trivial
  | cons e es ih =>
    obtain ⟨hge, hgs⟩ := along_cons.mp hg
    obtain ⟨he, hes⟩ := List.forall_mem_cons.mp h
    exact along_cons.mpr ⟨⟨he, hge⟩, fun s' hs' ↦ ih (hgs s' hs') hes⟩

theorem run_invariant (hstep : ∀ s e s', I s → G s e → step s e = some s' → I s')
    {s t : σ} {es : List ε} (hs : I s) (hg : Along step G s es) (h : run step s es = some t) :
    I t := by
  induction es generalizing s with
  | nil => exact Option.some.inj h ▸ hs
  | cons e es ih =>
    obtain ⟨s', he, h'⟩ := run_cons_eq_some.mp h
    obtain ⟨hg, hgs⟩ := along_cons.mp hg
    exact ih (hstep s e s' hs hg he) (hgs s' he) h'

theorem run_invariant_of_mem {H : ε → Prop}
    (hstep : ∀ s e s', I s → H e → step s e = some s' → I s') {s t : σ} {es : List ε} (hs : I s)
    (hes : ∀ e ∈ es, H e) (h : run step s es = some t) : I t :=
  run_invariant hstep hs (along_of_forall_mem hes) h

theorem run_preserves (hstep : ∀ s e s', I s → step s e = some s' → I s')
    {s t : σ} {es : List ε} (hs : I s) (h : run step s es = some t) : I t :=
  run_invariant_of_mem (fun s e s' hs _ ↦ hstep s e s' hs) hs (fun _ _ ↦ trivial) h

/-- What breaking the guard brings about, and every step keeps, holds after a run that
has broken it. -/
theorem run_of_not_along {H : ε → Prop}
    (hbreak : ∀ s e s', H e → ¬ G s e → step s e = some s' → I s')
    (hstep : ∀ s e s', I s → H e → step s e = some s' → I s') {s t : σ} {es : List ε}
    (hes : ∀ e ∈ es, H e) (hg : ¬ Along step G s es) (h : run step s es = some t) : I t := by
  induction es generalizing s with
  | nil => exact (hg trivial).elim
  | cons e es ih =>
    obtain ⟨s', he, h'⟩ := run_cons_eq_some.mp h
    obtain ⟨hhe, hhes⟩ := List.forall_mem_cons.mp hes
    by_cases hge : G s e
    · refine ih hhes (fun hgs ↦ hg ?_) h'
      refine along_cons.mpr ⟨hge, fun u hu ↦ ?_⟩
      cases he.symm.trans hu
      exact hgs
    · exact run_invariant_of_mem hstep (hbreak s e s' hhe hge he) hhes h'

/-- A property that a step keeps exactly when it meets the guard holds after a
run exactly when the run meets it throughout. -/
theorem run_iff_along_of_mem {P : σ → Prop} {H : ε → Prop}
    (hstep : ∀ s e s', I s → H e → step s e = some s' → I s' ∧ (P s' ↔ P s ∧ G s e))
    {s t : σ} {es : List ε} (hs : I s) (hes : ∀ e ∈ es, H e) (h : run step s es = some t) :
    P t ↔ P s ∧ Along step G s es := by
  induction es generalizing s with
  | nil =>
    cases Option.some.inj h
    exact (and_iff_left trivial).symm
  | cons e es ih =>
    obtain ⟨s', he, h'⟩ := run_cons_eq_some.mp h
    obtain ⟨hhe, hhes⟩ := List.forall_mem_cons.mp hes
    obtain ⟨hs', hiff⟩ := hstep s e s' hs hhe he
    rw [ih hs' hhes h', hiff, along_cons, and_assoc]
    simp only [he, Option.some.injEq, forall_eq']

theorem run_iff_along {P : σ → Prop}
    (hstep : ∀ s e s', step s e = some s' → (P s' ↔ P s ∧ G s e))
    {s t : σ} {es : List ε} (h : run step s es = some t) : P t ↔ P s ∧ Along step G s es :=
  run_iff_along_of_mem (I := fun _ ↦ True) (H := fun _ ↦ True)
    (fun s e s' _ _ hs ↦ ⟨trivial, hstep s e s' hs⟩) trivial (fun _ _ ↦ trivial) h

theorem run_accumulates {f : σ → List α} {g : ε → List α}
    (hstep : ∀ s e s', I s → G s e → step s e = some s' → I s' ∧ f s' = f s ++ g e)
    {s t : σ} {es : List ε} (hs : I s) (hg : Along step G s es) (h : run step s es = some t) :
    f t = f s ++ es.flatMap g := by
  induction es generalizing s with
  | nil =>
    cases Option.some.inj h
    simp
  | cons e es ih =>
    obtain ⟨s', he, h'⟩ := run_cons_eq_some.mp h
    obtain ⟨hg, hgs⟩ := along_cons.mp hg
    obtain ⟨hi, hf⟩ := hstep s e s' hs hg he
    rw [ih hi (hgs s' he) h', hf, List.flatMap_cons, List.append_assoc]

/-- Weak simulation: a machine of which each step is a step of the abstract machine or is
hidden from it runs as the abstract one does on the visible events. -/
theorem run_simulates {δ : Type*} {astep : τ → δ → Option τ} {vis : ε → Option δ}
    {R : σ → τ → Prop}
    (hstep : ∀ s t e s', R s t → G s e → step s e = some s' →
      ∃ t', run astep t (vis e).toList = some t' ∧ R s' t')
    {s s' : σ} {t : τ} {es : List ε} (hr : R s t) (hg : Along step G s es)
    (h : run step s es = some s') :
    ∃ t', run astep t (es.filterMap vis) = some t' ∧ R s' t' := by
  induction es generalizing s t with
  | nil =>
    cases Option.some.inj h
    exact ⟨t, rfl, hr⟩
  | cons e es ih =>
    obtain ⟨u, hu, h⟩ := run_cons_eq_some.mp h
    obtain ⟨hge, hgs⟩ := along_cons.mp hg
    obtain ⟨t₁, ht₁, hr₁⟩ := hstep s t e u hr hge hu
    obtain ⟨t', ht', hr'⟩ := ih hr₁ (hgs u hu) h
    refine ⟨t', ?_, hr'⟩
    rw [← List.singleton_append, List.filterMap_append, run_append, List.filterMap_cons]
    cases hv : vis e with
    | none =>
      rw [hv] at ht₁
      cases Option.some.inj ht₁
      simpa [run] using ht'
    | some d =>
      rw [hv] at ht₁
      simp only [List.filterMap_nil]
      rw [show run astep t [d] = some t₁ from ht₁]
      exact ht'

def collect (step : σ → ε → Option σ) (f : σ → ε → σ → List α) : σ → List ε → List α
  | _, [] => []
  | s, e :: es =>
    match step s e with
    | some s' => f s e s' ++ collect step f s' es
    | none => []

theorem collect_cons {f : σ → ε → σ → List α} {s s' : σ} {e : ε} {es : List ε}
    (h : step s e = some s') :
    collect step f s (e :: es) = f s e s' ++ collect step f s' es := by
  rw [collect, h]

theorem collect_append {f : σ → ε → σ → List α} {s t : σ} {es fs : List ε}
    (h : run step s es = some t) :
    collect step f s (es ++ fs) = collect step f s es ++ collect step f t fs := by
  induction es generalizing s with
  | nil =>
    cases Option.some.inj h
    rfl
  | cons e es ih =>
    obtain ⟨s', he, h'⟩ := run_cons_eq_some.mp h
    rw [List.cons_append, collect_cons he, collect_cons he, ih h', List.append_assoc]

/-- What holds of the state and of all that was shown up to it. -/
theorem run_collects {f : σ → ε → σ → List α} {P : σ → List α → Prop} {H : ε → Prop}
    (hstep : ∀ s l e s', P s l → H e → step s e = some s' → P s' (l ++ f s e s')) {s t : σ}
    {l : List α} {es : List ε} (hs : P s l) (hes : ∀ e ∈ es, H e) (h : run step s es = some t) :
    P t (l ++ collect step f s es) := by
  induction es generalizing s l with
  | nil =>
    cases Option.some.inj h
    rwa [collect, List.append_nil]
  | cons e es ih =>
    obtain ⟨s', he, h'⟩ := run_cons_eq_some.mp h
    obtain ⟨hhe, hhes⟩ := List.forall_mem_cons.mp hes
    rw [collect_cons he, ← List.append_assoc]
    exact ih (hstep s l e s' hs hhe he) hhes h'

def trace (step : σ → ε → Option (σ × ω)) : σ → List ε → Option (σ × List ω)
  | s, [] => some (s, [])
  | s, e :: es => do
    let (s', o) ← step s e
    let (t, os) ← trace step s' es
    return (t, o :: os)

def traceTotal (step : τ → ε → τ × ω) : τ → List ε → τ × List ω
  | t, [] => (t, [])
  | t, e :: es =>
    let (t', os) := traceTotal step (step t e).1 es
    (t', (step t e).2 :: os)

abbrev AlongTrace (step : σ → ε → Option (σ × ω)) : (σ → ε → Prop) → σ → List ε → Prop :=
  Along fun s e ↦ (step s e).map Prod.fst

/-- Forward simulation: a machine whose guarded steps succeed and answer as
the abstract machine does runs to the end with the abstract answers. -/
theorem trace_refines {step : σ → ε → Option (σ × ω)} {astep : τ → ε → τ × ω}
    {R : σ → τ → Prop}
    (hstep : ∀ s t e, R s t → G s e →
      ∃ s', step s e = some (s', (astep t e).2) ∧ R s' (astep t e).1)
    {s : σ} {t : τ} {es : List ε} (hr : R s t) (hg : AlongTrace step G s es) :
    ∃ s', trace step s es = some (s', (traceTotal astep t es).2) ∧
      R s' (traceTotal astep t es).1 := by
  induction es generalizing s t with
  | nil => exact ⟨s, rfl, hr⟩
  | cons e es ih =>
    obtain ⟨hg, hgs⟩ := along_cons.mp hg
    obtain ⟨s', he, hr'⟩ := hstep s t e hr hg
    obtain ⟨s'', hes, hr''⟩ := ih hr' (hgs s' (by simp [he]))
    exact ⟨s'', by simp [trace, traceTotal, he, hes], hr''⟩

end Mymuduo.Execution
