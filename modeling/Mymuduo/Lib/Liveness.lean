import Mymuduo.Lib.Execution
import Mathlib.Data.Nat.Find
import Mathlib.Order.WellFounded

namespace Mymuduo.Execution

variable {σ ε α : Type*}

/-- A measure that goes up again and again reaches every bound. -/
theorem eventually_le {f : ℕ → ℕ} {n N : ℕ}
    (hgoes : ∀ m, n ≤ m → f m < N → ∃ k, m ≤ k ∧ f m < f k) : ∃ m, n ≤ m ∧ N ≤ f m := by
  induction hx : N - f n using Nat.strong_induction_on generalizing n with
  | _ x ih =>
    rcases Nat.lt_or_ge (f n) N with hlt | hge
    · obtain ⟨k, hk, hless⟩ := hgoes n le_rfl hlt
      obtain ⟨m, hm, hle⟩ := ih (N - f k) (by omega) (fun m hm ↦ hgoes m (Nat.le_trans hk hm)) rfl
      exact ⟨m, Nat.le_trans hk hm, hle⟩
    · exact ⟨n, le_rfl, hge⟩

/-- A reader `r` of a stream `w` that goes on while something is left for it gets all of
the stream. -/
theorem eventually_catchesUp {w r : ℕ → List α} (hw : ∀ {n m}, n ≤ m → w n <+: w m)
    (hr : ∀ n, r n <+: w n)
    (hgoes : ∀ n, r n ≠ w n → ∃ m, n ≤ m ∧ (r n).length < (r m).length) (n : ℕ) :
    ∃ m, n ≤ m ∧ w n <+: r m := by
  have hmore (m : ℕ) (hm : n ≤ m) (hlt : (r m).length < (w n).length) :
      ∃ k, m ≤ k ∧ (r m).length < (r k).length := by
    refine hgoes m fun heq ↦ ?_
    have hle := (hw hm).length_le
    rw [← heq] at hle
    omega
  obtain ⟨m, hm, hle⟩ := eventually_le (f := fun m ↦ (r m).length) hmore
  exact ⟨m, hm, List.prefix_of_prefix_length_le (hw hm) (hr m) hle⟩

/-- What lasts until a party moves still holds when it moves. -/
theorem exists_move {P C : ℕ → Prop} (hstay : ∀ n, P n → ¬ C n → P (n + 1)) {n m : ℕ}
    (hm : n ≤ m) (hc : C m) (h : P n) : ∃ k, n ≤ k ∧ P k ∧ C k := by
  obtain ⟨d, rfl⟩ := Nat.exists_eq_add_of_le hm
  clear hm
  induction d generalizing n with
  | zero => exact ⟨n, le_rfl, h, hc⟩
  | succ d ih =>
    by_cases hn : C n
    · exact ⟨n, le_rfl, h, hn⟩
    · obtain ⟨k, hk, hp⟩ := ih (hstay n h hn) (by rwa [Nat.add_right_comm])
      exact ⟨k, by omega, hp⟩

/-- What waits in a queue comes to its head when the queue only grows at its end and its
reader goes on. -/
theorem eventually_head {q : ℕ → List α} {C : ℕ → Prop} (hgrow : ∀ n, ¬ C n → q n <+: q (n + 1))
    (hpop : ∀ n, C n → (q n).tail <+: q (n + 1))
    (hgoes : ∀ n, q n ≠ [] → ∃ m, n ≤ m ∧ C m) {n : ℕ} {a : α} (ha : a ∈ q n) :
    ∃ m, n ≤ m ∧ C m ∧ (q m).head? = some a := by
  have hstay {l l' : List α} {k : ℕ} (h : l <+: l') (hk : l[k]? = some a) : l'[k]? = some a := by
    obtain ⟨t, rfl⟩ := h
    exact (List.getElem?_append_left (List.getElem?_eq_some_iff.mp hk).1).trans hk
  obtain ⟨k, hk⟩ := List.mem_iff_getElem?.mp ha
  clear ha
  induction k generalizing n with
  | zero =>
    obtain ⟨m, hm, hc⟩ := hgoes n (by rintro hnil; simp [hnil] at hk)
    obtain ⟨m, hm, hp, hc⟩ := exists_move (P := fun m ↦ (q m)[0]? = some a)
      (fun m hp hc ↦ hstay (hgrow m hc) hp) hm hc hk
    exact ⟨m, hm, hc, List.head?_eq_getElem?.trans hp⟩
  | succ k ih =>
    obtain ⟨m, hm, hc⟩ := hgoes n (by rintro hnil; simp [hnil] at hk)
    obtain ⟨m, hm, hp, hc⟩ := exists_move (P := fun m ↦ (q m)[k + 1]? = some a)
      (fun m hp hc ↦ hstay (hgrow m hc) hp) hm hc hk
    obtain ⟨j, hj, hhead⟩ := ih (hstay (hpop m hc) (List.getElem?_tail.trans hp))
    exact ⟨j, by omega, hhead⟩

theorem mod_next {n : ℕ} (hn : 0 < n) (m : ℕ) :
    (m + 1) % n = if n ≤ m % n + 1 then 0 else m % n + 1 := by
  rw [← Nat.mod_add_mod]
  have hlt := Nat.mod_lt m hn
  split_ifs with h
  · rw [show m % n + 1 = n by omega, Nat.mod_self]
  · exact Nat.mod_eq_of_lt (by omega)

/-- The place that comes after `n` others in a list whose last `c` places, behind `p`
others, come again and again. -/
def lassoIndex (p c n : ℕ) : ℕ := if n < p then n else p + (n - p) % c

theorem lassoIndex_lt {p c : ℕ} (hc : 0 < c) (n : ℕ) : lassoIndex p c n < p + c := by
  have hlt := Nat.mod_lt (n - p) hc
  rw [lassoIndex]
  split_ifs <;> omega

theorem lassoIndex_succ {p c : ℕ} (hc : 0 < c) (n : ℕ) :
    lassoIndex p c (n + 1) = lassoIndex p c n + 1 ∨
      lassoIndex p c n + 1 = p + c ∧ lassoIndex p c (n + 1) = p := by
  have hlt := Nat.mod_lt (n - p) hc
  rcases Nat.lt_or_ge n p with hn | hn
  · rw [lassoIndex, lassoIndex, if_pos hn]
    split_ifs with hnext
    · exact .inl rfl
    · rw [show n + 1 - p = 0 by omega, Nat.zero_mod]
      exact .inl (by omega)
  · rw [lassoIndex, lassoIndex, if_neg (by omega), if_neg (by omega), Nat.sub_add_comm hn,
      mod_next hc]
    split_ifs with hend
    · exact .inr ⟨by omega, rfl⟩
    · exact .inl (by omega)

theorem run_take_succ {step : σ → ε → Option σ} {s t : σ} {es : List ε} (h : run step s es = some t)
    {n : ℕ} (hn : n < es.length) : ∃ u v, run step s (es.take n) = some u ∧
      step u es[n] = some v ∧ run step s (es.take (n + 1)) = some v := by
  rw [← List.take_append_drop (n + 1) es, run_append] at h
  obtain ⟨v, hv, -⟩ := Option.bind_eq_some_iff.mp h
  have htake := hv
  rw [List.take_add_one, List.getElem?_eq_getElem hn, Option.toList_some, run_append] at hv
  obtain ⟨u, hu, hv⟩ := Option.bind_eq_some_iff.mp hv
  obtain ⟨w, hw, hv⟩ := run_cons_eq_some.mp hv
  cases Option.some.inj hv
  exact ⟨u, v, hu, hw, htake⟩

structure InfiniteRun (step : σ → ε → Option σ) where
  state : ℕ → σ
  event : ℕ → ε
  next : ∀ n, step (state n) (event n) = some (state (n + 1))

namespace InfiniteRun

variable {step : σ → ε → Option σ} (ρ : InfiniteRun step) {I : σ → Prop} {G : σ → ε → Prop}

def drop (k : ℕ) : InfiniteRun step where
  state n := ρ.state (k + n)
  event n := ρ.event (k + n)
  next n := ρ.next (k + n)

def ofList {s t : σ} (es : List ε) (e : ε) (h : run step s es = some t) (ht : step t e = some t) :
    InfiniteRun step where
  state n := (run step s (es.take n)).getD s
  event n := es[n]?.getD e
  next n := by
    rcases Nat.lt_or_ge n es.length with hn | hn
    · rw [List.getElem?_eq_getElem hn, Option.getD_some, List.take_add_one,
        List.getElem?_eq_getElem hn, Option.toList_some, run_append]
      rw [← List.take_append_drop (n + 1) es, run_append] at h
      obtain ⟨u, hu, -⟩ := Option.bind_eq_some_iff.mp h
      rw [List.take_add_one, List.getElem?_eq_getElem hn, Option.toList_some, run_append] at hu
      obtain ⟨v, hv, hu⟩ := Option.bind_eq_some_iff.mp hu
      obtain ⟨w, hw, hu⟩ := run_cons_eq_some.mp hu
      simp [hv, hw, run]
    · rw [List.getElem?_eq_none hn, List.take_of_length_le hn,
        List.take_of_length_le (Nat.le_succ_of_le hn), h]
      exact ht

/-- A guard that holds along the list and for the event at its end holds all along. -/
theorem ofList_forall {s t : σ} {es : List ε} {e : ε} (h : run step s es = some t)
    (ht : step t e = some t) (hes : Along step G s es) (he : G t e) (n : ℕ) :
    G ((ofList es e h ht).state n) ((ofList es e h ht).event n) := by
  simp only [ofList]
  rcases Nat.lt_or_ge n es.length with hn | hn
  · rw [← List.take_append_drop n es, run_append] at h
    rw [← List.take_append_drop n es] at hes
    obtain ⟨u, hu, -⟩ := Option.bind_eq_some_iff.mp h
    obtain ⟨-, hrest⟩ := hes.of_append hu
    rw [List.drop_eq_getElem_cons hn] at hrest
    rw [hu, List.getElem?_eq_getElem hn]
    exact (along_cons.mp hrest).1
  · rw [List.take_of_length_le hn, h, List.getElem?_eq_none hn]
    exact he

theorem ofList_state {s t u : σ} {es : List ε} {e : ε} (h : run step s es = some t)
    (ht : step t e = some t) {n : ℕ} (hu : run step s (es.take n) = some u) :
    (ofList es e h ht).state n = u := by
  simp only [ofList]
  rw [hu]
  rfl

theorem ofList_state_of_le {s t : σ} {es : List ε} {e : ε} (h : run step s es = some t)
    (ht : step t e = some t) {n : ℕ} (hn : es.length ≤ n) : (ofList es e h ht).state n = t :=
  ofList_state h ht (by rw [List.take_of_length_le hn, h])

/-- The run of a list of events that ends with some that lead back to where they begin, and
come again and again. -/
def lasso {s t : σ} (es fs : List ε) (hes : run step s es = some t)
    (hfs : run step t fs = some t) (hne : 0 < fs.length) : InfiniteRun step where
  state n := (run step s ((es ++ fs).take (lassoIndex es.length fs.length n))).getD s
  event n := (es ++ fs).get
    ⟨lassoIndex es.length fs.length n, List.length_append ▸ lassoIndex_lt hne n⟩
  next n := by
    have hall : run step s (es ++ fs) = some t := by rw [run_append, hes, Option.bind_some, hfs]
    have hlt : lassoIndex es.length fs.length n < (es ++ fs).length :=
      List.length_append ▸ lassoIndex_lt hne n
    obtain ⟨u, v, hu, hv, htake⟩ := run_take_succ hall hlt
    rw [hu, Option.getD_some, List.get_eq_getElem]
    dsimp only
    rw [hv]
    rcases lassoIndex_succ hne n (p := es.length) with hnext | ⟨hend, hback⟩
    · rw [hnext, htake, Option.getD_some]
    · rw [List.take_of_length_le (by rw [List.length_append]; omega), hall] at htake
      rw [hback, List.take_left' rfl, hes, Option.getD_some, ← htake]

/-- Every moment of such a run is like one of its list. -/
theorem lasso_at {s t : σ} (es fs : List ε) (hes : run step s es = some t)
    (hfs : run step t fs = some t) (hne : 0 < fs.length) (n : ℕ) :
    ∃ k, ∃ hk : k < (es ++ fs).length, (k = n ∨ es.length ≤ k) ∧
      (lasso es fs hes hfs hne).state n = (run step s ((es ++ fs).take k)).getD s ∧
        (lasso es fs hes hfs hne).event n = (es ++ fs).get ⟨k, hk⟩ := by
  refine ⟨lassoIndex es.length fs.length n, List.length_append ▸ lassoIndex_lt hne n, ?_, rfl, rfl⟩
  rw [lassoIndex]
  split_ifs
  · exact .inl rfl
  · exact .inr (Nat.le_add_right ..)

theorem invariant (hstep : ∀ s e s', I s → G s e → step s e = some s' → I s')
    (h : I (ρ.state 0)) (hg : ∀ n, G (ρ.state n) (ρ.event n)) (n : ℕ) : I (ρ.state n) := by
  induction n with
  | zero => exact h
  | succ n ih => exact hstep _ _ _ ih (hg n) (ρ.next n)

/-- What every step only extends is extended along the run. -/
theorem prefix_of_le {f : σ → List α} (hf : ∀ s e s', step s e = some s' → f s <+: f s')
    {n m : ℕ} (hm : n ≤ m) : f (ρ.state n) <+: f (ρ.state m) := by
  induction m, hm using Nat.le_induction with
  | base => exact List.prefix_rfl
  | succ m hm ih => exact ih.trans (hf _ _ _ (ρ.next m))

theorem rank_eq {rank : σ → α} {C : ε → Prop}
    (hstay : ∀ n, ¬ C (ρ.event n) → rank (ρ.state (n + 1)) = rank (ρ.state n)) {n k : ℕ}
    (h : ∀ m, n ≤ m → m < n + k → ¬ C (ρ.event m)) :
    rank (ρ.state (n + k)) = rank (ρ.state n) := by
  induction k with
  | zero => rfl
  | succ k ih =>
    rw [← ih fun m hn hm ↦ h m hn (by omega)]
    exact hstay (n + k) (h (n + k) (by omega) (by omega))

/-- The party that lowers the rank reaches the goal if it never stops before. -/
theorem eventually {r : α → α → Prop} (hr : WellFounded r) (rank : σ → α) (C : ε → Prop)
    (Goal : σ → Prop)
    (hlower : ∀ n, ¬ Goal (ρ.state n) → C (ρ.event n) →
      r (rank (ρ.state (n + 1))) (rank (ρ.state n)))
    (hstay : ∀ n, ¬ C (ρ.event n) → rank (ρ.state (n + 1)) = rank (ρ.state n))
    (hgoes : ∀ n, ¬ Goal (ρ.state n) → ∃ m, n ≤ m ∧ C (ρ.event m)) (n : ℕ) :
    ∃ m, n ≤ m ∧ Goal (ρ.state m) := by
  induction hx : rank (ρ.state n) using hr.induction generalizing n with
  | _ x ih =>
    subst hx
    by_cases hn : Goal (ρ.state n)
    · exact ⟨n, le_rfl, hn⟩
    classical
    have hex : ∃ k, C (ρ.event (n + k)) := by
      obtain ⟨m, hm, hc⟩ := hgoes n hn
      exact ⟨m - n, by rwa [Nat.add_sub_cancel' hm]⟩
    have hfirst := ρ.rank_eq hstay (n := n) (k := Nat.find hex) fun m hm hlt hc ↦
      Nat.find_min hex (m := m - n) (by omega) (by rwa [Nat.add_sub_cancel' hm])
    by_cases hgoal : Goal (ρ.state (n + Nat.find hex))
    · exact ⟨_, by omega, hgoal⟩
    have hlow := hlower _ hgoal (Nat.find_spec hex)
    rw [hfirst] at hlow
    obtain ⟨m, hm, hg⟩ := ih _ hlow _ rfl
    exact ⟨m, by omega, hg⟩

/-- A rank that never rises is constant in the end. -/
theorem eventually_settles {r : α → α → Prop} (hr : WellFounded r) (rank : σ → α) {n : ℕ}
    (hstep : ∀ m, n ≤ m → rank (ρ.state (m + 1)) = rank (ρ.state m) ∨
      r (rank (ρ.state (m + 1))) (rank (ρ.state m))) :
    ∃ k, n ≤ k ∧ ∀ m, k ≤ m → rank (ρ.state (m + 1)) = rank (ρ.state m) := by
  obtain ⟨x, ⟨k, hk, rfl⟩, hmin⟩ := hr.has_min {x | ∃ m, n ≤ m ∧ rank (ρ.state m) = x}
    ⟨_, n, le_rfl, rfl⟩
  have hsame (j : ℕ) : rank (ρ.state (k + j)) = rank (ρ.state k) := by
    induction j with
    | zero => rfl
    | succ j ih =>
      rcases hstep (k + j) (by omega) with h | h
      · exact h.trans ih
      · rw [ih] at h
        exact (hmin _ ⟨k + j + 1, by omega, rfl⟩ h).elim
  refine ⟨k, hk, fun m hm ↦ ?_⟩
  obtain ⟨j, rfl⟩ := Nat.exists_eq_add_of_le hm
  exact (hsame (j + 1)).trans (hsame j).symm

end InfiniteRun

end Mymuduo.Execution
