import Mathlib.Data.List.Basic

namespace Mymuduo.Framing

variable {α β : Type*}

/-- `next` takes a complete frame off the front; `none` when there is none. -/
structure Framer (α β : Type*) where
  next : List α → Option (β × List α)
  shorter : ∀ {xs b rest}, next xs = some (b, rest) → rest.length < xs.length
  stable : ∀ {xs b rest} (ys : List α), next xs = some (b, rest) →
    next (xs ++ ys) = some (b, rest ++ ys)

namespace Framer

variable (F : Framer α β)

def drain (xs : List α) : List β × List α :=
  match h : F.next xs with
  | none => ([], xs)
  | some (b, rest) =>
    have := F.shorter h
    let (bs, r) := drain rest
    (b :: bs, r)
termination_by xs.length

variable {F}

theorem drain_of_none {xs : List α} (h : F.next xs = none) : F.drain xs = ([], xs) := by
  rw [drain]
  split
  · rfl
  · rename_i h'
    simp [h] at h'

theorem drain_of_some {xs rest : List α} {b : β} (h : F.next xs = some (b, rest)) :
    F.drain xs = (b :: (F.drain rest).1, (F.drain rest).2) := by
  rw [drain]
  split
  · rename_i h'
    simp [h] at h'
  · rename_i h'
    obtain ⟨rfl, rfl⟩ : _ = b ∧ _ = rest := by simpa [h] using h'.symm
    rfl

theorem next_nil : F.next [] = none := by
  cases h : F.next [] with
  | none => rfl
  | some p => exact absurd (F.shorter h) (Nat.not_lt_zero _)

@[simp] theorem drain_nil : F.drain [] = ([], []) := drain_of_none next_nil

/-- Draining in two rounds, with the remainder of the first put in front of
the second, gives the frames of the whole. -/
theorem drain_append (xs ys : List α) :
    F.drain (xs ++ ys) = ((F.drain xs).1 ++ (F.drain ((F.drain xs).2 ++ ys)).1,
      (F.drain ((F.drain xs).2 ++ ys)).2) := by
  induction hn : xs.length using Nat.strongRecOn generalizing xs with
  | ind n ih =>
    cases h : F.next xs with
    | none => simp [drain_of_none h]
    | some p =>
      obtain ⟨b, rest⟩ := p
      have hrest := ih rest.length (hn ▸ F.shorter h) rest rfl
      rw [drain_of_some (F.stable ys h), drain_of_some h, hrest]
      rfl

/-- More of the stream only adds frames. -/
theorem prefix_drain {xs ys : List α} (h : xs <+: ys) : (F.drain xs).1 <+: (F.drain ys).1 := by
  obtain ⟨zs, rfl⟩ := h
  rw [drain_append]
  exact List.prefix_append ..

theorem next_drain (xs : List α) : F.next (F.drain xs).2 = none := by
  induction hn : xs.length using Nat.strongRecOn generalizing xs with
  | ind n ih =>
    cases h : F.next xs with
    | none => simpa [drain_of_none h] using h
    | some p =>
      rw [drain_of_some h]
      exact ih p.2.length (hn ▸ F.shorter h) p.2 rfl

theorem drain_flatMap {enc : β → List α} {bs : List β}
    (h : ∀ b ∈ bs, ∀ ys, F.next (enc b ++ ys) = some (b, ys)) :
    F.drain (bs.flatMap enc) = (bs, []) := by
  induction bs with
  | nil => simp
  | cons b bs ih =>
    have hrest := ih fun c hc ↦ h c (List.mem_cons_of_mem b hc)
    rw [List.flatMap_cons, drain_of_some (h b List.mem_cons_self _), hrest]

end Framer

end Mymuduo.Framing
