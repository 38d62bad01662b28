import Mathlib.Data.List.Basic

namespace Mymuduo.Slice

variable {α : Type*}

def slice (xs : List α) (i j : ℕ) : List α := (xs.take j).drop i

def overwrite (xs : List α) (i : ℕ) (ys : List α) : List α :=
  xs.take i ++ ys ++ xs.drop (i + ys.length)

def readAt (xs : List α) (i n : ℕ) : Option (List α) :=
  if i + n ≤ xs.length then some (slice xs i (i + n)) else none

def writeAt (xs : List α) (i : ℕ) (ys : List α) : Option (List α) :=
  if i + ys.length ≤ xs.length then some (overwrite xs i ys) else none

/-- Copy `n` elements inside one list, one after the other from the front, so
that an element may be read after it was overwritten. -/
def copyWithin (xs : List α) (src dst : ℕ) : ℕ → Option (List α)
  | 0 => some xs
  | n + 1 => do
    let x ← xs[src]?
    if dst < xs.length then copyWithin (xs.set dst x) (src + 1) (dst + 1) n else none

@[simp] theorem slice_length {xs : List α} {i j : ℕ} (h : j ≤ xs.length) :
    (slice xs i j).length = j - i := by
  simp [slice, Nat.min_eq_left h]

@[simp] theorem overwrite_length {xs : List α} {i : ℕ} {ys : List α}
    (h : i + ys.length ≤ xs.length) : (overwrite xs i ys).length = xs.length := by
  simp only [overwrite, List.length_append, List.length_take, List.length_drop]
  omega

theorem slice_self (xs : List α) (i : ℕ) : slice xs i i = [] := by
  simp [slice]

theorem slice_take {xs : List α} {i j n : ℕ} (h : i + n ≤ j) :
    (slice xs i j).take n = slice xs i (i + n) := by
  simp only [slice, List.take_drop, List.take_take, Nat.min_eq_left h]

theorem slice_drop (xs : List α) (i j n : ℕ) : (slice xs i j).drop n = slice xs (i + n) j := by
  simp only [slice, List.drop_drop]

theorem slice_eq_cons {xs : List α} {i j : ℕ} (hij : i < j) (hi : i < xs.length) :
    slice xs i j = xs[i] :: slice xs (i + 1) j := by
  have htake : i < (xs.take j).length := by
    rw [List.length_take]
    omega
  rw [slice, List.drop_eq_getElem_cons htake, List.getElem_take]
  rfl

theorem slice_set_of_lt {xs : List α} {i j k : ℕ} (x : α) (h : k < i) :
    slice (xs.set k x) i j = slice xs i j := by
  rw [slice, List.take_set, List.drop_set_of_lt h]
  rfl

theorem slice_overwrite_append {xs ys : List α} {i j : ℕ} (hij : i ≤ j)
    (h : j + ys.length ≤ xs.length) :
    slice (overwrite xs j ys) i (j + ys.length) = slice xs i j ++ ys := by
  have hj : (xs.take j).length = j := by
    rw [List.length_take]
    omega
  have hlen : (xs.take j ++ ys).length = j + ys.length := by
    rw [List.length_append, hj]
  rw [slice, overwrite, List.take_left' hlen, List.drop_append_of_le_length (by omega)]
  rfl

theorem slice_overwrite_prepend {xs ys : List α} {i j : ℕ} (hij : i + ys.length ≤ j)
    (h : j ≤ xs.length) :
    slice (overwrite xs i ys) i j = ys ++ slice xs (i + ys.length) j := by
  have hi : (xs.take i).length = i := by
    rw [List.length_take]
    omega
  rw [slice, overwrite, List.drop_take, List.append_assoc, List.drop_left' hi, List.take_append,
    List.take_of_length_le (by omega), slice, List.drop_take, Nat.sub_sub]

theorem overwrite_set {xs ys : List α} {i : ℕ} (x : α) (h : i < xs.length) :
    overwrite (xs.set i x) (i + 1) ys = overwrite xs i (x :: ys) := by
  have hi : (xs.take i).length = i := by
    rw [List.length_take]
    omega
  have htake : (xs.set i x).take (i + 1) = xs.take i ++ [x] := by
    rw [List.take_set, List.take_succ_eq_append_getElem h, List.set_append_right _ _ (by omega), hi,
      Nat.sub_self]
    rfl
  rw [overwrite, overwrite, htake, List.drop_set_of_lt (by omega), List.length_cons,
    List.append_assoc, List.append_assoc, List.append_assoc, show i + 1 + ys.length =
      i + (ys.length + 1) by omega]
  rfl

theorem slice_append_of_le {xs ys : List α} {i j : ℕ} (h : j ≤ xs.length) :
    slice (xs ++ ys) i j = slice xs i j := by
  simp only [slice, List.take_append_of_le_length h]

theorem readAt_eq_some {xs : List α} {i n : ℕ} (h : i + n ≤ xs.length) :
    readAt xs i n = some (slice xs i (i + n)) := if_pos h

theorem writeAt_eq_some {xs ys : List α} {i : ℕ} (h : i + ys.length ≤ xs.length) :
    writeAt xs i ys = some (overwrite xs i ys) := if_pos h

theorem writeAt_length {xs ys zs : List α} {i : ℕ} (h : writeAt xs i ys = some zs) :
    zs.length = xs.length := by
  rw [writeAt] at h
  split at h
  · rename_i hfit
    rw [← Option.some.inj h, overwrite_length hfit]
  · cases h

theorem copyWithin_length {xs ys : List α} {src dst n : ℕ}
    (h : copyWithin xs src dst n = some ys) : ys.length = xs.length := by
  induction n generalizing xs src dst with
  | zero => rw [Option.some.inj h]
  | succ n ih =>
    obtain ⟨x, -, h⟩ := Option.bind_eq_some_iff.mp h
    split at h
    · rw [ih h, List.length_set]
    · cases h

/-- Copying towards the front reads every element before it is overwritten,
so the elementwise loop moves the range as a whole. -/
theorem copyWithin_eq_some {xs : List α} {src dst n : ℕ} (hd : dst ≤ src)
    (h : src + n ≤ xs.length) :
    copyWithin xs src dst n = some (overwrite xs dst (slice xs src (src + n))) := by
  induction n generalizing xs src dst with
  | zero => simp [copyWithin, slice_self, overwrite]
  | succ n ih =>
    have hs : src < xs.length := by omega
    have hx : xs[src]? = some xs[src] := List.getElem?_eq_getElem hs
    have hlen : src + 1 + n ≤ (xs.set dst xs[src]).length := by
      rw [List.length_set]
      omega
    simp only [copyWithin, hx, Option.bind_eq_bind, Option.bind_some,
      show dst < xs.length by omega, if_true]
    rw [ih (Nat.succ_le_succ hd) hlen, overwrite_set _ (by omega), slice_set_of_lt _ (by omega),
      slice_eq_cons (by omega) hs, Nat.add_right_comm src 1 n]
    rfl

end Mymuduo.Slice
