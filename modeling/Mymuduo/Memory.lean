import Mymuduo.Syscall
import Mathlib.Data.List.Basic

namespace Mymuduo

/-- What lies at an address that is no longer allocated is some byte. -/
abbrev Mem := ℤ → Byte

namespace Mem

def bytesAt (mem : Mem) (a : ℤ) : ℕ → List Byte
  | 0 => []
  | n + 1 => mem a :: bytesAt mem (a + 1) n

def numbered : Mem := BitVec.ofInt 8

variable (mem : Mem)

@[simp] theorem bytesAt_zero (a : ℤ) : mem.bytesAt a 0 = [] := rfl

@[simp] theorem bytesAt_length (a : ℤ) (n : ℕ) : (mem.bytesAt a n).length = n := by
  induction n generalizing a with
  | zero => rfl
  | succ n ih => rw [bytesAt, List.length_cons, ih]

theorem bytesAt_add (a : ℤ) (n m : ℕ) :
    mem.bytesAt a (n + m) = mem.bytesAt a n ++ mem.bytesAt (a + n) m := by
  induction n generalizing a with
  | zero => simp
  | succ n ih =>
    have ha : a + 1 + (n : ℤ) = a + ((n + 1 : ℕ) : ℤ) := by omega
    rw [Nat.succ_add, bytesAt, bytesAt, ih, List.cons_append, ha]

theorem bytesAt_take {a : ℤ} {n len : ℕ} (h : n ≤ len) :
    (mem.bytesAt a len).take n = mem.bytesAt a n := by
  obtain ⟨m, rfl⟩ := Nat.exists_eq_add_of_le h
  rw [bytesAt_add, List.take_left' (bytesAt_length mem a n)]

end Mem

end Mymuduo
