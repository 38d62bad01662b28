import Mymuduo.Syscall
import Mathlib.Data.List.Basic

namespace Mymuduo

def decimal (n : ℕ) : List Char := Nat.toDigits 10 n

/-- `%d`, for the `int` that `n` wraps to. -/
def decimalInt (n : ℕ) : List Char :=
  let i := (BitVec.ofNat 32 n).toInt
  if i < 0 then '-' :: decimal i.natAbs else decimal i.natAbs

/-- What `snprintf` leaves in a buffer of `size` characters: the last one is the
terminating null character. -/
def snprintf (size : ℕ) (text : List Char) : List Char := text.take (size - 1)

theorem decimal_injective : Function.Injective decimal := by
  intro m n h
  have hm := Nat.ofDigitChars_ten_toDigits (n := m)
  rw [show Nat.toDigits 10 m = Nat.toDigits 10 n from h] at hm
  exact hm.symm.trans Nat.ofDigitChars_ten_toDigits

theorem length_decimal_le {n k : ℕ} (hk : 0 < k) (h : n < Nat.pow 10 k) : (decimal n).length ≤ k :=
  (Nat.length_toDigits_le_iff (by decide) hk).mpr h

theorem decimalInt_of_lt {n : ℕ} (h : n < 2147483648) : decimalInt n = decimal n := by
  have hnat : (BitVec.ofNat 32 n).toNat = n := by
    rw [BitVec.toNat_ofNat]
    omega
  have hint : (BitVec.ofNat 32 n).toInt = n := by
    rw [BitVec.toInt_eq_toNat_of_lt (by omega), hnat]
  simp only [decimalInt, hint]
  rw [if_neg (by omega), Int.natAbs_natCast]

namespace Net

/-- An IPv4 address and a port. -/
structure InetAddress where
  addr : Byte × Byte × Byte × Byte
  port : BitVec 16
deriving DecidableEq, Repr

namespace InetAddress

variable (a : InetAddress)

def toIp : List Char :=
  decimal a.addr.1.toNat ++ '.' :: decimal a.addr.2.1.toNat ++ '.' ::
    decimal a.addr.2.2.1.toNat ++ '.' :: decimal a.addr.2.2.2.toNat

def toIpPort : List Char := a.toIp ++ ':' :: decimal a.port.toNat

theorem length_toIpPort_le : a.toIpPort.length ≤ 21 := by
  have hbyte (b : Byte) : (decimal b.toNat).length ≤ 3 :=
    length_decimal_le (by decide) (Nat.lt_of_lt_of_le b.isLt (by decide))
  have hport : (decimal a.port.toNat).length ≤ 5 :=
    length_decimal_le (by decide) (Nat.lt_of_lt_of_le a.port.isLt (by decide))
  have h₁ := hbyte a.addr.1
  have h₂ := hbyte a.addr.2.1
  have h₃ := hbyte a.addr.2.2.1
  have h₄ := hbyte a.addr.2.2.2
  simp only [toIpPort, toIp, List.length_append, List.length_cons]
  omega

end InetAddress

end Net

end Mymuduo
