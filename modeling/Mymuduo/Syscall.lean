import Mathlib.Data.Int.Notation
import Mathlib.Data.Nat.Notation

namespace Mymuduo

abbrev Byte := BitVec 8

/-- The values of `errno` named in the sources; `other` is any further one. -/
inductive Errno
  | EAGAIN | EINTR | EPIPE | ECONNRESET
  | EINPROGRESS | EISCONN
  | EADDRINUSE | EADDRNOTAVAIL | ECONNREFUSED | ENETUNREACH
  | EACCES | EPERM | EAFNOSUPPORT | EALREADY | EBADF | EFAULT | ENOTSOCK
  | other (code : ℕ)
deriving DecidableEq, Repr

namespace Errno

/-- On Linux `EWOULDBLOCK` is the same number as `EAGAIN`. -/
abbrev EWOULDBLOCK : Errno := EAGAIN

end Errno

/-- The result of `write(2)`: the number of bytes taken, or `-1` and `errno`. -/
inductive WriteResult
  | wrote (n : ℕ)
  | error (err : Errno)
deriving DecidableEq, Repr

/-- The result of `readv(2)`: the bytes put into the vectors, or `-1` and `errno`. -/
inductive ReadResult
  | read (bytes : List Byte)
  | error (err : Errno)
deriving DecidableEq, Repr

namespace WriteResult

def value : WriteResult → ℤ
  | wrote n => n
  | error _ => -1

def Possible (len : ℕ) : WriteResult → Prop
  | wrote n => n ≤ len
  | error _ => True

instance (len : ℕ) : DecidablePred (Possible len) := fun r ↦
  match r with
  | wrote n => inferInstanceAs (Decidable (n ≤ len))
  | error _ => .isTrue trivial

def Fault (r : WriteResult) : Prop := r = error .EPIPE ∨ r = error .ECONNRESET

instance : DecidablePred Fault := fun r ↦
  inferInstanceAs (Decidable (r = error .EPIPE ∨ r = error .ECONNRESET))

end WriteResult

namespace ReadResult

def value : ReadResult → ℤ
  | read bytes => bytes.length
  | error _ => -1

def Possible (len : ℕ) : ReadResult → Prop
  | read bytes => bytes.length ≤ len
  | error _ => True

instance (len : ℕ) : DecidablePred (Possible len) := fun r ↦
  match r with
  | read bytes => inferInstanceAs (Decidable (bytes.length ≤ len))
  | error _ => .isTrue trivial

end ReadResult

end Mymuduo
