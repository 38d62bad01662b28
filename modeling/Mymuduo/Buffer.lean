import Mymuduo.Lib.Slice
import Mymuduo.Syscall

namespace Mymuduo.Net

open Slice

/-- A vector of bytes with a read and a write index. An operation that would leave the
vector has the result `none`. -/
structure Buffer where
  buffer : List Byte
  readIndex : ℕ
  writeIndex : ℕ
deriving DecidableEq, Repr

namespace Buffer

def kCheapPrepend : ℕ := 8
def kInitialSize : ℕ := 1024

def new (initialSize : ℕ) : Buffer :=
  ⟨List.replicate (kCheapPrepend + initialSize) 0, kCheapPrepend, kCheapPrepend⟩

variable (b : Buffer)

def bufferSize : ℕ := b.buffer.length
def readableBytes : ℕ := b.writeIndex - b.readIndex
def writeableBytes : ℕ := b.buffer.length - b.writeIndex
def prependableBytes : ℕ := b.readIndex

def peek (len : ℕ) : Option (List Byte) := readAt b.buffer b.readIndex len

def retrieveAll : Buffer := { b with readIndex := kCheapPrepend, writeIndex := kCheapPrepend }

def retrive (len : ℕ) : Buffer :=
  if len < b.readableBytes then { b with readIndex := b.readIndex + len } else b.retrieveAll

def retriveAsString (len : ℕ) : Option (List Byte × Buffer) := do
  let result ← b.peek len
  return (result, b.retrive len)

def retriveAllAsString : Option (List Byte × Buffer) := b.retriveAsString b.readableBytes

/-- `std::vector<char>::resize`: new elements are zero. -/
def resize (xs : List Byte) (n : ℕ) : List Byte :=
  xs.take n ++ List.replicate (n - xs.length) 0

def makeSpace (len : ℕ) : Option Buffer :=
  if b.writeableBytes + b.prependableBytes < len + kCheapPrepend then
    some { b with buffer := resize b.buffer (b.writeIndex + len) }
  else do
    let readable := b.readableBytes
    let moved ← copyWithin b.buffer b.readIndex kCheapPrepend readable
    return ⟨moved, kCheapPrepend, kCheapPrepend + readable⟩

def ensureWriteableBytes (len : ℕ) : Option Buffer :=
  if b.writeableBytes < len then b.makeSpace len else some b

def append (data : List Byte) : Option Buffer := do
  let b ← b.ensureWriteableBytes data.length
  let written ← writeAt b.buffer b.writeIndex data
  return { b with buffer := written, writeIndex := b.writeIndex + data.length }

/-- With `len > readIndex_` the index wraps around and the copy lands in front
of the vector. -/
def prepend (data : List Byte) : Option Buffer :=
  if b.readIndex < data.length then none
  else do
    let readIndex := b.readIndex - data.length
    let written ← writeAt b.buffer readIndex data
    return { b with buffer := written, readIndex := readIndex }

def extrabufSize : ℕ := 65536

def readvLength : ℕ :=
  if b.writeableBytes < extrabufSize then b.writeableBytes + extrabufSize else b.writeableBytes

/-- `readv` fills the writeable space first and `extrabuf` with the rest. The
result of the call, with its `errno`, is what `readFd` hands to its caller. -/
def readFd (n : ReadResult) : Option Buffer :=
  match n with
  | .error _ => some b
  | .read bytes => do
    let writeable := b.writeableBytes
    let filled ← writeAt b.buffer b.writeIndex (bytes.take writeable)
    let extrabuf ← writeAt (List.replicate extrabufSize 0) 0 (bytes.drop writeable)
    if bytes.length ≤ writeable then
      return { b with buffer := filled, writeIndex := b.writeIndex + bytes.length }
    else
      append { b with buffer := filled, writeIndex := filled.length }
        (slice extrabuf 0 (bytes.length - writeable))

def writeFd (n : WriteResult) : Option (List Byte × Buffer) := do
  let offered ← b.peek b.readableBytes
  match n with
  | .error _ => return ([], b)
  | .wrote n => return (offered.take n, b.retrive n)

def readable : List Byte := slice b.buffer b.readIndex b.writeIndex

structure WF : Prop where
  read_le_write : b.readIndex ≤ b.writeIndex
  write_le_size : b.writeIndex ≤ b.buffer.length
  cheap_le_size : kCheapPrepend ≤ b.buffer.length

instance : Decidable b.WF :=
  decidable_of_iff (b.readIndex ≤ b.writeIndex ∧ b.writeIndex ≤ b.buffer.length ∧
    kCheapPrepend ≤ b.buffer.length)
    ⟨fun ⟨h, h', h''⟩ ↦ ⟨h, h', h''⟩, fun h ↦ ⟨h.1, h.2, h.3⟩⟩

end Buffer

end Mymuduo.Net
