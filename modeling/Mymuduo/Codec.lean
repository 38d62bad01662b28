import Mymuduo.ValidBuffer
import Mymuduo.ByteOrder
import Mymuduo.Lib.Execution
import Mymuduo.Lib.Framing

namespace Mymuduo.Net.LengthHeaderCodec

open Framing

def kHeaderLen : ℕ := 4

/-- The buffer after a call of `onMessage`, the messages given to
`messageCallback_` in order, and whether `conn->shutdown()` was called. -/
structure OnMessage where
  buf : ValidBuffer
  messages : List (List Byte)
  shutdown : Bool

def readInt32 (o : ByteOrder) : List Byte → Option (BitVec 32)
  | [b₀, b₁, b₂, b₃] => some (o.load32 b₀ b₁ b₂ b₃)
  | _ => none

/-- The loop of `onMessage`; `none` when a read leaves the buffer. -/
def onMessage (o : ByteOrder) (buf : ValidBuffer) : Option OnMessage :=
  if _h : kHeaderLen ≤ buf.readableBytes then do
    let data ← buf.peek kHeaderLen
    let be32 ← readInt32 o data
    let len := (o.be32toh be32).toInt
    if 65536 < len ∨ len < 0 then
      return ⟨buf, [], true⟩
    -- `len` is not negative here, so its conversion to `size_t` keeps it
    else if len.toNat + kHeaderLen ≤ buf.readableBytes then
      let payload := buf.retrive kHeaderLen
      let message ← payload.peek len.toNat
      let rest ← onMessage o (payload.retrive len.toNat)
      return { rest with messages := message :: rest.messages }
    else
      return ⟨buf, [], false⟩
  else
    return ⟨buf, [], false⟩
termination_by buf.readableBytes
decreasing_by
  simp only [ValidBuffer.readableBytes_eq, ValidBuffer.readable_retrive, List.length_drop] at _h ⊢
  simp only [kHeaderLen] at _h ⊢
  omega

def header (o : ByteOrder) (message : List Byte) : List Byte :=
  o.store32 (o.htobe32 (BitVec.ofNat 32 message.length))

theorem header_eq (o : ByteOrder) (message : List Byte) :
    header o message = ByteOrder.store32 .big (BitVec.ofNat 32 message.length) :=
  ByteOrder.store32_htobe32 o _

/-- The buffers that `send` passes to `conn->send`, in order; `none` when the
header does not fit in front of the message. -/
def send (o : ByteOrder) (message : List Byte) : Option (List ValidBuffer) :=
  let buf := (ValidBuffer.new Buffer.kInitialSize).append message
  if h : (header o message).length ≤ buf.prependableBytes then
    some [buf.prepend (header o message) h]
  else
    none

/-- The reference parser: one frame off the front of the stream. -/
def nextFrame : List Byte → Option (List Byte × List Byte)
  | b₀ :: b₁ :: b₂ :: b₃ :: rest =>
    let len := (b₀ ++ b₁ ++ b₂ ++ b₃ : BitVec 32).toInt
    if len < 0 ∨ 65536 < len then none
    else if rest.length < len.toNat then none
    else some (rest.take len.toNat, rest.drop len.toNat)
  | _ => none

def BadHeader : List Byte → Prop
  | b₀ :: b₁ :: b₂ :: b₃ :: _ =>
    let len := (b₀ ++ b₁ ++ b₂ ++ b₃ : BitVec 32).toInt
    len < 0 ∨ 65536 < len
  | _ => False

instance : DecidablePred BadHeader := fun xs ↦
  match xs with
  | b₀ :: b₁ :: b₂ :: b₃ :: _ =>
    inferInstanceAs (Decidable ((b₀ ++ b₁ ++ b₂ ++ b₃ : BitVec 32).toInt < 0 ∨
      65536 < (b₀ ++ b₁ ++ b₂ ++ b₃ : BitVec 32).toInt))
  | [] | [_] | [_, _] | [_, _, _] => .isFalse id

theorem nextFrame_eq_some {xs message rest : List Byte}
    (h : nextFrame xs = some (message, rest)) :
    ∃ b₀ b₁ b₂ b₃, xs = b₀ :: b₁ :: b₂ :: b₃ :: (message ++ rest) ∧
      (b₀ ++ b₁ ++ b₂ ++ b₃ : BitVec 32).toInt = message.length ∧ message.length ≤ 65536 := by
  match xs with
  | b₀ :: b₁ :: b₂ :: b₃ :: tail =>
    simp only [nextFrame] at h
    split_ifs at h with hbad hshort
    simp only [Option.some.injEq, Prod.mk.injEq] at h
    obtain ⟨rfl, rfl⟩ := h
    refine ⟨b₀, b₁, b₂, b₃, by rw [List.take_append_drop], ?_, ?_⟩ <;>
    · rw [List.length_take]
      omega
  | [] | [_] | [_, _] | [_, _, _] => simp [nextFrame] at h

theorem nextFrame_of_header {b₀ b₁ b₂ b₃ : Byte} {message : List Byte}
    (hlen : (b₀ ++ b₁ ++ b₂ ++ b₃ : BitVec 32).toInt = message.length)
    (hmax : message.length ≤ 65536) (ys : List Byte) :
    nextFrame (b₀ :: b₁ :: b₂ :: b₃ :: (message ++ ys)) = some (message, ys) := by
  simp only [nextFrame, hlen, Int.toNat_natCast, List.length_append]
  rw [if_neg (by omega), if_neg (by omega), List.take_left, List.drop_left]

def frames : Framer Byte (List Byte) where
  next := nextFrame
  shorter h := by
    obtain ⟨_, _, _, _, rfl, -, -⟩ := nextFrame_eq_some h
    simp only [List.length_cons, List.length_append]
    omega
  stable ys h := by
    obtain ⟨_, _, _, _, rfl, hlen, hmax⟩ := nextFrame_eq_some h
    rw [List.cons_append, List.cons_append, List.cons_append, List.cons_append,
      List.append_assoc]
    exact nextFrame_of_header hlen hmax _

def referenceParse (stream : List Byte) : List (List Byte) × List Byte := frames.drain stream

theorem BadHeader.nextFrame {xs : List Byte} (h : BadHeader xs) (ys : List Byte) :
    nextFrame (xs ++ ys) = none ∧ BadHeader (xs ++ ys) := by
  match xs with
  | b₀ :: b₁ :: b₂ :: b₃ :: tail => exact ⟨if_pos h, h⟩
  | [] | [_] | [_, _] | [_, _, _] => exact h.elim

end Mymuduo.Net.LengthHeaderCodec
