import Mymuduo.Codec

namespace Mymuduo.Net.LengthHeaderCodec

open Framing Execution

theorem readableBytes_cons {buf : ValidBuffer} {b₀ b₁ b₂ b₃ : Byte} {tail : List Byte}
    (h : buf.readable = b₀ :: b₁ :: b₂ :: b₃ :: tail) :
    buf.readableBytes = tail.length + kHeaderLen := by
  simp [ValidBuffer.readableBytes_eq, h, kHeaderLen]

theorem readable_payload {buf : ValidBuffer} {b₀ b₁ b₂ b₃ : Byte} {tail : List Byte}
    (h : buf.readable = b₀ :: b₁ :: b₂ :: b₃ :: tail) :
    (buf.retrive kHeaderLen).readable = tail := by
  rw [ValidBuffer.readable_retrive, h]
  rfl

theorem onMessage_of_short {buf : ValidBuffer} (o : ByteOrder)
    (h : buf.readableBytes < kHeaderLen) : onMessage o buf = some ⟨buf, [], false⟩ := by
  rw [onMessage, dif_neg (by omega)]
  rfl

theorem onMessage_of_header {buf : ValidBuffer} {b₀ b₁ b₂ b₃ : Byte} {tail : List Byte}
    (o : ByteOrder) (h : buf.readable = b₀ :: b₁ :: b₂ :: b₃ :: tail) {len : ℤ}
    (hlen : (b₀ ++ b₁ ++ b₂ ++ b₃ : BitVec 32).toInt = len) :
    onMessage o buf =
      if 65536 < len ∨ len < 0 then some ⟨buf, [], true⟩
      else if len.toNat ≤ tail.length then
        (onMessage o ((buf.retrive kHeaderLen).retrive len.toNat)).map fun r ↦
          { r with messages := tail.take len.toNat :: r.messages }
      else some ⟨buf, [], false⟩ := by
  have hbytes := readableBytes_cons h
  have hpeek : buf.peek kHeaderLen = some [b₀, b₁, b₂, b₃] := by
    rw [ValidBuffer.peek_eq _ (by omega), h]
    rfl
  rw [onMessage, dif_pos (by omega), hpeek]
  simp only [Option.bind_eq_bind, Option.bind_some, readInt32, ByteOrder.be32toh_load32, hlen,
    hbytes, Nat.add_le_add_iff_right, Option.pure_def]
  split_ifs with hbad hfit
  · rfl
  · have hread : (buf.retrive kHeaderLen).peek len.toNat = some (tail.take len.toNat) := by
      rw [ValidBuffer.peek_eq, readable_payload h]
      rw [ValidBuffer.readableBytes_eq, readable_payload h]
      exact hfit
    rw [hread]
    cases onMessage o ((buf.retrive kHeaderLen).retrive len.toNat) <;> rfl
  · rfl

theorem not_badHeader_of_short {xs : List Byte} (h : xs.length < kHeaderLen) : ¬ BadHeader xs := by
  match xs with
  | [] | [_] | [_, _] | [_, _, _] => exact id
  | _ :: _ :: _ :: _ :: _ =>
    simp only [List.length_cons, kHeaderLen] at h
    omega

theorem nextFrame_of_short {xs : List Byte} (h : xs.length < kHeaderLen) : nextFrame xs = none := by
  match xs with
  | [] | [_] | [_, _] | [_, _, _] => rfl
  | _ :: _ :: _ :: _ :: _ =>
    simp only [List.length_cons, kHeaderLen] at h
    omega

/-- A call of `onMessage` returns, delivers the messages of the reference
parser, keeps its remainder, and shuts down just for a bad header. -/
theorem onMessage_spec (o : ByteOrder) (buf : ValidBuffer) :
    ∃ r, onMessage o buf = some r ∧ r.messages = (referenceParse buf.readable).1 ∧
      r.buf.readable = (referenceParse buf.readable).2 ∧
      (r.shutdown = true ↔ BadHeader r.buf.readable) := by
  -- Induction on the readable bytes: every turn that goes on takes a header away.
  induction hn : buf.readable.length using Nat.strongRecOn generalizing buf with
  | ind n ih =>
    match hr : buf.readable with
    | [] | [_] | [_, _] | [_, _, _] =>
      have hshort : buf.readable.length < kHeaderLen := by simp [hr, kHeaderLen]
      have hnone : referenceParse buf.readable = ([], buf.readable) :=
        Framer.drain_of_none (nextFrame_of_short hshort)
      rw [← hr, hnone]
      refine ⟨_, onMessage_of_short o (by rwa [ValidBuffer.readableBytes_eq]), rfl, rfl, ?_⟩
      simpa using not_badHeader_of_short hshort
    | b₀ :: b₁ :: b₂ :: b₃ :: tail =>
      generalize hlen : (b₀ ++ b₁ ++ b₂ ++ b₃ : BitVec 32).toInt = len
      have hturn := onMessage_of_header o hr hlen
      split_ifs at hturn with hbad hfit
      · have hnone : nextFrame (b₀ :: b₁ :: b₂ :: b₃ :: tail) = none :=
          if_pos (by rw [hlen]; exact hbad.symm)
        rw [referenceParse, Framer.drain_of_none hnone]
        refine ⟨_, hturn, rfl, hr, iff_of_true rfl ?_⟩
        rw [hr, BadHeader, hlen]
        exact hbad.symm
      · let rest := (buf.retrive kHeaderLen).retrive len.toNat
        have hrest : rest.readable = tail.drop len.toNat := by
          rw [ValidBuffer.readable_retrive, readable_payload hr]
        have hnext : nextFrame (b₀ :: b₁ :: b₂ :: b₃ :: tail) =
            some (tail.take len.toNat, tail.drop len.toNat) := by
          simp only [nextFrame, hlen]
          rw [if_neg (by omega), if_neg (by omega)]
        have hless : rest.readable.length < n := by
          rw [hrest, List.length_drop, ← hn, hr]
          simp only [List.length_cons]
          omega
        obtain ⟨r, hcall, hmsgs, hbuf, hshut⟩ := ih _ hless rest rfl
        rw [hrest] at hmsgs hbuf
        rw [hcall] at hturn
        refine ⟨_, hturn, ?_, ?_, hshut⟩
        · rw [referenceParse, Framer.drain_of_some hnext]
          exact congrArg (_ :: ·) hmsgs
        · rw [referenceParse, Framer.drain_of_some hnext]
          exact hbuf
      · have hnone : nextFrame (b₀ :: b₁ :: b₂ :: b₃ :: tail) = none := by
          simp only [nextFrame, hlen]
          rw [if_neg (by omega), if_pos (by omega)]
        rw [referenceParse, Framer.drain_of_none hnone]
        refine ⟨_, hturn, rfl, hr, ?_⟩
        simp only [hr, BadHeader, hlen, Bool.false_eq_true, false_iff]
        exact fun h ↦ hbad h.symm

/-- A chunk arrives: it is appended to the connection's buffer and `onMessage`
is called. The answer is the list of messages delivered by that call. -/
def receive (o : ByteOrder) (buf : ValidBuffer) (chunk : List Byte) :
    Option (ValidBuffer × List (List Byte)) :=
  (onMessage o (buf.append chunk)).map fun r ↦ (r.buf, r.messages)

theorem receive_spec (o : ByteOrder) (buf : ValidBuffer) (chunk : List Byte) :
    ∃ buf', receive o buf chunk =
        some (buf', (referenceParse (buf.readable ++ chunk)).1) ∧
      buf'.readable = (referenceParse (buf.readable ++ chunk)).2 := by
  obtain ⟨r, hr, hmsgs, hbuf, -⟩ := onMessage_spec o (buf.append chunk)
  rw [ValidBuffer.readable_append] at hmsgs hbuf
  exact ⟨r.buf, by rw [receive, hr, ← hmsgs]; rfl, hbuf⟩

theorem receive_run (o : ByteOrder) (buf : ValidBuffer) (chunks : List (List Byte))
    (h : frames.next buf.readable = none) :
    ∃ buf' delivered, trace (receive o) buf chunks = some (buf', delivered) ∧
      delivered.flatten = (referenceParse (buf.readable ++ chunks.flatten)).1 ∧
      buf'.readable = (referenceParse (buf.readable ++ chunks.flatten)).2 := by
  induction chunks generalizing buf with
  | nil =>
    have hnone : referenceParse buf.readable = ([], buf.readable) := Framer.drain_of_none h
    exact ⟨buf, [], rfl, by simp [hnone], by simp [hnone]⟩
  | cons chunk chunks ih =>
    obtain ⟨buf₁, hcall, hbuf₁⟩ := receive_spec o buf chunk
    have hnext : frames.next buf₁.readable = none := hbuf₁ ▸ Framer.next_drain _
    obtain ⟨buf', delivered, hrun, hmsgs, hbuf'⟩ := ih buf₁ hnext
    have hwhole : referenceParse (buf.readable ++ (chunk :: chunks).flatten) =
        ((referenceParse (buf.readable ++ chunk)).1 ++
          (referenceParse (buf₁.readable ++ chunks.flatten)).1,
          (referenceParse (buf₁.readable ++ chunks.flatten)).2) := by
      rw [List.flatten_cons, ← List.append_assoc, hbuf₁]
      exact Framer.drain_append _ _
    refine ⟨buf', (referenceParse (buf.readable ++ chunk)).1 :: delivered, ?_, ?_, ?_⟩
    · simp [trace, hcall, hrun]
    · rw [hwhole, List.flatten_cons, hmsgs]
    · rw [hwhole, hbuf']

theorem receive_new (o : ByteOrder) (initialSize : ℕ) (chunks : List (List Byte)) :
    ∃ buf delivered,
      trace (receive o) (ValidBuffer.new initialSize) chunks = some (buf, delivered) ∧
      delivered.flatten = (referenceParse chunks.flatten).1 ∧
      buf.readable = (referenceParse chunks.flatten).2 := by
  have hempty : frames.next (ValidBuffer.new initialSize).readable = none := by
    rw [ValidBuffer.readable_new]
    rfl
  have hrun := receive_run o _ chunks hempty
  rwa [ValidBuffer.readable_new, List.nil_append] at hrun

theorem referenceParse_of_badHeader {xs : List Byte} (h : BadHeader xs) (ys : List Byte) :
    referenceParse (xs ++ ys) = ([], xs ++ ys) :=
  Framer.drain_of_none (h.nextFrame ys).1

/-- Decoding does not depend on how the stream is cut: on a new buffer every
chunk's call of `onMessage` returns, together they deliver the messages of the
reference parser on the whole stream, and the buffer holds the unparsed suffix.
Once a bad header is in front, nothing is delivered any more. -/
theorem decode_chunks (o : ByteOrder) (initialSize : ℕ) (chunks : List (List Byte)) :
    ∃ buf delivered,
      trace (receive o) (ValidBuffer.new initialSize) chunks = some (buf, delivered) ∧
      delivered.flatten = (referenceParse chunks.flatten).1 ∧
      buf.readable = (referenceParse chunks.flatten).2 ∧
      (BadHeader buf.readable → ∀ later, ∃ buf' silent,
        trace (receive o) buf later = some (buf', silent) ∧ silent.flatten = [] ∧
          buf'.readable = buf.readable ++ later.flatten) := by
  obtain ⟨buf, delivered, hrun, hmsgs, hbuf⟩ := receive_new o initialSize chunks
  refine ⟨buf, delivered, hrun, hmsgs, hbuf, fun hbad later ↦ ?_⟩
  have hnext : frames.next buf.readable = none := hbuf ▸ Framer.next_drain _
  obtain ⟨buf', silent, hrun', hmsgs', hbuf'⟩ := receive_run o buf later hnext
  rw [referenceParse_of_badHeader hbad] at hmsgs' hbuf'
  exact ⟨buf', silent, hrun', hmsgs', hbuf'⟩

theorem header_spec (o : ByteOrder) (message : List Byte) :
    ∃ b₀ b₁ b₂ b₃, header o message = [b₀, b₁, b₂, b₃] ∧
      (b₀ ++ b₁ ++ b₂ ++ b₃ : BitVec 32) = BitVec.ofNat 32 message.length :=
  ⟨_, _, _, _, header_eq o message, ByteOrder.append_extract _⟩

theorem header_value {message : List Byte} {w : BitVec 32}
    (hw : w = BitVec.ofNat 32 message.length) (h : message.length ≤ 65536) :
    w.toInt = message.length := by
  rw [hw, BitVec.toInt_ofNat', Int.bmod_eq_of_le] <;> omega

theorem header_fits (o : ByteOrder) (message : List Byte) :
    (header o message).length ≤
      ((ValidBuffer.new Buffer.kInitialSize).append message).prependableBytes := by
  obtain ⟨_, _, _, _, hheader, -⟩ := header_spec o message
  have hcheap := ValidBuffer.append_prependable (ValidBuffer.new Buffer.kInitialSize) message le_rfl
  rw [hheader]
  exact le_trans (show kHeaderLen ≤ Buffer.kCheapPrepend by decide) hcheap

theorem send_spec (o : ByteOrder) (message : List Byte) :
    ∃ buf, send o message = some [buf] ∧ buf.readable = header o message ++ message := by
  refine ⟨_, dif_pos (header_fits o message), ?_⟩
  rw [ValidBuffer.readable_prepend, ValidBuffer.readable_append, ValidBuffer.readable_new,
    List.nil_append]

theorem nextFrame_sent (o : ByteOrder) {message : List Byte} (h : message.length ≤ 65536)
    (ys : List Byte) :
    nextFrame (header o message ++ message ++ ys) = some (message, ys) := by
  obtain ⟨b₀, b₁, b₂, b₃, hheader, hvalue⟩ := header_spec o message
  rw [hheader, List.append_assoc]
  exact nextFrame_of_header (header_value hvalue h) h ys

/-- Decoding undoes encoding: the frames that `send` builds for messages within
the limit, on a host of any byte order and cut in any way, are delivered as
these messages and leave nothing behind. -/
theorem decode_encode (o o' : ByteOrder) (initialSize : ℕ) (messages : List (List Byte))
    (h : ∀ message ∈ messages, message.length ≤ 65536) :
    ∃ sent, messages.mapM (send o) = some sent ∧
      (∀ message ∈ messages, (header o message).length ≤
        ((ValidBuffer.new Buffer.kInitialSize).append message).prependableBytes) ∧
      ∀ chunks : List (List Byte), chunks.flatten = sent.flatten.flatMap ValidBuffer.readable →
        ∃ buf delivered,
          trace (receive o') (ValidBuffer.new initialSize) chunks = some (buf, delivered) ∧
          delivered.flatten = messages ∧ buf.readable = [] := by
  have hsent : ∃ sent, messages.mapM (send o) = some sent ∧
      sent.flatten.flatMap ValidBuffer.readable =
        messages.flatMap fun message ↦ header o message ++ message := by
    clear h
    induction messages with
    | nil => exact ⟨[], rfl, rfl⟩
    | cons message messages ih =>
      obtain ⟨buf, hbuf, hread⟩ := send_spec o message
      obtain ⟨sent, hsent, hstream⟩ := ih
      refine ⟨[buf] :: sent, by simp [hbuf, hsent], ?_⟩
      simp [hread, hstream]
  obtain ⟨sent, hmap, hstream⟩ := hsent
  refine ⟨sent, hmap, fun message _ ↦ header_fits o message, fun chunks hchunks ↦ ?_⟩
  obtain ⟨buf, delivered, hrun, hmsgs, hbuf⟩ := receive_new o' initialSize chunks
  have hdrain : referenceParse chunks.flatten = (messages, []) := by
    rw [hchunks, hstream]
    exact Framer.drain_flatMap fun message hm ys ↦ nextFrame_sent o (h message hm) ys
  rw [hdrain] at hmsgs hbuf
  exact ⟨buf, delivered, hrun, hmsgs, hbuf⟩

theorem decode_encode_two :
    ∃ sent, [[], [0xff, 0]].mapM (send .little) = some sent ∧
      (∀ message ∈ [[], [0xff, 0]], (header .little message).length ≤
        ((ValidBuffer.new Buffer.kInitialSize).append message).prependableBytes) ∧
      ∀ chunks : List (List Byte), chunks.flatten = sent.flatten.flatMap ValidBuffer.readable →
        ∃ buf delivered,
          trace (receive .big) (ValidBuffer.new 16) chunks = some (buf, delivered) ∧
          delivered.flatten = [[], [0xff, 0]] ∧ buf.readable = [] :=
  decode_encode .little .big 16 [[], [0xff, 0]] (by decide)

def headerValue : List Byte → Option ℤ
  | b₀ :: b₁ :: b₂ :: b₃ :: _ => some (b₀ ++ b₁ ++ b₂ ++ b₃ : BitVec 32).toInt
  | _ => none

/-- What `send` is for: either it passes nothing on, or one frame with the true
length in its header that a peer takes for this one message. -/
def FramedWell (o o' : ByteOrder) (message : List Byte) : Prop :=
  ∃ sent, send o message = some sent ∧ (sent = [] ∨
    ∃ buf, sent = [buf] ∧ headerValue buf.readable = some (message.length : ℤ) ∧
      ∃ r, onMessage o' ((ValidBuffer.new Buffer.kInitialSize).append buf.readable) = some r ∧
        r.messages = [message] ∧ r.buf.readable = [] ∧ r.shutdown = false)

theorem FramedWell.length_le {o o' : ByteOrder} {message : List Byte}
    (h : FramedWell o o' message) : message.length ≤ 65536 := by
  obtain ⟨sent, hsent, hcase⟩ := h
  obtain ⟨buf, hbuf, hread⟩ := send_spec o message
  obtain rfl : [buf] = sent := Option.some.inj (hbuf.symm.trans hsent)
  obtain hnil | ⟨buf', hone, hvalue, r, hr, hmsgs, -, -⟩ := hcase
  · cases hnil
  · obtain rfl : buf = buf' := List.singleton_inj.mp hone
    obtain ⟨b₀, b₁, b₂, b₃, hheader, -⟩ := header_spec o message
    rw [hread, hheader] at hvalue
    have hlen : (b₀ ++ b₁ ++ b₂ ++ b₃ : BitVec 32).toInt = message.length :=
      Option.some.inj hvalue
    by_contra hlong
    have hbad : BadHeader buf.readable := by
      rw [hread, hheader]
      exact Or.inr (by omega)
    obtain ⟨r', hr', hmsgs', -, -⟩ := onMessage_spec o'
      ((ValidBuffer.new Buffer.kInitialSize).append buf.readable)
    obtain rfl : r = r' := Option.some.inj (hr.symm.trans hr')
    have hnone := referenceParse_of_badHeader hbad []
    rw [List.append_nil] at hnone
    rw [ValidBuffer.readable_append, ValidBuffer.readable_new, List.nil_append, hnone,
      hmsgs] at hmsgs'
    cases hmsgs'

/-- `send` keeps its promise exactly up to the limit of the receiving side. -/
theorem framedWell_iff (o o' : ByteOrder) (message : List Byte) :
    FramedWell o o' message ↔ message.length ≤ 65536 := by
  refine ⟨FramedWell.length_le, fun h ↦ ?_⟩
  obtain ⟨buf, hbuf, hread⟩ := send_spec o message
  obtain ⟨b₀, b₁, b₂, b₃, hheader, hvalue⟩ := header_spec o message
  obtain ⟨r, hr, hmsgs, hrest, hshut⟩ := onMessage_spec o'
    ((ValidBuffer.new Buffer.kInitialSize).append buf.readable)
  have hdrain : referenceParse buf.readable = ([message], []) := by
    rw [hread, ← List.append_nil (header o message ++ message), referenceParse,
      Framer.drain_of_some (nextFrame_sent o h []), Framer.drain_nil]
  rw [ValidBuffer.readable_append, ValidBuffer.readable_new, List.nil_append, hdrain] at hmsgs hrest
  refine ⟨[buf], hbuf, .inr ⟨buf, rfl, ?_, r, hr, hmsgs, hrest, ?_⟩⟩
  · rw [hread, hheader]
    exact congrArg some (header_value hvalue h)
  · rw [hrest] at hshut
    simpa [BadHeader] using hshut

theorem not_framedWell_65537 : ¬ FramedWell .little .little (List.replicate 65537 0) := by
  intro h
  have hle := h.length_le
  rw [List.length_replicate] at hle
  omega

end Mymuduo.Net.LengthHeaderCodec
