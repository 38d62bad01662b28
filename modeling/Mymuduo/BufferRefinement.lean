import Mymuduo.BufferSpec
import Mymuduo.Lib.Execution

namespace Mymuduo.Net

open Execution

/-- A call of a public operation, with the kernel's answer to its system call. -/
inductive BufferOp
  | append (data : List Byte)
  | prepend (data : List Byte)
  | retrive (len : ℕ)
  | retrieveAll
  | retriveAsString (len : ℕ)
  | retriveAllAsString
  | ensureWriteableBytes (len : ℕ)
  | readFd (n : ReadResult)
  | writeFd (n : WriteResult)
deriving DecidableEq, Repr

/-- What the caller gets back; `fd` also lists the bytes given to the kernel. -/
inductive Answer
  | unit
  | string (s : List Byte)
  | fd (n : ℤ) (taken : List Byte)
deriving DecidableEq, Repr

namespace Buffer

def step (b : Buffer) : BufferOp → Option (Buffer × Answer)
  | .append data => (b.append data).map (·, .unit)
  | .prepend data => (b.prepend data).map (·, .unit)
  | .retrive len => some (b.retrive len, .unit)
  | .retrieveAll => some (b.retrieveAll, .unit)
  | .retriveAsString len => (b.retriveAsString len).map fun (s, b) ↦ (b, .string s)
  | .retriveAllAsString => b.retriveAllAsString.map fun (s, b) ↦ (b, .string s)
  | .ensureWriteableBytes len => (b.ensureWriteableBytes len).map (·, .unit)
  | .readFd n => (b.readFd n).map (·, .fd n.value [])
  | .writeFd n => (b.writeFd n).map fun (taken, b) ↦ (b, .fd n.value taken)

def Pre (b : Buffer) : BufferOp → Prop
  | .prepend data => data.length ≤ b.prependableBytes
  | .retriveAsString len => len ≤ b.readableBytes
  | .readFd n => n.Possible b.readvLength
  | .writeFd n => n.Possible b.readableBytes
  | _ => True

instance : ∀ (b : Buffer) (op : BufferOp), Decidable (b.Pre op)
  | b, .prepend data => inferInstanceAs (Decidable (data.length ≤ b.prependableBytes))
  | b, .retriveAsString len => inferInstanceAs (Decidable (len ≤ b.readableBytes))
  | b, .readFd n => inferInstanceAs (Decidable (n.Possible b.readvLength))
  | b, .writeFd n => inferInstanceAs (Decidable (n.Possible b.readableBytes))
  | _, .append _ | _, .retrive _ | _, .retrieveAll | _, .retriveAllAsString
  | _, .ensureWriteableBytes _ => .isTrue trivial

end Buffer

namespace ByteQueue

def step (q : List Byte) : BufferOp → List Byte × Answer
  | .append data => (q ++ data, .unit)
  | .prepend data => (data ++ q, .unit)
  | .retrive len => (q.drop (min len q.length), .unit)
  | .retrieveAll => ([], .unit)
  | .retriveAsString len => (q.drop len, .string (q.take len))
  | .retriveAllAsString => ([], .string q)
  | .ensureWriteableBytes _ => (q, .unit)
  | .readFd (.read bytes) => (q ++ bytes, .fd bytes.length [])
  | .readFd (.error _) => (q, .fd (-1) [])
  | .writeFd (.wrote n) => (q.drop n, .fd n (q.take n))
  | .writeFd (.error _) => (q, .fd (-1) [])

end ByteQueue

namespace Buffer

structure Represents (b : Buffer) (q : List Byte) : Prop where
  wf : b.WF
  readable_eq : b.readable = q

theorem retrive_represents {b : Buffer} (h : b.WF) (len : ℕ) :
    (b.retrive len).Represents (b.readable.drop len) :=
  ⟨retrive_wf h len, readable_retrive h len⟩

theorem step_represents {b : Buffer} {q : List Byte} {op : BufferOp} (h : b.Represents q)
    (hpre : b.Pre op) :
    ∃ b', b.step op = some (b', (ByteQueue.step q op).2) ∧
      b'.Represents (ByteQueue.step q op).1 := by
  obtain ⟨hwf, rfl⟩ := h
  cases op with
  | append data =>
    obtain ⟨b', hb', h', hr⟩ := append_spec hwf data
    exact ⟨b', by simp [step, ByteQueue.step, hb'], h', hr⟩
  | prepend data =>
    obtain ⟨b', hb', h', hr⟩ := prepend_spec hwf hpre
    exact ⟨b', by simp [step, ByteQueue.step, hb'], h', hr⟩
  | retrive len =>
    refine ⟨_, rfl, retrive_wf hwf len, ?_⟩
    simp only [ByteQueue.step, readable_retrive hwf]
    rcases Nat.le_total len b.readable.length with hlen | hlen
    · rw [Nat.min_eq_left hlen]
    · rw [Nat.min_eq_right hlen, List.drop_length, List.drop_eq_nil_of_le hlen]
  | retrieveAll => exact ⟨_, rfl, retrieveAll_wf hwf, readable_retrieveAll⟩
  | retriveAsString len =>
    refine ⟨_, by simp [step, ByteQueue.step, retriveAsString_eq hwf hpre],
      retrive_represents hwf len⟩
  | retriveAllAsString =>
    refine ⟨b.retrive b.readableBytes, by simp [step, ByteQueue.step, retriveAllAsString_eq hwf],
      retrive_wf hwf _, ?_⟩
    rw [readable_retrive hwf, ← readable_length hwf, List.drop_length]
    rfl
  | ensureWriteableBytes len =>
    obtain ⟨b', hb', h', hr, -⟩ := ensureWriteableBytes_spec hwf len
    exact ⟨b', by simp [step, ByteQueue.step, hb'], h', hr⟩
  | readFd n =>
    cases n with
    | read bytes =>
      obtain ⟨b', hb', h', hr⟩ := readFd_spec hwf hpre
      exact ⟨b', by simp [step, ByteQueue.step, hb', ReadResult.value], h', hr⟩
    | error err => exact ⟨b, rfl, hwf, rfl⟩
  | writeFd n =>
    cases n with
    | wrote n =>
      exact ⟨_, by simp [step, ByteQueue.step, writeFd_wrote hwf, WriteResult.value],
        retrive_represents hwf n⟩
    | error err =>
      exact ⟨b, by simp [step, ByteQueue.step, writeFd_error hwf, WriteResult.value], hwf, rfl⟩

/-- Along every legal sequence of operations on a new buffer no access leaves
the vector, the indices stay ordered and the answers and the readable bytes are
those of the byte queue. -/
theorem refines_byteQueue (initialSize : ℕ) (ops : List BufferOp)
    (h : AlongTrace step Pre (new initialSize) ops) :
    ∃ b, trace step (new initialSize) ops = some (b, (traceTotal ByteQueue.step [] ops).2) ∧
      b.readIndex ≤ b.writeIndex ∧ b.writeIndex ≤ b.bufferSize ∧
      kCheapPrepend ≤ b.bufferSize ∧ b.readable = (traceTotal ByteQueue.step [] ops).1 := by
  have hstep (b : Buffer) (q : List Byte) (op : BufferOp) (hr : b.Represents q) (hpre : b.Pre op) :=
    step_represents hr hpre
  obtain ⟨b, hb, hr⟩ := trace_refines hstep ⟨new_wf initialSize, readable_new initialSize⟩ h
  exact ⟨b, hb, hr.wf.read_le_write, hr.wf.write_le_size, hr.wf.cheap_le_size, hr.readable_eq⟩

theorem refines_byteQueue_mixed :
    ∃ b, trace step (new 3) [.append [1, 2, 3], .retrive 2, .append [4, 5], .prepend [9],
        .retriveAsString 2, .readFd (.error .EINTR), .writeFd (.wrote 1)] =
          some (b, [.unit, .unit, .unit, .unit, .string [9, 3], .fd (-1) [], .fd 1 [4]]) ∧
      b.readIndex ≤ b.writeIndex ∧ b.writeIndex ≤ b.bufferSize ∧
      kCheapPrepend ≤ b.bufferSize ∧ b.readable = [5] :=
  refines_byteQueue 3 _ (by decide)

end Buffer

end Mymuduo.Net
