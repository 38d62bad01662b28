import Mymuduo.TcpConnection
import Mymuduo.Lib.Execution

namespace Mymuduo.Net.TcpConnection

open Execution

variable (c : TcpConnection)

/-- What the kernel has taken, followed by what waits for it. -/
def stream : List Byte := c.written ++ c.outputBuffer.readable

@[simp] theorem written_did (a : Action) : (c.did a).written = c.written ++ a.taken := by
  simp [written, did]

@[simp] theorem written_setState (s : StateE) : (c.setState s).written = c.written := rfl

@[simp] theorem written_setChannel (r : EpollPoller × Channel) :
    (c.setChannel r).written = c.written := rfl

theorem stream_did (a : Action) (h : a.taken = []) : (c.did a).stream = c.stream := by
  rw [stream, written_did, h, List.append_nil]
  rfl

def SendLocals.rest (l : SendLocals) (mem : Mem) (data : ℤ) : List Byte :=
  if !l.faultError && decide (0 < l.remaining) then
    mem.bytesAt (data + l.nwrote) l.remaining.toNat
  else []

theorem stream_bufferRest (mem : Mem) (data : ℤ) (l : SendLocals) :
    (c.bufferRest mem data l).stream = c.stream ++ l.rest mem data ∧
      (c.bufferRest mem data l).state = c.state := by
  unfold bufferRest SendLocals.rest
  split
  · dsimp only
    split <;> split <;> simp [stream, written, queueInLoop, setChannel, Action.taken]
  · exact ⟨(List.append_nil _).symm, rfl⟩

theorem state_directWrite (mem : Mem) (data : ℤ) (len : ℕ) (n : WriteResult) :
    (c.directWrite mem data len n).1.state = c.state := by
  simp only [directWrite]
  cases n with
  | wrote n =>
    dsimp only
    split <;> rfl
  | error err => rfl

@[simp] theorem state_sendInLoop (call : Call) (mem : Mem) (data : ℤ) (len : ℕ) (n : WriteResult) :
    (c.sendInLoop call mem data len n).state = c.state := by
  simp only [sendInLoop]
  split_ifs
  · rfl
  · exact (stream_bufferRest _ _ _ _).2.trans (state_directWrite _ _ _ _ _)
  · exact (stream_bufferRest _ _ _ _).2

theorem stream_sendInLoop_buffered {call : Call} {mem : Mem} {data : ℤ} {len : ℕ} {n : WriteResult}
    (hstate : c.state ≠ .kDisconnected) (hw : c.writesAtOnce = false) :
    (c.sendInLoop call mem data len n).stream = c.stream ++ mem.bytesAt data len := by
  have hrest : SendLocals.rest ⟨0, len, false⟩ mem data = mem.bytesAt data len := by
    simp only [SendLocals.rest, Bool.not_false, Bool.true_and, decide_eq_true_eq, Int.add_zero,
      Int.toNat_natCast]
    split_ifs with hlen
    · rfl
    · rw [show len = 0 by omega, Mem.bytesAt_zero]
  have hw' : (c.did (.sendInLoop call (mem.bytesAt data len))).writesAtOnce = false := hw
  simp only [sendInLoop, if_neg (show ¬ (c.did _).state = .kDisconnected from hstate), hw',
    Bool.false_eq_true, if_false, (stream_bufferRest _ _ _ _).1, hrest]
  rw [stream_did _ _ rfl]

theorem readable_of_writesAtOnce {c : TcpConnection} (hw : c.writesAtOnce = true) :
    c.outputBuffer.readable = [] := by
  simp only [writesAtOnce, Bool.and_eq_true, beq_iff_eq] at hw
  exact ValidBuffer.readableBytes_eq_zero.mp hw.2

theorem stream_sendInLoop_wrote {call : Call} {mem : Mem} {data : ℤ} {len n : ℕ}
    (hstate : c.state ≠ .kDisconnected) (hw : c.writesAtOnce = true) (hn : n ≤ len) :
    (c.sendInLoop call mem data len (.wrote n)).stream = c.stream ++ mem.bytesAt data len := by
  have hempty := readable_of_writesAtOnce hw
  have hrest : SendLocals.rest ⟨n, (len : ℤ) - n, false⟩ mem data =
      mem.bytesAt (data + n) (len - n) := by
    simp only [SendLocals.rest, Bool.not_false, Bool.true_and, decide_eq_true_eq]
    split_ifs with hlen
    · congr 1
      omega
    · rw [show len - n = 0 by omega, Mem.bytesAt_zero]
  have hw' : (c.did (.sendInLoop call (mem.bytesAt data len))).writesAtOnce = true := hw
  simp only [sendInLoop, if_neg (show ¬ (c.did _).state = .kDisconnected from hstate), hw', if_true,
    (stream_bufferRest _ _ _ _).1, directWrite, hrest]
  have htaken : ∀ c' : TcpConnection, c'.outputBuffer = c.outputBuffer →
      c'.written = c.written ++ mem.bytesAt data n →
      c'.stream ++ mem.bytesAt (data + n) (len - n) = c.stream ++ mem.bytesAt data len := by
    intro c' hbuf hwritten
    have hsplit := Mem.bytesAt_add mem data n (len - n)
    rw [Nat.add_sub_cancel' hn] at hsplit
    rw [stream, hbuf, hwritten, stream, hempty, List.append_nil, List.append_nil, hsplit,
      List.append_assoc]
  split
  · exact htaken _ rfl (by simp [Action.taken, Mem.bytesAt_take mem hn])
  · exact htaken _ rfl (by simp [Action.taken, Mem.bytesAt_take mem hn])

/-- A refused direct write leaves `nwrote` at -1: what is buffered starts one
byte in front of the message and misses its last byte. -/
theorem stream_sendInLoop_refused {call : Call} {mem : Mem} {data : ℤ} {len : ℕ} {err : Errno}
    (hstate : c.state ≠ .kDisconnected) (hw : c.writesAtOnce = true)
    (herr : ¬ (WriteResult.error err).Fault) :
    (c.sendInLoop call mem data len (.error err)).stream =
      c.stream ++ mem.bytesAt (data - 1) len := by
  have hfault : ¬ (err = .EPIPE ∨ err = .ECONNRESET) := by
    simpa [WriteResult.Fault] using herr
  have hw' : (c.did (.sendInLoop call (mem.bytesAt data len))).writesAtOnce = true := hw
  simp only [sendInLoop, if_neg (show ¬ (c.did _).state = .kDisconnected from hstate), hw', if_true,
    (stream_bufferRest _ _ _ _).1, directWrite, SendLocals.rest, hfault, and_false, decide_false,
    Bool.not_false, Bool.true_and, decide_eq_true_eq, Int.toNat_natCast]
  rw [stream_did _ _ rfl, stream_did _ _ rfl]
  split_ifs with hlen
  · rfl
  · rw [show len = 0 by omega, Mem.bytesAt_zero]

def Refuses (len : ℕ) (n : WriteResult) : Prop :=
  n.value < 0 ∧ 0 < len ∧ c.writesAtOnce = true

instance (len : ℕ) (n : WriteResult) : Decidable (c.Refuses len n) :=
  inferInstanceAs (Decidable (_ ∧ _))

theorem stream_sendInLoop {call : Call} {mem : Mem} {data : ℤ} {len : ℕ} {n : WriteResult}
    (hstate : c.state ≠ .kDisconnected) (hn : n.Possible len) (hfault : ¬ n.Fault)
    (hrefuses : ¬ c.Refuses len n) :
    (c.sendInLoop call mem data len n).stream = c.stream ++ mem.bytesAt data len := by
  cases hw : c.writesAtOnce with
  | false => exact c.stream_sendInLoop_buffered hstate hw
  | true =>
    cases n with
    | wrote n => exact c.stream_sendInLoop_wrote hstate hw hn
    | error err =>
      have hlen : len = 0 := by
        simp only [Refuses, WriteResult.value, hw, and_true] at hrefuses
        omega
      rw [c.stream_sendInLoop_refused hstate hw hfault, hlen, Mem.bytesAt_zero, Mem.bytesAt_zero]

@[simp] theorem stream_flush (n : WriteResult) : (c.flush n).stream = c.stream := by
  cases n with
  | wrote n => simp [flush, stream, written, did, Action.taken, ValidBuffer.writeFd]
  | error err => simp [flush, stream, written, did, Action.taken, ValidBuffer.writeFd]

@[simp] theorem stream_stopWriting : c.stopWriting.stream = c.stream := by
  simp only [stopWriting]
  split
  · simp [stream, written, queueInLoop, setChannel, Action.taken]
  · rfl

@[simp] theorem state_stopWriting : c.stopWriting.state = c.state := by
  simp only [stopWriting]
  split <;> rfl

@[simp] theorem stream_shutdownInLoop : c.shutdownInLoop.stream = c.stream := by
  rw [shutdownInLoop]
  split
  · rfl
  · exact c.stream_did _ rfl

@[simp] theorem state_shutdownInLoop : c.shutdownInLoop.state = c.state := by
  rw [shutdownInLoop]
  split <;> rfl

@[simp] theorem stream_handleWrite (n : WriteResult) : (c.handleWrite n).stream = c.stream := by
  simp only [handleWrite]
  split_ifs <;> simp

@[simp] theorem state_handleWrite (n : WriteResult) : (c.handleWrite n).state = c.state := by
  have hflush : (c.flush n).state = c.state := rfl
  simp only [handleWrite]
  split_ifs <;> simp [hflush]

inductive OutputEvent
  | sendInLoop (call : Call) (mem : Mem) (data : ℤ) (len : ℕ) (n : WriteResult)
  | handleWrite (n : WriteResult)

namespace OutputEvent

def message : OutputEvent → List Byte
  | sendInLoop _ mem data len _ => mem.bytesAt data len
  | handleWrite _ => []

end OutputEvent

def outputStep : OutputEvent → Option TcpConnection
  | .sendInLoop call mem data len n =>
    if n.Possible len ∧ ¬ n.Fault then some (c.sendInLoop call mem data len n) else none
  | .handleWrite n =>
    if n.Possible c.outputBuffer.readableBytes ∧ ¬ n.Fault then some (c.handleWrite n) else none

/-- The step is no direct write of a non-empty message that the kernel refuses. -/
def NotRefused : OutputEvent → Prop
  | .sendInLoop _ _ _ len n => ¬ c.Refuses len n
  | .handleWrite _ => True

theorem outputStep_stream {c c' : TcpConnection} {e : OutputEvent}
    (hstate : c.state ≠ .kDisconnected) (hcond : c.NotRefused e) (h : c.outputStep e = some c') :
    c'.state ≠ .kDisconnected ∧ c'.stream = c.stream ++ e.message := by
  cases e with
  | sendInLoop call mem data len n =>
    obtain ⟨⟨hn, hfault⟩, rfl⟩ : _ ∧ c.sendInLoop call mem data len n = c' := by
      simpa [outputStep] using h
    exact ⟨by rwa [state_sendInLoop], c.stream_sendInLoop hstate hn hfault hcond⟩
  | handleWrite n =>
    obtain ⟨-, rfl⟩ : _ ∧ c.handleWrite n = c' := by simpa [outputStep] using h
    refine ⟨by rwa [state_handleWrite], ?_⟩
    rw [stream_handleWrite]
    exact (List.append_nil _).symm

/-- After every run on an established connection in which the kernel refuses no
direct write of a message, the output stream is the messages in call order. -/
theorem output_stream_exact (fd ptr : ℕ) (poller : EpollPoller) (callbacks : Callbacks)
    (es : List OutputEvent) (c : TcpConnection)
    (hrun : run outputStep (new fd ptr poller callbacks).connectEstablished es = some c)
    (hcond : Along outputStep NotRefused (new fd ptr poller callbacks).connectEstablished es) :
    c.written ++ c.outputBuffer.readable = es.flatMap OutputEvent.message := by
  have hstep (c : TcpConnection) (e : OutputEvent) (c' : TcpConnection)
      (hs : c.state ≠ .kDisconnected) (hg : c.NotRefused e) (h : c.outputStep e = some c') :=
    outputStep_stream hs hg h
  have hstart : (new fd ptr poller callbacks).connectEstablished.state ≠ .kDisconnected := by
    simp [connectEstablished, did, setChannel, setState]
  have hsum := run_accumulates hstep hstart hcond hrun
  have hempty : (new fd ptr poller callbacks).connectEstablished.stream = [] := by
    simp [stream, written, connectEstablished, did, setChannel, setState, new, Action.taken]
  rw [hempty, List.nil_append] at hsum
  exact hsum

def established : TcpConnection :=
  (new 5 0 .empty ⟨true, true, false, true⟩).connectEstablished

theorem output_stream_exact_partial :
    ∃ c, run outputStep established [.sendInLoop ⟨0, .string 0 2, [0, 1]⟩ .numbered 0 2 (.wrote 1),
        .sendInLoop ⟨1, .string 7 1, [7]⟩ .numbered 7 1 (.wrote 0), .handleWrite (.wrote 1)] =
          some c ∧
      c.written ++ c.outputBuffer.readable = [0, 1, 7] := by
  obtain ⟨c, hc⟩ := Option.isSome_iff_exists.mp (show (run outputStep established
    [.sendInLoop ⟨0, .string 0 2, [0, 1]⟩ .numbered 0 2 (.wrote 1),
      .sendInLoop ⟨1, .string 7 1, [7]⟩ .numbered 7 1 (.wrote 0), .handleWrite (.wrote 1)]).isSome
    by decide +kernel)
  refine ⟨c, hc, ?_⟩
  exact output_stream_exact 5 0 .empty ⟨true, true, false, true⟩ _ c hc
    (along_cons.mpr ⟨by simp [NotRefused, Refuses, WriteResult.value], fun _ _ ↦
      along_cons.mpr ⟨by simp [NotRefused, Refuses, WriteResult.value], fun _ _ ↦
        along_cons.mpr ⟨trivial, fun _ _ ↦ trivial⟩⟩⟩)

/-- A blocked direct write: the byte in front of the message is sent in place of
its last one. -/
theorem output_stream_not_exact :
    ¬ ∀ (es : List OutputEvent) (c : TcpConnection), run outputStep established es = some c →
      c.written ++ c.outputBuffer.readable = es.flatMap OutputEvent.message := by
  intro h
  have hstate : established.state ≠ .kDisconnected := by decide
  have hblocked : (established.sendInLoop ⟨0, .string 7 1, [7]⟩ .numbered 7 1
      (.error .EWOULDBLOCK)).stream = established.stream ++ Mem.numbered.bytesAt (7 - 1) 1 :=
    established.stream_sendInLoop_refused hstate (by decide) (by decide)
  have hexact := h [.sendInLoop ⟨0, .string 7 1, [7]⟩ .numbered 7 1 (.error .EWOULDBLOCK)] _ rfl
  exact absurd (hblocked.symm.trans hexact) (by decide)

end Mymuduo.Net.TcpConnection
