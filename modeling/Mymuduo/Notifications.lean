import Mymuduo.OutputStream
import Mymuduo.WriteInterest

namespace Mymuduo.Net

open Execution

namespace Action

def succeeded : Action → Bool
  | write _ (.wrote _) => true
  | _ => false

def notified : Action → Bool
  | called .writeComplete => true
  | _ => false

def crossed : Action → Option ℕ
  | queueInLoop (.highWaterMarkCallback len) => some len
  | _ => none

def quiet : Action → Bool
  | write _ _ | queueInLoop _ | called .writeComplete => false
  | _ => true

end Action

namespace TcpConnection

def writes (c : TcpConnection) : ℕ := c.log.countP Action.succeeded

/-- The write-complete notifications, those that wait in the queue included. -/
def scheduled (c : TcpConnection) : ℕ :=
  c.log.countP Action.notified + c.pending.count .writeCompleteCallback

def highWaterMarks (c : TcpConnection) : List ℕ := (c.log.filterMap Action.crossed).reverse

/-- A successful write has left nothing outstanding. -/
def Clears (c c' : TcpConnection) : Prop :=
  c.writes < c'.writes ∧ c'.outputBuffer.readable = []

instance (c c' : TcpConnection) : Decidable (c.Clears c') := inferInstanceAs (Decidable (_ ∧ _))

def crossing (c c' : TcpConnection) : List ℕ :=
  if c.outputBuffer.readableBytes < c.highWaterMark ∧
      c.highWaterMark ≤ c'.outputBuffer.readableBytes then [c'.outputBuffer.readableBytes] else []

def Watches (c : TcpConnection) : Prop :=
  c.channel.isWriting = true → c.outputBuffer.readable ≠ []

/-- One function call tells the user what it has to, given that the callbacks are set. -/
structure Informs (c c' : TcpConnection) : Prop where
  callbacks : c'.callbacks = c.callbacks
  highWaterMark : c'.highWaterMark = c.highWaterMark
  watches : c.Watches → c'.Watches
  completes : c.callbacks.writeComplete = true → c.Watches →
    c'.scheduled = c.scheduled + if c.Clears c' then 1 else 0
  crosses : c.callbacks.highWaterMark = true →
    c'.highWaterMarks = c.highWaterMarks ++ c.crossing c'

/-- Nothing is written, queued for writing or told. -/
structure Silent (c c' : TcpConnection) : Prop where
  callbacks : c'.callbacks = c.callbacks
  highWaterMark : c'.highWaterMark = c.highWaterMark
  outputBuffer : c'.outputBuffer = c.outputBuffer
  taken : c'.log.flatMap Action.taken = c.log.flatMap Action.taken
  writes : c'.writes = c.writes
  scheduled : c'.scheduled = c.scheduled
  highWaterMarks : c'.highWaterMarks = c.highWaterMarks
  watching : c'.channel.isWriting = true → c.channel.isWriting = true

variable {c c' c'' : TcpConnection}

theorem Silent.refl (c : TcpConnection) : Silent c c := ⟨rfl, rfl, rfl, rfl, rfl, rfl, rfl, id⟩

theorem Silent.trans (h : Silent c c') (h' : Silent c' c'') : Silent c c'' :=
  ⟨h'.callbacks.trans h.callbacks, h'.highWaterMark.trans h.highWaterMark,
    h'.outputBuffer.trans h.outputBuffer, h'.taken.trans h.taken, h'.writes.trans h.writes,
    h'.scheduled.trans h.scheduled, h'.highWaterMarks.trans h.highWaterMarks,
    h.watching ∘ h'.watching⟩

theorem Silent.watches (h : Silent c c') (hw : c.Watches) : c'.Watches := by
  intro hwriting
  rw [h.outputBuffer]
  exact hw (h.watching hwriting)

theorem Silent.trans_informs (h : Silent c c') (h' : Informs c' c'') : Informs c c'' where
  callbacks := h'.callbacks.trans h.callbacks
  highWaterMark := h'.highWaterMark.trans h.highWaterMark
  watches := h'.watches ∘ h.watches
  completes hset hw := by
    have hsame : c'.Clears c'' ↔ c.Clears c'' := by rw [Clears, h.writes, Clears]
    have hclears := h'.completes (h.callbacks ▸ hset) (h.watches hw)
    simpa only [hsame, h.scheduled] using hclears
  crosses hset := by
    have hcrosses := h'.crosses (h.callbacks ▸ hset)
    simpa only [crossing, h.outputBuffer, h.highWaterMark, h.highWaterMarks] using hcrosses

theorem Informs.trans_silent (h : Informs c c') (h' : Silent c' c'') : Informs c c'' where
  callbacks := h'.callbacks.trans h.callbacks
  highWaterMark := h'.highWaterMark.trans h.highWaterMark
  watches := h'.watches ∘ h.watches
  completes hset hw := by
    have hsame : c.Clears c'' ↔ c.Clears c' := by
      rw [Clears, h'.writes, h'.outputBuffer, Clears]
    rw [h'.scheduled, h.completes hset hw]
    simp only [hsame]
  crosses hset := by
    have hcrosses := h.crosses hset
    simpa only [crossing, h'.outputBuffer, h'.highWaterMarks] using hcrosses

theorem crossing_eq_nil (h : c'.outputBuffer.readableBytes ≤ c.outputBuffer.readableBytes) :
    c.crossing c' = [] := by
  refine if_neg fun hcross ↦ ?_
  omega

theorem Silent.informs (h : Silent c c') : Informs c c' where
  callbacks := h.callbacks
  highWaterMark := h.highWaterMark
  watches := h.watches
  completes _ _ := by
    rw [h.scheduled, if_neg fun hc ↦ absurd (h.writes ▸ hc.1) (Nat.lt_irrefl _), Nat.add_zero]
  crosses _ := by
    rw [h.highWaterMarks, crossing_eq_nil (h.outputBuffer ▸ Nat.le_refl _), List.append_nil]

theorem silent_setState (s : StateE) : Silent c (c.setState s) :=
  ⟨rfl, rfl, rfl, rfl, rfl, rfl, rfl, id⟩

theorem silent_setChannel {r : EpollPoller × Channel}
    (hr : r.2.isWriting = true → c.channel.isWriting = true) : Silent c (c.setChannel r) :=
  ⟨rfl, rfl, rfl, rfl, rfl, rfl, rfl, hr⟩

theorem silent_did {a : Action} (ha : a.quiet = true) : Silent c (c.did a) := by
  cases a with
  | sendInLoop | shutdownWrite => exact ⟨rfl, rfl, rfl, rfl, rfl, rfl, rfl, id⟩
  | write | queueInLoop => cases ha
  | called cb =>
    cases cb with
    | writeComplete => cases ha
    | _ => exact ⟨rfl, rfl, rfl, rfl, rfl, rfl, rfl, id⟩

theorem silent_queueInLoop {f : Functor} (hf : f ≠ .writeCompleteCallback)
    (hmark : ∀ len, f ≠ .highWaterMarkCallback len) : Silent c (c.queueInLoop f) := by
  refine ⟨rfl, rfl, rfl, rfl, rfl, ?_, ?_, id⟩
  · have hcount : [f].count .writeCompleteCallback = 0 :=
      List.count_eq_zero.mpr (by simpa using hf.symm)
    simp only [scheduled, queueInLoop, List.count_append, hcount]
    rfl
  · cases f with
    | highWaterMarkCallback len => exact (hmark len rfl).elim
    | _ => rfl

theorem silent_shutdownInLoop (c : TcpConnection) : Silent c c.shutdownInLoop := by
  rw [shutdownInLoop]
  split_ifs
  · exact Silent.refl c
  · exact silent_did rfl

theorem silent_shutdown (c : TcpConnection) : Silent c c.shutdown := by
  rw [shutdown]
  split_ifs
  · exact (silent_setState _).trans (silent_shutdownInLoop _)
  · exact Silent.refl c

theorem silent_forceClose (c : TcpConnection) : Silent c c.forceClose := by
  rw [forceClose]
  split_ifs
  · exact (silent_setState _).trans (silent_queueInLoop (by simp) (by simp))
  · exact Silent.refl c

theorem silent_disableAll (c : TcpConnection) :
    Silent c ((c.setState .kDisconnected).setChannel (c.channel.disableAll c.poller)) :=
  (silent_setState _).trans (silent_setChannel (by simp))

theorem silent_handleClose (c : TcpConnection) : Silent c c.handleClose := by
  simp only [handleClose]
  split_ifs
  · exact (silent_disableAll c).trans ((silent_did rfl).trans (silent_did rfl))
  · exact (silent_disableAll c).trans (silent_did rfl)
  · exact (silent_disableAll c).trans (silent_did rfl)
  · exact silent_disableAll c

theorem silent_handleRead (n : ReadResult) : Silent c (c.handleRead n) := by
  have hread : Silent c { c with inputBuffer := c.inputBuffer.readFd n } :=
    ⟨rfl, rfl, rfl, rfl, rfl, rfl, rfl, id⟩
  refine hread.trans ?_
  simp only [handleRead]
  split_ifs
  · exact silent_did rfl
  · exact silent_handleClose _
  · exact Silent.refl _

theorem silent_destroyTested (connected : Bool) : Silent c (c.destroyTested connected) := by
  cases connected with
  | true => exact (silent_disableAll c).trans ((silent_did rfl).trans (silent_setChannel id))
  | false => exact silent_setChannel id

def SendLocals.buffered (l : SendLocals) : ℕ :=
  if !l.faultError && decide (0 < l.remaining) then l.remaining.toNat else 0

/-- `len` bytes are appended to the pending output, and nothing is written. -/
structure Buffers (c c' : TcpConnection) (len : ℕ) : Prop where
  callbacks : c'.callbacks = c.callbacks
  highWaterMark : c'.highWaterMark = c.highWaterMark
  writes : c'.writes = c.writes
  scheduled : c'.scheduled = c.scheduled
  readableBytes : c'.outputBuffer.readableBytes = c.outputBuffer.readableBytes + len
  watches : c.Watches → c'.Watches
  crosses : c.callbacks.highWaterMark = true →
    c'.highWaterMarks = c.highWaterMarks ++ c.crossing c'

theorem Silent.buffers (h : Silent c c') : Buffers c c' 0 :=
  ⟨h.callbacks, h.highWaterMark, h.writes, h.scheduled, by rw [h.outputBuffer]; rfl, h.watches,
    h.informs.crosses⟩

theorem Buffers.informs {len : ℕ} (h : Buffers c c' len) : Informs c c' where
  callbacks := h.callbacks
  highWaterMark := h.highWaterMark
  watches := h.watches
  completes _ _ := by
    rw [h.scheduled, if_neg fun hc ↦ absurd (h.writes ▸ hc.1) (Nat.lt_irrefl _), Nat.add_zero]
  crosses := h.crosses

theorem scheduled_queueInLoop_highWaterMark (len : ℕ) :
    (c.queueInLoop (.highWaterMarkCallback len)).scheduled = c.scheduled := by
  simp [scheduled, queueInLoop, Action.notified]

theorem highWaterMarks_queueInLoop (len : ℕ) :
    (c.queueInLoop (.highWaterMarkCallback len)).highWaterMarks = c.highWaterMarks ++ [len] := by
  simp [highWaterMarks, queueInLoop, Action.crossed]

/-- The test of the mark comes before the append, on the length that the append makes. -/
theorem buffers_bufferRest (mem : Mem) (data : ℤ) (l : SendLocals) :
    Buffers c (c.bufferRest mem data l) l.buffered := by
  by_cases hl : (!l.faultError && decide (0 < l.remaining)) = true
  · have hlen : 0 < l.remaining := by simpa using (Bool.and_eq_true_iff.mp hl).2
    have happend (b : ValidBuffer) :
        (b.append (mem.bytesAt (data + l.nwrote) l.remaining.toNat)).readableBytes =
          b.readableBytes + l.remaining.toNat := by
      simp only [ValidBuffer.readableBytes_eq, ValidBuffer.readable_append, List.length_append,
        Mem.bytesAt_length]
    have hfull (b : ValidBuffer) :
        (b.append (mem.bytesAt (data + l.nwrote) l.remaining.toNat)).readable ≠ [] := by
      rw [Ne, ← ValidBuffer.readableBytes_eq_zero, happend]
      omega
    rw [SendLocals.buffered, if_pos hl, bufferRest, if_pos hl]
    dsimp only
    by_cases hmark : c.highWaterMark ≤ c.outputBuffer.readableBytes + l.remaining.toNat ∧
        c.outputBuffer.readableBytes < c.highWaterMark ∧ c.callbacks.highWaterMark = true
    · have hcross {c' : TcpConnection}
          (hbuffer : c'.outputBuffer.readableBytes =
            c.outputBuffer.readableBytes + l.remaining.toNat) :
          c.crossing c' = [c.outputBuffer.readableBytes + l.remaining.toNat] := by
        rw [crossing, hbuffer, if_pos ⟨hmark.2.1, hmark.1⟩]
      rw [if_pos hmark]
      split_ifs
      all_goals
        refine ⟨rfl, rfl, rfl, scheduled_queueInLoop_highWaterMark _, happend _,
          fun _ _ ↦ hfull _, fun _ ↦ ?_⟩
        rw [hcross (happend _)]
        exact highWaterMarks_queueInLoop _
    · have hcross (hset : c.callbacks.highWaterMark = true) {c' : TcpConnection}
          (hbuffer : c'.outputBuffer.readableBytes =
            c.outputBuffer.readableBytes + l.remaining.toNat) : c.crossing c' = [] := by
        rw [crossing, hbuffer, if_neg fun hrose ↦ hmark ⟨hrose.2, hrose.1, hset⟩]
      rw [if_neg hmark]
      split_ifs
      all_goals
        refine ⟨rfl, rfl, rfl, rfl, happend _, fun _ _ ↦ hfull _, fun hset ↦ ?_⟩
        rw [hcross hset (happend _), List.append_nil]
        rfl
  · rw [SendLocals.buffered, if_neg hl, bufferRest, if_neg hl]
    exact (Silent.refl c).buffers

theorem countP_notified (log : List Action) :
    (.called .writeComplete :: log).countP Action.notified = log.countP Action.notified + 1 :=
  List.countP_cons_of_pos rfl

/-- The direct write is told at once when it takes the whole message. -/
theorem directWrite_wrote (mem : Mem) (data : ℤ) (len n : ℕ) :
    (c.directWrite mem data len (.wrote n)).1.writes = c.writes + 1 ∧
      (c.directWrite mem data len (.wrote n)).1.scheduled =
        c.scheduled + if len = n ∧ c.callbacks.writeComplete = true then 1 else 0 := by
  have hwrites : (c.did (.write (mem.bytesAt data len) (.wrote n))).writes = c.writes + 1 :=
    List.countP_cons_of_pos rfl
  by_cases hall : len = n ∧ c.callbacks.writeComplete = true
  · have htold : (c.directWrite mem data len (.wrote n)).1 =
        (c.did (.write (mem.bytesAt data len) (.wrote n))).did (.called .writeComplete) :=
      if_pos ⟨by omega, hall.2⟩
    rw [htold, if_pos hall]
    refine ⟨hwrites, ?_⟩
    simp only [scheduled, did, countP_notified]
    exact Nat.add_right_comm ..
  · have hquiet : (c.directWrite mem data len (.wrote n)).1 =
        c.did (.write (mem.bytesAt data len) (.wrote n)) :=
      if_neg fun h ↦ hall ⟨by omega, h.2⟩
    rw [hquiet, if_neg hall]
    exact ⟨hwrites, rfl⟩

theorem directWrite_frame (mem : Mem) (data : ℤ) (len : ℕ) (n : WriteResult) :
    (c.directWrite mem data len n).1.callbacks = c.callbacks ∧
      (c.directWrite mem data len n).1.highWaterMark = c.highWaterMark ∧
        (c.directWrite mem data len n).1.highWaterMarks = c.highWaterMarks := by
  cases n with
  | wrote n =>
    simp only [directWrite]
    split_ifs <;> exact ⟨rfl, rfl, rfl⟩
  | error err => exact ⟨rfl, rfl, rfl⟩

theorem informs_directWrite {len : ℕ} {n : WriteResult} (hdirect : c.writesAtOnce = true)
    (hn : n.Possible len) (mem : Mem) (data : ℤ) :
    Informs c ((c.directWrite mem data len n).1.bufferRest mem data
      (c.directWrite mem data len n).2) := by
  have hrest := buffers_bufferRest (c := (c.directWrite mem data len n).1) mem data
    (c.directWrite mem data len n).2
  obtain ⟨hchannel, hbuffer⟩ := channel_directWrite (c := c) mem data len n
  obtain ⟨hcallbacks, hmark, hmarks⟩ := directWrite_frame (c := c) mem data len n
  refine ⟨hrest.callbacks.trans hcallbacks, hrest.highWaterMark.trans hmark, fun hw ↦ ?_,
    fun hset _ ↦ ?_, fun hset ↦ ?_⟩
  · refine hrest.watches fun hwriting ↦ ?_
    rw [hbuffer]
    exact hw (hchannel ▸ hwriting)
  · have hempty := ValidBuffer.readableBytes_eq_zero.mpr (readable_of_writesAtOnce hdirect)
    have hsize := hrest.readableBytes
    rw [hbuffer, hempty, Nat.zero_add] at hsize
    cases n with
    | wrote n =>
      obtain ⟨hwrites, hscheduled⟩ := directWrite_wrote (c := c) mem data len n
      have hbuffered : (c.directWrite mem data len (.wrote n)).2.buffered = len - n := by
        have hn : n ≤ len := hn
        have hleft : 0 < (len : ℤ) - n ↔ n < len := by omega
        simp only [directWrite, SendLocals.buffered, Bool.not_false, Bool.true_and, hleft,
          decide_eq_true_eq]
        split_ifs <;> omega
      have hclears : c.Clears ((c.directWrite mem data len (.wrote n)).1.bufferRest mem data
          (c.directWrite mem data len (.wrote n)).2) ↔ len = n := by
        have hn : n ≤ len := hn
        rw [Clears, hrest.writes, hwrites, ← ValidBuffer.readableBytes_eq_zero, hsize, hbuffered]
        omega
      rw [hrest.scheduled, hscheduled]
      simp only [hclears, hset, and_true]
    | error err =>
      have hsilent : Silent c (c.directWrite mem data len (.error err)).1 :=
        ⟨rfl, rfl, rfl, rfl, rfl, rfl, rfl, id⟩
      exact (hsilent.trans_informs hrest.informs).completes hset ‹_›
  · have hcrosses := hrest.crosses (hcallbacks ▸ hset)
    simpa only [crossing, hbuffer, hmark, hmarks] using hcrosses

theorem informs_sendInLoop (call : Call) (mem : Mem) (data : ℤ) {len : ℕ} {n : WriteResult}
    (hn : n.Possible len) : Informs c (c.sendInLoop call mem data len n) := by
  have hsend : Silent c (c.did (.sendInLoop call (mem.bytesAt data len))) := silent_did rfl
  refine hsend.trans_informs ?_
  simp only [sendInLoop]
  split_ifs with hstate hdirect
  · exact (Silent.refl _).informs
  · exact informs_directWrite hdirect hn mem data
  · exact (buffers_bufferRest mem data _).informs

theorem readableBytes_flush (n : WriteResult) :
    (c.flush n).outputBuffer.readableBytes ≤ c.outputBuffer.readableBytes := by
  cases n with
  | wrote n =>
    simp only [flush, ValidBuffer.writeFd, ValidBuffer.readableBytes_eq,
      ValidBuffer.readable_retrive, List.length_drop]
    omega
  | error err => exact Nat.le_refl _

/-- The interest in writing ends with the write that empties the buffer, which is told. -/
theorem informs_stopWriting {n : WriteResult} (hn : 0 < n.value)
    (hempty : (c.flush n).outputBuffer.readable = []) : Informs c (c.flush n).stopWriting := by
  have hwrites : (c.flush n).writes = c.writes + 1 := by
    cases n with
    | wrote n => exact List.countP_cons_of_pos rfl
    | error err => cases hn
  have hstop : (c.flush n).stopWriting.writes = (c.flush n).writes ∧
      (c.flush n).stopWriting.outputBuffer = (c.flush n).outputBuffer ∧
        (c.flush n).stopWriting.channel.isWriting = false := by
    simp only [stopWriting]
    split_ifs <;> exact ⟨rfl, rfl, Channel.isWriting_disableWriting ..⟩
  obtain ⟨hsame, hbuffer, hquiet⟩ := hstop
  have hclears : c.Clears (c.flush n).stopWriting := by
    rw [Clears, hsame, hwrites, hbuffer]
    exact ⟨Nat.lt_succ_self _, hempty⟩
  have hcrossing : c.crossing (c.flush n).stopWriting = [] := by
    refine crossing_eq_nil ?_
    rw [hbuffer]
    exact readableBytes_flush n
  refine ⟨?_, ?_, fun _ hwriting ↦ ?_, fun hset _ ↦ ?_, fun _ ↦ ?_⟩
  · simp only [stopWriting]
    split_ifs <;> rfl
  · simp only [stopWriting]
    split_ifs <;> rfl
  · simp [hquiet] at hwriting
  · have hqueued : (c.flush n).stopWriting = ((c.flush n).setChannel
        ((c.flush n).channel.disableWriting (c.flush n).poller)).queueInLoop
          .writeCompleteCallback := if_pos hset
    rw [if_pos hclears, hqueued]
    simp only [scheduled, queueInLoop, setChannel, List.count_append]
    rfl
  · rw [hcrossing, List.append_nil]
    simp only [stopWriting]
    split_ifs <;> rfl

theorem informs_flush {n : WriteResult} (hwriting : c.channel.isWriting = true)
    (hrest : ¬ (0 < n.value ∧ (c.flush n).outputBuffer.readableBytes = 0)) :
    Informs c (c.flush n) := by
  have hpending (hw : c.Watches) : (c.flush n).outputBuffer.readable ≠ [] := by
    intro hempty
    cases n with
    | wrote n =>
      have hbytes : n = 0 := by
        by_contra hpos
        refine hrest ⟨?_, ValidBuffer.readableBytes_eq_zero.mpr hempty⟩
        simp only [WriteResult.value]
        omega
      refine hw hwriting ?_
      simpa [hbytes, flush, ValidBuffer.writeFd] using hempty
    | error err => exact hw hwriting hempty
  refine ⟨rfl, rfl, fun hw _ ↦ hpending hw, fun _ hw ↦ ?_, fun _ ↦ ?_⟩
  · rw [if_neg fun hc ↦ hpending hw hc.2]
    rfl
  · rw [crossing_eq_nil (readableBytes_flush n), List.append_nil]
    rfl

theorem informs_handleWrite (n : WriteResult) : Informs c (c.handleWrite n) := by
  simp only [handleWrite]
  split_ifs with hwriting hdone hstate
  · have hstop := informs_stopWriting hdone.1 (ValidBuffer.readableBytes_eq_zero.mp hdone.2)
    exact hstop.trans_silent (silent_shutdownInLoop _)
  · exact informs_stopWriting hdone.1 (ValidBuffer.readableBytes_eq_zero.mp hdone.2)
  · exact informs_flush hwriting hdone
  · exact (Silent.refl c).informs

theorem silent_unqueue {f : Functor} {rest : List Functor} (hpending : c.pending = f :: rest)
    (hf : f ≠ .writeCompleteCallback) : Silent c { c with pending := rest } := by
  refine ⟨rfl, rfl, rfl, rfl, rfl, ?_, rfl, id⟩
  rw [scheduled, scheduled, hpending, List.count_cons_of_ne hf]

/-- A functor other than `sendInLoop` is taken off the queue and called. -/
theorem silent_call {f : Functor} {rest : List Functor} (hpending : c.pending = f :: rest)
    (hf : f ≠ .connectDestroyed) (hsend : ∀ call data len, f ≠ .sendInLoop call data len)
    (mem : Mem) (n : WriteResult) : Silent c ({ c with pending := rest }.call f mem n) := by
  cases f with
  | sendInLoop call data len => exact (hsend call data len rfl).elim
  | shutdownInLoop => exact (silent_unqueue hpending (by simp)).trans (silent_shutdownInLoop _)
  | forceCloseInLoop =>
    refine (silent_unqueue hpending (by simp)).trans ?_
    simp only [TcpConnection.call, forceCloseInLoop]
    split_ifs
    · exact silent_handleClose _
    · exact Silent.refl _
  | connectDestroyed => exact (hf rfl).elim
  | writeCompleteCallback =>
    -- what has waited in the queue is made
    have htold : scheduled ({ c with pending := rest }.did (.called .writeComplete)) =
        c.scheduled := by
      simp only [scheduled, did, hpending, List.count_cons_self, countP_notified]
      omega
    exact ⟨rfl, rfl, rfl, rfl, rfl, htold, rfl, id⟩
  | highWaterMarkCallback len =>
    exact (silent_unqueue hpending (by simp)).trans (silent_did rfl)

theorem written_length (c : TcpConnection) :
    c.written.length = (c.log.flatMap Action.taken).length :=
  ((List.reverse_perm c.log).flatMap_right Action.taken).length_eq

theorem Silent.stream_length (h : Silent c c') : c'.stream.length = c.stream.length := by
  rw [stream, stream, List.length_append, List.length_append, h.outputBuffer, written_length,
    written_length, h.taken]

/-- A message that is accepted is taken or kept, as far as its length goes. -/
theorem stream_length_sendInLoop (call : Call) (mem : Mem) (data : ℤ) {len : ℕ} {n : WriteResult}
    (hstate : c.state ≠ .kDisconnected) (hn : n.Possible len) (hfault : ¬ n.Fault) :
    (c.sendInLoop call mem data len n).stream.length = c.stream.length + len := by
  cases hw : c.writesAtOnce with
  | false =>
    rw [stream_sendInLoop_buffered c hstate hw, List.length_append, Mem.bytesAt_length]
  | true =>
    cases n with
    | wrote n => rw [stream_sendInLoop_wrote c hstate hw hn, List.length_append, Mem.bytesAt_length]
    | error err =>
      rw [stream_sendInLoop_refused c hstate hw hfault, List.length_append, Mem.bytesAt_length]

end TcpConnection

def LifeEvent.Faultless : LifeEvent → Prop
  | loop (.callback _ n) | loop (.runFunctor n) | loop (.send _ _ n) => ¬ n.Fault
  | _ => True

namespace Life

open TcpConnection

/-- The message that a step passes to `sendInLoop`, unless it is given up there. -/
def accepted (s : Life) : LifeEvent → List Byte
  | .loop (.send _ arg _) => if s.conn.state = .kConnected then arg.held s.mem else []
  | .loop (.runFunctor _) =>
    match s.conn.pending.head? with
    | some (.sendInLoop _ data len) =>
      if s.conn.state = .kDisconnected then [] else s.mem.bytesAt data len
    | _ => []
  | _ => []

/-- An established connection. No function sets another mark than the constructor. -/
def startAt (fd ptr : ℕ) (poller : EpollPoller) (callbacks : Callbacks) (highWaterMark : ℕ)
    (mem : Mem) : Life :=
  start { new fd ptr poller callbacks with highWaterMark := highWaterMark }.connectEstablished mem

variable {s s' : Life} {e : LifeEvent}

theorem possible_of_send {call : Call} {arg : SendArg} {n : WriteResult}
    (h : s.step (.loop (.send call arg n)) = some s') : n.Possible arg.len := by
  simp only [step, loopStep] at h
  split_ifs at h with _ hpossible <;> exact hpossible

theorem possible_of_runFunctor {f : Functor} {rest : List Functor} {n : WriteResult}
    (h : s.step (.loop (.runFunctor n)) = some s') (hpending : s.conn.pending = f :: rest) :
    Threads.Possible f n := by
  simp only [step, loopStep, hpending] at h
  split_ifs at h with _ hpossible
  exact hpossible

/-- What a step does to the output of the connection. -/
inductive Outputs (s : Life) (e : LifeEvent) (c' : TcpConnection) : Prop
  | silent (hsilent : Silent s.conn c') (haccepted : s.accepted e = [])
  | sendInLoop {c : TcpConnection} {call : Call} {data : ℤ} {len : ℕ} {n : WriteResult}
      (hsilent : Silent s.conn c) (hstate : c.state = s.conn.state) (hn : n.Possible len)
      (hfault : e.Faultless → ¬ n.Fault)
      (haccepted : s.accepted e =
        if s.conn.state = .kDisconnected then [] else s.mem.bytesAt data len)
      (h : c' = c.sendInLoop call s.mem data len n)
  | handleWrite {n : WriteResult} (haccepted : s.accepted e = []) (h : c' = s.conn.handleWrite n)

theorem step_outputs (h : s.step e = some s') : s.Outputs e s'.conn := by
  cases steps_of_step h with
  | @callback r w cb rest =>
    cases cb with
    | close => exact .silent (silent_handleClose _) rfl
    | error => exact .silent (Silent.refl _) rfl
    | read => exact .silent (silent_handleRead r) rfl
    | write => exact .handleWrite rfl rfl
  | destroyFunctor _ hpending =>
    exact .silent (silent_unqueue hpending (by simp)) (by simp [accepted, hpending])
  | @runFunctor n f rest _ hpending hf =>
    have hother (hsend : ∀ call data len, f ≠ .sendInLoop call data len) :
        s.Outputs (.loop (.runFunctor n)) ({ s.conn with pending := rest }.call f s.mem n) := by
      refine .silent (silent_call hpending hf hsend s.mem n) ?_
      simp only [accepted, hpending, List.head?_cons]
      split
      next hf => exact (hsend _ _ _ (Option.some.inj hf)).elim
      next => rfl
    cases f with
    | sendInLoop call data len =>
      exact .sendInLoop (silent_unqueue hpending (by simp)) rfl (possible_of_runFunctor h hpending)
        id (by simp [accepted, hpending]) rfl
    | shutdownInLoop | forceCloseInLoop | connectDestroyed | writeCompleteCallback
    | highWaterMarkCallback => exact hother (by simp)
  | @send call arg n _ hstate =>
    have haccepted : s.accepted (.loop (.send call arg n)) =
        if s.conn.state = .kDisconnected then [] else s.mem.bytesAt arg.data arg.len := by
      simp [accepted, hstate, SendArg.held]
    have hn := possible_of_send h
    cases arg <;> exact .sendInLoop (Silent.refl _) rfl hn id haccepted rfl
  | sendIgnored _ hstate => exact .silent (Silent.refl _) (if_neg hstate)
  | @sendQueue t call arg =>
    cases arg <;> exact .silent (silent_queueInLoop (by simp) (by simp)) rfl
  | shutdown => exact .silent (silent_shutdown _) rfl
  | forceClose => exact .silent (silent_forceClose _) rfl
  | destroyTested => exact .silent (silent_destroyTested _) rfl
  | shutdownStore | forceCloseStore => exact .silent (silent_setState _) rfl
  | shutdownQueue | forceCloseQueue | queueConnectDestroyed =>
    exact .silent (silent_queueInLoop (by simp) (by simp)) rfl
  | poll | handleEvent | connectDestroyed | sendTest | shutdownTest | forceCloseTest | testFailed
  | write => exact .silent (Silent.refl s.conn) rfl

theorem step_informs (h : s.step e = some s') : Informs s.conn s'.conn := by
  cases step_outputs h with
  | silent hsilent => exact hsilent.informs
  | sendInLoop hsilent _ hn _ _ hsend =>
    rw [hsend]
    exact hsilent.trans_informs (informs_sendInLoop _ _ _ hn)
  | handleWrite _ hwrite =>
    rw [hwrite]
    exact informs_handleWrite _

/-- What the kernel has taken and what waits for it is what has been accepted. -/
theorem step_stream_length (he : e.Faultless) (h : s.step e = some s') :
    s'.conn.stream.length = s.conn.stream.length + (s.accepted e).length := by
  cases step_outputs h with
  | silent hsilent haccepted =>
    rw [haccepted]
    exact hsilent.stream_length
  | @sendInLoop c call data len n hsilent hstate hn hfault haccepted hsend =>
    rw [hsend, haccepted, ← hsilent.stream_length, ← hstate]
    split_ifs with hclosed
    · have hgiveUp : c.sendInLoop call s.mem data len n =
          c.did (.sendInLoop call (s.mem.bytesAt data len)) := if_pos hclosed
      rw [hgiveUp, stream_did c _ rfl]
      rfl
    · rw [stream_length_sendInLoop call s.mem data hclosed hn (hfault he), Mem.bytesAt_length]
  | handleWrite haccepted hwrite =>
    rw [hwrite, haccepted, stream_handleWrite]
    rfl

/-- What a run keeps, given the callbacks and the mark that it started with. -/
structure Informed (callbacks : Callbacks) (highWaterMark : ℕ) (s : Life) : Prop where
  callbacks : s.conn.callbacks = callbacks
  highWaterMark : s.conn.highWaterMark = highWaterMark
  watches : s.conn.Watches

variable {fd ptr : ℕ} {poller : EpollPoller} {callbacks : Callbacks} {mark : ℕ} {mem : Mem}

theorem informed_startAt :
    (startAt fd ptr poller callbacks mark mem).Informed callbacks mark := by
  refine ⟨rfl, rfl, fun hwriting ↦ ?_⟩
  simp [startAt, start, connectEstablished, setState, setChannel, did, new] at hwriting

theorem Informed.step (h : s.Informed callbacks mark) (hstep : s.step e = some s') :
    s'.Informed callbacks mark := by
  have hinforms := step_informs hstep
  exact ⟨hinforms.callbacks.trans h.callbacks, hinforms.highWaterMark.trans h.highWaterMark,
    hinforms.watches h.watches⟩

theorem run_stream_length {es : List LifeEvent} (hes : ∀ e ∈ es, e.Faultless)
    (hrun : run step (startAt fd ptr poller callbacks mark mem) es = some s) :
    s.conn.stream.length = (collect step (fun s e _ ↦ s.accepted e)
      (startAt fd ptr poller callbacks mark mem) es).length := by
  refine run_collects (P := fun s l ↦ s.conn.stream.length = l.length)
    (f := fun s e _ ↦ s.accepted e) (H := LifeEvent.Faultless) (fun s l e s' hs he hstep ↦ ?_)
    (l := []) ?_ hes hrun
  · rw [step_stream_length he hstep, hs, List.length_append]
  · simp [startAt, start, stream, written, connectEstablished, did, setChannel, setState, new,
      Action.taken]

/-- In every run without a write fault a write-complete notification is scheduled once by
each step in which a write leaves nothing outstanding and by no other one, and then the
kernel has taken as many bytes as have been accepted. -/
theorem writeComplete_exact (fd ptr : ℕ) (poller : EpollPoller) (callbacks : Callbacks) (mark : ℕ)
    (mem : Mem) (hset : callbacks.writeComplete = true) (es : List LifeEvent) (s : Life)
    (hes : ∀ e ∈ es, e.Faultless)
    (hrun : run step (startAt fd ptr poller callbacks mark mem) es = some s)
    (e : LifeEvent) (s' : Life) (he : e.Faultless) (hstep : s.step e = some s') :
    (s'.conn.scheduled = s.conn.scheduled + if s.conn.Clears s'.conn then 1 else 0) ∧
      (s.conn.Clears s'.conn → s'.conn.written.length = (collect step
        (fun s e _ ↦ s.accepted e) (startAt fd ptr poller callbacks mark mem)
          (es ++ [e])).length) := by
  have hinformed := run_preserves (fun _ _ _ ↦ Informed.step) informed_startAt hrun
  refine ⟨(step_informs hstep).completes (hinformed.callbacks ▸ hset) hinformed.watches,
    fun hclears ↦ ?_⟩
  have hrun' : run step (startAt fd ptr poller callbacks mark mem) (es ++ [e]) = some s' := by
    rw [run_append, hrun]
    exact run_cons_eq_some.mpr ⟨s', hstep, rfl⟩
  have hes' : ∀ e' ∈ es ++ [e], e'.Faultless :=
    List.forall_mem_append.mpr ⟨hes, List.forall_mem_singleton.mpr he⟩
  rw [← run_stream_length hes' hrun', stream, hclears.2, List.append_nil]

/-- In every run the arguments with which `highWaterMarkCallback_` is queued are the
lengths of the pending output at the steps in which it rises to the mark. -/
theorem highWaterMark_exact (fd ptr : ℕ) (poller : EpollPoller) (callbacks : Callbacks) (mark : ℕ)
    (mem : Mem) (hset : callbacks.highWaterMark = true) (es : List LifeEvent) (s : Life)
    (hrun : run step (startAt fd ptr poller callbacks mark mem) es = some s) :
    s.conn.highWaterMarks = collect step (fun s _ s' ↦ s.conn.crossing s'.conn)
      (startAt fd ptr poller callbacks mark mem) es := by
  have hinformed := run_collects
    (P := fun s l ↦ s.Informed callbacks mark ∧ s.conn.highWaterMarks = l)
    (f := fun s _ s' ↦ s.conn.crossing s'.conn) (H := fun _ ↦ True)
    (fun s l e s' hs _ hstep ↦ ?_) (l := []) ⟨informed_startAt, rfl⟩ (fun _ _ ↦ trivial) hrun
  · exact hinformed.2
  · obtain ⟨hs, rfl⟩ := hs
    exact ⟨hs.step hstep, (step_informs hstep).crosses (hs.callbacks ▸ hset)⟩

def partialWrite : List LifeEvent :=
  partialSend ++ [.loop (.poll Channel.EPOLLOUT), .loop .handleEvent]

theorem writeComplete_exact_partial :
    ∃ s s', run step (startAt 5 9 .empty ⟨true, true, true, true⟩ 1 .numbered) partialWrite =
        some s ∧ s.step (.loop (.callback (.error .EAGAIN) (.wrote 1))) = some s' ∧
      (s'.conn.scheduled = s.conn.scheduled + if s.conn.Clears s'.conn then 1 else 0) ∧
        (s.conn.Clears s'.conn → s'.conn.written.length = (collect step
          (fun s e _ ↦ s.accepted e) (startAt 5 9 .empty ⟨true, true, true, true⟩ 1 .numbered)
            (partialWrite ++ [.loop (.callback (.error .EAGAIN) (.wrote 1))])).length) := by
  have hsome : ((run step (startAt 5 9 .empty ⟨true, true, true, true⟩ 1 .numbered)
      partialWrite).bind fun s ↦ s.step (.loop (.callback (.error .EAGAIN) (.wrote 1)))).isSome =
        true := by
    decide +kernel
  obtain ⟨s', hs'⟩ := Option.isSome_iff_exists.mp hsome
  obtain ⟨s, hs, hstep⟩ := Option.bind_eq_some_iff.mp hs'
  refine ⟨s, s', hs, hstep, writeComplete_exact 5 9 .empty ⟨true, true, true, true⟩ 1 .numbered rfl
    partialWrite s ?_ hs _ s' (by simp [LifeEvent.Faultless, WriteResult.Fault]) hstep⟩
  simp [partialWrite, partialSend, LifeEvent.Faultless, WriteResult.Fault]

theorem highWaterMark_exact_partial :
    ∃ s, run step (startAt 5 9 .empty ⟨true, true, true, true⟩ 1 .numbered) partialWrite = some s ∧
      s.conn.highWaterMarks = collect step (fun s _ s' ↦ s.conn.crossing s'.conn)
        (startAt 5 9 .empty ⟨true, true, true, true⟩ 1 .numbered) partialWrite := by
  have hsome : (run step (startAt 5 9 .empty ⟨true, true, true, true⟩ 1 .numbered)
      partialWrite).isSome = true := by decide +kernel
  obtain ⟨s, hs⟩ := Option.isSome_iff_exists.mp hsome
  exact ⟨s, hs, highWaterMark_exact 5 9 .empty ⟨true, true, true, true⟩ 1 .numbered rfl
    partialWrite s hs⟩

end Life

end Mymuduo.Net
