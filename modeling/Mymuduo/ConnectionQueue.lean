import Mymuduo.ConnectionLife

namespace Mymuduo.Net

namespace TcpConnection

def Queues (c c' : TcpConnection) : Prop :=
  ∃ queued, c'.pending = c.pending ++ queued ∧ .connectDestroyed ∉ queued

variable {c c' c'' : TcpConnection}

theorem Queues.of_eq (h : c'.pending = c.pending) : Queues c c' := ⟨[], by simp [h], by simp⟩

theorem Queues.trans (h : Queues c c') (h' : Queues c' c'') : Queues c c'' := by
  obtain ⟨queued, hpending, hnone⟩ := h
  obtain ⟨queued', hpending', hnone'⟩ := h'
  refine ⟨queued ++ queued', ?_, ?_⟩
  · rw [hpending', hpending, List.append_assoc]
  · simp [hnone, hnone']

theorem Queues.ite {p : Prop} [Decidable p] (h : Queues c c') (h' : Queues c c'') :
    Queues c (if p then c' else c'') := by
  split_ifs
  · exact h
  · exact h'

theorem Queues.mem_pending (h : Queues c c') (hmem : .connectDestroyed ∈ c'.pending) :
    .connectDestroyed ∈ c.pending := by
  obtain ⟨queued, hpending, hnone⟩ := h
  rw [hpending] at hmem
  exact (List.mem_append.mp hmem).resolve_right hnone

theorem queues_queueInLoop {f : Functor} (hf : f ≠ .connectDestroyed) :
    Queues c (c.queueInLoop f) := ⟨[f], rfl, by simpa using hf.symm⟩

theorem queues_bufferRest (mem : Mem) (data : ℤ) (l : SendLocals) :
    Queues c (c.bufferRest mem data l) := by
  simp only [Queues, bufferRest]
  split_ifs <;> simp [queueInLoop, setChannel]

theorem queues_directWrite (mem : Mem) (data : ℤ) (len : ℕ) (n : WriteResult) :
    Queues c (c.directWrite mem data len n).1 := by
  cases n with
  | wrote n =>
    simp only [directWrite]
    exact .ite (.of_eq rfl) (.of_eq rfl)
  | error err => exact .of_eq rfl

theorem queues_sendInLoop (call : Call) (mem : Mem) (data : ℤ) (len : ℕ) (n : WriteResult) :
    Queues c (c.sendInLoop call mem data len n) := by
  have hsend : Queues c (c.did (.sendInLoop call (mem.bytesAt data len))) := .of_eq rfl
  refine hsend.trans (.ite (.of_eq rfl) (.ite ?_ (queues_bufferRest mem data _)))
  exact (queues_directWrite mem data len n).trans (queues_bufferRest mem data _)

theorem queues_send (inLoop : Bool) (call : Call) (mem : Mem) (n : WriteResult) (arg : SendArg) :
    Queues c (c.send inLoop call mem n arg).1 := by
  cases inLoop <;> cases arg
  case true.string | true.buffer => exact queues_sendInLoop ..
  case false.string | false.buffer => exact queues_queueInLoop (by simp)

theorem queues_shutdownInLoop : Queues c c.shutdownInLoop := .ite (.of_eq rfl) (.of_eq rfl)

theorem queues_handleClose : Queues c c.handleClose := by
  apply Queues.of_eq
  simp only [handleClose]
  split_ifs <;> rfl

theorem queues_handleRead (n : ReadResult) : Queues c (c.handleRead n) := by
  have hread : Queues c { c with inputBuffer := c.inputBuffer.readFd n } := .of_eq rfl
  exact hread.trans (.ite (.of_eq rfl) (.ite queues_handleClose (.of_eq rfl)))

theorem queues_handleWrite (n : WriteResult) : Queues c (c.handleWrite n) := by
  have hflush : Queues c (c.flush n) := .of_eq rfl
  have hstop (c : TcpConnection) : Queues c c.stopWriting := by
    have hdisabled : Queues c (c.setChannel (c.channel.disableWriting c.poller)) := .of_eq rfl
    exact hdisabled.trans (.ite (queues_queueInLoop (by simp)) (.of_eq rfl))
  refine .ite (hflush.trans (.ite ((hstop _).trans (.ite ?_ (.of_eq rfl))) (.of_eq rfl)))
    (.of_eq rfl)
  exact queues_shutdownInLoop

theorem queues_eventCallback (r : ReadResult) (w : WriteResult) (cb : EventCallback) :
    Queues c (c.eventCallback r w cb) := by
  cases cb with
  | close => exact queues_handleClose
  | error => exact .of_eq rfl
  | read => exact queues_handleRead r
  | write => exact queues_handleWrite w

theorem queues_shutdown : Queues c c.shutdown := by
  have hset : Queues c (c.setState .kDisconnecting) := .of_eq rfl
  exact .ite (hset.trans queues_shutdownInLoop) (.of_eq rfl)

theorem queues_forceClose : Queues c c.forceClose := by
  have hset : Queues c (c.setState .kDisconnecting) := .of_eq rfl
  exact .ite (hset.trans (queues_queueInLoop (by simp))) (.of_eq rfl)

theorem queues_call {f : Functor} (hf : f ≠ .connectDestroyed) (mem : Mem) (n : WriteResult) :
    Queues c (c.call f mem n) := by
  cases f with
  | sendInLoop call data len => exact queues_sendInLoop call mem data len n
  | shutdownInLoop => exact queues_shutdownInLoop
  | forceCloseInLoop => exact .ite queues_handleClose (.of_eq rfl)
  | connectDestroyed => exact (hf rfl).elim
  | writeCompleteCallback | highWaterMarkCallback => exact .of_eq rfl

end TcpConnection

end Mymuduo.Net
