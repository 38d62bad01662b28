import Mymuduo.ConnectionThreads

namespace Mymuduo.Net

open Execution

/-- What a callback does with its connection; each further call may depend on what
has become of the connection. -/
inductive UserProgram
  | done
  | send (call : Call) (mem : Mem) (arg : SendArg) (next : TcpConnection → UserProgram)
  | shutdown (next : TcpConnection → UserProgram)
  | forceClose (next : TcpConnection → UserProgram)

def UserProgram.sendsFirst : UserProgram → Bool
  | send _ _ _ _ => true
  | _ => false

/-- The results of `write`, by the number of the call and the length offered. -/
structure Kernel where
  answer : ℕ → ℕ → WriteResult
  possible : ∀ i len, (answer i len).Possible len

namespace TcpConnection

def writeCalls (c : TcpConnection) : ℕ :=
  c.log.countP fun a ↦ match a with
    | .write _ _ => true
    | _ => false

def callbackCalls (c : TcpConnection) : ℕ :=
  c.log.countP fun a ↦ match a with
    | .called _ => true
    | _ => false

/-- `sendInLoop`, given the call of `runInLoop`. The second component counts how many
activations of `sendInLoop` are on the stack at once, this one included. -/
def sendInLoopWith (c : TcpConnection) (runInLoop : TcpConnection → Option (TcpConnection × ℕ))
    (call : Call) (mem : Mem) (data : ℤ) (len : ℕ) (n : WriteResult) :
    Option (TcpConnection × ℕ) :=
  let c := c.did (.sendInLoop call (mem.bytesAt data len))
  if c.state = .kDisconnected then some (c, 1)
  else if c.writesAtOnce then
    let c := c.did (.write (mem.bytesAt data len) n)
    match n with
    | .wrote n => do
      let remaining : ℤ := len - n
      let (c, depth) ← if remaining = 0 ∧ c.callbacks.writeComplete then
          runInLoop (c.did (.called .writeComplete)) else some (c, 0)
      return (c.bufferRest mem data ⟨n, remaining, false⟩, depth + 1)
    | .error err =>
      some (c.bufferRest mem data
        ⟨-1, len, err ≠ .EWOULDBLOCK ∧ (err = .EPIPE ∨ err = .ECONNRESET)⟩, 1)
  else some (c.bufferRest mem data ⟨0, len, false⟩, 1)

end TcpConnection

def UserProgram.run
    (sendInLoop : TcpConnection → Call → Mem → ℤ → ℕ → Option (TcpConnection × ℕ)) :
    UserProgram → TcpConnection → Option (TcpConnection × ℕ)
  | .done, c => some (c, 0)
  | .send call mem arg next, c =>
    if c.state = .kConnected then do
      let (c, depth) ← sendInLoop c call mem arg.data arg.len
      let (c, depth') ← (next c).run sendInLoop c
      return (c, max depth depth')
    else (next c).run sendInLoop c
  | .shutdown next, c => (next c.shutdown).run sendInLoop c.shutdown
  | .forceClose next, c => (next c.forceClose).run sendInLoop c.forceClose

namespace TcpConnection

variable (callback : TcpConnection → UserProgram) (k : Kernel)

/-- A call of `sendInLoop` with at most so many activations on the stack; `none` when
these are too few. -/
def activate : ℕ → TcpConnection → Call → Mem → ℤ → ℕ → Option (TcpConnection × ℕ)
  | 0, _, _, _, _, _ => none
  | fuel + 1, c, call, mem, data, len =>
    c.sendInLoopWith (fun c ↦ (callback c).run (activate fuel) c) call mem data len
      (k.answer c.writeCalls len)

variable {callback k} {c c' : TcpConnection} {call : Call} {mem : Mem} {data : ℤ} {len : ℕ}

/-- With a callback that is only noted this is `sendInLoop`. -/
theorem sendInLoopWith_noted (n : WriteResult) :
    c.sendInLoopWith (fun c ↦ some (c, 0)) call mem data len n =
      some (c.sendInLoop call mem data len n, 1) := by
  simp only [sendInLoopWith, sendInLoop]
  split_ifs
  · rfl
  · cases n with
    | wrote n =>
      simp only [directWrite]
      split_ifs <;> rfl
    | error err => rfl
  · rfl

/-- The connection as the callback finds it when a direct write took everything. -/
def completed (c : TcpConnection) (call : Call) (mem : Mem) (data : ℤ) (len : ℕ) :
    TcpConnection :=
  ((c.did (.sendInLoop call (mem.bytesAt data len))).did
    (.write (mem.bytesAt data len) (.wrote len))).did (.called .writeComplete)

/-- The direct write calls the callback. -/
def Completes (k : Kernel) (c : TcpConnection) (len : ℕ) : Prop :=
  c.state ≠ .kDisconnected ∧ c.writesAtOnce = true ∧ k.answer c.writeCalls len = .wrote len ∧
    c.callbacks.writeComplete = true

instance (k : Kernel) (c : TcpConnection) (len : ℕ) : Decidable (Completes k c len) :=
  inferInstanceAs (Decidable (_ ∧ _ ∧ _ ∧ _))

theorem bufferRest_nothing (n : ℤ) : c.bufferRest mem data ⟨n, 0, false⟩ = c := by
  simp [bufferRest]

theorem activate_of_completes (h : Completes k c len) (fuel : ℕ) :
    activate callback k (fuel + 1) c call mem data len =
      ((callback (c.completed call mem data len)).run (activate callback k fuel)
        (c.completed call mem data len)).map fun r ↦ (r.1, r.2 + 1) := by
  obtain ⟨hstate, hw, hn, hcallback⟩ := h
  have hw' : (c.did (.sendInLoop call (mem.bytesAt data len))).writesAtOnce = true := hw
  simp only [activate, sendInLoopWith, hn,
    if_neg (show ¬ (c.did _).state = .kDisconnected from hstate), if_pos hw',
    Option.bind_eq_bind, Option.pure_def, Int.sub_self, bufferRest_nothing]
  rw [if_pos ⟨trivial, hcallback⟩, Option.map_eq_bind]
  rfl

/-- Without a callback inside, an activation is `sendInLoop`. -/
theorem activate_of_not_completes (h : ¬ Completes k c len) (fuel : ℕ) :
    activate callback k (fuel + 1) c call mem data len =
      some (c.sendInLoop call mem data len (k.answer c.writeCalls len), 1) := by
  rw [activate, ← sendInLoopWith_noted]
  simp only [sendInLoopWith]
  split_ifs with hstate hw
  · rfl
  · cases hn : k.answer c.writeCalls len with
    | wrote n =>
      dsimp only
      split_ifs with hcalls
      · obtain rfl : n = len := by omega
        exact (h ⟨hstate, hw, hn, hcalls.2⟩).elim
      · rfl
    | error err => rfl
  · rfl

theorem one_le_of_activate {fuel depth : ℕ}
    (h : activate callback k fuel c call mem data len = some (c', depth)) : 1 ≤ depth := by
  cases fuel with
  | zero => cases h
  | succ fuel =>
    by_cases hc : Completes k c len
    · rw [activate_of_completes hc] at h
      obtain ⟨r, -, heq⟩ := Option.map_eq_some_iff.mp h
      cases heq
      omega
    · rw [activate_of_not_completes hc] at h
      cases Option.some.inj h
      exact le_rfl

theorem countP_bufferRest {p : Action → Bool} (hp : ∀ f, p (.queueInLoop f) = false)
    (l : SendLocals) : (c.bufferRest mem data l).log.countP p = c.log.countP p := by
  simp only [bufferRest]
  split_ifs <;> simp [queueInLoop, setChannel, hp]

theorem countP_shutdown {p : Action → Bool} (hp : ∀ unsent, p (.shutdownWrite unsent) = false)
    (c : TcpConnection) : c.shutdown.log.countP p = c.log.countP p := by
  simp only [shutdown, shutdownInLoop]
  split_ifs <;> simp [did, setState, hp]

theorem countP_forceClose {p : Action → Bool} (hp : ∀ f, p (.queueInLoop f) = false)
    (c : TcpConnection) : c.forceClose.log.countP p = c.log.countP p := by
  rw [forceClose]
  split_ifs <;> simp [queueInLoop, setState, hp]

@[simp] theorem writeCalls_did (a : Action) (h : ∀ offered n, a ≠ .write offered n) :
    (c.did a).writeCalls = c.writeCalls := by
  refine List.countP_cons_of_neg ?_
  cases a with
  | write offered n => exact (h offered n rfl).elim
  | _ => simp

theorem writeCalls_write (offered : List Byte) (n : WriteResult) :
    (c.did (.write offered n)).writeCalls = c.writeCalls + 1 := List.countP_cons_of_pos rfl

theorem writeCalls_directWrite (n : WriteResult) :
    (c.directWrite mem data len n).1.writeCalls = c.writeCalls + 1 := by
  cases n with
  | wrote n =>
    simp only [directWrite]
    split_ifs
    · rw [writeCalls_did _ (by simp), writeCalls_write]
    · exact writeCalls_write ..
  | error err => exact writeCalls_write ..

theorem writeCalls_bufferRest (l : SendLocals) :
    (c.bufferRest mem data l).writeCalls = c.writeCalls := countP_bufferRest (fun _ ↦ rfl) l

theorem writeCalls_sendInLoop_le (n : WriteResult) :
    (c.sendInLoop call mem data len n).writeCalls ≤ c.writeCalls + 1 := by
  have hsend := writeCalls_did (c := c) (.sendInLoop call (mem.bytesAt data len)) (by simp)
  simp only [sendInLoop]
  split_ifs
  · omega
  · rw [writeCalls_bufferRest, writeCalls_directWrite, hsend]
  · rw [writeCalls_bufferRest, hsend]
    omega

theorem writeCalls_shutdown (c : TcpConnection) : c.shutdown.writeCalls = c.writeCalls :=
  c.countP_shutdown fun _ ↦ rfl

theorem writeCalls_forceClose (c : TcpConnection) : c.forceClose.writeCalls = c.writeCalls :=
  c.countP_forceClose fun _ ↦ rfl

theorem callbackCalls_called (cb : Callback) :
    (c.did (.called cb)).callbackCalls = c.callbackCalls + 1 := List.countP_cons_of_pos rfl

theorem callbackCalls_completed :
    (c.completed call mem data len).callbackCalls = c.callbackCalls + 1 := callbackCalls_called _

theorem callbackCalls_shutdown (c : TcpConnection) :
    c.shutdown.callbackCalls = c.callbackCalls := c.countP_shutdown fun _ ↦ rfl

theorem callbackCalls_forceClose (c : TcpConnection) :
    c.forceClose.callbackCalls = c.callbackCalls := c.countP_forceClose fun _ ↦ rfl

theorem callbackCalls_bufferRest (l : SendLocals) :
    (c.bufferRest mem data l).callbackCalls = c.callbackCalls := countP_bufferRest (fun _ ↦ rfl) l

/-- Without a complete direct write `sendInLoop` calls nobody back. -/
theorem callbackCalls_sendInLoop (h : ¬ Completes k c len) :
    (c.sendInLoop call mem data len (k.answer c.writeCalls len)).callbackCalls =
      c.callbackCalls := by
  simp only [sendInLoop]
  split_ifs with hstate hw
  · rfl
  · rw [callbackCalls_bufferRest]
    cases hn : k.answer c.writeCalls len with
    | wrote n =>
      simp only [directWrite]
      split_ifs with hcalls
      · obtain rfl : n = len := by omega
        exact (h ⟨hstate, hw, hn, hcalls.2⟩).elim
      · rfl
    | error err => rfl
  · rw [callbackCalls_bufferRest]
    rfl

theorem state_shutdown (c : TcpConnection) : c.shutdown.state ≠ .kConnected := by
  simp only [shutdown, shutdownInLoop]
  split_ifs with hstate
  · simp [setState]
  · simp [setState, did]
  · exact hstate

theorem state_forceClose (c : TcpConnection) : c.forceClose.state ≠ .kConnected := by
  rw [forceClose]
  split_ifs with hstate
  · simp [setState, queueInLoop]
  · exact fun h ↦ hstate (.inl h)

end TcpConnection

namespace UserProgram

open TcpConnection

variable {c : TcpConnection}
  {sendInLoop : TcpConnection → Call → Mem → ℤ → ℕ → Option (TcpConnection × ℕ)}

/-- On a connection that is not established no call of `send` gets through. -/
theorem run_of_not_connected (p : UserProgram) (h : c.state ≠ .kConnected) :
    ∃ c', p.run sendInLoop c = some (c', 0) ∧ c'.writeCalls = c.writeCalls := by
  induction p generalizing c with
  | done => exact ⟨c, rfl, rfl⟩
  | send call mem arg next ih =>
    rw [run, if_neg h]
    exact ih c h
  | shutdown next ih =>
    obtain ⟨c', hrun, hcalls⟩ := ih c.shutdown (state_shutdown c)
    exact ⟨c', hrun, hcalls.trans (writeCalls_shutdown c)⟩
  | forceClose next ih =>
    obtain ⟨c', hrun, hcalls⟩ := ih c.forceClose (state_forceClose c)
    exact ⟨c', hrun, hcalls.trans (writeCalls_forceClose c)⟩

theorem run_of_not_sendsFirst {p : UserProgram} (h : p.sendsFirst = false) :
    ∃ c', p.run sendInLoop c = some (c', 0) ∧ c'.writeCalls = c.writeCalls := by
  cases p with
  | done => exact ⟨c, rfl, rfl⟩
  | send => cases h
  | shutdown next =>
    obtain ⟨c', hrun, hcalls⟩ := (next c.shutdown).run_of_not_connected (state_shutdown c)
    exact ⟨c', hrun, hcalls.trans (writeCalls_shutdown c)⟩
  | forceClose next =>
    obtain ⟨c', hrun, hcalls⟩ := (next c.forceClose).run_of_not_connected (state_forceClose c)
    exact ⟨c', hrun, hcalls.trans (writeCalls_forceClose c)⟩

theorem callbackCalls_le_of_run {p : UserProgram} {c' : TcpConnection} {depth : ℕ}
    (hsend : ∀ {c call mem data len c' depth}, sendInLoop c call mem data len = some (c', depth) →
      c.callbackCalls ≤ c'.callbackCalls)
    (h : p.run sendInLoop c = some (c', depth)) : c.callbackCalls ≤ c'.callbackCalls := by
  induction p generalizing c c' depth with
  | done =>
    cases Option.some.inj h
    exact le_rfl
  | send call mem arg next ih =>
    rw [run] at h
    split_ifs at h
    · obtain ⟨⟨c₁, depth₁⟩, hc₁, h⟩ := Option.bind_eq_some_iff.mp h
      obtain ⟨⟨c₂, depth₂⟩, hc₂, h⟩ := Option.bind_eq_some_iff.mp h
      cases Option.some.inj h
      exact Nat.le_trans (hsend hc₁) (ih c₁ hc₂)
    · exact ih c h
  | shutdown next ih =>
    rw [← callbackCalls_shutdown]
    exact ih c.shutdown h
  | forceClose next ih =>
    rw [← callbackCalls_forceClose]
    exact ih c.forceClose h

/-- A program that begins with `send` has an activation of it on the stack. -/
theorem one_le_of_run_send {p : UserProgram} {c' : TcpConnection} {depth : ℕ}
    (hsend : ∀ c call mem data len c' depth, sendInLoop c call mem data len = some (c', depth) →
      1 ≤ depth)
    (hp : p.sendsFirst = true) (hstate : c.state = .kConnected)
    (h : p.run sendInLoop c = some (c', depth)) : 1 ≤ depth := by
  cases p with
  | send call mem arg next =>
    rw [run, if_pos hstate] at h
    obtain ⟨⟨c₁, depth₁⟩, hc₁, h⟩ := Option.bind_eq_some_iff.mp h
    obtain ⟨⟨c₂, depth₂⟩, -, h⟩ := Option.bind_eq_some_iff.mp h
    cases Option.some.inj h
    exact le_trans (hsend _ _ _ _ _ _ _ hc₁) (Nat.le_max_left ..)
  | done | shutdown | forceClose => cases hp

end UserProgram

namespace TcpConnection

/-- The direct write calls a callback that sends, on a connection that still is
established. -/
def SendsAgain (callback : TcpConnection → UserProgram) (k : Kernel) (c : TcpConnection)
    (call : Call) (mem : Mem) (data : ℤ) (len : ℕ) : Prop :=
  Completes k c len ∧ c.state = .kConnected ∧
    (callback (c.completed call mem data len)).sendsFirst = true

instance (callback : TcpConnection → UserProgram) (k : Kernel) (c : TcpConnection) (call : Call)
    (mem : Mem) (data : ℤ) (len : ℕ) : Decidable (SendsAgain callback k c call mem data len) :=
  inferInstanceAs (Decidable (_ ∧ _ ∧ _))

/-- The call returns, with no other activation inside it and one `write` at most. -/
def ReturnsFlat (callback : TcpConnection → UserProgram) (k : Kernel) (c : TcpConnection)
    (call : Call) (mem : Mem) (data : ℤ) (len : ℕ) : Prop :=
  ∃ fuel c', activate callback k fuel c call mem data len = some (c', 1) ∧
    c'.writeCalls ≤ c.writeCalls + 1

variable {callback : TcpConnection → UserProgram} {k : Kernel} {c : TcpConnection} {call : Call}
  {mem : Mem} {data : ℤ} {len : ℕ}

theorem writeCalls_completed :
    (c.completed call mem data len).writeCalls = c.writeCalls + 1 := by
  rw [completed, writeCalls_did _ (by simp), writeCalls_write, writeCalls_did _ (by simp)]

theorem returnsFlat_iff : ReturnsFlat callback k c call mem data len ↔
    ¬ SendsAgain callback k c call mem data len := by
  constructor
  · rintro ⟨fuel, c', h, -⟩ ⟨hcompletes, hstate, hsends⟩
    cases fuel with
    | zero => cases h
    | succ fuel =>
      rw [activate_of_completes hcompletes] at h
      obtain ⟨⟨c₁, depth⟩, hrun, heq⟩ := Option.map_eq_some_iff.mp h
      cases heq
      have hcompleted : (c.completed call mem data len).state = .kConnected := hstate
      have hle : 1 ≤ 0 := UserProgram.one_le_of_run_send
        (fun _ _ _ _ _ _ _ h ↦ one_le_of_activate h) hsends hcompleted hrun
      omega
  · intro h
    by_cases hc : Completes k c len
    · have hrun : ∃ c', (callback (c.completed call mem data len)).run (activate callback k 0)
          (c.completed call mem data len) = some (c', 0) ∧
            c'.writeCalls = (c.completed call mem data len).writeCalls := by
        by_cases hstate : c.state = .kConnected
        · refine UserProgram.run_of_not_sendsFirst ?_
          rw [← Bool.not_eq_true]
          exact fun hsends ↦ h ⟨hc, hstate, hsends⟩
        · exact UserProgram.run_of_not_connected _ hstate
      obtain ⟨c', hrun, hcalls⟩ := hrun
      refine ⟨1, c', ?_, ?_⟩
      · rw [activate_of_completes hc, hrun]
        rfl
      · rw [hcalls, writeCalls_completed]
    · exact ⟨1, _, activate_of_not_completes hc 0, writeCalls_sendInLoop_le _⟩

theorem callbackCalls_le_of_activate {fuel depth : ℕ} {c' : TcpConnection}
    (h : activate callback k fuel c call mem data len = some (c', depth)) :
    c.callbackCalls ≤ c'.callbackCalls := by
  induction fuel generalizing c call mem data len c' depth with
  | zero => cases h
  | succ fuel ih =>
    by_cases hc : Completes k c len
    · rw [activate_of_completes hc] at h
      obtain ⟨⟨c₁, depth₁⟩, hrun, heq⟩ := Option.map_eq_some_iff.mp h
      cases heq
      have hle := UserProgram.callbackCalls_le_of_run ih hrun
      rw [callbackCalls_completed] at hle
      exact Nat.le_of_succ_le hle
    · rw [activate_of_not_completes hc] at h
      cases Option.some.inj h
      exact Nat.le_of_eq (callbackCalls_sendInLoop hc).symm

/-- The call returns and has called no callback, no other activation was inside it, and it
wrote once at most. -/
def ReturnsDeferred (callback : TcpConnection → UserProgram) (k : Kernel) (c : TcpConnection)
    (call : Call) (mem : Mem) (data : ℤ) (len : ℕ) : Prop :=
  ∃ fuel c', activate callback k fuel c call mem data len = some (c', 1) ∧
    c'.callbackCalls = c.callbackCalls ∧ c'.writeCalls ≤ c.writeCalls + 1

theorem returnsDeferred_iff : ReturnsDeferred callback k c call mem data len ↔
    ¬ Completes k c len := by
  constructor
  · rintro ⟨fuel, c', h, hcalls, -⟩ hcompletes
    cases fuel with
    | zero => cases h
    | succ fuel =>
      rw [activate_of_completes hcompletes] at h
      obtain ⟨⟨c₁, depth⟩, hrun, heq⟩ := Option.map_eq_some_iff.mp h
      cases heq
      have hle := UserProgram.callbackCalls_le_of_run callbackCalls_le_of_activate hrun
      rw [callbackCalls_completed, hcalls] at hle
      omega
  · exact fun h ↦ ⟨1, _, activate_of_not_completes h 0, callbackCalls_sendInLoop h,
      writeCalls_sendInLoop_le _⟩

end TcpConnection

/-- What happens to a connection in its loop thread. `sendInLoop` is a call from the
loop: out of a callback that the loop runs, or of the functor that another thread's
`send` queued. -/
inductive SendEvent
  | sendInLoop (fuel : ℕ) (call : Call) (mem : Mem) (data : ℤ) (len : ℕ)
  | handleRead (r : ReadResult)
  | handleWrite
  | handleClose
  | shutdown
  | shutdownInLoop
  | forceClose
  | forceCloseInLoop
  | connectDestroyed

namespace SendEvent

open TcpConnection

variable (callback : TcpConnection → UserProgram) (k : Kernel)

def step (c : TcpConnection) : SendEvent → Option TcpConnection
  | sendInLoop fuel call mem data len =>
    (activate callback k fuel c call mem data len).map Prod.fst
  | handleRead r =>
    if r.Possible c.inputBuffer.val.readvLength then some (c.handleRead r) else none
  | handleWrite => some (c.handleWrite (k.answer c.writeCalls c.outputBuffer.readableBytes))
  | handleClose => some c.handleClose
  | shutdown => some c.shutdown
  | shutdownInLoop => some c.shutdownInLoop
  | forceClose => some c.forceClose
  | forceCloseInLoop => some c.forceCloseInLoop
  | connectDestroyed => some c.connectDestroyed

def Flat (c : TcpConnection) : SendEvent → Prop
  | sendInLoop _ call mem data len => ReturnsFlat callback k c call mem data len
  | _ => True

def SendsOnce (c : TcpConnection) : SendEvent → Prop
  | sendInLoop _ call mem data len => ¬ SendsAgain callback k c call mem data len
  | _ => True

def Deferred (c : TcpConnection) : SendEvent → Prop
  | sendInLoop _ call mem data len => ReturnsDeferred callback k c call mem data len
  | _ => True

def Incomplete (c : TcpConnection) : SendEvent → Prop
  | sendInLoop _ _ _ _ len => ¬ Completes k c len
  | _ => True

/-- Whatever the user's callback does and the kernel answers, in a run no callback is
called inside `sendInLoop`, no activations of it nest and each returns after one `write` at
most, if and only if no direct write in it takes a whole message while a write-complete
callback is set. -/
theorem deferred_iff (c : TcpConnection) (es : List SendEvent) :
    Along (step callback k) (Deferred callback k) c es ↔
      Along (step callback k) (Incomplete k) c es := by
  refine along_iff_along (I := fun _ ↦ True) (fun c e _ ↦ ?_) (fun _ _ _ _ _ _ ↦ trivial) trivial
  cases e with
  | sendInLoop => exact returnsDeferred_iff
  | handleRead | handleWrite | handleClose | shutdown | shutdownInLoop | forceClose
  | forceCloseInLoop | connectDestroyed => exact Iff.rfl

/-- Whatever the user's callback does and the kernel answers, no activations of
`sendInLoop` nest in a run, and each returns after one `write` at most, if and only if
no direct write in it calls a callback that sends on an established connection. -/
theorem flat_iff (c : TcpConnection) (es : List SendEvent) :
    Along (step callback k) (Flat callback k) c es ↔
      Along (step callback k) (SendsOnce callback k) c es := by
  refine along_iff_along (I := fun _ ↦ True) (fun c e _ ↦ ?_) (fun _ _ _ _ _ _ ↦ trivial) trivial
  cases e with
  | sendInLoop => exact returnsFlat_iff
  | handleRead | handleWrite | handleClose | shutdown | shutdownInLoop | forceClose
  | forceCloseInLoop | connectDestroyed => exact Iff.rfl

def again (_ : TcpConnection) : UserProgram :=
  .send ⟨0, .string 7 1, [7]⟩ .numbered (.string 7 1) fun _ ↦ .done

def takesAll : Kernel := ⟨fun _ len ↦ .wrote len, fun _ len ↦ le_refl len⟩

/-- Each activation starts the next, so the first call of `send` never returns. -/
theorem never_returns {c : TcpConnection} (hstate : c.state = .kConnected)
    (hw : c.writesAtOnce = true) (hcallback : c.callbacks.writeComplete = true) (fuel : ℕ)
    (call : Call) (mem : Mem) (data : ℤ) (len : ℕ) :
    activate again takesAll fuel c call mem data len = none := by
  induction fuel generalizing c call mem data len with
  | zero => rfl
  | succ fuel ih =>
    have hcompletes : Completes takesAll c len := ⟨by simp [hstate], hw, rfl, hcallback⟩
    rw [activate_of_completes hcompletes, again, UserProgram.run,
      if_pos (show (c.completed call mem data len).state = .kConnected from hstate)]
    have hnext := ih (c := c.completed call mem data len) hstate hw hcallback
      ⟨0, .string 7 1, [7]⟩ .numbered 7 1
    simp only [SendArg.data, SendArg.len, hnext]
    rfl

/-- A peer that reads as fast as the callback sends. -/
theorem not_flat : ¬ ∀ es : List SendEvent, Along (step again takesAll) (Flat again takesAll)
    (new 5 9 .empty ⟨true, true, true, true⟩).connectEstablished es := by
  intro h
  obtain ⟨fuel, c', hc, -⟩ :=
    (along_cons.mp (h [.sendInLoop 1 ⟨0, .string 7 1, [7]⟩ .numbered 7 1])).1
  have hnever := never_returns (c := (new 5 9 .empty ⟨true, true, true, true⟩).connectEstablished)
    (by decide) (by decide) (by decide) fuel ⟨0, .string 7 1, [7]⟩ .numbered 7 1
  rw [hnever] at hc
  cases hc

end SendEvent

end Mymuduo.Net
