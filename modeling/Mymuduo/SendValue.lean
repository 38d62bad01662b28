import Mymuduo.ConnectionThreads

namespace Mymuduo.Net

open Execution

namespace Action

def handed : Action → List (Call × List Byte)
  | sendInLoop call message => [(call, message)]
  | _ => []

end Action

namespace Functor

def handed (mem : Mem) : Functor → List (Call × List Byte)
  | sendInLoop call data len => [(call, mem.bytesAt data len)]
  | _ => []

end Functor

namespace TcpConnection

variable {c c' c'' : TcpConnection}

def handed (c : TcpConnection) : List (Call × List Byte) := c.log.flatMap Action.handed

/-- Calls that are handed to `sendInLoop`, the latest first. No call is queued for it. -/
structure Hands (c c' : TcpConnection) (ps : List (Call × List Byte)) : Prop where
  handed : c'.handed = ps ++ c.handed
  queued : ∀ {call data len}, .sendInLoop call data len ∈ c'.pending →
    .sendInLoop call data len ∈ c.pending

abbrev HandsNothing (c c' : TcpConnection) : Prop := Hands c c' []

theorem Hands.trans {ps : List (Call × List Byte)} (h : HandsNothing c c')
    (h' : Hands c' c'' ps) : Hands c c'' ps :=
  ⟨h'.handed.trans (congrArg _ h.handed), fun hmem ↦ h.queued (h'.queued hmem)⟩

theorem Hands.of_eq (hhanded : c'.handed = c.handed) (hpending : c'.pending = c.pending) :
    HandsNothing c c' := ⟨hhanded, fun hmem ↦ hpending ▸ hmem⟩

theorem Hands.ite {p : Prop} [Decidable p] {ps : List (Call × List Byte)} (h : Hands c c' ps)
    (h' : Hands c c'' ps) : Hands c (if p then c' else c'') ps := by
  split_ifs
  · exact h
  · exact h'

theorem handsNothing_refl (c : TcpConnection) : HandsNothing c c := .of_eq rfl rfl

theorem handsNothing_did {a : Action} (ha : a.handed = []) : HandsNothing c (c.did a) := by
  refine .of_eq ?_ rfl
  rw [handed, did, List.flatMap_cons, ha, List.nil_append, handed]

theorem handsNothing_queueInLoop {f : Functor}
    (hf : ∀ call data len, f ≠ .sendInLoop call data len) :
    HandsNothing c (c.queueInLoop f) := by
  refine ⟨rfl, fun hmem ↦ (List.mem_append.mp hmem).resolve_right fun hmem ↦ ?_⟩
  exact hf _ _ _ (List.mem_singleton.mp hmem).symm

theorem handsNothing_directWrite (mem : Mem) (data : ℤ) (len : ℕ) (n : WriteResult) :
    HandsNothing c (c.directWrite mem data len n).1 := by
  have hwrite : HandsNothing c (c.did (.write (mem.bytesAt data len) n)) := handsNothing_did rfl
  cases n with
  | wrote n => exact hwrite.trans (.ite (handsNothing_did rfl) (handsNothing_refl _))
  | error err => exact hwrite

theorem handsNothing_bufferRest (mem : Mem) (data : ℤ) (l : SendLocals) :
    HandsNothing c (c.bufferRest mem data l) := by
  have hcrossed (newLen : ℕ) : HandsNothing c (c.queueInLoop (.highWaterMarkCallback newLen)) :=
    handsNothing_queueInLoop (by simp)
  have hbuffered (c : TcpConnection) (b : ValidBuffer) : HandsNothing c
      (if ({ c with outputBuffer := b }).channel.isWriting then { c with outputBuffer := b }
        else { c with outputBuffer := b }.setChannel (c.channel.enableWriting c.poller)) :=
    .ite (.of_eq rfl rfl) (.of_eq rfl rfl)
  exact .ite (.trans (.ite (hcrossed _) (handsNothing_refl c)) (hbuffered _ _))
    (handsNothing_refl c)

/-- `sendInLoop` is handed its message, and does the rest without another one. -/
theorem handsNothing_sendInLoop (call : Call) (mem : Mem) (data : ℤ) (len : ℕ) (n : WriteResult) :
    HandsNothing (c.did (.sendInLoop call (mem.bytesAt data len)))
      (c.sendInLoop call mem data len n) :=
  .ite (handsNothing_refl _) (.ite ((handsNothing_directWrite ..).trans
    (handsNothing_bufferRest ..)) (handsNothing_bufferRest ..))

theorem hands_sendInLoop (call : Call) (mem : Mem) (data : ℤ) (len : ℕ) (n : WriteResult) :
    Hands c (c.sendInLoop call mem data len n) [(call, mem.bytesAt data len)] :=
  ⟨(handsNothing_sendInLoop call mem data len n).handed,
    (handsNothing_sendInLoop call mem data len n).queued⟩

theorem handsNothing_shutdownInLoop : HandsNothing c c.shutdownInLoop :=
  .ite (handsNothing_refl c) (handsNothing_did rfl)

theorem handsNothing_handleClose : HandsNothing c c.handleClose := by
  have hclosed : HandsNothing c
      ((c.setState .kDisconnected).setChannel (c.channel.disableAll c.poller)) := .of_eq rfl rfl
  have hcalled (cb : Callback) (b : Bool) (c : TcpConnection) :
      HandsNothing c (if b then c.did (.called cb) else c) :=
    .ite (handsNothing_did rfl) (handsNothing_refl c)
  exact (hclosed.trans (hcalled (.connection false) _ _)).trans (hcalled .close _ _)

theorem handsNothing_handleRead (n : ReadResult) : HandsNothing c (c.handleRead n) := by
  have hread : HandsNothing c { c with inputBuffer := c.inputBuffer.readFd n } := .of_eq rfl rfl
  exact hread.trans (.ite (handsNothing_did rfl)
    (.ite handsNothing_handleClose (handsNothing_refl _)))

theorem handsNothing_stopWriting : HandsNothing c c.stopWriting := by
  have hdisabled : HandsNothing c (c.setChannel (c.channel.disableWriting c.poller)) :=
    .of_eq rfl rfl
  exact hdisabled.trans (.ite (handsNothing_queueInLoop (by simp)) (handsNothing_refl _))

theorem handsNothing_handleWrite (n : WriteResult) : HandsNothing c (c.handleWrite n) := by
  have hflush : HandsNothing c (c.flush n) := .of_eq rfl rfl
  refine .ite (hflush.trans (.ite (handsNothing_stopWriting.trans ?_) (handsNothing_refl _)))
    (handsNothing_refl c)
  exact .ite handsNothing_shutdownInLoop (handsNothing_refl _)

theorem handsNothing_connectDestroyed : HandsNothing c c.connectDestroyed := by
  have hremoved (c : TcpConnection) : HandsNothing c (c.setChannel (c.channel.remove c.poller)) :=
    .of_eq rfl rfl
  have hdisabled : HandsNothing c
      ((c.setState .kDisconnected).setChannel (c.channel.disableAll c.poller)) := .of_eq rfl rfl
  exact .trans (.ite (hdisabled.trans (handsNothing_did rfl)) (handsNothing_refl c)) (hremoved _)

theorem handsNothing_shutdown : HandsNothing c c.shutdown := by
  have hset : HandsNothing c (c.setState .kDisconnecting) := .of_eq rfl rfl
  exact .ite (hset.trans handsNothing_shutdownInLoop) (handsNothing_refl c)

theorem handsNothing_forceClose : HandsNothing c c.forceClose := by
  have hset : HandsNothing c (c.setState .kDisconnecting) := .of_eq rfl rfl
  exact .ite (hset.trans (handsNothing_queueInLoop (by simp))) (handsNothing_refl c)

theorem hands_call (f : Functor) (mem : Mem) (n : WriteResult) :
    Hands c (c.call f mem n) (f.handed mem) := by
  cases f with
  | sendInLoop call data len => exact hands_sendInLoop call mem data len n
  | shutdownInLoop => exact handsNothing_shutdownInLoop
  | forceCloseInLoop => exact .ite handsNothing_handleClose (handsNothing_refl c)
  | connectDestroyed => exact handsNothing_connectDestroyed
  | writeCompleteCallback | highWaterMarkCallback => exact handsNothing_did rfl

end TcpConnection

namespace Mark

def ArgEmpty : Mark → Prop
  | sendReturned _ _ arg => arg.left = []
  | shutdownCalled _ => True

end Mark

namespace Threads

variable (s : Threads)

/-- `sendInLoop` was handed what the arguments held, and every `Buffer` argument
was empty when `send` returned. -/
def ValueSemantics : Prop :=
  (∀ p ∈ s.conn.handed, p.2 = p.1.held) ∧ ∀ m ∈ s.marks, m.ArgEmpty

/-- A `send` that queues has no bytes to leave behind in its argument. -/
def ArgKept : ThreadEvent → Prop
  | .sendQueue t =>
    match s.caller t with
    | .sendTested _ arg => arg.left = []
    | _ => True
  | _ => True

/-- The argument of a queued call holds at its turn what it held at the call. -/
def StorageKept : ThreadEvent → Prop
  | .runFunctor _ =>
    match s.conn.pending with
    | .sendInLoop call _ _ :: _ => call.arg.held s.mem = call.held
    | _ => True
  | _ => True

instance (e : ThreadEvent) : Decidable (s.ArgKept e) :=
  match e with
  | .sendQueue t =>
    show Decidable (match s.caller t with
      | .sendTested _ arg => arg.left = []
      | _ => True) from
    match s.caller t with
    | .sendTested _ arg => inferInstanceAs (Decidable (arg.left = []))
    | .idle | .shutdownTested | .shutdownStored => .isTrue trivial
  | .write _ | .sendTest _ _ | .shutdownTest _ | .shutdownStore _ | .shutdownQueue _
  | .queueConnectDestroyed | .send _ _ | .shutdown | .forceClose | .handleRead _
  | .handleWrite _ | .runFunctor _ => .isTrue trivial

instance (e : ThreadEvent) : Decidable (s.StorageKept e) :=
  match e with
  | .runFunctor _ =>
    show Decidable (match s.conn.pending with
      | .sendInLoop call _ _ :: _ => call.arg.held s.mem = call.held
      | _ => True) from
    match s.conn.pending with
    | .sendInLoop _ _ _ :: _ => inferInstanceAs (Decidable (_ = _))
    | [] | .shutdownInLoop :: _ | .forceCloseInLoop :: _ | .connectDestroyed :: _
    | .writeCompleteCallback :: _ | .highWaterMarkCallback _ :: _ => .isTrue trivial
  | .write _ | .sendTest _ _ | .sendQueue _ | .shutdownTest _ | .shutdownStore _
  | .shutdownQueue _ | .queueConnectDestroyed | .send _ _ | .shutdown | .forceClose
  | .handleRead _ | .handleWrite _ => .isTrue trivial

abbrev ValueKept (e : ThreadEvent) : Prop := s.ArgKept e ∧ s.StorageKept e

/-- What a functor has captured is the address and the length that the argument of its
call gives. -/
structure Captured : Prop where
  pending : ∀ {call data len}, .sendInLoop call data len ∈ s.conn.pending →
    data = call.arg.data ∧ len = call.arg.len
  caller : ∀ {t call arg}, s.caller t = .sendTested call arg → call.arg = arg

variable {s} {s' : Threads}

theorem Captured.hands {ps : List (Call × List Byte)} (h : s.Captured)
    (hconn : s.conn.Hands s'.conn ps) (hcaller : s'.caller = s.caller) : s'.Captured where
  pending hmem := h.pending (hconn.queued hmem)
  caller ht := h.caller (hcaller ▸ ht)

theorem Captured.setCaller (h : s.Captured) (t : ℕ) {p : Caller}
    (hp : ∀ {call arg}, p = .sendTested call arg → call.arg = arg) :
    (s.setCaller t p).Captured where
  pending := h.pending
  caller {u call arg} hu := by
    by_cases hut : u = t
    · subst hut
      exact hp (by simpa [Threads.setCaller] using hu)
    · exact h.caller (by simpa [Threads.setCaller, hut] using hu)

theorem Captured.sendQueue (h : s.Captured) {t : ℕ} {call : Call} {arg : SendArg}
    (hcaller : s.caller t = .sendTested call arg) : (s.sendQueue t call arg).Captured := by
  have hqueued : { s with
      conn := s.conn.queueInLoop (.sendInLoop call arg.data arg.len) }.Captured := by
    refine ⟨fun hmem ↦ ?_, h.caller⟩
    rcases List.mem_append.mp hmem with hmem | hmem
    · exact h.pending hmem
    · cases List.mem_singleton.mp hmem
      rw [h.caller hcaller]
      exact ⟨rfl, rfl⟩
  have hidle := hqueued.setCaller t (p := .idle) (by simp)
  cases arg <;> exact ⟨hidle.pending, hidle.caller⟩

theorem step_captured {e : ThreadEvent} (h : s.Captured) (hstep : s.step e = some s') :
    s'.Captured := by
  cases steps_of_step hstep with
  | sendTest =>
    rw [sendTest]
    split_ifs
    · have hcalls : { s with calls := s.calls + 1 }.Captured := ⟨h.pending, h.caller⟩
      exact hcalls.setCaller _ fun hp ↦ by
        cases hp
        rfl
    · exact h
  | sendQueue hcaller => exact h.sendQueue hcaller
  | @shutdownTest t =>
    have hmarked : (s.mark (.shutdownCalled (some t))).Captured := ⟨h.pending, h.caller⟩
    simp only [shutdownTest]
    split_ifs
    · exact hmarked.setCaller t (by simp)
    · exact hmarked
  | shutdownStore =>
    have hstored : { s with conn := s.conn.setState .kDisconnecting }.Captured :=
      ⟨h.pending, h.caller⟩
    exact hstored.setCaller _ (by simp)
  | shutdownQueue =>
    have hqueued : { s with conn := s.conn.queueInLoop .shutdownInLoop }.Captured :=
      h.hands (TcpConnection.handsNothing_queueInLoop (by simp)) rfl
    exact hqueued.setCaller _ (by simp)
  | @send arg =>
    rw [send]
    split_ifs
    · cases arg <;> exact h.hands (TcpConnection.hands_sendInLoop ..) rfl
    · exact h
  | @runFunctor f rest n hpending =>
    have hrest : { s with conn := { s.conn with pending := rest } }.Captured :=
      ⟨fun hmem ↦ h.pending (hpending ▸ List.mem_cons_of_mem f hmem), h.caller⟩
    exact hrest.hands (TcpConnection.hands_call f s.mem n) rfl
  | write => exact ⟨h.pending, h.caller⟩
  | queueConnectDestroyed =>
    exact h.hands (TcpConnection.handsNothing_queueInLoop (by simp)) rfl
  | shutdown => exact h.hands TcpConnection.handsNothing_shutdown rfl
  | forceClose => exact h.hands TcpConnection.handsNothing_forceClose rfl
  | handleRead => exact h.hands (TcpConnection.handsNothing_handleRead _) rfl
  | handleWrite => exact h.hands (TcpConnection.handsNothing_handleWrite _) rfl

theorem captured_start (fd ptr : ℕ) (poller : EpollPoller) (callbacks : Callbacks) (mem : Mem) :
    (start fd ptr poller callbacks mem).Captured where
  pending hmem := (List.not_mem_nil hmem).elim
  caller ht := by cases ht

theorem valueSemantics_of_append (ps : List (Call × List Byte)) (ms : List Mark)
    (hh : s'.conn.handed = ps ++ s.conn.handed) (hm : s'.marks = ms ++ s.marks) :
    s'.ValueSemantics ↔
      s.ValueSemantics ∧ (∀ p ∈ ps, p.2 = p.1.held) ∧ ∀ m ∈ ms, m.ArgEmpty := by
  simp only [ValueSemantics, hh, hm, List.forall_mem_append]
  tauto

theorem valueSemantics_frame {e : ThreadEvent} (ms : List Mark) (hk : s.ValueKept e)
    (hms : ∀ m ∈ ms, m.ArgEmpty) (hh : s'.conn.handed = s.conn.handed)
    (hm : s'.marks = ms ++ s.marks) : s'.ValueSemantics ↔ s.ValueSemantics ∧ s.ValueKept e := by
  rw [valueSemantics_of_append [] ms hh hm]
  exact and_congr_right fun _ ↦ iff_of_true ⟨by simp, hms⟩ hk

theorem valueSemantics_sendQueue (t : ℕ) (call : Call) (arg : SendArg) :
    (s.sendQueue t call arg).ValueSemantics ↔ s.ValueSemantics ∧ arg.left = [] := by
  have hh : (s.sendQueue t call arg).conn.handed = [] ++ s.conn.handed := by cases arg <;> rfl
  have hm : (s.sendQueue t call arg).marks = [.sendReturned (some t) call arg] ++ s.marks := by
    cases arg <;> rfl
  rw [valueSemantics_of_append _ _ hh hm]
  simp [Mark.ArgEmpty]

theorem valueSemantics_send (arg : SendArg) (n : WriteResult) :
    (s.send arg n).ValueSemantics ↔ s.ValueSemantics := by
  rw [send]
  split_ifs
  · have hh : (s.conn.send true (s.newCall arg) s.mem n arg).1.handed =
        [(s.newCall arg, arg.held s.mem)] ++ s.conn.handed := by
      cases arg <;> exact (TcpConnection.hands_sendInLoop ..).handed
    have hleft : (s.conn.send true (s.newCall arg) s.mem n arg).2.left = [] := by
      cases arg with
      | string data len => rfl
      | buffer base buf => exact buf.readable_retrieveAll
    dsimp only
    rw [valueSemantics_of_append (s := s) [(s.newCall arg, arg.held s.mem)]
      [.sendReturned none (s.newCall arg) (s.conn.send true _ s.mem n arg).2] hh rfl]
    exact and_iff_left ⟨by simp [newCall, SendArg.held], by simpa [Mark.ArgEmpty] using hleft⟩
  · rfl

theorem valueSemantics_runFunctor (f : Functor) (rest : List Functor) (n : WriteResult) :
    (s.runFunctor f rest n).ValueSemantics ↔
      s.ValueSemantics ∧ ∀ p ∈ f.handed s.mem, p.2 = p.1.held := by
  have hh : (s.runFunctor f rest n).conn.handed = f.handed s.mem ++ s.conn.handed :=
    (TcpConnection.hands_call ..).handed
  rw [valueSemantics_of_append _ [] hh rfl]
  simp

theorem storageKept_runFunctor {f : Functor} {rest : List Functor} {n : WriteResult}
    (hcaptured : s.Captured) (hpending : s.conn.pending = f :: rest) :
    s.StorageKept (.runFunctor n) ↔ ∀ p ∈ f.handed s.mem, p.2 = p.1.held := by
  cases f with
  | sendInLoop call data len =>
    obtain ⟨rfl, rfl⟩ := hcaptured.pending (hpending ▸ List.mem_cons_self)
    simp [StorageKept, hpending, Functor.handed, SendArg.held]
  | shutdownInLoop | forceCloseInLoop | connectDestroyed | writeCompleteCallback
  | highWaterMarkCallback => simp [StorageKept, hpending, Functor.handed]

theorem step_valueSemantics {e : ThreadEvent} (hcaptured : s.Captured) (h : s.step e = some s') :
    s'.ValueSemantics ↔ s.ValueSemantics ∧ s.ValueKept e := by
  cases steps_of_step h with
  | sendQueue hcaller =>
    rw [valueSemantics_sendQueue]
    simp [ValueKept, ArgKept, StorageKept, hcaller]
  | runFunctor hpending =>
    rw [valueSemantics_runFunctor, ValueKept, storageKept_runFunctor hcaptured hpending]
    exact and_congr_right fun _ ↦ (and_iff_right trivial).symm
  | send =>
    rw [valueSemantics_send]
    exact (and_iff_left ⟨trivial, trivial⟩).symm
  | sendTest =>
    rw [sendTest]
    split <;> exact (and_iff_left ⟨trivial, trivial⟩).symm
  | @shutdownTest t =>
    refine valueSemantics_frame [.shutdownCalled (some t)] ⟨trivial, trivial⟩ ?_ ?_ ?_
    · simp [Mark.ArgEmpty]
    · simp only [shutdownTest]
      split <;> rfl
    · simp only [shutdownTest]
      split <;> rfl
  | shutdown =>
    exact valueSemantics_frame [.shutdownCalled none] ⟨trivial, trivial⟩
      (by simp [Mark.ArgEmpty]) TcpConnection.handsNothing_shutdown.handed rfl
  | write | shutdownStore | shutdownQueue | queueConnectDestroyed =>
    exact (and_iff_left ⟨trivial, trivial⟩).symm
  | forceClose =>
    exact valueSemantics_frame [] ⟨trivial, trivial⟩ (by simp)
      TcpConnection.handsNothing_forceClose.handed rfl
  | handleRead =>
    exact valueSemantics_frame [] ⟨trivial, trivial⟩ (by simp)
      (TcpConnection.handsNothing_handleRead _).handed rfl
  | handleWrite =>
    exact valueSemantics_frame [] ⟨trivial, trivial⟩ (by simp)
      (TcpConnection.handsNothing_handleWrite _).handed rfl

def established (mem : Mem) : Threads := start 5 0 .empty ⟨true, true, false, true⟩ mem

end Threads

end Mymuduo.Net
