import Mymuduo.OutputStream
import Mymuduo.SendValue

namespace Mymuduo.Net

open Execution

namespace Action

def message : Action → List Byte
  | sendInLoop _ message => message
  | _ => []

def isWrite : Action → Bool
  | write _ _ => true
  | _ => false

def Plain : Action → Prop
  | sendInLoop _ _ | shutdownWrite _ => False
  | _ => True

end Action

def taken (log : List Action) : List Byte := log.reverse.flatMap Action.taken

def messages (log : List Action) : List Byte := log.reverse.flatMap Action.message

def HalfClosed (log : List Action) : Prop := ∃ unsent, .shutdownWrite unsent ∈ log

@[simp] theorem messages_cons (a : Action) (log : List Action) :
    messages (a :: log) = messages log ++ a.message := by
  simp [messages]

@[simp] theorem halfClosed_cons (a : Action) (log : List Action) :
    HalfClosed (a :: log) ↔ (∃ unsent, a = .shutdownWrite unsent) ∨ HalfClosed log := by
  simp only [HalfClosed, List.mem_cons, exists_or, eq_comm]

/-- What is true of a half close when `owed` are the calls that it must not
overtake; `older` and `newer` are the actions before and after it. -/
structure CleanClose (owed : Call → Prop) (newer : List Action) (unsent : List Byte)
    (older : List Action) : Prop where
  drained : unsent = []
  complete : taken older = messages older
  owed_handed : ∀ call, owed call → .sendInLoop call call.held ∈ older
  silent : ∀ a ∈ newer, a.isWrite = false

def Clean (owed : Call → Prop) (log : List Action) : Prop :=
  ∀ newer unsent older, log = newer ++ .shutdownWrite unsent :: older →
    CleanClose owed newer unsent older

theorem CleanClose.mono {owed owed' : Call → Prop} {newer older : List Action}
    {unsent : List Byte} (h : CleanClose owed newer unsent older)
    (ho : ∀ call, owed' call → owed call) : CleanClose owed' newer unsent older :=
  ⟨h.drained, h.complete, fun call hc ↦ h.owed_handed call (ho call hc), h.silent⟩

theorem clean_of_not_halfClosed {owed : Call → Prop} {log : List Action} (h : ¬ HalfClosed log) :
    Clean owed log := by
  rintro newer unsent older rfl
  exact (h ⟨unsent, by simp⟩).elim

theorem Clean.cons {owed : Call → Prop} {log : List Action} (h : Clean owed log) {a : Action}
    (hwrite : a.isWrite = false) (hclose : ∀ unsent, a = .shutdownWrite unsent →
      CleanClose owed [] unsent log) : Clean owed (a :: log) := by
  intro newer unsent older heq
  cases newer with
  | nil =>
    obtain ⟨rfl, rfl⟩ := List.cons.inj heq
    exact hclose unsent rfl
  | cons b newer =>
    obtain ⟨rfl, rfl⟩ := List.cons.inj heq
    obtain ⟨hd, hc, ho, hs⟩ := h newer unsent older rfl
    exact ⟨hd, hc, ho, List.forall_mem_cons.mpr ⟨hwrite, hs⟩⟩

theorem Clean.owe {owed owed' : Call → Prop} {log : List Action} (h : Clean owed log)
    (ho : HalfClosed log → ∀ call, owed' call → owed call) : Clean owed' log := by
  intro newer unsent older heq
  exact (h newer unsent older heq).mono (ho ⟨unsent, by simp [heq]⟩)

namespace TcpConnection

def Notifies : Functor → Prop
  | .writeCompleteCallback | .highWaterMarkCallback _ => True
  | _ => False

def Adds (c c' : TcpConnection) : Prop :=
  (∃ acts, c'.log = acts ++ c.log ∧ ∀ a ∈ acts, a.Plain) ∧
    ∃ fs, c'.pending = c.pending ++ fs ∧ ∀ f ∈ fs, Notifies f

variable {c c' c'' : TcpConnection}

theorem Adds.refl (c : TcpConnection) : c.Adds c :=
  ⟨⟨[], rfl, by simp⟩, [], by simp, by simp⟩

theorem Adds.trans (h : c.Adds c') (h' : c'.Adds c'') : c.Adds c'' := by
  obtain ⟨⟨acts, hlog, hacts⟩, fs, hpending, hfs⟩ := h
  obtain ⟨⟨acts', hlog', hacts'⟩, fs', hpending', hfs'⟩ := h'
  refine ⟨⟨acts' ++ acts, ?_, ?_⟩, fs ++ fs', ?_, ?_⟩
  · rw [hlog', hlog, List.append_assoc]
  · exact List.forall_mem_append.mpr ⟨hacts', hacts⟩
  · rw [hpending', hpending, List.append_assoc]
  · exact List.forall_mem_append.mpr ⟨hfs, hfs'⟩

theorem Adds.did (h : c.Adds c') {a : Action} (ha : a.Plain) : c.Adds (c'.did a) :=
  h.trans ⟨⟨[a], rfl, by simpa using ha⟩, [], (List.append_nil _).symm, by simp⟩

theorem Adds.queueInLoop (h : c.Adds c') {f : Functor} (hf : Notifies f) :
    c.Adds (c'.queueInLoop f) :=
  h.trans ⟨⟨[.queueInLoop f], rfl, by simp [Action.Plain]⟩, [f], rfl, by simpa using hf⟩

theorem Adds.of_eq (h : c.Adds c') (hlog : c''.log = c'.log) (hpending : c''.pending = c'.pending) :
    c.Adds c'' :=
  h.trans ⟨⟨[], hlog, by simp⟩, [], by simpa using hpending, by simp⟩

theorem Adds.messages (h : c.Adds c') : messages c'.log = messages c.log := by
  obtain ⟨⟨acts, hlog, hacts⟩, -⟩ := h
  rw [hlog]
  clear hlog
  induction acts with
  | nil => rfl
  | cons a acts ih =>
    have ha : a.message = [] := by
      have := hacts a List.mem_cons_self
      cases a <;> first | rfl | exact this.elim
    rw [List.cons_append, messages_cons, ha, List.append_nil,
      ih fun b hb ↦ hacts b (List.mem_cons_of_mem _ hb)]

theorem Adds.halfClosed (h : c.Adds c') : HalfClosed c'.log ↔ HalfClosed c.log := by
  obtain ⟨⟨acts, hlog, hacts⟩, -⟩ := h
  have hnone (unsent : List Byte) : Action.shutdownWrite unsent ∉ acts := hacts _
  simp [HalfClosed, hlog, hnone]

theorem adds_bufferRest (c : TcpConnection) (mem : Mem) (data : ℤ) (l : SendLocals) :
    c.Adds (c.bufferRest mem data l) := by
  rw [bufferRest]
  split
  · dsimp only
    split
    · have hq := (Adds.refl c).queueInLoop (f := .highWaterMarkCallback
        (c.outputBuffer.readableBytes + l.remaining.toNat)) trivial
      split <;> exact hq.of_eq rfl rfl
    · split <;> exact (Adds.refl c).of_eq rfl rfl
  · exact Adds.refl c

theorem adds_directWrite (c : TcpConnection) (mem : Mem) (data : ℤ) (len : ℕ) (n : WriteResult) :
    c.Adds (c.directWrite mem data len n).1 := by
  have hw := (Adds.refl c).did (a := .write (mem.bytesAt data len) n) trivial
  simp only [directWrite]
  cases n with
  | wrote n =>
    dsimp only
    split
    · exact hw.did trivial
    · exact hw
  | error err => exact hw

theorem adds_sendInLoop (c : TcpConnection) (call : Call) (mem : Mem) (data : ℤ) (len : ℕ)
    (n : WriteResult) :
    (c.did (.sendInLoop call (mem.bytesAt data len))).Adds (c.sendInLoop call mem data len n) := by
  simp only [sendInLoop]
  split_ifs
  · exact Adds.refl _
  · exact (adds_directWrite _ mem data len n).trans (adds_bufferRest _ _ _ _)
  · exact adds_bufferRest _ _ _ _

def Attended (c : TcpConnection) : Prop :=
  c.outputBuffer.readable ≠ [] → c.channel.isWriting = true

theorem attended_bufferRest (c : TcpConnection) (mem : Mem) (data : ℤ) (l : SendLocals)
    (h : c.Attended) : (c.bufferRest mem data l).Attended := by
  have hbuffered (c' : TcpConnection) : (if c'.channel.isWriting then c' else
      c'.setChannel (c'.channel.enableWriting c'.poller)).channel.isWriting = true := by
    split_ifs with hw
    · exact hw
    · exact Channel.isWriting_enableWriting _ _
  rw [bufferRest]
  split
  · intro _
    exact hbuffered _
  · exact h

theorem attended_directWrite (c : TcpConnection) (mem : Mem) (data : ℤ) (len : ℕ)
    (n : WriteResult) (h : c.Attended) : (c.directWrite mem data len n).1.Attended := by
  simp only [directWrite]
  cases n with
  | wrote n =>
    dsimp only
    split <;> exact h
  | error err => exact h

theorem attended_sendInLoop (c : TcpConnection) (call : Call) (mem : Mem) (data : ℤ) (len : ℕ)
    (n : WriteResult) (h : c.Attended) : (c.sendInLoop call mem data len n).Attended := by
  simp only [sendInLoop]
  split_ifs
  · exact h
  · exact attended_bufferRest _ _ _ _ (attended_directWrite _ _ _ _ _ h)
  · exact attended_bufferRest _ _ _ _ h

theorem adds_flush (c : TcpConnection) (n : WriteResult) : c.Adds (c.flush n) :=
  ((Adds.refl c).did (a := .write c.outputBuffer.readable n) trivial).of_eq rfl rfl

theorem adds_stopWriting (c : TcpConnection) : c.Adds c.stopWriting := by
  simp only [stopWriting]
  split
  · exact ((Adds.refl c).of_eq rfl rfl).queueInLoop trivial
  · exact (Adds.refl c).of_eq rfl rfl

theorem stopWriting_attended {c : TcpConnection} (h : c.outputBuffer.readableBytes = 0) :
    c.stopWriting.Attended := by
  have hbuffer : c.stopWriting.outputBuffer = c.outputBuffer := by
    simp only [stopWriting]
    split <;> rfl
  rw [Attended, hbuffer, ValidBuffer.readableBytes_eq_zero.mp h]
  intro hne
  exact (hne rfl).elim

def Drains (c : TcpConnection) (n : WriteResult) : Prop :=
  c.channel.isWriting = true ∧ c.state = .kDisconnecting ∧ 0 < n.value ∧
    c.outputBuffer.readableBytes ≤ n.value

instance (c : TcpConnection) (n : WriteResult) : Decidable (c.Drains n) :=
  inferInstanceAs (Decidable (_ ∧ _ ∧ _ ∧ _))

theorem flush_drained {c : TcpConnection} {n : WriteResult} (hn : 0 < n.value)
    (h : (c.flush n).outputBuffer.readableBytes = 0) : c.outputBuffer.readableBytes ≤ n.value := by
  cases n with
  | wrote n =>
    have hdrop : (c.outputBuffer.readable.drop n).length = 0 := by
      rw [← ValidBuffer.readable_retrive, ← ValidBuffer.readableBytes_eq]
      exact h
    rw [ValidBuffer.readableBytes_eq, WriteResult.value]
    rw [List.length_drop] at hdrop
    omega
  | error err => simp [WriteResult.value] at hn

/-- A write event writes, and half closes if it has drained the buffer of a
connection that is shutting down. -/
theorem handleWrite_cases (c : TcpConnection) (n : WriteResult) :
    (c.channel.isWriting = false ∧ c.handleWrite n = c) ∨
    c.channel.isWriting = true ∧ ∃ c', c.Adds c' ∧ c'.Attended ∧ c'.state = c.state ∧
      c'.stream = c.stream ∧ (c.handleWrite n = c' ∨
        c.Drains n ∧ c.handleWrite n = c'.shutdownInLoop) := by
  cases hw : c.channel.isWriting with
  | false => exact .inl ⟨rfl, by simp [handleWrite, hw]⟩
  | true =>
    refine .inr ⟨rfl, ?_⟩
    rw [handleWrite, if_pos hw]
    dsimp only
    have hflush := c.adds_flush n
    split_ifs with hdrained hstate
    · refine ⟨_, hflush.trans (adds_stopWriting _), stopWriting_attended hdrained.2, ?_, ?_,
        .inr ⟨⟨hw, ?_, hdrained.1, flush_drained hdrained.1 hdrained.2⟩, rfl⟩⟩
      · exact state_stopWriting _
      · rw [stream_stopWriting, stream_flush]
      · rwa [state_stopWriting] at hstate
    · refine ⟨_, hflush.trans (adds_stopWriting _), stopWriting_attended hdrained.2, ?_, ?_,
        .inl rfl⟩
      · exact state_stopWriting _
      · rw [stream_stopWriting, stream_flush]
    · exact ⟨_, hflush, fun _ ↦ hw, rfl, c.stream_flush n, .inl rfl⟩

end TcpConnection

namespace Threads

/-- No message is on its way to `sendInLoop`. -/
def Settled (s : Threads) : Prop :=
  (∀ call data len, .sendInLoop call data len ∉ s.conn.pending) ∧
    ∀ t call arg, s.caller t ≠ .sendTested call arg

def Returned (s : Threads) (call : Call) : Prop := ∃ t arg, .sendReturned t call arg ∈ s.marks

/-- A call of `send` that had returned when its thread called `shutdown`. -/
def Owed (s : Threads) (call : Call) : Prop :=
  ∃ t newer older, s.marks = newer ++ .shutdownCalled t :: older ∧
    ∃ arg, .sendReturned t call arg ∈ older

structure Graceful (s : Threads) : Prop where
  stream : s.conn.written ++ s.conn.outputBuffer.readable = messages s.conn.log
  clean : Clean s.Owed s.conn.log

structure Inv (s : Threads) : Prop where
  state : s.conn.state = .kConnected ∨ s.conn.state = .kDisconnecting
  stream : s.conn.stream = messages s.conn.log
  attended : s.conn.Attended
  pending : .forceCloseInLoop ∉ s.conn.pending ∧ .connectDestroyed ∉ s.conn.pending
  disconnecting : .shutdownInLoop ∈ s.conn.pending ∨ (∃ t, s.caller t = .shutdownStored) →
    s.conn.state = .kDisconnecting
  returned : ∀ call, s.Returned call → .sendInLoop call call.held ∈ s.conn.log ∨
    ∃ data len, .sendInLoop call data len ∈ s.conn.pending
  clean : Clean s.Returned s.conn.log
  closed : HalfClosed s.conn.log →
    s.conn.state = .kDisconnecting ∧ s.conn.channel.isWriting = false ∧ s.Settled

variable {s s' : Threads}

theorem Inv.graceful (h : s.Inv) : s.Graceful where
  stream := h.stream
  clean := h.clean.owe fun _ _ ⟨t, newer, older, hmarks, arg, hmem⟩ ↦
    ⟨t, arg, by simp [hmarks, hmem]⟩

theorem Inv.open_of_connected (h : s.Inv) (hstate : s.conn.state = .kConnected) :
    ¬ HalfClosed s.conn.log := by
  intro hclosed
  simp [(h.closed hclosed).1] at hstate

theorem Inv.adds (h : s.Inv) (hopen : ¬ HalfClosed s.conn.log) {c : TcpConnection}
    (ha : s.conn.Adds c) (hstate : c.state = s.conn.state) (hstream : c.stream = s.conn.stream)
    (hattended : c.Attended) : { s with conn := c }.Inv := by
  have hopen' : ¬ HalfClosed c.log := by rwa [ha.halfClosed]
  obtain ⟨⟨acts, hlog, -⟩, fs, hpending, hfs⟩ := id ha
  have hnew (f : Functor) (hf : ¬ TcpConnection.Notifies f) :
      f ∈ c.pending ↔ f ∈ s.conn.pending := by
    rw [hpending, List.mem_append]
    apply or_iff_left
    intro hmem
    exact hf (hfs f hmem)
  constructor
  case state =>
    rw [hstate]
    exact h.state
  case stream =>
    rw [hstream, ha.messages]
    exact h.stream
  case attended => exact hattended
  case pending =>
    rw [hnew .forceCloseInLoop id, hnew .connectDestroyed id]
    exact h.pending
  case disconnecting =>
    rw [hnew .shutdownInLoop id, hstate]
    exact h.disconnecting
  case returned =>
    intro call hc
    have hmsg (data : ℤ) (len : ℕ) := hnew (.sendInLoop call data len) id
    simp only [hmsg, hlog]
    exact (h.returned call hc).imp_left (List.mem_append_right _)
  case clean => exact clean_of_not_halfClosed hopen'
  case closed =>
    intro hc
    exact (hopen' hc).elim

theorem Inv.quiet (h : s.Inv) {c : TcpConnection} {a : Action} (hplain : a.Plain)
    (hwrite : a.isWrite = false) (hlog : c.log = a :: s.conn.log)
    (hpending : c.pending = s.conn.pending) (hstate : c.state = s.conn.state)
    (hchannel : c.channel = s.conn.channel) (hbuffer : c.outputBuffer = s.conn.outputBuffer) :
    { s with conn := c }.Inv := by
  have ha : s.conn.Adds c := ⟨⟨[a], hlog, by simpa using hplain⟩, [], by simp [hpending], by simp⟩
  constructor
  case state =>
    rw [hstate]
    exact h.state
  case stream =>
    have htaken : a.taken = [] := by cases a <;> first | rfl | cases hwrite
    have hstream := h.stream
    rw [TcpConnection.stream] at hstream
    rw [TcpConnection.stream, ha.messages, TcpConnection.written, hlog, hbuffer]
    simpa [htaken, TcpConnection.written] using hstream
  case attended =>
    rw [TcpConnection.Attended, hbuffer, hchannel]
    exact h.attended
  case pending =>
    rw [hpending]
    exact h.pending
  case disconnecting =>
    rw [hpending, hstate]
    exact h.disconnecting
  case returned =>
    intro call hc
    simp only [hpending, hlog]
    exact (h.returned call hc).imp_left (List.mem_cons_of_mem _)
  case clean =>
    simp only [hlog]
    apply h.clean.cons hwrite
    intro unsent hunsent
    simp [hunsent, Action.Plain] at hplain
  case closed =>
    simp only [ha.halfClosed, hstate, hchannel, Settled, hpending]
    exact h.closed

theorem Inv.pop (h : s.Inv) {f : Functor} {rest : List Functor}
    (hpending : s.conn.pending = f :: rest) (hf : ∀ call data len, f ≠ .sendInLoop call data len) :
    { s with conn := { s.conn with pending := rest } }.Inv := by
  have hmem {g : Functor} (hg : g ∈ rest) : g ∈ s.conn.pending := by
    rw [hpending]
    exact List.mem_cons_of_mem f hg
  refine { h with pending := ?_, disconnecting := ?_, returned := ?_, closed := ?_ }
  · exact h.pending.imp (mt hmem) (mt hmem)
  · intro hd
    exact h.disconnecting (hd.imp_left hmem)
  · intro call hc
    rcases h.returned call hc with hlogged | ⟨data, len, hdata⟩
    · exact .inl hlogged
    · rw [hpending] at hdata
      exact .inr ⟨data, len, (List.mem_cons.mp hdata).resolve_left (Ne.symm (hf _ _ _))⟩
  · intro hc
    obtain ⟨hstate, hwriting, hqueue, hcaller⟩ := h.closed hc
    refine ⟨hstate, hwriting, ?_, hcaller⟩
    intro call data len
    exact mt hmem (hqueue call data len)

/-- The half close, when no message is on its way. -/
theorem Inv.shutdownInLoop (h : s.Inv) (hstate : s.conn.state = .kDisconnecting)
    (hsettled : s.conn.channel.isWriting = false → s.Settled) :
    { s with conn := s.conn.shutdownInLoop }.Inv := by
  rw [TcpConnection.shutdownInLoop]
  split_ifs with hw
  · exact h
  rw [Bool.not_eq_true] at hw
  have hempty : s.conn.outputBuffer.readable = [] := by
    by_contra hne
    rw [h.attended hne] at hw
    cases hw
  have hstream := h.stream
  rw [TcpConnection.stream, hempty, List.append_nil] at hstream
  refine { h with stream := ?_, returned := ?_, clean := ?_, closed := ?_ }
  · have hmessages : messages (.shutdownWrite s.conn.outputBuffer.readable :: s.conn.log) =
        messages s.conn.log := (messages_cons _ _).trans (List.append_nil _)
    exact (s.conn.stream_did _ rfl).trans (h.stream.trans hmessages.symm)
  · intro call hc
    exact (h.returned call hc).imp_left (List.mem_cons_of_mem _)
  · apply h.clean.cons rfl
    intro unsent hunsent
    cases hunsent
    constructor
    · exact hempty
    · exact hstream
    · intro call hc
      rcases h.returned call hc with hlogged | ⟨data, len, hdata⟩
      · exact hlogged
      · exact ((hsettled hw).1 call data len hdata).elim
    · simp
  · intro _
    exact ⟨hstate, hw, hsettled hw⟩

/-- A message gets to `sendInLoop`, from the queue or from the loop thread. -/
theorem Inv.sendInLoop (h : s.Inv) (hopen : ¬ HalfClosed s.conn.log) (call : Call) (data : ℤ)
    {len : ℕ} {n : WriteResult} {rest : List Functor} (hn : n.Possible len) (hfault : ¬ n.Fault)
    (hrefuses : ¬ s.conn.Refuses len n) (hheld : s.mem.bytesAt data len = call.held)
    (hrest : s.conn.pending = rest ∨ s.conn.pending = .sendInLoop call data len :: rest)
    (hconn : s'.conn = { s.conn with pending := rest }.sendInLoop call s.mem data len n)
    (hcaller : s'.caller = s.caller)
    (hreturned : ∀ call', s'.Returned call' → call' = call ∨ s.Returned call') : s'.Inv := by
  have hne : s.conn.state ≠ .kDisconnected := by
    rcases h.state with hs | hs <;> simp [hs]
  have hadds := TcpConnection.adds_sendInLoop { s.conn with pending := rest } call s.mem data len n
  rw [← hconn] at hadds
  have hopen' : ¬ HalfClosed s'.conn.log := by
    rw [hadds.halfClosed]
    simpa [TcpConnection.did] using hopen
  obtain ⟨⟨acts, hlog, -⟩, fs, hpending, hfs⟩ := id hadds
  have hstate : s'.conn.state = s.conn.state := by
    rw [hconn, TcpConnection.state_sendInLoop]
  have hmem {f : Functor} (hf : f ∈ s'.conn.pending) (hn : ¬ TcpConnection.Notifies f) :
      f ∈ s.conn.pending := by
    rw [hpending] at hf
    have hf := (List.mem_append.mp hf).resolve_right fun hf ↦ hn (hfs f hf)
    rcases hrest with hrest | hrest
    · rwa [hrest]
    · rw [hrest]
      exact List.mem_cons_of_mem _ hf
  constructor
  case state =>
    rw [hstate]
    exact h.state
  case stream =>
    have hstream : s'.conn.stream = s.conn.stream ++ s.mem.bytesAt data len := by
      rw [hconn]
      exact TcpConnection.stream_sendInLoop _ hne hn hfault hrefuses
    rw [hstream, hadds.messages]
    exact (congrArg (· ++ _) h.stream).trans
      (messages_cons (.sendInLoop call (s.mem.bytesAt data len)) s.conn.log).symm
  case attended =>
    rw [hconn]
    exact TcpConnection.attended_sendInLoop _ _ _ _ _ _ h.attended
  case pending =>
    constructor
    · intro hf
      exact h.pending.1 (hmem hf id)
    · intro hf
      exact h.pending.2 (hmem hf id)
  case disconnecting =>
    rw [hstate, hcaller]
    intro hd
    apply h.disconnecting
    exact hd.imp_left fun hf ↦ hmem hf id
  case returned =>
    intro call' hc
    have hthis : .sendInLoop call call.held ∈ s'.conn.log := by
      rw [hlog, hheld]
      exact List.mem_append_right _ List.mem_cons_self
    have hqueued {f : Functor} (hf : f ∈ rest) : f ∈ s'.conn.pending := by
      rw [hpending]
      exact List.mem_append_left fs hf
    rcases hreturned call' hc with rfl | hc
    · exact .inl hthis
    rcases h.returned call' hc with hlogged | ⟨data', len', hf⟩
    · left
      rw [hlog]
      exact List.mem_append_right _ (List.mem_cons_of_mem _ hlogged)
    · rcases hrest with hrest | hrest <;> rw [hrest] at hf
      · exact .inr ⟨data', len', hqueued hf⟩
      · rcases List.mem_cons.mp hf with heq | hf
        · cases heq
          exact .inl hthis
        · exact .inr ⟨data', len', hqueued hf⟩
  case clean => exact clean_of_not_halfClosed hopen'
  case closed =>
    intro hc
    exact (hopen' hc).elim

theorem Inv.setCaller (h : s.Inv) (t : ℕ) {p : Caller}
    (hstored : p = .shutdownStored → s.conn.state = .kDisconnecting)
    (htested : ∀ call arg, p = .sendTested call arg → ¬ HalfClosed s.conn.log) :
    (s.setCaller t p).Inv := by
  refine { h with disconnecting := ?_, closed := ?_ }
  · intro hd
    rcases hd with hd | ⟨u, hu⟩
    · exact h.disconnecting (.inl hd)
    · by_cases hut : u = t
      · subst hut
        exact hstored (by simpa [Threads.setCaller] using hu)
      · exact h.disconnecting (.inr ⟨u, by simpa [Threads.setCaller, hut] using hu⟩)
  · intro hc
    obtain ⟨hstate, hwriting, hqueue, hcaller⟩ := h.closed hc
    refine ⟨hstate, hwriting, hqueue, ?_⟩
    intro u call arg hu
    by_cases hut : u = t
    · subst hut
      exact htested call arg (by simpa [Threads.setCaller] using hu) hc
    · exact hcaller u call arg (by simpa [Threads.setCaller, hut] using hu)

theorem Inv.mark (h : s.Inv) {m : Mark} (hm : ∀ t call arg, m = .sendReturned t call arg →
    ¬ HalfClosed s.conn.log ∧ ∃ data len, .sendInLoop call data len ∈ s.conn.pending) :
    (s.mark m).Inv := by
  have hreturned {call : Call} (hc : (s.mark m).Returned call) :
      (¬ HalfClosed s.conn.log ∧ ∃ data len, .sendInLoop call data len ∈ s.conn.pending) ∨
        s.Returned call := by
    obtain ⟨t, arg, hmem⟩ := hc
    rcases List.mem_cons.mp hmem with heq | hmem
    · exact .inl (hm t call arg heq.symm)
    · exact .inr ⟨t, arg, hmem⟩
  refine { h with returned := ?_, clean := ?_ }
  · intro call hc
    rcases hreturned hc with hnew | hc
    · exact .inr hnew.2
    · exact h.returned call hc
  · apply h.clean.owe
    intro hclosed call hc
    rcases hreturned hc with hnew | hc
    · exact (hnew.1 hclosed).elim
    · exact hc

theorem Inv.queueInLoop (h : s.Inv) {f : Functor} (hclose : f ≠ .forceCloseInLoop)
    (hdestroy : f ≠ .connectDestroyed)
    (hshutdown : f = .shutdownInLoop → s.conn.state = .kDisconnecting)
    (hsend : ∀ call data len, f = .sendInLoop call data len → ¬ HalfClosed s.conn.log) :
    { s with conn := s.conn.queueInLoop f }.Inv := by
  have hmem {g : Functor} : g ∈ (s.conn.queueInLoop f).pending ↔ g ∈ s.conn.pending ∨ f = g := by
    simp [TcpConnection.queueInLoop, eq_comm]
  constructor
  case state => exact h.state
  case stream =>
    have hmessages : messages (.queueInLoop f :: s.conn.log) = messages s.conn.log :=
      (messages_cons _ _).trans (List.append_nil _)
    exact (s.conn.stream_did _ rfl).trans (h.stream.trans hmessages.symm)
  case attended => exact h.attended
  case pending =>
    constructor
    · intro hf
      exact (hmem.mp hf).elim h.pending.1 hclose
    · intro hf
      exact (hmem.mp hf).elim h.pending.2 hdestroy
  case disconnecting =>
    intro hd
    rcases hd with hd | hd
    · rcases hmem.mp hd with hd | hd
      · exact h.disconnecting (.inl hd)
      · exact hshutdown hd
    · exact h.disconnecting (.inr hd)
  case returned =>
    intro call hc
    rcases h.returned call hc with hlogged | ⟨data, len, hdata⟩
    · exact .inl (List.mem_cons_of_mem _ hlogged)
    · exact .inr ⟨data, len, hmem.mpr (.inl hdata)⟩
  case clean =>
    apply h.clean.cons rfl
    intro unsent hunsent
    cases hunsent
  case closed =>
    intro hc
    have hc : HalfClosed s.conn.log := by simpa [TcpConnection.queueInLoop] using hc
    obtain ⟨hstate, hwriting, hqueue, hcaller⟩ := h.closed hc
    refine ⟨hstate, hwriting, ?_, hcaller⟩
    intro call data len hf
    rcases hmem.mp hf with hf | hf
    · exact hqueue call data len hf
    · exact hsend call data len hf hc

theorem Inv.sendTest (h : s.Inv) (t : ℕ) (arg : SendArg) : (s.sendTest t arg).Inv := by
  rw [Threads.sendTest]
  split_ifs with hconnected
  · have hcalls : { s with calls := s.calls + 1 }.Inv := { h with }
    refine hcalls.setCaller t (by simp) ?_
    intro _ _ _
    exact h.open_of_connected hconnected
  · exact h

theorem Inv.sendQueue (h : s.Inv) {t : ℕ} {call : Call} {arg : SendArg}
    (hcaller : s.caller t = .sendTested call arg) : (s.sendQueue t call arg).Inv := by
  have hopen : ¬ HalfClosed s.conn.log := by
    intro hc
    exact (h.closed hc).2.2.2 t call arg hcaller
  have hqueued : { s with
      conn := s.conn.queueInLoop (.sendInLoop call arg.data arg.len) }.Inv := by
    refine h.queueInLoop (by simp) (by simp) (by simp) ?_
    intro _ _ _ _
    exact hopen
  have heq : s.sendQueue t call arg =
      ({ s with conn := s.conn.queueInLoop (.sendInLoop call arg.data arg.len) }.setCaller t
        .idle).mark (.sendReturned (some t) call arg) := by cases arg <;> rfl
  rw [heq]
  refine (hqueued.setCaller t (p := .idle) (by simp) (by simp)).mark ?_
  intro t call arg hmark
  cases hmark
  refine ⟨?_, arg.data, arg.len, ?_⟩
  · simpa [Threads.setCaller, TcpConnection.queueInLoop] using hopen
  · simp [Threads.setCaller, TcpConnection.queueInLoop]

theorem Inv.send (h : s.Inv) {arg : SendArg} {n : WriteResult} (hn : n.Possible arg.len)
    (hfault : ¬ n.Fault) (hrefuses : s.conn.state = .kConnected → ¬ s.conn.Refuses arg.len n) :
    (s.send arg n).Inv := by
  rw [Threads.send]
  split_ifs with hconnected
  · have hopen := h.open_of_connected hconnected
    refine h.sendInLoop hopen (s.newCall arg) arg.data hn hfault (hrefuses hconnected) rfl
      (.inl rfl) ?_ rfl ?_
    · cases arg <;> rfl
    · intro call' hc
      obtain ⟨t, arg', hmem⟩ := hc
      rcases List.mem_cons.mp hmem with heq | hmem
      · cases heq
        exact .inl rfl
      · exact .inr ⟨t, arg', hmem⟩
  · exact h

theorem Inv.shutdownTest (h : s.Inv) (t : ℕ) : (s.shutdownTest t).Inv := by
  have hmarked := h.mark (m := .shutdownCalled (some t)) (by simp)
  simp only [Threads.shutdownTest]
  split_ifs
  · exact hmarked.setCaller t (by simp) (by simp)
  · exact hmarked

theorem Inv.setDisconnecting (h : s.Inv) :
    { s with conn := s.conn.setState .kDisconnecting }.Inv :=
  { h with
    state := .inr rfl
    disconnecting := fun _ ↦ rfl
    closed := fun hc ↦ ⟨rfl, (h.closed hc).2⟩ }

theorem Inv.shutdownStore (h : s.Inv) (t : ℕ) : (s.shutdownStore t).Inv :=
  h.setDisconnecting.setCaller t (fun _ ↦ rfl) (by simp)

theorem Inv.shutdownQueue (h : s.Inv) {t : ℕ} (hcaller : s.caller t = .shutdownStored) :
    (s.shutdownQueue t).Inv := by
  have hqueued := h.queueInLoop (f := .shutdownInLoop) (by simp) (by simp)
    (fun _ ↦ h.disconnecting (.inr ⟨t, hcaller⟩)) (by simp)
  exact hqueued.setCaller t (by simp) (by simp)

/-- Events of a run without a write fault and without a close. -/
def Orderly : ThreadEvent → Prop
  | .forceClose | .queueConnectDestroyed => False
  | .handleRead n => n.value ≠ 0
  | .send _ n | .handleWrite n | .runFunctor n => ¬ n.Fault
  | _ => True

def NotRefused (s : Threads) : ThreadEvent → Prop
  | .send arg n => s.conn.state = .kConnected → ¬ s.conn.Refuses arg.len n
  | .runFunctor n =>
    match s.conn.pending with
    | .sendInLoop _ _ len :: _ => ¬ s.conn.Refuses len n
    | _ => True
  | _ => True

def HalfCloses (s : Threads) : ThreadEvent → Prop
  | .shutdown => s.conn.state = .kConnected ∧ s.conn.channel.isWriting = false
  | .handleWrite n => s.conn.Drains n
  | .runFunctor _ =>
    s.conn.pending.head? = some .shutdownInLoop ∧ s.conn.channel.isWriting = false
  | _ => False

instance (s : Threads) : DecidablePred s.NotRefused
  | .send arg n => inferInstanceAs
      (Decidable (s.conn.state = .kConnected → ¬ s.conn.Refuses arg.len n))
  | .runFunctor n =>
    show Decidable (match s.conn.pending with
      | .sendInLoop _ _ len :: _ => ¬ s.conn.Refuses len n
      | _ => True) from
    match s.conn.pending with
    | .sendInLoop _ _ len :: _ => inferInstanceAs (Decidable (¬ s.conn.Refuses len n))
    | [] | .shutdownInLoop :: _ | .forceCloseInLoop :: _ | .connectDestroyed :: _
    | .writeCompleteCallback :: _ | .highWaterMarkCallback _ :: _ => .isTrue trivial
  | .write _ | .sendTest _ _ | .sendQueue _ | .shutdownTest _ | .shutdownStore _
  | .shutdownQueue _ | .queueConnectDestroyed | .shutdown | .forceClose | .handleRead _
  | .handleWrite _ => .isTrue trivial

instance (s : Threads) : DecidablePred s.HalfCloses
  | .shutdown => inferInstanceAs
      (Decidable (s.conn.state = .kConnected ∧ s.conn.channel.isWriting = false))
  | .handleWrite n => inferInstanceAs (Decidable (s.conn.Drains n))
  | .runFunctor _ => inferInstanceAs (Decidable
      (s.conn.pending.head? = some .shutdownInLoop ∧ s.conn.channel.isWriting = false))
  | .write _ | .sendTest _ _ | .sendQueue _ | .shutdownTest _ | .shutdownStore _
  | .shutdownQueue _ | .queueConnectDestroyed | .send _ _ | .forceClose | .handleRead _ =>
    .isFalse id

/-- What graceful shutdown needs of an event: messages reach the loop unchanged
and are not refused, and none is on its way when the connection is half closed. -/
structure InTime (s : Threads) (e : ThreadEvent) : Prop where
  kept : s.StorageKept e
  notRefused : s.NotRefused e
  settled : s.HalfCloses e → s.Settled

theorem Inv.runFunctor (h : s.Inv) (hcaptured : s.Captured) {f : Functor} {rest : List Functor}
    {n : WriteResult} (hpending : s.conn.pending = f :: rest) (hn : Possible f n)
    (hfault : ¬ n.Fault) (hintime : s.InTime (.runFunctor n)) : (s.runFunctor f rest n).Inv := by
  obtain ⟨hkept, hrefused, hsettled⟩ := hintime
  cases f with
  | sendInLoop call data len =>
    have hkept : s.mem.bytesAt data len = call.held :=
      (storageKept_runFunctor hcaptured hpending).mp hkept _ List.mem_cons_self
    simp only [NotRefused, hpending] at hrefused
    have hopen : ¬ HalfClosed s.conn.log := fun hc ↦
      (h.closed hc).2.2.1 call data len (by simp [hpending])
    exact h.sendInLoop hopen call data hn hfault hrefused hkept (.inr hpending) rfl rfl
      fun _ hc ↦ .inr hc
  | shutdownInLoop =>
    have hpop := h.pop hpending (by simp)
    have hstate := h.disconnecting (.inl (by simp [hpending]))
    apply hpop.shutdownInLoop hstate
    intro hw
    obtain ⟨hqueue, hcaller⟩ := hsettled ⟨by simp [hpending], hw⟩
    refine ⟨?_, hcaller⟩
    intro call data len hf
    exact hqueue call data len (by simp [hpending, hf])
  | forceCloseInLoop => exact (h.pending.1 (by simp [hpending])).elim
  | connectDestroyed => exact (h.pending.2 (by simp [hpending])).elim
  | writeCompleteCallback =>
    have hpop := h.pop hpending (by simp)
    exact hpop.quiet (a := .called .writeComplete) trivial rfl rfl rfl rfl rfl rfl
  | highWaterMarkCallback len =>
    have hpop := h.pop hpending (by simp)
    exact hpop.quiet (a := .called (.highWaterMark len)) trivial rfl rfl rfl rfl rfl rfl

theorem Settled.adds (h : s.Settled) {c : TcpConnection} (ha : s.conn.Adds c) :
    { s with conn := c }.Settled := by
  obtain ⟨-, fs, hpending, hfs⟩ := ha
  refine ⟨?_, h.2⟩
  intro call data len hf
  rw [hpending] at hf
  rcases List.mem_append.mp hf with hf | hf
  · exact h.1 call data len hf
  · exact hfs _ hf

theorem Inv.handleWrite (h : s.Inv) {n : WriteResult} (hsettled : s.conn.Drains n → s.Settled) :
    { s with conn := s.conn.handleWrite n }.Inv := by
  rcases s.conn.handleWrite_cases n with ⟨-, heq⟩ | ⟨hw, c, hadds, hattended, hstate, hstream, hc⟩
  · rw [heq]
    exact h
  have hopen : ¬ HalfClosed s.conn.log := by
    intro hclosed
    simp [(h.closed hclosed).2.1] at hw
  have hwritten := h.adds hopen hadds hstate hstream hattended
  rcases hc with heq | ⟨hdrains, heq⟩ <;> rw [heq]
  · exact hwritten
  · apply hwritten.shutdownInLoop (hstate.trans hdrains.2.1)
    intro _
    exact (hsettled hdrains).adds hadds

theorem Inv.handleRead (h : s.Inv) {n : ReadResult} (hn : n.value ≠ 0) :
    { s with conn := s.conn.handleRead n }.Inv := by
  simp only [TcpConnection.handleRead]
  split_ifs with hpos
  · exact h.quiet (a := .called .message) trivial rfl rfl rfl rfl rfl rfl
  · exact { h with }

theorem Inv.shutdown (h : s.Inv) (hsettled : s.HalfCloses .shutdown → s.Settled) :
    { s.mark (.shutdownCalled none) with conn := s.conn.shutdown }.Inv := by
  have hmarked := h.mark (m := .shutdownCalled none) (by simp)
  rw [TcpConnection.shutdown]
  split_ifs with hconnected
  · apply hmarked.setDisconnecting.shutdownInLoop rfl
    intro hw
    exact hsettled ⟨hconnected, hw⟩
  · exact hmarked

theorem step_inv {e : ThreadEvent} (h : s.Inv) (hcaptured : s.Captured) (horderly : Orderly e)
    (hintime : s.InTime e) (hstep : s.step e = some s') : s'.Inv := by
  cases steps_of_step hstep with
  | write => exact { h with }
  | sendTest => exact h.sendTest _ _
  | sendQueue hcaller => exact h.sendQueue hcaller
  | shutdownTest => exact h.shutdownTest _
  | shutdownStore => exact h.shutdownStore _
  | shutdownQueue hcaller => exact h.shutdownQueue hcaller
  | send _ hn => exact h.send hn horderly hintime.notRefused
  | shutdown => exact h.shutdown hintime.settled
  | handleRead => exact h.handleRead horderly
  | handleWrite => exact h.handleWrite hintime.settled
  | runFunctor hpending hn => exact h.runFunctor hcaptured hpending hn horderly hintime
  | queueConnectDestroyed | forceClose => exact horderly.elim

theorem not_halfClosed_start {fd ptr : ℕ} {poller : EpollPoller} {callbacks : Callbacks}
    {mem : Mem} : ¬ HalfClosed (start fd ptr poller callbacks mem).conn.log := by
  have hlog : (start fd ptr poller callbacks mem).conn.log = [.called (.connection true)] := rfl
  rw [hlog, halfClosed_cons]
  simp [HalfClosed]

theorem inv_start (fd ptr : ℕ) (poller : EpollPoller) (callbacks : Callbacks) (mem : Mem) :
    (start fd ptr poller callbacks mem).Inv where
  state := .inl rfl
  stream := by
    simp [start, TcpConnection.connectEstablished, TcpConnection.new, TcpConnection.stream,
      TcpConnection.written, TcpConnection.did, TcpConnection.setChannel, TcpConnection.setState,
      Action.taken, messages, Action.message]
  attended := fun hne ↦ (hne (ValidBuffer.readable_new _)).elim
  pending := ⟨List.not_mem_nil, List.not_mem_nil⟩
  disconnecting := by
    intro hs
    rcases hs with hd | ⟨t, ht⟩
    · exact (List.not_mem_nil hd).elim
    · cases ht
  returned := by
    intro call hc
    obtain ⟨t, arg, hmem⟩ := hc
    exact (List.not_mem_nil hmem).elim
  clean := clean_of_not_halfClosed not_halfClosed_start
  closed := fun hc ↦ (not_halfClosed_start hc).elim

/-- In every run on an established connection without a fault or a close, whose
steps are all in time for the half close, shutdown is graceful. -/
theorem graceful_of_inTime (fd ptr : ℕ) (poller : EpollPoller) (callbacks : Callbacks) (mem : Mem)
    (es : List ThreadEvent) (s : Threads)
    (hrun : run step (start fd ptr poller callbacks mem) es = some s)
    (horderly : ∀ e ∈ es, Orderly e)
    (hintime : Along step InTime (start fd ptr poller callbacks mem) es) : s.Graceful := by
  have hstep (s : Threads) (e : ThreadEvent) (s' : Threads) (hi : s.Inv ∧ s.Captured)
      (hg : Orderly e ∧ s.InTime e) (h : s.step e = some s') : s'.Inv ∧ s'.Captured :=
    ⟨step_inv hi.1 hi.2 hg.1 hg.2 h, step_captured hi.2 h⟩
  have hstart := And.intro (inv_start fd ptr poller callbacks mem)
    (captured_start fd ptr poller callbacks mem)
  exact (run_invariant hstep hstart (hintime.and_of_forall_mem horderly) hrun).1.graceful

def shutdownOverOutput : List ThreadEvent :=
  [.send (.string 0 2) (.wrote 1), .sendTest 1 (.string 5 1), .sendQueue 1, .shutdownTest 1,
    .shutdownStore 1, .shutdownQueue 1, .runFunctor (.wrote 0), .runFunctor (.wrote 0)]

theorem graceful_of_inTime_overOutput :
    ∃ s, run step (established .numbered) (shutdownOverOutput ++ [.handleWrite (.wrote 2)]) =
      some s ∧ s.conn.log.head? = some (.shutdownWrite []) ∧ s.Graceful := by
  have hrun : (run step (established .numbered)
      (shutdownOverOutput ++ [.handleWrite (.wrote 2)])).map (·.conn.log.head?) =
        some (some (.shutdownWrite [])) := by decide +kernel
  obtain ⟨s, hs, hclosed⟩ := Option.map_eq_some_iff.mp hrun
  refine ⟨s, hs, hclosed, graceful_of_inTime 5 0 .empty ⟨true, true, false, true⟩ .numbered _ s hs
    (by simp [shutdownOverOutput, Orderly, WriteResult.Fault]) ?_⟩
  have hbefore : Along step (fun s e ↦ s.StorageKept e ∧ s.NotRefused e ∧ ¬ s.HalfCloses e)
      (established .numbered) shutdownOverOutput := by decide +kernel
  have hintime := hbefore.mono (H := InTime) fun s e h ↦
    ⟨h.1, h.2.1, fun hcloses ↦ (h.2.2 hcloses).elim⟩
  refine hintime.append fun u hu ↦
    along_cons.mpr ⟨⟨trivial, trivial, fun _ ↦ ⟨?_, ?_⟩⟩, fun _ _ ↦ trivial⟩
  · have hpending : (run step (established .numbered) shutdownOverOutput).map (·.conn.pending) =
        some [] := by decide +kernel
    rw [hu] at hpending
    have hnone : u.conn.pending = [] := Option.some.inj hpending
    simp [hnone]
  · intro t call arg ht
    by_cases htu : t = 1
    · have hone : (run step (established .numbered) shutdownOverOutput).map (·.caller 1) =
          some .idle := by decide +kernel
      rw [hu] at hone
      rw [htu] at ht
      cases (Option.some.inj hone).symm.trans ht
    · have hothers := run_invariant_of_mem (I := fun s ↦ s.caller t = .idle)
        (H := fun e ↦ e.thread? ≠ some t) (fun _ _ _ h he hs ↦ (caller_of_step hs he).trans h) rfl
        (by simp [shutdownOverOutput, ThreadEvent.thread?, Ne.symm htu]) hu
      rw [hothers] at ht
      cases ht

/-- A thread sends and shuts down, and the loop thread drains older output
before it gets to the message. -/
theorem not_graceful :
    ¬ ∀ (es : List ThreadEvent) (s : Threads), run step (established .numbered) es = some s →
      (∀ e ∈ es, Orderly e) → s.Graceful := by
  intro h
  have hrun : (run step (established .numbered)
      [.send (.string 0 2) (.wrote 1), .sendTest 1 (.string 5 1), .sendQueue 1, .shutdownTest 1,
        .shutdownStore 1, .shutdownQueue 1, .handleWrite (.wrote 1)]).map
        (fun s ↦ (s.conn.log.head?,
          decide (.sendInLoop ⟨1, .string 5 1, [5]⟩ [5] ∈ s.conn.log), s.marks)) =
      some (some (.shutdownWrite []), false, [.shutdownCalled (some 1),
        .sendReturned (some 1) ⟨1, .string 5 1, [5]⟩ (.string 5 1),
        .sendReturned none ⟨0, .string 0 2, [0, 1]⟩ (.string 0 2)]) := by decide +kernel
  obtain ⟨s, hs, hseen⟩ := Option.map_eq_some_iff.mp hrun
  simp only [Prod.mk.injEq, decide_eq_false_iff_not] at hseen
  obtain ⟨hhead, hlost, hmarks⟩ := hseen
  obtain ⟨older, hlog⟩ := List.head?_eq_some_iff.mp hhead
  have hclean := (h _ s hs (by simp [Orderly, WriteResult.Fault])).clean [] [] older hlog
  have howed : s.Owed ⟨1, .string 5 1, [5]⟩ :=
    ⟨some 1, [], _, hmarks, .string 5 1, List.mem_cons_self⟩
  apply hlost
  rw [hlog]
  exact List.mem_cons_of_mem _ (hclean.owed_handed _ howed)

end Threads

end Mymuduo.Net
