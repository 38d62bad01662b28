import Mymuduo.EchoServer
import Mymuduo.OutputProgress

namespace Mymuduo.Net

open Execution

namespace Life

open TcpConnection

/-- An open connection stays open, and nothing of its output is lost. -/
structure Stays (s s' : Life) : Prop where
  inv : s'.OpenInv
  flows : Flows s.conn s'.conn

variable {s s' s'' : Life}

theorem Stays.trans (h : Stays s s') (h' : Stays s' s'') : Stays s s'' :=
  ⟨h'.inv, h.flows.trans h'.flows⟩

theorem stays_refl (h : s.OpenInv) : Stays s s := ⟨h, .refl _⟩

theorem stays_of_step {e : LifeEvent} (h : s.OpenInv) (hopen : s.KeepsOpen e)
    (hstep : s.step e = some s') : Stays s s' :=
  ⟨step_openInv h hopen hstep, step_flows h.destroying hopen hstep⟩

theorem stays_of_loopStep {e : LoopStep} (h : s.OpenInv) (hopen : s.KeepsOpen (.loop e))
    (hstep : s.loopStep e = some s') : Stays s s' := by
  refine stays_of_step h hopen ?_
  rw [step, if_pos h.destroying, hstep]

theorem stays_inputBuffer (h : s.OpenInv) (b : ValidBuffer) :
    Stays s (s.setConn { s.conn with inputBuffer := b }) where
  inv := ⟨⟨h.conn.frame rfl rfl, h.destroying⟩, h.agrees, h.listed, h.finite⟩
  flows := .of_kept rfl rfl rfl id

end Life

namespace Endpoint

open Life

/-- What calls of user code change. -/
structure Called (s s' : Endpoint) : Prop where
  received : s'.received = s.received
  stays : s.life.OpenInv → Stays s.life s'.life

/-- A step of an end: an event of its connection or none, and then calls of user code. -/
inductive Advances (s s' : Endpoint) : Option LifeEvent → Prop
  | called (h : Called s s') : Advances s s' none
  | transport {e : LifeEvent} {s₁ : Endpoint} (hs₁ : s.transport e = some s₁) (h : Called s₁ s') :
      Advances s s' (some e)

variable {s s' s'' : Endpoint}

theorem Called.trans (h : Called s s') (h' : Called s' s'') : Called s s'' where
  received := h'.received.trans h.received
  stays hinv := (h.stays hinv).trans (h'.stays (h.stays hinv).inv)

theorem called_refl (s : Endpoint) : Called s s := ⟨rfl, stays_refl⟩

theorem called_send {call : Call} {arg : SendArg} {n : WriteResult}
    (hsend : s.send call arg n = some s') : Called s s' := by
  refine ⟨(keeps_send hsend).2.received, fun h ↦ ?_⟩
  simp only [send] at hsend
  split_ifs at hsend
  obtain ⟨life, hlife, rfl⟩ := Option.map_eq_some_iff.mp hsend
  exact stays_of_loopStep h ⟨id, id⟩ hlife

theorem called_shutdown (s : Endpoint) : Called s (s.setConn s.life.conn.shutdown) :=
  ⟨rfl, fun h ↦ stays_of_loopStep (e := .shutdown) h ⟨id, id⟩ rfl⟩

theorem called_forceClose (s : Endpoint) : Called s (s.setConn s.life.conn.forceClose) :=
  ⟨rfl, fun h ↦ stays_of_loopStep (e := .forceClose) h ⟨id, id⟩ rfl⟩

theorem called_inputBuffer (s : Endpoint) (b : ValidBuffer) :
    Called s (s.setConn { s.life.conn with inputBuffer := b }) :=
  ⟨rfl, fun h ↦ stays_inputBuffer h b⟩

theorem life_of_transport {e : LifeEvent} (hstep : s.transport e = some s') :
    s.life.step e = some s'.life := by
  simp only [transport] at hstep
  split_ifs at hstep
  obtain ⟨life, hlife, rfl⟩ := Option.map_eq_some_iff.mp hstep
  exact hlife

/-- One end in the course of a run. -/
structure History where
  state : ℕ → Endpoint
  event : ℕ → Option LifeEvent
  next : ∀ n, (state n).Advances (state (n + 1)) (event n)

namespace History

variable (h : History)

def StaysOpen : Prop := ∀ n, ∀ e ∈ h.event n, (h.state n).life.KeepsOpen e

def ReportsWritable : Prop := ∀ n, (h.state n).life.conn.Watched →
  ∃ m, n ≤ m ∧ (¬ (h.state m).life.conn.Watched ∨ ∃ e ∈ h.event m, (h.state m).life.Writes e)

/-- What they do while something of the stream `w` has not been read. -/
def ReadsOn (w : ℕ → List Byte) : Prop := ∀ n, (h.state n).received ≠ w n →
  ∃ m, n ≤ m ∧ ∃ e ∈ h.event m, (h.state m).life.arrived e ≠ []

variable {h}

theorem received_next (n : ℕ) : (h.state n).received <+: (h.state (n + 1)).received := by
  generalize h.event n = e, h.next n = hnext
  cases hnext with
  | called hcalled => rw [hcalled.received]
  | transport htransport hcalled =>
    rw [hcalled.received, (transport_received htransport).1]
    exact List.prefix_append ..

theorem transport_next {n : ℕ} {e : LifeEvent} (he : e ∈ h.event n) :
    ∃ s, (h.state n).transport e = some s ∧ Called s (h.state (n + 1)) := by
  have hnext := h.next n
  rw [Option.mem_def.mp he] at hnext
  cases hnext with
  | transport htransport hcalled => exact ⟨_, htransport, hcalled⟩

theorem received_lt {n : ℕ} {e : LifeEvent} (he : e ∈ h.event n)
    (harrived : (h.state n).life.arrived e ≠ []) :
    (h.state n).received.length < (h.state (n + 1)).received.length := by
  obtain ⟨s, htransport, hcalled⟩ := transport_next he
  rw [hcalled.received, (transport_received htransport).1, List.length_append]
  exact Nat.lt_add_of_pos_right (List.length_pos_iff.mpr harrived)

theorem received_mono {n m : ℕ} (hnm : n ≤ m) :
    (h.state n).received <+: (h.state m).received := by
  induction m, hnm using Nat.le_induction with
  | base => exact List.prefix_rfl
  | succ m _ ih => exact ih.trans (received_next m)

/-- A reader that reads on reads all that is written. -/
theorem eventually_received {w : ℕ → List Byte} (hw : ∀ {n m}, n ≤ m → w n <+: w m)
    (hpre : ∀ n, (h.state n).received <+: w n) (hreads : h.ReadsOn w) (n : ℕ) :
    ∃ m, n ≤ m ∧ w n <+: (h.state m).received := by
  refine eventually_catchesUp (r := fun n ↦ (h.state n).received) hw hpre (fun n hne ↦ ?_) n
  obtain ⟨m, hm, e, he, harrived⟩ := hreads n hne
  exact ⟨m + 1, by omega, (received_mono hm).length_le.trans_lt (received_lt he harrived)⟩

theorem stays_next (hopen : h.StaysOpen) {n : ℕ} (hinv : (h.state n).life.OpenInv) :
    Stays (h.state n).life (h.state (n + 1)).life := by
  cases he : h.event n with
  | none =>
    have hnext := h.next n
    rw [he] at hnext
    obtain ⟨hcalled⟩ := hnext
    exact hcalled.stays hinv
  | some e =>
    obtain ⟨s, htransport, hcalled⟩ := transport_next he
    have hstep := stays_of_step hinv (hopen n e he) (life_of_transport htransport)
    exact hstep.trans (hcalled.stays hstep.inv)

variable (hopen : h.StaysOpen) (hstart : (h.state 0).life.OpenInv)

include hopen hstart

theorem openInv_of_open (n : ℕ) : (h.state n).life.OpenInv := by
  induction n with
  | zero => exact hstart
  | succ n ih => exact (stays_next hopen ih).inv

theorem flows_of_open {n m : ℕ} (hnm : n ≤ m) :
    TcpConnection.Flows (h.state n).life.conn (h.state m).life.conn := by
  induction m, hnm using Nat.le_induction with
  | base => exact .refl _
  | succ m _ ih => exact ih.trans (stays_next hopen (openInv_of_open hopen hstart m)).flows

theorem written_mono {n m : ℕ} (hnm : n ≤ m) :
    (h.state n).written <+: (h.state m).written :=
  TcpConnection.written_of_log (flows_of_open hopen hstart hnm).log

theorem eventually_writes (hwrites : h.ReportsWritable) (n : ℕ) :
    ∃ m, n ≤ m ∧ (h.state n).life.conn.stream <+: (h.state m).written := by
  have hinv := openInv_of_open hopen hstart
  refine written_of_watched (s := fun n ↦ (h.state n).life) hinv (flows_of_open hopen hstart)
    (fun k hk ↦ ?_) n
  obtain ⟨m, hm, hnot | ⟨e, he, hwrites⟩⟩ := hwrites k hk
  · exact ⟨m, hm, .inl hnot⟩
  by_cases hwatched : (h.state m).life.conn.Watched
  · obtain ⟨s, htransport, hcalled⟩ := transport_next he
    have hlife := life_of_transport htransport
    have hless := written_of_writes (hinv m) hwatched hwrites hlife
    have hrest := hcalled.stays (stays_of_step (hinv m) (hopen m e he) hlife).inv
    exact ⟨m, hm, .inr (hless.trans_le (TcpConnection.written_of_log hrest.flows.log).length_le)⟩
  · exact ⟨m, hm, .inl hwatched⟩

/-- All that has been handed to one end is read at the other end in the end. -/
theorem eventually_read {r : History} (hwrites : h.ReportsWritable)
    (hpre : ∀ n, (r.state n).received <+: (h.state n).written)
    (hreads : r.ReadsOn fun n ↦ (h.state n).written) (n : ℕ) :
    ∃ m, n ≤ m ∧ (h.state n).life.conn.stream <+: (r.state m).received := by
  obtain ⟨k, hk, hwritten⟩ := eventually_writes hopen hstart hwrites n
  obtain ⟨m, hm, hread⟩ := eventually_received (written_mono hopen hstart) hpre hreads k
  exact ⟨m, hk.trans hm, hwritten.trans hread⟩

end History

theorem openInv_established {c : Opening} (hpoller : Known c.poller (.new c.fd c.ptr)) :
    (established c).life.OpenInv := openInv_start hpoller _ _

section Duplex

variable {σ τ ε δ : Type*} {P : Duplex.Party σ ε Byte} {Q : Duplex.Party τ δ Byte}
  (ρ : InfiniteRun (Duplex.step P Q))

def History.left (endpoint : σ → Endpoint) (event : ε → Option LifeEvent)
    (h : ∀ {s e s'}, P.step s e = some s' → (endpoint s).Advances (endpoint s') (event e)) :
    History where
  state n := endpoint (ρ.state n).1
  event n := (ρ.event n).elim event fun _ ↦ none
  next n := by
    have hnext := ρ.next n
    cases he : ρ.event n with
    | inl e =>
      rw [he] at hnext
      exact h (Duplex.step_inl hnext).1
    | inr d =>
      rw [he] at hnext
      rw [(Duplex.step_inr hnext).2.1]
      exact .called (called_refl _)

def History.right (endpoint : τ → Endpoint) (event : δ → Option LifeEvent)
    (h : ∀ {t d t'}, Q.step t d = some t' → (endpoint t).Advances (endpoint t') (event d)) :
    History where
  state n := endpoint (ρ.state n).2
  event n := (ρ.event n).elim (fun _ ↦ none) event
  next n := by
    have hnext := ρ.next n
    cases he : ρ.event n with
    | inl e =>
      rw [he] at hnext
      rw [(Duplex.step_inl hnext).2.1]
      exact .called (called_refl _)
    | inr d =>
      rw [he] at hnext
      exact h (Duplex.step_inr hnext).1

end Duplex

end Endpoint

namespace CodecPeerEvent

def transport? : CodecPeerEvent → Option LifeEvent
  | transport e _ => some e
  | call _ => none

end CodecPeerEvent

namespace CodecPeer

open Endpoint

variable {o : ByteOrder} {s s' : CodecPeer}

theorem called_call {c : CodecCall} (hcall : s.call o c = some s') :
    Called s.endpoint s'.endpoint := by
  cases c with
  | send message base n =>
    obtain ⟨buf, hbuf, -⟩ := LengthHeaderCodec.send_spec o message
    simp only [call, send, hbuf, Option.bind_eq_bind, Option.bind_some, List.foldlM_cons,
      List.foldlM_nil, Option.pure_def] at hcall
    obtain ⟨endpoint, hendpoint, hcall⟩ := Option.bind_eq_some_iff.mp hcall
    obtain ⟨endpoint', hendpoint', hendpoint⟩ := Option.bind_eq_some_iff.mp hendpoint
    cases Option.some.inj hendpoint
    cases Option.some.inj hcall
    exact called_send hendpoint'
  | shutdown =>
    cases Option.some.inj hcall
    exact called_shutdown _
  | forceClose =>
    cases Option.some.inj hcall
    exact called_forceClose _

theorem called_foldlM {calls : List CodecCall} (hcalls : calls.foldlM (call o) s = some s') :
    Called s.endpoint s'.endpoint := by
  induction calls generalizing s with
  | nil =>
    cases Option.some.inj hcalls
    exact called_refl _
  | cons c calls ih =>
    obtain ⟨s₁, hs₁, hcalls⟩ := Option.bind_eq_some_iff.mp hcalls
    exact (called_call hs₁).trans (ih hcalls)

theorem called_onMessage {calls : List CodecCall} (hcall : s.onMessage o calls = some s') :
    Called s.endpoint s'.endpoint := by
  obtain ⟨r, -, hcall⟩ := Option.bind_eq_some_iff.mp hcall
  obtain ⟨s₁, hs₁, hcall⟩ := Option.bind_eq_some_iff.mp hcall
  have hcalls := (called_inputBuffer s.endpoint r.buf).trans (called_foldlM hs₁)
  cases Option.some.inj hcall
  split_ifs
  · exact hcalls.trans (called_shutdown _)
  · exact hcalls

theorem step_advances {e : CodecPeerEvent} (hstep : s.step o e = some s') :
    s.endpoint.Advances s'.endpoint e.transport? := by
  cases e with
  | call c =>
    simp only [step] at hstep
    split_ifs at hstep
    exact .called (called_call hstep)
  | transport e calls =>
    obtain ⟨endpoint, hendpoint, hstep⟩ := Option.bind_eq_some_iff.mp hstep
    refine .transport hendpoint ?_
    split_ifs at hstep
    · cases Option.some.inj hstep
      exact called_refl _
    · exact called_onMessage (s := { s with endpoint := endpoint }) hstep

def sender {o o' : ByteOrder} (ρ : InfiniteRun (Duplex.step (party o) (party o'))) : History :=
  .left ρ endpoint CodecPeerEvent.transport? step_advances

def receiver {o o' : ByteOrder} (ρ : InfiniteRun (Duplex.step (party o) (party o'))) : History :=
  .right ρ endpoint CodecPeerEvent.transport? step_advances

theorem openInv_sender {o o' : ByteOrder} {ρ : InfiniteRun (Duplex.step (party o) (party o'))}
    {c d : Opening} (hpoller : Known c.poller (.new c.fd c.ptr))
    (hstart : ρ.state 0 = (established c, established d)) :
    ((sender ρ).state 0).life.OpenInv := by
  change (ρ.state 0).1.endpoint.life.OpenInv
  rw [hstart]
  exact openInv_established hpoller

/-- Each message that one program has sent by some moment is delivered to the other in
the end, if the connection of the sender stays open, and the kernel and the loops go
on: output is written while the channel is watched and input read while there is some. -/
theorem eventually_delivered (o o' : ByteOrder) {c d : Opening}
    (hpoller : Known c.poller (.new c.fd c.ptr))
    (ρ : InfiniteRun (Duplex.step (party o) (party o')))
    (hstart : ρ.state 0 = (established c, established d)) (hopen : (sender ρ).StaysOpen)
    (hwrites : (sender ρ).ReportsWritable)
    (hreads : (receiver ρ).ReadsOn fun n ↦ (ρ.state n).1.endpoint.written) (n : ℕ)
    (hintact : (ρ.state n).1.Intact) :
    ∃ m, n ≤ m ∧ (ρ.state n).1.takeable <+: (ρ.state m).2.delivered := by
  have hjoined := Duplex.joined_of_infiniteRun (ρ := ρ) <| by
    rw [hstart]
    exact joined_of_run (show run _ _ [] = some _ from rfl)
  have hinv := openInv_sender hpoller hstart
  obtain ⟨m, hm, hread⟩ := History.eventually_read hopen hinv hwrites
    (fun n ↦ (hjoined n).rightReads.received) hreads n
  refine ⟨m, hm, ?_⟩
  rw [(hjoined m).right.delivered, takeable,
    ← LengthHeaderCodec.referenceParse_frames o hintact.sent,
    ← stream_eq (hjoined n).left hintact]
  exact Framing.Framer.prefix_drain hread

theorem eventually_delivered_lastMessage :
    ∃ ρ : InfiniteRun (Duplex.step (party .little) (party .big)),
      ρ.state 0 = (established opening, established opening) ∧
        ∃ m, 1 ≤ m ∧ (ρ.state 1).1.takeable <+: (ρ.state m).2.delivered := by
  obtain ⟨p, hp, ⟨-, -, hd, hstate, hwriting, -, hall⟩, -⟩ := exists_lastMessageRun
  have hstay : Duplex.step (party .little) (party .big) p (.inl (.call .shutdown)) = some p := by
    have hcall : (party .little).step p.1 (.call .shutdown) = some p.1 := by
      change CodecPeer.step .little p.1 (.call .shutdown) = some p.1
      rw [CodecPeer.step, if_pos hd, call, TcpConnection.shutdown, if_neg hstate]
      rfl
    obtain ⟨s, t⟩ := p
    simp [Duplex.step, hcall, (joined_of_run hp).leftReads]
  have halong : Along (Duplex.step (party .little) (party .big))
      (fun p e ↦ ∀ d ∈ e.elim CodecPeerEvent.transport? fun _ ↦ none,
        p.1.endpoint.life.KeepsOpen d) (established opening, established opening)
      (lastMessage ++ [.inr (.transport readsMessage [])]) := by
    have hsends : Along (Duplex.step (party .little) (party .big))
        (fun p e ↦ ∀ d ∈ e.elim CodecPeerEvent.transport? fun _ ↦ none,
          p.1.endpoint.life.KeepsOpen d) (established opening, established opening)
        lastMessage := by decide +kernel
    refine hsends.append fun t _ ↦ along_cons.mpr ⟨?_, fun _ _ ↦ trivial⟩
    rintro d ⟨⟩
  have hopen := InfiniteRun.ofList_forall hp hstay halong (by rintro d ⟨⟩)
  generalize hρ : InfiniteRun.ofList _ _ hp hstay = ρ at hopen
  have hlast {n : ℕ} (hn : 8 ≤ n) : ρ.state n = p := by
    rw [← hρ]
    exact InfiniteRun.ofList_state_of_le hp hstay hn
  have hbefore {n : ℕ} {q : CodecPeer × CodecPeer} (hn : n ≤ 7) (hq : run (Duplex.step
      (party .little) (party .big)) (established opening, established opening)
        (lastMessage.take n) = some q) : ρ.state n = q := by
    rw [← hρ]
    exact InfiniteRun.ofList_state hp hstay (by rwa [List.take_append_of_le_length hn])
  have hstart : ρ.state 0 = (established opening, established opening) := hρ ▸ rfl
  have hintact : (ρ.state 1).1.Intact := by
    have hsent : ((run (Duplex.step (party .little) (party .big))
        (established opening, established opening) (lastMessage.take 1)).map fun p ↦
          decide (p.1.endpoint.refused = false ∧ p.1.sent = [[7]])) = some true := by decide +kernel
    obtain ⟨q, hq, hsent⟩ := Option.map_eq_some_iff.mp hsent
    obtain ⟨hrefused, hsent⟩ := of_decide_eq_true hsent
    rw [hbefore (by decide) hq]
    exact ⟨hrefused, by simp [hsent]⟩
  have hreads : (ρ.state 7).2.endpoint.life.arrived readsMessage ≠ [] := by
    have hready : ((run (Duplex.step (party .little) (party .big))
        (established opening, established opening) (lastMessage.take 7)).map fun p ↦
          decide (p.2.endpoint.life.arrived readsMessage ≠ [])) = some true := by decide +kernel
    obtain ⟨q, hq, hready⟩ := Option.map_eq_some_iff.mp hready
    rw [hbefore le_rfl hq]
    exact of_decide_eq_true hready
  refine ⟨ρ, hstart, eventually_delivered .little .big Life.known_new ρ hstart hopen
    (fun n _ ↦ ?_) (fun n hne ↦ ?_) 1 hintact⟩
  · have hinv := Endpoint.History.openInv_of_open (h := sender ρ) hopen
      (openInv_sender Life.known_new hstart) (max n 8)
    refine ⟨max n 8, le_max_left .., .inl ?_⟩
    rw [hinv.watched_iff]
    change (ρ.state _).1.endpoint.life.conn.channel.isWriting ≠ true
    rw [hlast (le_max_right n 8), hwriting]
    exact Bool.false_ne_true
  · rcases Nat.lt_or_ge 7 n with hn | hn
    · refine (hne ?_).elim
      change (ρ.state _).2.endpoint.received = (ρ.state _).1.endpoint.written
      rw [hlast hn, hall]
    · exact ⟨7, hn, readsMessage, hρ ▸ rfl, hreads⟩

end CodecPeer

namespace EchoServer

open Endpoint

variable {s s' : Endpoint}

theorem called_onMessage {base : ℤ} {n : WriteResult} (hcall : onMessage s base n = some s') :
    Called s s' := by
  obtain ⟨s₁, hs₁, hcall⟩ := Option.bind_eq_some_iff.mp hcall
  cases Option.some.inj hcall
  split_ifs
  · exact (called_send hs₁).trans (called_inputBuffer ..)
  · exact called_send hs₁

theorem step_advances {e : EchoEvent} (hstep : step s e = some s') :
    s.Advances s' (some e.step) := by
  obtain ⟨s₁, hs₁, hstep⟩ := Option.bind_eq_some_iff.mp hstep
  refine .transport hs₁ ?_
  split_ifs at hstep
  · cases Option.some.inj hstep
    exact called_refl _
  · exact called_onMessage hstep

variable {τ δ : Type*} {client : Duplex.Party τ δ Byte}

def server (ρ : InfiniteRun (Duplex.step party client)) : History :=
  .left ρ id (fun e ↦ some e.step) step_advances

section Start

variable {ρ : InfiniteRun (Duplex.step party client)} {c : Opening} {t : τ}

theorem openInv_server (hpoller : Known c.poller (.new c.fd c.ptr))
    (hstart : ρ.state 0 = (established c, t)) : ((server ρ).state 0).life.OpenInv := by
  change (ρ.state 0).1.life.OpenInv
  rw [hstart]
  exact openInv_established hpoller

theorem joined_of_start (hstart : ρ.state 0 = (established c, t)) (ht : client.Inv t)
    (hnone : client.received t = []) (hend : client.sawEnd t = false) (n : ℕ) :
    Duplex.Joined party client (ρ.state n) := by
  refine Duplex.joined_of_infiniteRun ?_ n
  rw [hstart]
  exact Duplex.joined_start (inv_established c) ht rfl hnone rfl hend

end Start

/-- Each byte that the client has written by some moment comes back in the end, if the
connection stays established, no direct `write` fails, and all three go on: the server's
loop, the kernel and the client. -/
theorem eventually_echoed (client : Duplex.Party τ δ Byte) {c : Opening} {t : τ}
    (hpoller : Known c.poller (.new c.fd c.ptr)) (ht : client.Inv t)
    (hnone : client.received t = []) (hend : client.sawEnd t = false)
    (ρ : InfiniteRun (Duplex.step party client)) (hstart : ρ.state 0 = (established c, t))
    (hopen : (server ρ).StaysOpen)
    (hestablished : ∀ n, (ρ.state n).1.life.conn.state = .kConnected)
    (hrefused : ∀ n, (ρ.state n).1.refused = false)
    (hreads : (server ρ).ReadsOn fun n ↦ client.written (ρ.state n).2)
    (hwrites : (server ρ).ReportsWritable)
    (hclient : ∀ n, client.received (ρ.state n).2 ≠ (ρ.state n).1.written →
      ∃ m, n ≤ m ∧ (client.received (ρ.state n).2).length < (client.received (ρ.state m).2).length)
    (n : ℕ) :
    ∃ m, n ≤ m ∧ client.written (ρ.state n).2 <+: client.received (ρ.state m).2 := by
  have hjoined := joined_of_start hstart ht hnone hend
  have hinv := openInv_server hpoller hstart
  obtain ⟨k, hk, hread⟩ := History.eventually_received (h := server ρ)
    (Duplex.written_mono hjoined) (fun n ↦ (hjoined n).leftReads.received) hreads n
  obtain ⟨l, hl, hwritten⟩ := History.eventually_writes hopen hinv hwrites k
  obtain ⟨m, hm, hback⟩ := eventually_catchesUp (History.written_mono hopen hinv)
    (fun n ↦ (hjoined n).rightReads.received) hclient l
  refine ⟨m, hk.trans (hl.trans hm), hread.trans (.trans ?_ (hwritten.trans hback))⟩
  -- what the server has read is in its output
  have hstream := Inv.stream (hjoined k).left (hrefused k)
  rw [(hjoined k).left.retrieved (hestablished k), List.append_nil] at hstream
  exact hstream ▸ List.prefix_rfl

theorem eventually_echoed_oneByte : ∃ ρ : InfiniteRun (Duplex.step party oneByte),
    ρ.state 0 = (established byteRead, []) ∧ ∃ m, 0 ≤ m ∧ [7] <+: (ρ.state m).2 := by
  obtain ⟨p, hp, hstate, hrefused, hwriting, hreceived, hwritten, hback⟩ := exists_echoedByte
  have hstay : Duplex.step party oneByte p (.inr none) = some p := by
    have hreads : Duplex.Reads oneByte party p.2 p.1 := by
      constructor
      · change p.2 <+: p.1.written
        rw [hback, hwritten]
      · intro hend
        cases hend
    have hclient : oneByte.step p.2 none = some p.2 := congrArg some (List.append_nil _)
    obtain ⟨s, client⟩ := p
    simp [Duplex.step, hclient, hreads]
  have halong : Along (Duplex.step party oneByte) (fun p e ↦
      p.1.life.conn.state = .kConnected ∧ p.1.refused = false ∧
        ∀ d ∈ e.elim (fun e ↦ some e.step) fun _ ↦ none, p.1.life.KeepsOpen d)
      (established byteRead, []) (byteComes ++ [.inl readsByte, .inr (some 7)]) := by
    have hcomes : Along (Duplex.step party oneByte) (fun p e ↦
        p.1.life.conn.state = .kConnected ∧ p.1.refused = false ∧
          ∀ d ∈ e.elim (fun e ↦ some e.step) fun _ ↦ none, p.1.life.KeepsOpen d)
        (established byteRead, []) byteComes := by decide +kernel
    have hbefore : (run (Duplex.step party oneByte) (established byteRead, []) byteComes).map
        (fun p ↦ decide (p.1.life.conn.state = .kConnected ∧ p.1.refused = false ∧
          p.1.life.KeepsOpen readsByte.step)) = some true := by decide +kernel
    refine hcomes.append fun q hq ↦ along_cons.mpr ⟨?_, fun u hu ↦ along_cons.mpr ⟨?_, ?_⟩⟩
    · rw [hq] at hbefore
      obtain ⟨hstate, hrefused, hkeeps⟩ := of_decide_eq_true (Option.some.inj hbefore)
      exact ⟨hstate, hrefused, by rintro d ⟨⟩; exact hkeeps⟩
    · -- the client's step leaves the server as it is
      rw [run_append, hq] at hp
      obtain ⟨u', hu', hp⟩ := run_cons_eq_some.mp hp
      cases hu.symm.trans hu'
      obtain ⟨p', hp', hp⟩ := run_cons_eq_some.mp hp
      cases Option.some.inj hp
      have hsame : p.1 = u.1 := (Duplex.step_inr hp').2.1
      exact ⟨hsame ▸ hstate, hsame ▸ hrefused, by rintro d ⟨⟩⟩
    · exact fun _ _ ↦ trivial
  have hguard := InfiniteRun.ofList_forall hp hstay halong ⟨hstate, hrefused, by rintro d ⟨⟩⟩
  generalize hρ : InfiniteRun.ofList _ _ hp hstay = ρ at hguard
  have hopen : (server ρ).StaysOpen := fun n ↦ (hguard n).2.2
  have hlast {n : ℕ} (hn : 4 ≤ n) : ρ.state n = p := by
    rw [← hρ]
    exact InfiniteRun.ofList_state_of_le hp hstay hn
  have hstart : ρ.state 0 = (established byteRead, []) := hρ ▸ rfl
  have hinv : ((server ρ).state 0).life.OpenInv := openInv_server Life.known_new hstart
  have hjoined := joined_of_start (ρ := ρ) hstart trivial rfl rfl
  have harrived : (ρ.state 2).1.life.arrived readsByte.step ≠ [] := by
    have hready : (run (Duplex.step party oneByte) (established byteRead, [])
        (byteComes.take 2)).map (fun p ↦ decide (p.1.life.arrived readsByte.step ≠ [])) =
          some true := by decide +kernel
    obtain ⟨q, hq, hready⟩ := Option.map_eq_some_iff.mp hready
    rw [← List.take_append_of_le_length (by decide)] at hq
    rw [← hρ, InfiniteRun.ofList_state hp hstay hq]
    exact of_decide_eq_true hready
  refine ⟨ρ, hstart, eventually_echoed oneByte Life.known_new trivial rfl rfl ρ hstart hopen
    (fun n ↦ (hguard n).1) (fun n ↦ (hguard n).2.1) (fun n hne ↦ ?_) (fun n _ ↦ ?_)
    (fun n hne ↦ ?_) 0⟩
  · rcases Nat.lt_or_ge 2 n with hn | hn
    · have hgrows := History.received_lt (h := server ρ) (n := 2) (hρ ▸ rfl) harrived
      have hlength := (History.received_mono (h := server ρ) (n := 2 + 1) hn).length_le
      have hpre : ((server ρ).state n).received <+: [7] := (hjoined n).leftReads.received
      refine (hne (hpre.eq_of_length_le ?_)).elim
      rw [List.length_singleton]
      omega
    · exact ⟨2, hn, readsByte.step, hρ ▸ rfl, harrived⟩
  · refine ⟨max n 4, le_max_left .., .inl ?_⟩
    rw [(History.openInv_of_open hopen hinv _).watched_iff]
    change (ρ.state _).1.life.conn.channel.isWriting ≠ true
    rw [hlast (le_max_right n 4), hwriting]
    exact Bool.false_ne_true
  · have hpre := History.written_mono hopen hinv (le_max_left n 4)
    have hlength : (ρ.state n).2.length < (ρ.state n).1.written.length := by
      have hread : (ρ.state n).2 <+: (ρ.state n).1.written := (hjoined n).rightReads.received
      exact lt_of_le_of_ne hread.length_le fun heq ↦ hne (hread.eq_of_length heq)
    refine ⟨max n 4, le_max_left .., ?_⟩
    change (ρ.state n).2.length < (ρ.state (max n 4)).2.length
    change (ρ.state n).1.written <+: (ρ.state (max n 4)).1.written at hpre
    rw [hlast (le_max_right n 4)] at hpre ⊢
    rw [hback]
    exact hlength.trans_le (hwritten ▸ hpre.length_le)

end EchoServer

end Mymuduo.Net
