import Mymuduo.CodecLink

namespace Mymuduo.Net

open Execution

/-- A step of the connection. If it comes to `EchoServer::onMessage`, the vector of
`inputBuffer_` lies at `base` and `n` is the result of the `write` that may come of it. -/
structure EchoEvent where
  step : LifeEvent
  base : ℤ
  n : WriteResult

namespace EchoServer

open Endpoint

variable (s : Endpoint)

/-- `conn->send(msg)`: in the loop thread `send` retrieves what it has sent. -/
def onMessage (base : ℤ) (n : WriteResult) : Option Endpoint := do
  let msg := s.life.conn.inputBuffer
  let s' ← s.send ⟨0, .buffer base msg, msg.readable⟩ (.buffer base msg) n
  return if s.life.conn.state = .kConnected then
    s'.setConn { s'.life.conn with inputBuffer := msg.retrieveAll }
  else s'

def step (e : EchoEvent) : Option Endpoint := do
  let s' ← s.transport e.step
  if s.life.arrived e.step = [] then return s' else onMessage s' e.base e.n

/-- What has been read and not been sent back is in the input buffer, and that is empty
as long as the connection is established. -/
structure Inv (s : Endpoint) : Prop where
  endpoint : s.Inv
  received : s.output ++ s.life.conn.inputBuffer.readable = s.received
  retrieved : s.life.conn.state = .kConnected → s.life.conn.inputBuffer.readable = []

variable {s} {s' : Endpoint}

theorem goes_onMessage {base : ℤ} {n : WriteResult} (h : s.Inv)
    (hcall : onMessage s base n = some s') : ∃ sent, Goes s s' sent := by
  obtain ⟨s₁, hs₁, hcall⟩ := Option.bind_eq_some_iff.mp hcall
  have hsend := goes_send h hs₁
  cases Option.some.inj hcall
  split_ifs
  · exact ⟨_, hsend.trans (goes_inputBuffer hsend.inv _)⟩
  · exact ⟨_, hsend⟩

theorem inv_onMessage {base : ℤ} {n : WriteResult} (h : s.Inv)
    (hreceived : s.output ++ s.life.conn.inputBuffer.readable = s.received)
    (hcall : onMessage s base n = some s') : Inv s' := by
  obtain ⟨s₁, hs₁, hcall⟩ := Option.bind_eq_some_iff.mp hcall
  obtain ⟨hstore, hkeeps⟩ := keeps_send hs₁
  have hsend := goes_send h hs₁
  cases Option.some.inj hcall
  split_ifs at hsend ⊢ with hstate
  · have hinput := goes_inputBuffer hsend.inv s.life.conn.inputBuffer.retrieveAll
    have hempty := ValidBuffer.readable_retrieveAll s.life.conn.inputBuffer
    refine ⟨hinput.inv, ?_, fun _ ↦ hempty⟩
    change s₁.output ++ s.life.conn.inputBuffer.retrieveAll.readable = s₁.received
    rw [hempty, List.append_nil, hsend.output, hkeeps.received, ← hreceived]
    exact congrArg _ hstore
  · refine ⟨hsend.inv, ?_, fun hs ↦ ((hsend.closed hstate).2 hs).elim⟩
    rw [hsend.output, List.append_nil, hkeeps.inputBuffer, hkeeps.received, hreceived]

theorem step_inv {e : EchoEvent} (h : Inv s) (hstep : step s e = some s') : Inv s' := by
  obtain ⟨s₁, hs₁, hstep⟩ := Option.bind_eq_some_iff.mp hstep
  have hgoes := goes_transport h.endpoint hs₁
  obtain ⟨hreceived, hinput⟩ := transport_received hs₁
  have hall : s₁.output ++ s₁.life.conn.inputBuffer.readable = s₁.received := by
    rw [hgoes.output, List.append_nil, hinput, ← List.append_assoc, h.received, hreceived]
  split_ifs at hstep with harrived
  · cases Option.some.inj hstep
    refine ⟨hgoes.inv, hall, fun hstate ↦ ?_⟩
    have hconnected : s.life.conn.state = .kConnected := by
      by_contra hclosed
      exact (hgoes.closed hclosed).2 hstate
    rw [hinput, harrived, List.append_nil, h.retrieved hconnected]
  · exact inv_onMessage hgoes.inv hall hstep

theorem step_goes {e : EchoEvent} (h : s.Inv) (hstep : step s e = some s') :
    ∃ sent, Goes s s' sent := by
  obtain ⟨s₁, hs₁, hstep⟩ := Option.bind_eq_some_iff.mp hstep
  have hgoes := goes_transport h hs₁
  split_ifs at hstep
  · cases Option.some.inj hstep
    exact ⟨_, hgoes⟩
  · obtain ⟨sent, hsent⟩ := goes_onMessage hgoes.inv hstep
    exact ⟨_, hgoes.trans hsent⟩

def party : Duplex.Party Endpoint EchoEvent Byte where
  step := step
  received := received
  written := written
  sawEnd := sawEnd
  ended := ended
  Inv := Inv
  inv_step h hstep := step_inv h hstep
  written_grows h hstep := by
    obtain ⟨_, hgoes⟩ := step_goes h.endpoint hstep
    exact hgoes.written
  ended_step h hstep hended := by
    obtain ⟨_, hgoes⟩ := step_goes h.endpoint hstep
    exact hgoes.ended h.endpoint hended

theorem inv_established (c : Opening) : Inv (established c) where
  endpoint := Endpoint.inv_established c
  received := ValidBuffer.readable_new _
  retrieved _ := ValidBuffer.readable_new _

theorem Inv.stream (h : Inv s) (hrefused : s.refused = false) :
    s.written ++ s.life.conn.outputBuffer.readable ++ s.life.conn.inputBuffer.readable =
      s.received := by
  rw [← h.received, ← h.endpoint.stream hrefused]
  rfl

/-- In every run of the server with any peer, the peer gets back a prefix of what it has
written, and what it has not got back yet is on its way or in the two buffers of the
connection. An established connection keeps nothing in its input buffer. -/
theorem echoes {τ δ : Type*} (client : Duplex.Party τ δ Byte) (c : Opening) (t : τ)
    (ht : client.Inv t) (hnone : client.received t = []) (hend : client.sawEnd t = false)
    (es : List (EchoEvent ⊕ δ)) (p : Endpoint × τ)
    (hrun : run (Duplex.step party client) (established c, t) es = some p)
    (hrefused : p.1.refused = false) :
    client.received p.2 <+: client.written p.2 ∧
      p.1.received <+: client.written p.2 ∧ client.received p.2 <+: p.1.written ∧
      p.1.written ++ p.1.life.conn.outputBuffer.readable ++ p.1.life.conn.inputBuffer.readable =
        p.1.received ∧
      (p.1.life.conn.state = .kConnected → p.1.life.conn.inputBuffer.readable = []) := by
  have h := Duplex.run_joined (Duplex.joined_start (P := party) (inv_established c) ht rfl hnone rfl
    hend) hrun
  have hstream := Inv.stream h.left hrefused
  have hwritten : p.1.written <+: p.1.received := by
    rw [← hstream, List.append_assoc]
    exact List.prefix_append ..
  refine ⟨?_, h.leftReads.received, h.rightReads.received, hstream, h.left.retrieved⟩
  exact (h.rightReads.received.trans hwritten).trans h.leftReads.received

def oneByte : Duplex.Party (List Byte) (Option Byte) Byte where
  step s e := some (s ++ e.toList)
  received s := s
  written _ := [7]
  sawEnd _ := false
  ended _ := false
  Inv _ := True
  inv_step _ _ := trivial
  written_grows _ _ := List.prefix_rfl
  ended_step _ _ h := (Bool.false_ne_true h).elim

def byteRead : Opening := { CodecPeer.opening with mem := fun _ ↦ 7 }

def byteComes : List (EchoEvent ⊕ Option Byte) :=
  [.inl ⟨.loop (.poll Channel.EPOLLIN), 0, .wrote 0⟩, .inl ⟨.loop .handleEvent, 0, .wrote 0⟩]

def readsByte : EchoEvent := ⟨.loop (.callback (.read [7]) (.wrote 0)), -8, .wrote 1⟩

/-- The server reads the byte and sends it back at once. -/
theorem exists_echoedByte : ∃ p, run (Duplex.step party oneByte) (established byteRead, [])
    (byteComes ++ [.inl readsByte, .inr (some 7)]) = some p ∧
      p.1.life.conn.state = .kConnected ∧ p.1.refused = false ∧
      p.1.life.conn.channel.isWriting = false ∧ p.1.received = [7] ∧ p.1.written = [7] ∧
      p.2 = [7] := by
  have hrun : (run (Duplex.step party oneByte) (established byteRead, []) byteComes).map (fun p ↦
      decide (p.1.life.destroying = none ∧ p.1.life.dispatching = [.read] ∧
        1 ≤ p.1.life.conn.inputBuffer.val.writeableBytes ∧ p.2 = [] ∧
        (onMessage (p.1.read [7] []) (-8) (.wrote 1)).map (fun t ↦
          decide (t.life.conn.state = .kConnected ∧ t.refused = false ∧
            t.life.conn.channel.isWriting = false ∧ t.received = [7] ∧ t.written = [7] ∧
              t.sawEnd = false)) = some true)) = some true := by decide +kernel
  obtain ⟨⟨s, client⟩, hp, hend⟩ := Option.map_eq_some_iff.mp hrun
  obtain ⟨hd, hdispatching, hroom, rfl, hreads⟩ := of_decide_eq_true hend
  obtain ⟨t, ht, hreads⟩ := Option.map_eq_some_iff.mp hreads
  obtain ⟨hstate, hrefused, hwriting, hreceived, hwritten, hsaw⟩ := of_decide_eq_true hreads
  have hendpoint : s.transport readsByte.step = some (s.read [7] []) :=
    transport_read hd hdispatching (List.cons_ne_nil _ _) hroom
  have hread : step s readsByte = some t := by
    have hready : s.life.dispatching.head? = some .read := congrArg List.head? hdispatching
    rw [step, hendpoint]
    exact (if_neg (by simp [Life.arrived, readsByte, hready, TcpConnection.arrived])).trans ht
  have hreads : Duplex.Reads party oneByte t [] := by
    constructor
    · change t.received <+: [7]
      exact hreceived ▸ List.prefix_rfl
    · intro hend
      exact (Bool.false_ne_true (hsaw.symm.trans hend)).elim
  have hback : Duplex.Reads oneByte party [7] t := by
    constructor
    · change [7] <+: t.written
      exact hwritten ▸ List.prefix_rfl
    · intro hend
      cases hend
  refine ⟨(t, [7]), ?_, hstate, hrefused, hwriting, hreceived, hwritten, rfl⟩
  have hserver : Duplex.step party oneByte (s, []) (.inl readsByte) = some (t, []) := by
    simp [Duplex.step, show party.step s readsByte = some t from hread, hreads]
  have hclient : Duplex.step party oneByte (t, []) (.inr (some 7)) = some (t, [7]) := if_pos hback
  rw [run_append, hp]
  exact run_cons_eq_some.mpr ⟨_, hserver, run_cons_eq_some.mpr ⟨_, hclient, rfl⟩⟩

theorem echoes_oneByte : ∃ p, run (Duplex.step party oneByte) (established byteRead, [])
    (byteComes ++ [.inl readsByte, .inr (some 7)]) = some p ∧ p.1.received = [7] ∧ p.2 = [7] ∧
      p.2 <+: [7] ∧ p.1.received <+: [7] ∧ p.2 <+: p.1.written ∧
      p.1.written ++ p.1.life.conn.outputBuffer.readable ++ p.1.life.conn.inputBuffer.readable =
        p.1.received ∧ p.1.life.conn.inputBuffer.readable = [] := by
  obtain ⟨p, hp, hstate, hrefused, -, hreceived, -, hback⟩ := exists_echoedByte
  obtain ⟨hgot, hread, hwritten, hstream, hempty⟩ :=
    echoes oneByte byteRead [] trivial rfl rfl _ p hp hrefused
  exact ⟨p, hp, hreceived, hback, hgot, hread, hwritten, hstream, hempty hstate⟩

end EchoServer

end Mymuduo.Net
