import Mymuduo.TcpServer

namespace Mymuduo.Net

theorem TcpServer.connName_injective {s : TcpServer} (h : s.ipPort_.length ≤ 21) {i j : ℕ}
    (hi : i < 2147483648) (hj : j < 2147483648) (hname : s.connName i = s.connName j) : i = j := by
  have hwhole {n : ℕ} (hn : n < 2147483648) :
      s.connName n = s.name_ ++ ('-' :: s.ipPort_ ++ '#' :: decimal n) := by
    have hdigits : (decimal n).length ≤ 10 :=
      length_decimal_le (by decide) (Nat.lt_trans hn (by decide))
    rw [connName, snprintf, decimalInt_of_lt hn, List.take_of_length_le]
    simp only [List.length_append, List.length_cons]
    omega
  rw [hwhole hi, hwhole hj, List.append_cancel_left_eq, List.append_cancel_left_eq,
    List.cons.injEq] at hname
  exact decimal_injective hname.2

/-- What the events leave of a connection that was accepted. -/
structure Later (c c' : ServerConnection) : Prop where
  name : c'.name = c.name
  ioLoop : c'.ioLoop = c.ioLoop
  established : c.established ≤ c'.established
  removed : c.removed = true → c'.removed = true

namespace ServerLoops

structure Registered (server : TcpServer) (conns : ℕ → Option ServerConnection) : Prop where
  ipPort : server.ipPort_.length ≤ 21
  first : 0 < server.nextConnId_
  bound : server.nextConnId_ ≤ 2147483648
  accepted : ∀ i, (conns i).isSome ↔ 0 < i ∧ i < server.nextConnId_
  named : ∀ i c, conns i = some c → c.name = server.connName i
  table : ∀ name i, server.connections_ name = some i ↔
    ∃ c, conns i = some c ∧ c.name = name ∧ c.removed = false

variable {server : TcpServer} {conns : ℕ → Option ServerConnection} {i : ℕ}
  {c c' : ServerConnection}

theorem later_update (hc : conns i = some c) (hl : Later c c') {j : ℕ} {d : ServerConnection}
    (hd : conns j = some d) :
    ∃ d', Function.update conns i (some c') j = some d' ∧ Later d d' := by
  by_cases hj : j = i
  · subst hj
    cases hc.symm.trans hd
    exact ⟨c', Function.update_self .., hl⟩
  · exact ⟨d, (Function.update_of_ne hj ..).trans hd, rfl, rfl, Nat.le_refl _, id⟩

theorem isSome_update (hc : conns i = some c) (j : ℕ) :
    (Function.update conns i (some c') j).isSome = (conns j).isSome := by
  by_cases hj : j = i
  · simp [hj, hc]
  · rw [Function.update_of_ne hj]

theorem Registered.update (h : Registered server conns) (hc : conns i = some c)
    (hname : c'.name = c.name) (hremoved : c'.removed = c.removed) :
    Registered server (Function.update conns i (some c')) where
  ipPort := h.ipPort
  first := h.first
  bound := h.bound
  accepted j := by
    rw [isSome_update hc]
    exact h.accepted j
  named j d hd := by
    rcases update_eq_some hd with ⟨rfl, rfl⟩ | ⟨-, hd⟩
    · exact hname.trans (h.named j c hc)
    · exact h.named j d hd
  table name j := by
    rw [h.table]
    by_cases hj : j = i
    · subst hj
      simp [hc, hname, hremoved]
    · simp [Function.update_of_ne hj]

theorem Registered.name_injective (h : Registered server conns) {j : ℕ} {d : ServerConnection}
    (hc : conns i = some c) (hd : conns j = some d) (hname : c.name = d.name) : i = j := by
  have hlt {k : ℕ} {e : ServerConnection} (he : conns k = some e) : k < 2147483648 :=
    Nat.lt_of_lt_of_le ((h.accepted k).mp (by simp [he])).2 h.bound
  rw [h.named i c hc, h.named j d hd] at hname
  exact TcpServer.connName_injective h.ipPort (hlt hc) (hlt hd) hname

theorem Registered.erase (h : Registered server conns) (hc : conns i = some c) :
    Registered
      { server with connections_ := Function.update server.connections_ c.name none }
      (Function.update conns i (some { c with removed := true })) where
  ipPort := h.ipPort
  first := h.first
  bound := h.bound
  accepted j := by
    rw [isSome_update hc]
    exact h.accepted j
  named j d hd := by
    rcases update_eq_some hd with ⟨rfl, rfl⟩ | ⟨-, hd⟩
    · exact h.named j c hc
    · exact h.named j d hd
  table name j := by
    dsimp only
    by_cases hj : j = i
    · subst hj
      simp only [Function.update_self, Option.some.injEq, exists_eq_left', Bool.true_eq_false,
        and_false, iff_false]
      by_cases hname : name = c.name
      · simp [hname]
      · rw [Function.update_of_ne hname, h.table]
        simp [hc, Ne.symm hname]
    · rw [Function.update_of_ne hj]
      by_cases hname : name = c.name
      · rw [hname, Function.update_self]
        simp only [reduceCtorEq, false_iff, not_exists, not_and]
        intro d hd hsame
        exact (hj (h.name_injective hd hc hsame)).elim
      · rw [Function.update_of_ne hname]
        exact h.table name j

theorem Registered.accept (h : Registered server conns)
    (hbound : server.nextConnId_ < 2147483648) (pool : EventLoopThreadPool)
    (hname : c.name = server.connName server.nextConnId_) (hremoved : c.removed = false) :
    Registered
      { server with
        threadPool_ := pool
        nextConnId_ := server.nextConnId_ + 1
        connections_ := Function.update server.connections_
          (server.connName server.nextConnId_) (some server.nextConnId_) }
      (Function.update conns server.nextConnId_ (some c)) where
  ipPort := h.ipPort
  first := Nat.succ_pos _
  bound := hbound
  accepted j := by
    by_cases hj : j = server.nextConnId_
    · subst hj
      simp [h.first]
    · rw [Function.update_of_ne hj, h.accepted]
      dsimp only
      omega
  named j d hd := by
    rcases update_eq_some hd with ⟨rfl, rfl⟩ | ⟨-, hd⟩
    · exact hname
    · exact h.named j d hd
  table name j := by
    dsimp only
    by_cases hj : j = server.nextConnId_
    · subst hj
      simp only [Function.update_self, Option.some.injEq, exists_eq_left', hremoved, and_true,
        hname]
      by_cases hsame : name = server.connName server.nextConnId_
      · simp [hsame]
      · rw [Function.update_of_ne hsame, h.table]
        have hfresh := (h.accepted server.nextConnId_).not.mpr (by omega)
        simp only [Ne.symm hsame, iff_false, not_exists, not_and]
        intro d hd
        simp [hd] at hfresh
    · rw [Function.update_of_ne hj]
      by_cases hsame : name = server.connName server.nextConnId_
      · subst hsame
        simp only [Function.update_self, Option.some.injEq, Ne.symm hj, false_iff, not_exists,
          not_and]
        intro d hd hd'
        have hlt := ((h.accepted j).mp (by simp [hd])).2
        rw [h.named j d hd] at hd'
        exact (hj (TcpServer.connName_injective h.ipPort (by omega) hbound hd')).elim
      · rw [Function.update_of_ne hsame]
        exact h.table name j

end ServerLoops

end Mymuduo.Net
