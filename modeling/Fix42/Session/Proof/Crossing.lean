import Fix42.Session.Proof.Rejects

/-!
# Messages that cross

Two messages that cross are both refused, and the rejects can cross as well (`Facing.crossing`); so
rejects may go on without end (`crossing_storm`).
-/

namespace Fix42

namespace Session

open Trans

variable {w : Nat} {p : Party w} {msg : Msg} {base : Nat} {userId : String} {cfg : Config}
  {m : Session}

/-! ## Two messages that cross -/

/-- A party that has sent the one message it had queued. -/
def Party.sent (p : Party w) : Party w :=
  { p with output := [], pool := [], seqNum := p.seqNum + 1, counted := p.counted + 1
           transmitted := p.transmitted + 1 }

/-- The message it has sent. -/
def Party.message (p : Party w) (fill : Party w → Header) (x : Queued) : Msg where
  header := { fill p with
    beginString := "FIX.4.2", msgType := x.msgType, msgSeqNum := p.seqNum.setWidth 32 }
  place := x.place
  after := p.counted
  seen := p.received
  nth := p.transmitted + 1

/-- A party that has refused the message it had received. -/
def Party.refused (p : Party w) : Party w :=
  { p with output := p.output ++ [⟨'3', p.appended⟩], appended := p.appended + 1, validation := []
           seqNum := p.seqNum + 1, received := p.received + 1 }

theorem server_sends {x : Queued} {s : Party 32} (c : Party 64) (down up : List Msg)
    (ht : 0 < cfg.threads) (logged : s.loggedIn = true) (houtput : s.output = [x])
    (hpool : s.pool = []) :
    exec (step cfg) (fun _ _ => True) ⟨s, c, down, up⟩ (sendOps.map .server) =
      some ⟨s.sent, c, down ++ [s.message (Server.fill cfg.provider) x], up⟩ := by
  simp [sendOps, exec, Session.step, Server.run, Party.take, Party.stamp, Party.count, Party.transmit,
    Party.nextSeqNumber, Party.sent, Party.message, Server.fill, houtput, hpool, logged, ht]

theorem client_sends {x : Queued} (s : Party 32) {c : Party 64} (down up : List Msg)
    (logged : c.loggedIn = true) (houtput : c.output = [x]) (hpool : c.pool = []) :
    exec (step cfg) (fun _ _ => True) ⟨s, c, down, up⟩ (sendOps.map .client) =
      some ⟨s, c.sent, down, up ++ [c.message (Client.fill cfg.provider) x]⟩ := by
  simp [sendOps, exec, Session.step, Client.run, Party.take, Party.stamp, Party.count, Party.transmit,
    Party.nextSeqNumber, Party.sent, Party.message, Client.fill, houtput, hpool, logged]

theorem validate_refuses {types : List Char} {verify : Party w → Header → Option SessionReject}
    (logged : p.loggedIn = true) (hval : p.validation = [])
    (hver : (verify (p.receive msg) msg.header).isSome) :
    (p.receive msg).validate types verify = some p.refused := by
  obtain ⟨r, hr⟩ := Option.isSome_iff_exists.1 hver
  have hval' : (p.receive msg).validation = [msg] := by simp [Party.receive, hval]
  unfold Party.validate
  rw [hval']
  dsimp only
  rw [hr]
  split <;> simp [Party.receive, Party.append, Party.refused, Party.nextSeqNumber, logged]

/-- Both sides have queued one message each, and nothing else is underway. -/
structure Facing (m : Session) : Prop where
  server : m.server.loggedIn = true
  client : m.client.loggedIn = true
  seqNum : m.server.seqNum = m.client.seqNum.setWidth 32
  serverOutput : m.server.output.length = 1
  clientOutput : m.client.output.length = 1
  underway : m.underway = 2

/-- A message is refused that was stamped with the number before last. -/
theorem Server.refuses {s : Party 32} {header : Header} (logged : s.loggedIn = true)
    (hseq : header.msgSeqNum + 2 = s.seqNum) :
    (Server.verifyUserSpecific cfg.provider s header).isSome := by
  have hne : header.msgSeqNum ≠ s.seqNum - 1 := by bv_omega
  unfold Server.verifyUserSpecific
  rw [if_pos logged, if_pos hne]
  split
  · rfl
  · split <;> rfl

theorem Client.refuses {c : Party 64} {header : Header} (logged : c.loggedIn = true)
    (hseq : header.msgSeqNum + 2 = c.seqNum.setWidth 32) :
    (Client.verifyUserSpecific cfg.provider c header).isSome := by
  have hne : header.msgSeqNum.setWidth 64 ≠ c.seqNum - 1 := by bv_omega
  unfold Client.verifyUserSpecific
  rw [if_pos logged, if_pos hne]
  split
  · rfl
  · split <;> rfl

theorem receive_seqNum (p : Party w) (msg : Msg) (logged : p.loggedIn = true) :
    (p.receive msg).seqNum = p.seqNum + 1 := by
  simp [Party.receive, Party.nextSeqNumber, logged]

/-- Two facing messages cross, are both refused, and leave two rejects that face each other. -/
theorem Facing.crossing (ht : 0 < cfg.threads) (h : Facing m) :
    exec (step cfg) (fun _ _ => True) m crossingRound =
        some ⟨m.server.sent.refused, m.client.sent.refused, [], []⟩ ∧
      Facing ⟨m.server.sent.refused, m.client.sent.refused, [], []⟩ := by
  obtain ⟨s, c, down, up⟩ := m
  obtain ⟨hs, hc, hseq, hsout, hcout, hunder⟩ := h
  simp only [Session.underway, Party.underway] at hunder hs hc hseq hsout hcout
  obtain ⟨x, hx⟩ := List.length_eq_one_iff.1 hsout
  obtain ⟨y, hy⟩ := List.length_eq_one_iff.1 hcout
  have hspool : s.pool = [] := List.length_eq_zero_iff.1 (by omega)
  have hcpool : c.pool = [] := List.length_eq_zero_iff.1 (by omega)
  have hsval : s.validation = [] := List.length_eq_zero_iff.1 (by omega)
  have hcval : c.validation = [] := List.length_eq_zero_iff.1 (by omega)
  have hdown : down = [] := List.length_eq_zero_iff.1 (by omega)
  have hup : up = [] := List.length_eq_zero_iff.1 (by omega)
  subst hdown hup
  have hrefc : (c.sent.receive (s.message (Server.fill cfg.provider) x)).validate Client.types
      (Client.verifyUserSpecific cfg.provider) = some c.sent.refused := by
    refine validate_refuses hc hcval (Client.refuses hc ?_)
    rw [receive_seqNum c.sent _ hc]
    show s.seqNum.setWidth 32 + 2 = (c.seqNum + 1 + 1).setWidth 32
    bv_omega
  have hrefs : (s.sent.receive (c.message (Client.fill cfg.provider) y)).validate Server.types
      (Server.verifyUserSpecific cfg.provider) = some s.sent.refused := by
    refine validate_refuses hs hsval (Server.refuses hs ?_)
    rw [receive_seqNum s.sent _ hs]
    show c.seqNum.setWidth 32 + 2 = s.seqNum + 1 + 1
    bv_omega
  constructor
  · have hsend := (exec_append (server_sends c [] [] ht hs hx hspool)).trans
      (client_sends _ _ _ hc hy hcpool)
    refine (exec_append hsend).trans ?_
    simp only [exec, if_true, Session.step, Client.run, Server.run, List.nil_append, Option.bind_some,
      hrefc, hrefs, Option.map_some, Option.toList_none, List.append_nil]
  · refine ⟨hs, hc, ?_, rfl, rfl, ?_⟩
    · show s.seqNum + 1 + 1 = (c.seqNum + 1 + 1).setWidth 32
      bv_omega
    · simp [Session.underway, Party.underway, Party.refused, Party.sent]
      omega

theorem crossing_internal : ∀ a ∈ crossingRound, Internal a := by
  have h : crossingRound.all fun a => decide (Internal a) := by rfl
  exact fun a ha => of_decide_eq_true (List.all_eq_true.1 h a ha)

/-- `m'` comes from `m` by `n` rounds in which each side sends one message and handles none. -/
structure Rounds (n : Nat) (m m' : Session) : Prop where
  server : m'.server.transmitted = m.server.transmitted + n
  client : m'.client.transmitted = m.client.transmitted + n
  serverHandled : m'.server.handled = m.server.handled
  clientHandled : m'.client.handled = m.client.handled

theorem Facing.rounds (ht : 0 < cfg.threads) (h : Facing m) (n : Nat) :
    ∃ is m', Stretch (step cfg) Internal m is m' ∧ Facing m' ∧ Rounds n m m' := by
  induction n generalizing m with
  | zero => exact ⟨[], m, ⟨fun a ha => absurd ha List.not_mem_nil, rfl⟩, h, rfl, rfl, rfl, rfl⟩
  | succ n ih =>
    obtain ⟨hrun, hnext⟩ := h.crossing ht
    obtain ⟨is, m', ⟨hi, hs⟩, hface, hr⟩ := ih hnext
    refine ⟨crossingRound ++ is, m', ⟨fun a ha => ?_, (exec_append hrun).trans hs⟩, hface, ?_⟩
    · exact (List.mem_append.1 ha).elim (crossing_internal a) (hi a)
    · refine ⟨?_, ?_, hr.serverHandled, hr.clientHandled⟩
      · rw [hr.server, Nat.add_comm n, ← Nat.add_assoc]
        rfl
      · rw [hr.client, Nat.add_comm n, ← Nat.add_assoc]
        rfl

/-- A quiet session in which each side queues a message. -/
theorem Agree.facing (h : Agree cfg base userId m) (hm : m.underway = 0) (t u : Char) :
    Facing { m with server := m.server.append t, client := m.client.append u } := by
  have hdown := h.down
  have hup := h.up
  have hs := hdown.counted
  have hc := hup.counted
  have hs' := hdown.wire
  have hc' := hup.wire
  simp only [underway, Party.underway] at hm
  have hspool : m.server.pool = [] := List.length_eq_zero_iff.1 (by omega)
  have hcpool : m.client.pool = [] := List.length_eq_zero_iff.1 (by omega)
  rw [hspool, List.countP_nil] at hs
  rw [hcpool, List.countP_nil] at hc
  have hsum : base + m.client.counted + m.client.received =
      base + m.server.counted + m.server.received := by omega
  refine ⟨h.server.loggedIn, h.client.loggedIn, ?_, ?_, ?_, ?_⟩
  · show m.server.seqNum = m.client.seqNum.setWidth 32
    rw [h.server.seqNum, h.client.seqNum, BitVec.setWidth_ofNat_of_le (by omega), hsum]
  · show (m.server.output ++ [_]).length = 1
    rw [List.length_append, List.length_singleton]
    omega
  · show (m.client.output ++ [_]).length = 1
    rw [List.length_append, List.length_singleton]
    omega
  · simp only [underway, Party.underway, Party.append, List.length_append, List.length_singleton]
    omega

end Session

end Fix42
