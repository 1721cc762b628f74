import Mathlib.Tactic.ByContra
import Mathlib.Tactic.SplitIfs
import Fix42.Session.Proof.Numbers
import Fix42.Session.Rejects

/-!
# The messages underway

An internal step takes a message one step further (`Forward`) or answers one by a reject (`Back`), so
there are never more of them (`underway_le`); and while there is one there is a next step
(`internal_enabled`).
-/

namespace Fix42

namespace Session

open Trans

variable {w v : Nat} {p p' : Party w} {msg : Msg} {base : Nat} {userId : String}

/-! ## One side -/

theorem rank_set {k : Nat} {t : Task} {l : List Task} (hk : l[k]? = some t) (t' : Task) :
    ((l.set k t').map Task.rank).sum + t.rank = (l.map Task.rank).sum + t'.rank := by
  induction l generalizing k with
  | nil => cases hk
  | cons a l ih =>
    cases k with
    | zero =>
      cases hk
      simp only [List.set_cons_zero, List.map_cons, List.sum_cons]
      omega
    | succ k =>
      have := ih (k := k) hk
      simp only [List.set_cons_succ, List.map_cons, List.sum_cons]
      omega

theorem rank_eraseIdx {k : Nat} {t : Task} {l : List Task} (hk : l[k]? = some t) :
    ((l.eraseIdx k).map Task.rank).sum + t.rank = (l.map Task.rank).sum ∧
      (l.eraseIdx k).length + 1 = l.length := by
  induction l generalizing k with
  | nil => cases hk
  | cons a l ih =>
    cases k with
    | zero =>
      cases hk
      exact ⟨Nat.add_comm .., rfl⟩
    | succ k =>
      obtain ⟨h1, h2⟩ := ih (k := k) hk
      simp only [List.eraseIdx_cons_succ, List.map_cons, List.sum_cons, List.length_cons]
      omega

/-- A message underway is one step further. -/
structure Onward (p p' : Party w) (out : Option Msg) : Prop where
  rank : p'.rank + 3 * out.toList.length + 1 = p.rank
  underway : p'.underway + out.toList.length ≤ p.underway
  counted : p'.counted ≤ p.counted + 1

/-- A message in the input is answered by a reject. -/
structure Bounce (p p' : Party w) : Prop where
  output : ∃ x, p'.output = p.output ++ [x] ∧ x.msgType = '3'
  pool : p'.pool = p.pool
  underway : p'.underway = p.underway
  counted : p'.counted = p.counted

theorem take_onward {n : Nat} (h : p.take n = some p') (logged : p.loggedIn = true) :
    Onward p p' none := by
  obtain ⟨x, rest, houtput, -, rfl⟩ := take_spec h logged
  refine ⟨?_, ?_, Nat.le_succ _⟩
  · simp only [Party.rank, houtput, List.length_cons, List.map_append, List.sum_append, List.map_cons,
      List.map_nil, List.sum_cons, List.sum_nil, Task.rank, Option.toList_none, List.length_nil]
    omega
  · simp only [Party.underway, houtput, List.length_cons, List.length_append, Option.toList_none,
      List.length_nil]
    omega

theorem stamp_onward {fill : Party w → Header} {k : Nat} (h : p.stamp fill k = some p') :
    Onward p p' none := by
  obtain ⟨x, header, hk, -, -, -, -, rfl⟩ := stamp_spec h
  refine ⟨?_, by simp [Party.underway], Nat.le_succ _⟩
  have := rank_set hk (.stamped { header, place := x.place, after := p.counted, seen := p.received })
  simp only [Task.rank] at this
  simp only [Party.rank, Option.toList_none, List.length_nil]
  omega

theorem count_onward {k : Nat} (h : p.count k = some p') : Onward p p' none := by
  obtain ⟨msg, hk, rfl⟩ := count_spec h
  refine ⟨?_, by simp [Party.underway], Nat.le_refl _⟩
  have := rank_set hk (.counted msg)
  simp only [Task.rank] at this
  simp only [Party.rank, Option.toList_none, List.length_nil]
  omega

theorem transmit_onward {k : Nat} {out : Msg} (h : p.transmit k = some (p', out)) :
    Onward p p' (some out) := by
  obtain ⟨msg, hk, rfl, rfl⟩ := transmit_spec h
  obtain ⟨hrank, hlen⟩ := rank_eraseIdx hk
  simp only [Task.rank] at hrank
  refine ⟨?_, ?_, Nat.le_succ _⟩
  · simp only [Party.rank, Option.toList_some, List.length_singleton]
    omega
  · simp only [Party.underway, Option.toList_some, List.length_singleton]
    omega

theorem onward_of_validation {rest : List Msg} (h : p.validation = msg :: rest) (msg' : Msg) :
    Onward p { p with validation := rest, router := p.router ++ [msg'] } none := by
  refine ⟨?_, ?_, Nat.le_succ _⟩
  · simp only [Party.rank, h, List.length_append, List.length_cons, List.length_nil,
      Option.toList_none]
    omega
  · simp only [Party.underway, h, List.length_append, List.length_cons, List.length_nil,
      Option.toList_none]
    omega

theorem validate_onward {types : List Char} {verify : Party w → Header → Option SessionReject}
    (h : p.validate types verify = some p') : Onward p p' none ∨ Bounce p p' := by
  obtain ⟨msg, rest, hval, rfl | ⟨-, rfl⟩⟩ := validate_spec h
  · refine .inr ⟨⟨_, rfl, rfl⟩, rfl, ?_, rfl⟩
    simp only [Party.underway, Party.append, hval, List.length_append, List.length_cons,
      List.length_nil]
    omega
  · exact .inl (onward_of_validation hval _)

theorem onward_of_router {rest : List Msg} {handled : List (Msg × String)}
    (h : p.router = msg :: rest) : Onward p { p with router := rest, handled } none := by
  refine ⟨?_, ?_, Nat.le_succ _⟩
  · simp only [Party.rank, h, List.length_cons, Option.toList_none, List.length_nil]
    omega
  · simp only [Party.underway, h, List.length_cons, Option.toList_none, List.length_nil]
    omega

theorem bounce_of_router {rest : List Msg} (h : p.router = msg :: rest) :
    Bounce p (({ p with router := rest } : Party w).append '3') := by
  refine ⟨⟨_, rfl, rfl⟩, rfl, ?_, rfl⟩
  simp only [Party.underway, Party.append, h, List.length_append, List.length_cons, List.length_nil]
  omega

theorem Server.route_onward {p p' : Party 32} (h : Server.route p = some p')
    (hr : ∀ msg ∈ p.router, msg.header.msgType ≠ 'A') : Onward p p' none ∨ Bounce p p' := by
  unfold Server.route at h
  split at h
  · cases h
  · rename_i msg rest hrouter
    rw [if_neg (hr msg (by simp [hrouter]))] at h
    dsimp only at h
    split at h
    · split at h
      · cases h
        exact .inl (onward_of_router hrouter)
      · split at h <;> cases h
        · exact .inl (onward_of_router hrouter)
        · exact .inr (bounce_of_router hrouter)
    · cases h
      exact .inr (bounce_of_router hrouter)

theorem Client.route_onward {p p' : Party 64} (h : Client.route p = some p')
    (hr : ∀ msg ∈ p.router, msg.header.msgType ≠ 'A') : Onward p p' none ∨ Bounce p p' := by
  unfold Client.route at h
  split at h
  · cases h
  · rename_i msg rest hrouter
    rw [if_neg (hr msg (by simp [hrouter]))] at h
    dsimp only at h
    split at h <;> cases h
    · exact .inl (onward_of_router hrouter)
    · exact .inr (bounce_of_router hrouter)

theorem Server.onward {cfg : Config} {p p' : Party 32} {op : Op} {out : Option Msg}
    (h : Server.run cfg p op = some (p', out)) (hi : Internal (.server op)) (logged : p.loggedIn = true)
    (hr : ∀ msg ∈ p.router, msg.header.msgType ≠ 'A') (hl : p.logon = []) :
    Onward p p' out ∨ out = none ∧ Bounce p p' := by
  cases op with
  | append t => exact hi.elim
  | transmit k =>
    obtain ⟨⟨p1, msg⟩, hs, he⟩ := Option.map_eq_some_iff.1 h
    cases he
    exact .inl (transmit_onward hs)
  | logon valid => simp [Server.run, Server.logon, hl] at h
  | take | stamp | count | validate | route =>
    obtain ⟨p1, hs, he⟩ := Option.map_eq_some_iff.1 h
    cases he
    first
      | exact .inl (take_onward hs logged)
      | exact .inl (stamp_onward hs)
      | exact .inl (count_onward hs)
      | exact (validate_onward hs).imp_right fun hb => ⟨rfl, hb⟩
      | exact (Server.route_onward hs hr).imp_right fun hb => ⟨rfl, hb⟩

theorem Client.onward {cfg : Config} {p p' : Party 64} {op : Op} {out : Option Msg}
    (h : Client.run cfg p op = some (p', out)) (hi : Internal (.client op)) (logged : p.loggedIn = true)
    (hr : ∀ msg ∈ p.router, msg.header.msgType ≠ 'A') (hl : p.logon = []) :
    Onward p p' out ∨ out = none ∧ Bounce p p' := by
  cases op with
  | append t => exact hi.elim
  | transmit k =>
    obtain ⟨⟨p1, msg⟩, hs, he⟩ := Option.map_eq_some_iff.1 h
    cases he
    exact .inl (transmit_onward hs)
  | logon valid => simp [Client.run, Client.logon, hl] at h
  | take | stamp | count | validate | route =>
    obtain ⟨p1, hs, he⟩ := Option.map_eq_some_iff.1 h
    cases he
    first
      | exact .inl (take_onward hs logged)
      | exact .inl (stamp_onward hs)
      | exact .inl (count_onward hs)
      | exact (validate_onward hs).imp_right fun hb => ⟨rfl, hb⟩
      | exact (Client.route_onward hs hr).imp_right fun hb => ⟨rfl, hb⟩

/-! ## The session -/

variable {cfg : Config} {m m' : Session}

/-- A message underway is one step further. -/
structure Forward (m m' : Session) : Prop where
  rank : m'.rank + 1 = m.rank
  underway : m'.underway ≤ m.underway
  counted : m'.server.counted + m'.client.counted ≤ m.server.counted + m.client.counted + 1

/-- One side answers a message by a reject. -/
inductive Back (m m' : Session) : Prop
  | server (h : Bounce m.server m'.server) (client : m'.client = m.client)
      (toClient : m'.toClient = m.toClient) (toServer : m'.toServer = m.toServer)
  | client (h : Bounce m.client m'.client) (server : m'.server = m.server)
      (toClient : m'.toClient = m.toClient) (toServer : m'.toServer = m.toServer)

theorem Onward.of_server {p : Party 32} {out : Option Msg} (h : Onward m.server p out) :
    Forward m { m with server := p, toClient := m.toClient ++ out.toList } := by
  have hr := h.rank
  have hu := h.underway
  have hc := h.counted
  constructor
  · simp only [Session.rank, List.length_append]
    omega
  · simp only [Session.underway, List.length_append]
    omega
  · show p.counted + m.client.counted ≤ _
    omega

theorem Onward.of_client {p : Party 64} {out : Option Msg} (h : Onward m.client p out) :
    Forward m { m with client := p, toServer := m.toServer ++ out.toList } := by
  have hr := h.rank
  have hu := h.underway
  have hc := h.counted
  constructor
  · simp only [Session.rank, List.length_append]
    omega
  · simp only [Session.underway, List.length_append]
    omega
  · show m.server.counted + p.counted ≤ _
    omega

theorem forward_serverReceive {rest : List Msg} (h : m.toServer = msg :: rest) :
    Forward m { m with server := m.server.receive msg, toServer := rest } := by
  refine ⟨?_, ?_, Nat.le_succ _⟩
  · simp only [rank, Party.rank, Party.receive, h, List.length_append, List.length_cons,
      List.length_nil]
    omega
  · simp only [underway, Party.underway, Party.receive, h, List.length_append, List.length_cons,
      List.length_nil]
    omega

theorem forward_clientReceive {rest : List Msg} (h : m.toClient = msg :: rest) :
    Forward m { m with client := m.client.receive msg, toClient := rest } := by
  refine ⟨?_, ?_, Nat.le_succ _⟩
  · simp only [rank, Party.rank, Party.receive, h, List.length_append, List.length_cons,
      List.length_nil]
    omega
  · simp only [underway, Party.underway, Party.receive, h, List.length_append, List.length_cons,
      List.length_nil]
    omega

theorem Back.underway (h : Back m m') : m'.underway = m.underway := by
  cases h with
  | server h client toClient toServer =>
    simp only [Session.underway, h.underway, client, toClient, toServer]
  | client h server toClient toServer =>
    simp only [Session.underway, h.underway, server, toClient, toServer]

/-- An internal step takes a message one step further, or answers one by a reject. -/
theorem step_onward {a : Action} (h : Agree cfg base userId m) (hi : Internal a)
    (hs : step cfg m a = some m') : Forward m m' ∨ Back m m' := by
  cases a with
  | front => exact hi.elim
  | server op =>
    obtain ⟨⟨p, out⟩, hrun, he⟩ := Option.map_eq_some_iff.1 hs
    cases he
    rcases Server.onward hrun hi h.server.loggedIn h.up.router h.up.logon with ho | ⟨rfl, hb⟩
    · exact .inl ho.of_server
    · exact .inr (.server hb rfl (List.append_nil _) rfl)
  | client op =>
    obtain ⟨⟨p, out⟩, hrun, he⟩ := Option.map_eq_some_iff.1 hs
    cases he
    rcases Client.onward hrun hi h.client.loggedIn h.down.router h.down.logon with ho | ⟨rfl, hb⟩
    · exact .inl ho.of_client
    · exact .inr (.client hb rfl rfl (List.append_nil _))
  | serverReceive =>
    simp only [Session.step] at hs
    split at hs
    · cases hs
    · rename_i msg rest hch
      cases hs
      exact .inl (forward_serverReceive hch)
  | clientReceive =>
    simp only [Session.step] at hs
    split at hs
    · cases hs
    · rename_i msg rest hch
      cases hs
      exact .inl (forward_clientReceive hch)

theorem step_underway {a : Action} (h : Agree cfg base userId m) (hi : Internal a)
    (hs : step cfg m a = some m') : m'.underway ≤ m.underway :=
  (step_onward h hi hs).elim Forward.underway fun hb => Nat.le_of_eq hb.underway

theorem underway_le {is : List Action} (h : Agree cfg base userId m)
    (hs : Stretch (step cfg) Internal m is m') : m'.underway ≤ m.underway := by
  have key : ∀ s a s', Agree cfg base userId s ∧ s.underway ≤ m.underway → Internal a →
      step cfg s a = some s' → Agree cfg base userId s' ∧ s'.underway ≤ m.underway :=
    fun s a s' hI hi ht => ⟨hI.1.step hi.ordinary ht, Nat.le_trans (step_underway hI.1 hi ht) hI.2⟩
  exact (Stretch.invariant key hs ⟨h, Nat.le_refl _⟩).2

/-! ## There is always a next step -/

theorem sending_enabled {n : Nat} (hn : 0 < n) (fill : Party w → Header)
    (h : p.output ≠ [] ∨ p.pool ≠ []) :
    (p.take n).isSome ∨ (p.stamp fill 0).isSome ∨ (p.count 0).isSome ∨ (p.transmit 0).isSome := by
  by_cases hpool : p.pool = []
  · obtain ⟨x, rest, hx⟩ := List.exists_cons_of_ne_nil (h.resolve_right (not_not_intro hpool))
    exact .inl (by simp [Party.take, hx, hpool, hn])
  · obtain ⟨t, rest, hx⟩ := List.exists_cons_of_ne_nil hpool
    cases t with
    | taken q => exact .inr (.inl (by simp [Party.stamp, hx]))
    | stamped msg => exact .inr (.inr (.inl (by simp [Party.count, hx])))
    | counted msg => exact .inr (.inr (.inr (by simp [Party.transmit, hx])))

theorem validate_enabled {types : List Char} {verify : Party w → Header → Option SessionReject}
    (h : p.validation ≠ []) : (p.validate types verify).isSome := by
  obtain ⟨msg, rest, hx⟩ := List.exists_cons_of_ne_nil h
  unfold Party.validate
  rw [hx]
  dsimp only
  split
  · rfl
  · split <;> rfl

theorem Server.route_enabled {p : Party 32} (h : p.router ≠ []) : (Server.route p).isSome := by
  obtain ⟨msg, rest, hx⟩ := List.exists_cons_of_ne_nil h
  unfold Server.route
  rw [hx]
  dsimp only
  split_ifs <;> rfl

theorem Client.route_enabled {p : Party 64} (h : p.router ≠ []) : (Client.route p).isSome := by
  obtain ⟨msg, rest, hx⟩ := List.exists_cons_of_ne_nil h
  unfold Client.route
  rw [hx]
  dsimp only
  split_ifs <;> rfl

theorem Server.enabled {p : Party 32} (ht : 0 < cfg.threads) (h : 0 < p.underway) :
    ∃ op, Internal (.server op) ∧ (Server.run cfg p op).isSome := by
  by_cases hrouter : p.router = []
  · by_cases hval : p.validation = []
    · have hsend : p.output ≠ [] ∨ p.pool ≠ [] := by
        by_contra hnot
        simp only [not_or, not_not] at hnot
        simp [Party.underway, hrouter, hval, hnot.1, hnot.2] at h
      rcases sending_enabled ht (Server.fill cfg.provider) hsend with h | h | h | h
      · exact ⟨.take, trivial, by simpa [Server.run] using h⟩
      · exact ⟨.stamp 0, trivial, by simpa [Server.run] using h⟩
      · exact ⟨.count 0, trivial, by simpa [Server.run] using h⟩
      · exact ⟨.transmit 0, trivial, by simpa [Server.run] using h⟩
    · exact ⟨.validate, trivial, by simpa [Server.run] using validate_enabled hval⟩
  · exact ⟨.route, trivial, by simpa [Server.run] using Server.route_enabled hrouter⟩

theorem Client.enabled (cfg : Config) {p : Party 64} (h : 0 < p.underway) :
    ∃ op, Internal (.client op) ∧ (Client.run cfg p op).isSome := by
  by_cases hrouter : p.router = []
  · by_cases hval : p.validation = []
    · have hsend : p.output ≠ [] ∨ p.pool ≠ [] := by
        by_contra hnot
        simp only [not_or, not_not] at hnot
        simp [Party.underway, hrouter, hval, hnot.1, hnot.2] at h
      rcases sending_enabled Nat.one_pos (Client.fill cfg.provider) hsend with h | h | h | h
      · exact ⟨.take, trivial, by simpa [Client.run] using h⟩
      · exact ⟨.stamp 0, trivial, by simpa [Client.run] using h⟩
      · exact ⟨.count 0, trivial, by simpa [Client.run] using h⟩
      · exact ⟨.transmit 0, trivial, by simpa [Client.run] using h⟩
    · exact ⟨.validate, trivial, by simpa [Client.run] using validate_enabled hval⟩
  · exact ⟨.route, trivial, by simpa [Client.run] using Client.route_enabled hrouter⟩

theorem internal_enabled (ht : 0 < cfg.threads) (h : 0 < m.underway) :
    ∃ a m', Internal a ∧ step cfg m a = some m' := by
  by_cases hserver : 0 < m.server.underway
  · obtain ⟨op, hop, hs⟩ := Server.enabled ht hserver
    obtain ⟨r, hr⟩ := Option.isSome_iff_exists.1 hs
    exact ⟨.server op, _, hop, by rw [Session.step, hr]; rfl⟩
  · by_cases hclient : 0 < m.client.underway
    · obtain ⟨op, hop, hs⟩ := Client.enabled cfg hclient
      obtain ⟨r, hr⟩ := Option.isSome_iff_exists.1 hs
      exact ⟨.client op, _, hop, by rw [Session.step, hr]; rfl⟩
    · by_cases hch : m.toClient = []
      · have hup : m.toServer ≠ [] := by
          intro hempty
          simp only [underway, hch, hempty, List.length_nil] at h
          omega
        obtain ⟨msg, rest, hx⟩ := List.exists_cons_of_ne_nil hup
        exact ⟨.serverReceive, _, trivial, by rw [Session.step, hx]⟩
      · obtain ⟨msg, rest, hx⟩ := List.exists_cons_of_ne_nil hch
        exact ⟨.clientReceive, _, trivial, by rw [Session.step, hx]⟩

end Session

end Fix42
