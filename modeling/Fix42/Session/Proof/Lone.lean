import Fix42.Session.Proof.Rejects

/-!
# One message alone

A reject that nothing crosses is accepted (`Plain`, `Single.step_fresh`), and what a lone message is
answered by is such a reject (`fresh_of_back`). So a session with one message underway is quiet after at
most 14 steps (`lone_message_settles`).
-/

namespace Fix42

namespace Session

open Trans

variable {w v : Nat} {p p' : Party w} {q q' : Party v} {ch : List Msg} {msg : Msg} {base : Nat}
  {ids : String × String} {userId : String} {cfg : Config} {m m' : Session}

/-! ## A reject nothing crosses -/

/-- How many messages of `p` for `q` are underway. -/
def line (p : Party w) (ch : List Msg) (q : Party v) : Nat :=
  p.output.length + p.pool.length + ch.length + q.validation.length + q.router.length

theorem underway_eq (m : Session) :
    m.underway = line m.server m.toClient m.client + line m.client m.toServer m.server := by
  simp only [underway, Party.underway, line]
  omega

/-- A reject that `q` will accept. -/
structure Accepted (q : Party v) (msg : Msg) : Prop where
  beginString : msg.header.beginString = "FIX.4.2"
  msgType : msg.header.msgType = '3'
  uncrossed : q.counted ≤ msg.seen

/-- What `p` has underway for `q` are rejects that will be accepted. -/
structure Plain (p : Party w) (ch : List Msg) (q : Party v) : Prop where
  queued : ∀ x, x ∈ p.output ∨ .taken x ∈ p.pool → x.msgType = '3'
  sent : ∀ msg ∈ p.pool.filterMap Task.msg? ++ ch ++ q.validation, Accepted q msg
  pool : ∀ msg ∈ p.pool.filterMap Task.msg?, msg.after = p.transmitted
  wire : ∀ msg ∈ ch ++ q.validation, msg.InTurn
  late : ∀ msg ∈ q.validation, ¬ q.Late msg
  router : ∀ msg ∈ q.router, msg.header.msgType = '3'

theorem Plain.of_output (h : ∀ x ∈ p.output, x.msgType = '3')
    (hl : line p ch q ≤ p.output.length) : Plain p ch q := by
  have hpool : p.pool = [] := List.length_eq_zero_iff.1 (by unfold line at hl; omega)
  have hch : ch = [] := List.length_eq_zero_iff.1 (by unfold line at hl; omega)
  have hval : q.validation = [] := List.length_eq_zero_iff.1 (by unfold line at hl; omega)
  have hrouter : q.router = [] := List.length_eq_zero_iff.1 (by unfold line at hl; omega)
  constructor <;> simp_all

theorem Plain.of_line (hl : line p ch q = 0) : Plain p ch q := by
  have houtput : p.output = [] := List.length_eq_zero_iff.1 (by unfold line at hl; omega)
  exact .of_output (by simp [houtput]) (by omega)

theorem Plain.take {n : Nat} (h : Plain p ch q) (logged : p.loggedIn = true)
    (hs : p.take n = some p') : Plain p' ch q := by
  obtain ⟨x, rest, houtput, -, rfl⟩ := take_spec hs logged
  refine { h with queued := fun y hy => ?_, sent := ?_, pool := ?_ }
  · rcases hy with hy | hy
    · exact h.queued y (.inl (by simp [houtput, hy]))
    · rcases List.mem_append.1 hy with hy | hy
      · exact h.queued y (.inr hy)
      · cases List.mem_singleton.1 hy
        exact h.queued x (.inl (by simp [houtput]))
  · simpa [List.filterMap_append, Task.msg?] using h.sent
  · simpa [List.filterMap_append, Task.msg?] using h.pool

theorem mem_set_msg? {k : Nat} {t : Task} {l : List Task}
    (h : msg ∈ (l.set k t).filterMap Task.msg?) : msg ∈ l.filterMap Task.msg? ∨ t.msg? = some msg := by
  obtain ⟨t', ht', hmsg⟩ := List.mem_filterMap.1 h
  rcases List.mem_or_eq_of_mem_set ht' with ht' | rfl
  · exact .inl (List.mem_filterMap.2 ⟨t', ht', hmsg⟩)
  · exact .inr hmsg

theorem stamp_header {fill : Party w → Header} {k : Nat} (h : p.stamp fill k = some p') :
    ∃ x header, .taken x ∈ p.pool ∧ header.beginString = "FIX.4.2" ∧ header.msgType = x.msgType ∧
      p' = { p with
        pool := p.pool.set k
          (.stamped { header, place := x.place, after := p.counted, seen := p.received }) } := by
  unfold Party.stamp at h
  split at h
  · rename_i x hk
    cases h
    exact ⟨x, { fill p with
      beginString := "FIX.4.2", msgType := x.msgType, msgSeqNum := p.seqNum.setWidth 32 },
      List.mem_of_getElem? hk, rfl, rfl, rfl⟩
  · cases h

theorem Plain.stamp {fill : Party w → Header} {k : Nat} (h : Plain p ch q)
    (hcounted : p.counted = p.transmitted) (hseen : q.counted ≤ p.received)
    (hs : p.stamp fill k = some p') : Plain p' ch q := by
  obtain ⟨x, header, hx, hbegin, htype, rfl⟩ := stamp_header hs
  have hnew : Accepted q { header, place := x.place, after := p.counted, seen := p.received } :=
    ⟨hbegin, htype.trans (h.queued x (.inr hx)), hseen⟩
  refine { h with queued := fun y hy => ?_, sent := fun msg hm => ?_, pool := fun msg hm => ?_ }
  · rcases hy with hy | hy
    · exact h.queued y (.inl hy)
    · rcases List.mem_or_eq_of_mem_set hy with hy | hy
      · exact h.queued y (.inr hy)
      · cases hy
  · rw [List.append_assoc, List.mem_append] at hm
    rcases hm with hm | hm
    · rcases mem_set_msg? hm with hm | hm
      · exact h.sent msg (by simp only [List.mem_append]; exact .inl (.inl hm))
      · cases hm
        exact hnew
    · exact h.sent msg (by rw [List.append_assoc]; exact List.mem_append_right _ hm)
  · rcases mem_set_msg? hm with hm | hm
    · exact h.pool msg hm
    · cases hm
      exact hcounted

theorem Plain.count {k : Nat} (h : Plain p ch q) (hs : p.count k = some p') : Plain p' ch q := by
  obtain ⟨msg, hk, rfl⟩ := count_spec hs
  have hmsg : msg ∈ p.pool.filterMap Task.msg? :=
    List.mem_filterMap.2 ⟨_, List.mem_of_getElem? hk, rfl⟩
  have hold : ∀ msg' ∈ (p.pool.set k (.counted msg)).filterMap Task.msg?,
      msg' ∈ p.pool.filterMap Task.msg? := by
    intro msg' hm
    rcases mem_set_msg? hm with hm | hm
    · exact hm
    · cases hm
      exact hmsg
  refine { h with
    queued := fun y hy => ?_, sent := fun msg' hm => ?_
    pool := fun msg' hm => h.pool msg' (hold msg' hm) }
  · rcases hy with hy | hy
    · exact h.queued y (.inl hy)
    · rcases List.mem_or_eq_of_mem_set hy with hy | hy
      · exact h.queued y (.inr hy)
      · cases hy
  · rw [List.append_assoc, List.mem_append] at hm
    apply h.sent
    rw [List.append_assoc, List.mem_append]
    exact hm.imp_left (hold msg')

theorem Plain.transmit {k : Nat} {out : Msg} (h : Plain p ch q) (hl : line p ch q ≤ 1)
    (hs : p.transmit k = some (p', out)) : Plain p' (ch ++ [out]) q := by
  obtain ⟨msg, hk, rfl, rfl⟩ := transmit_spec hs
  have hlen := (rank_eraseIdx hk).2
  have hpool : p.pool.eraseIdx k = [] := List.length_eq_zero_iff.1 (by unfold line at hl; omega)
  have hch : ch = [] := List.length_eq_zero_iff.1 (by unfold line at hl; omega)
  have hval : q.validation = [] := List.length_eq_zero_iff.1 (by unfold line at hl; omega)
  have hmsg : msg ∈ p.pool.filterMap Task.msg? :=
    List.mem_filterMap.2 ⟨_, List.mem_of_getElem? hk, rfl⟩
  have hacc := h.sent msg (by simp only [List.mem_append]; exact .inl (.inl hmsg))
  have hafter := h.pool msg hmsg
  refine { h with queued := fun y hy => ?_, sent := ?_, pool := ?_, wire := ?_ }
  · rw [hpool] at hy
    exact h.queued y (.inl (hy.resolve_right List.not_mem_nil))
  · simp only [hpool, hch, hval, List.filterMap_nil, List.nil_append, List.append_nil,
      List.mem_singleton, forall_eq]
    exact { hacc with }
  · simp [hpool]
  · simp only [hch, hval, List.nil_append, List.append_nil, List.mem_singleton, forall_eq]
    show msg.after + 1 = p.transmitted + 1
    rw [hafter]

theorem Plain.receive (h : Plain p (msg :: ch) q) (hf : Flow base ids p (msg :: ch) q)
    (hl : line p (msg :: ch) q ≤ 1) : Plain p ch (q.receive msg) := by
  have hval : q.validation = [] :=
    List.length_eq_zero_iff.1 (by unfold line at hl; rw [List.length_cons] at hl; omega)
  have hnths := hf.nths
  rw [List.map_cons, List.length_cons, List.range'_succ] at hnths
  obtain ⟨hhead, -⟩ := List.cons.inj hnths
  have hsent : ∀ msg' ∈ p.pool.filterMap Task.msg? ++ ch ++ (q.receive msg).validation,
      Accepted q msg' := by
    intro msg' hm
    apply h.sent
    simp only [Party.receive, List.mem_append, List.mem_cons] at hm ⊢
    tauto
  refine { h with
    sent := fun msg' hm => { hsent msg' hm with }, wire := fun msg' hm => ?_
    late := fun msg' hm => ?_ }
  · apply h.wire
    simp only [Party.receive, List.mem_append, List.mem_cons] at hm ⊢
    tauto
  · simp only [Party.receive, hval, List.nil_append, List.mem_singleton] at hm
    rw [hm]
    show ¬ msg.nth < q.received + 1
    omega

/-- Steps of the receiver that leave its input alone. -/
theorem Plain.receiver (h : Plain p ch q) (validation : q'.validation = q.validation)
    (router : q'.router = q.router) (counted : q'.counted = q.counted)
    (received : q'.received = q.received) : Plain p ch q' where
  queued := h.queued
  sent msg hm := by
    have hacc := h.sent msg (validation ▸ hm)
    exact { hacc with uncrossed := counted ▸ hacc.uncrossed }
  pool := h.pool
  wire msg hm := h.wire msg (validation ▸ hm)
  late msg hm := by
    have hlate := h.late msg (validation ▸ hm)
    show ¬ msg.nth < q'.received
    rw [received]
    exact hlate
  router msg hm := h.router msg (router ▸ hm)

/-- Steps of the sender that leave its output alone. -/
theorem Plain.sender (h : Plain p ch q) (output : p'.output = p.output) (pool : p'.pool = p.pool)
    (transmitted : p'.transmitted = p.transmitted) : Plain p' ch q where
  queued x hx := h.queued x (by rwa [output, pool] at hx)
  sent msg hm := h.sent msg (pool ▸ hm)
  pool msg hm := by rw [transmitted]; exact h.pool msg (pool ▸ hm)
  wire := h.wire
  late := h.late
  router := h.router


/-! ## A lone reject -/

/-- Both directions are plain, and one message at most is underway. -/
structure Lone (p : Party w) (ch : List Msg) (q : Party v) (ch' : List Msg) : Prop where
  out : Plain p ch q
  back : Plain q ch' p
  one : line p ch q + line q ch' p ≤ 1

variable {ch' : List Msg} {ids' : String × String}

theorem Lone.take {n : Nat} (h : Lone p ch q ch') (logged : p.loggedIn = true)
    (hs : p.take n = some p') : Plain p' ch q ∧ Plain q ch' p' := by
  refine ⟨h.out.take logged hs, ?_⟩
  obtain ⟨x, rest, -, -, rfl⟩ := take_spec hs logged
  exact h.back.receiver rfl rfl rfl rfl

theorem Lone.stamp {fill : Party w → Header} {k : Nat} (h : Lone p ch q ch')
    (hf : Flow base ids p ch q) (hf' : Flow base ids' q ch' p) (hs : p.stamp fill k = some p') :
    Plain p' ch q ∧ Plain q ch' p' := by
  have hone := h.one
  have hcounted := hf.counted
  have hcounted' := hf'.counted
  have hwire := hf'.wire
  obtain ⟨x, header, hk, -, -, -, -, rfl⟩ := stamp_spec hs
  obtain ⟨hpool, -⟩ := pool_single (by unfold line at hone; omega) hk
  unfold line at hone
  rw [hpool, List.length_singleton] at hone
  have hpool' : q.pool = [] := List.length_eq_zero_iff.1 (by omega)
  simp only [hpool, hpool', List.countP_cons, List.countP_nil, Task.isCounted] at hcounted hcounted'
  refine ⟨h.out.stamp hcounted.symm ?_ hs, h.back.receiver rfl rfl rfl rfl⟩
  omega

theorem Lone.count {k : Nat} (h : Lone p ch q ch') (hs : p.count k = some p') :
    Plain p' ch q ∧ Plain q ch' p' := by
  refine ⟨h.out.count hs, .of_line ?_⟩
  have hone := h.one
  obtain ⟨msg, hk, rfl⟩ := count_spec hs
  have hpos := List.length_pos_of_mem (List.mem_of_getElem? hk)
  unfold line at hone ⊢
  show q.output.length + q.pool.length + ch'.length + p.validation.length + p.router.length = 0
  omega

theorem Lone.transmit {k : Nat} {out : Msg} (h : Lone p ch q ch')
    (hs : p.transmit k = some (p', out)) : Plain p' (ch ++ [out]) q ∧ Plain q ch' p' := by
  refine ⟨h.out.transmit (by have := h.one; omega) hs, ?_⟩
  obtain ⟨msg, -, -, rfl⟩ := transmit_spec hs
  exact h.back.receiver rfl rfl rfl rfl

theorem Lone.receive (h : Lone p (msg :: ch) q ch') (hf : Flow base ids p (msg :: ch) q) :
    Plain p ch (q.receive msg) ∧ Plain (q.receive msg) ch' p :=
  ⟨h.out.receive hf (by have := h.one; omega), h.back.sender rfl rfl rfl⟩

theorem Lone.validate {types : List Char} {verify : Party v → Header → Option SessionReject}
    (h : Lone p ch q ch') (htypes : '3' ∈ types)
    (hver : ∀ msg rest, q.validation = msg :: rest → verify q msg.header = none)
    (hs : q.validate types verify = some q') :
    (Plain p ch q' ∧ Plain q' ch' p) ∧ Onward q q' none := by
  unfold Party.validate at hs
  split at hs
  · cases hs
  · rename_i msg rest hval
    have hmsg : msg ∈ q.validation := by simp [hval]
    have hacc := h.out.sent msg (List.mem_append_right _ hmsg)
    have hpos : verifyPositionValue types msg.header = none := by
      simp [verifyPositionValue, hacc.beginString, hacc.msgType, htypes]
    rw [hpos, hver msg rest hval] at hs
    cases hs
    have hrest : ∀ m ∈ rest, m ∈ q.validation := fun m hm => by simp [hval, hm]
    refine ⟨⟨⟨h.out.queued, fun m hm => ?_, h.out.pool, fun m hm => ?_,
      fun m hm => h.out.late m (hrest m hm), fun m hm => ?_⟩, h.back.sender rfl rfl rfl⟩,
      onward_of_validation hval _⟩
    · refine { h.out.sent m ?_ with }
      exact (List.mem_append.1 hm).elim (List.mem_append_left _)
        fun hm => List.mem_append_right _ (hrest m hm)
    · exact h.out.wire m ((List.mem_append.1 hm).elim (List.mem_append_left _)
        fun hm => List.mem_append_right _ (hrest m hm))
    · rcases List.mem_append.1 hm with hm | hm
      · exact h.out.router m hm
      · rw [List.mem_singleton.1 hm]
        exact hacc.msgType

/-- A router takes a message and answers nothing. -/
theorem Lone.route {rest : List Msg} {handled : List (Msg × String)} (h : Lone p ch q ch')
    (hrouter : q.router = msg :: rest) :
    (Plain p ch { q with router := rest, handled } ∧
      Plain { q with router := rest, handled } ch' p) ∧
      Onward q { q with router := rest, handled } none :=
  ⟨⟨{ h.out with
      sent := fun m hm => { h.out.sent m hm with }
      router := fun m hm => h.out.router m (by simp [hrouter, hm]) },
    h.back.sender rfl rfl rfl⟩, onward_of_router hrouter⟩

theorem Server.route_lone {p : Party 64} {q q' : Party 32} (h : Lone p ch q ch')
    (logged : q.loggedIn = true) (hs : Server.route q = some q') :
    (Plain p ch q' ∧ Plain q' ch' p) ∧ Onward q q' none := by
  unfold Server.route at hs
  split at hs
  · cases hs
  · rename_i msg rest hrouter
    have htype := h.out.router msg (by simp [hrouter])
    dsimp only at hs
    rw [if_neg (by simp [htype]), if_pos logged, if_neg (by simp [htype, handlerTypes]),
      if_pos htype] at hs
    cases hs
    exact h.route hrouter

theorem Client.route_lone {p : Party 32} {q q' : Party 64} (h : Lone p ch q ch')
    (hs : Client.route q = some q') : (Plain p ch q' ∧ Plain q' ch' p) ∧ Onward q q' none := by
  unfold Client.route at hs
  split at hs
  · cases hs
  · rename_i msg rest hrouter
    have htype := h.out.router msg (by simp [hrouter])
    dsimp only at hs
    rw [if_neg (by simp [htype]), if_pos (by simp [htype, handlerTypes])] at hs
    cases hs
    exact h.route hrouter


/-- The messages underway are rejects that will be accepted, one at most. -/
def Fresh (m : Session) : Prop :=
  Plain m.server m.toClient m.client ∧ Plain m.client m.toServer m.server

/-- What a session with one message underway keeps; no more than `k` steps are counted besides those of
its rank. -/
structure Single (cfg : Config) (base : Nat) (userId : String) (k : Nat) (m : Session) : Prop where
  agree : Agree cfg base userId m
  one : m.underway ≤ 1
  small : base + m.server.counted + m.client.counted + m.rank + k < 2 ^ 32

variable {k : Nat}

theorem Single.lone_server (h : Single cfg base userId k m) (hm : m.Fresh) :
    Lone m.server m.toClient m.client m.toServer :=
  ⟨hm.1, hm.2, by have := h.one; rw [underway_eq] at this; exact this⟩

theorem Single.lone_client (h : Single cfg base userId k m) (hm : m.Fresh) :
    Lone m.client m.toServer m.server m.toClient :=
  ⟨hm.2, hm.1, by have := h.one; rw [underway_eq] at this; omega⟩

theorem Single.server_accepts (h : Single cfg base userId k m) (hm : m.Fresh) {rest : List Msg}
    (hval : m.server.validation = msg :: rest) :
    Server.verifyUserSpecific cfg.provider m.server msg.header = none := by
  have hmem : msg ∈ m.server.validation := by simp [hval]
  have hsmall := h.small
  have huncrossed := (hm.2.sent msg (List.mem_append_right _ hmem)).uncrossed
  rw [h.agree.server_check (by omega) hval,
    if_neg (not_or.2 ⟨Nat.not_lt.2 huncrossed, hm.2.late msg hmem⟩)]

theorem Single.client_accepts (h : Single cfg base userId k m) (hm : m.Fresh) {rest : List Msg}
    (hval : m.client.validation = msg :: rest) :
    Client.verifyUserSpecific cfg.provider m.client msg.header = none := by
  have hmem : msg ∈ m.client.validation := by simp [hval]
  have hsmall := h.small
  have huncrossed := (hm.1.sent msg (List.mem_append_right _ hmem)).uncrossed
  have hturn := hm.1.wire msg (List.mem_append_right _ hmem)
  rw [h.agree.client_check (by omega) hval (.inr hturn),
    if_neg (not_or.2 ⟨Nat.not_lt.2 huncrossed, hm.1.late msg hmem⟩)]

theorem fresh_server {op : Op} (h : Single cfg base userId k m) (hm : m.Fresh)
    (hi : Internal (.server op)) {p : Party 32} {out : Option Msg}
    (hrun : Server.run cfg m.server op = some (p, out)) :
    (Plain p (m.toClient ++ out.toList) m.client ∧ Plain m.client m.toServer p) ∧
      Onward m.server p out := by
  have hout := h.lone_server hm
  have hin := h.lone_client hm
  have logged := h.agree.server.loggedIn
  cases op with
  | append t => exact hi.elim
  | transmit k =>
    obtain ⟨⟨p1, msg⟩, hs, he⟩ := Option.map_eq_some_iff.1 hrun
    cases he
    exact ⟨hout.transmit hs, transmit_onward hs⟩
  | logon valid => simp [Server.run, Server.logon, h.agree.up.logon] at hrun
  | take | stamp | count | validate | route =>
    obtain ⟨p1, hs, he⟩ := Option.map_eq_some_iff.1 hrun
    cases he
    rw [Option.toList_none, List.append_nil]
    first
      | exact ⟨hout.take logged hs, take_onward hs logged⟩
      | exact ⟨hout.stamp h.agree.down h.agree.up hs, stamp_onward hs⟩
      | exact ⟨hout.count hs, count_onward hs⟩
      | exact (hin.validate (by decide) (fun _ _ => h.server_accepts hm) hs).imp_left And.symm
      | exact (Server.route_lone hin logged hs).imp_left And.symm

theorem fresh_client {op : Op} (h : Single cfg base userId k m) (hm : m.Fresh)
    (hi : Internal (.client op)) {p : Party 64} {out : Option Msg}
    (hrun : Client.run cfg m.client op = some (p, out)) :
    (Plain p (m.toServer ++ out.toList) m.server ∧ Plain m.server m.toClient p) ∧
      Onward m.client p out := by
  have hout := h.lone_client hm
  have hin := h.lone_server hm
  have logged := h.agree.client.loggedIn
  cases op with
  | append t => exact hi.elim
  | transmit k =>
    obtain ⟨⟨p1, msg⟩, hs, he⟩ := Option.map_eq_some_iff.1 hrun
    cases he
    exact ⟨hout.transmit hs, transmit_onward hs⟩
  | logon valid => simp [Client.run, Client.logon, h.agree.down.logon] at hrun
  | take | stamp | count | validate | route =>
    obtain ⟨p1, hs, he⟩ := Option.map_eq_some_iff.1 hrun
    cases he
    rw [Option.toList_none, List.append_nil]
    first
      | exact ⟨hout.take logged hs, take_onward hs logged⟩
      | exact ⟨hout.stamp h.agree.up h.agree.down hs, stamp_onward hs⟩
      | exact ⟨hout.count hs, count_onward hs⟩
      | exact (hin.validate (by decide) (fun _ _ => h.client_accepts hm) hs).imp_left And.symm
      | exact (Client.route_lone hin hs).imp_left And.symm

theorem Single.forward {a : Action} (h : Single cfg base userId k m) (hi : Internal a)
    (hs : step cfg m a = some m') (hf : Forward m m') : Single cfg base userId k m' := by
  have hsmall := h.small
  have hrank := hf.rank
  have hcounted := hf.counted
  exact ⟨h.agree.step hi.ordinary hs, Nat.le_trans hf.underway h.one, by omega⟩

/-- A lone reject that nothing crosses goes on to the end. -/
theorem Single.step_fresh {a : Action} (h : Single cfg base userId k m) (hm : m.Fresh)
    (hi : Internal a) (hs : step cfg m a = some m') : Forward m m' ∧ m'.Fresh := by
  cases a with
  | front => exact hi.elim
  | server op =>
    obtain ⟨⟨p, out⟩, hrun, he⟩ := Option.map_eq_some_iff.1 hs
    cases he
    obtain ⟨hp, ho⟩ := fresh_server h hm hi hrun
    exact ⟨ho.of_server, hp⟩
  | client op =>
    obtain ⟨⟨p, out⟩, hrun, he⟩ := Option.map_eq_some_iff.1 hs
    cases he
    obtain ⟨hp, ho⟩ := fresh_client h hm hi hrun
    exact ⟨ho.of_client, hp.symm⟩
  | serverReceive =>
    simp only [Session.step] at hs
    split at hs
    · cases hs
    · rename_i msg rest hch
      cases hs
      have hlone := h.lone_client hm
      have hup := h.agree.up
      rw [hch] at hlone hup
      exact ⟨forward_serverReceive hch, (hlone.receive hup).symm⟩
  | clientReceive =>
    simp only [Session.step] at hs
    split at hs
    · cases hs
    · rename_i msg rest hch
      cases hs
      have hlone := h.lone_server hm
      have hdown := h.agree.down
      rw [hch] at hlone hdown
      exact ⟨forward_clientReceive hch, hlone.receive hdown⟩

theorem Party.rank_of_underway (h : p.underway ≤ p.output.length) : p.rank = 7 * p.output.length := by
  unfold Party.underway at h
  have hpool : p.pool = [] := List.length_eq_zero_iff.1 (by omega)
  have hval : p.validation.length = 0 := by omega
  have hrouter : p.router.length = 0 := by omega
  simp [Party.rank, hpool, hval, hrouter]

/-- A reject in the output of `p`, and nothing else underway. -/
theorem plain_of_bounce {x : Queued} {l : List Queued} (houtput : p.output = l ++ [x])
    (htype : x.msgType = '3') (one : line p ch q + line q ch' p ≤ 1) :
    Plain p ch q ∧ Plain q ch' p ∧ p.rank = 7 ∧ q.rank = 0 ∧ ch.length = 0 ∧ ch'.length = 0 := by
  have hlen : p.output.length = l.length + 1 := by simp [houtput]
  have hone := one
  unfold line at one
  have hl : l = [] := List.length_eq_zero_iff.1 (by omega)
  have hrank := Party.rank_of_underway (p := p) (by unfold Party.underway; omega)
  have hrank' := Party.rank_of_underway (p := q) (by unfold Party.underway; omega)
  refine ⟨.of_output (fun y hy => ?_) (by unfold line; omega), .of_line (by unfold line; omega),
    by omega, by omega, by omega, by omega⟩
  rw [houtput, hl, List.nil_append, List.mem_singleton] at hy
  rw [hy, htype]

theorem fresh_of_back (h : Back m m') (one : m.underway ≤ 1) : m'.Fresh ∧ m'.rank = 7 := by
  have hone := h.underway ▸ one
  rw [underway_eq] at hone
  cases h with
  | server h =>
    obtain ⟨x, houtput, htype⟩ := h.output
    obtain ⟨hout, hback, hp, hq, hch, hch'⟩ := plain_of_bounce houtput htype hone
    exact ⟨⟨hout, hback⟩, by unfold rank; omega⟩
  | client h =>
    obtain ⟨x, houtput, htype⟩ := h.output
    obtain ⟨hout, hback, hp, hq, hch, hch'⟩ := plain_of_bounce houtput htype (by rwa [Nat.add_comm])
    exact ⟨⟨hback, hout⟩, by unfold rank; omega⟩

theorem Single.back {a : Action} (h : Single cfg base userId 7 m) (hi : Internal a)
    (hs : step cfg m a = some m') (hb : Back m m') :
    Single cfg base userId 0 m' ∧ m'.Fresh ∧ m'.rank = 7 := by
  obtain ⟨hfresh, hrank⟩ := fresh_of_back hb h.one
  have hsmall := h.small
  have hcounted : m'.server.counted + m'.client.counted = m.server.counted + m.client.counted := by
    cases hb with
    | server hb client => rw [hb.counted, client]
    | client hb server => rw [hb.counted, server]
  exact ⟨⟨h.agree.step hi.ordinary hs, hb.underway ▸ h.one, by omega⟩, hfresh, hrank⟩

theorem rank_bounds (l : List Task) :
    l.length ≤ (l.map Task.rank).sum ∧ (l.map Task.rank).sum ≤ 7 * l.length := by
  induction l with
  | nil => exact ⟨Nat.le_refl _, Nat.le_refl _⟩
  | cons t l ih =>
    have ht : 1 ≤ t.rank ∧ t.rank ≤ 7 := by cases t <;> simp [Task.rank]
    rw [List.map_cons, List.sum_cons, List.length_cons]
    omega

theorem underway_le_rank (m : Session) : m.underway ≤ m.rank ∧ m.rank ≤ 7 * m.underway := by
  have hserver := rank_bounds m.server.pool
  have hclient := rank_bounds m.client.pool
  simp only [underway, rank, Party.underway, Party.rank]
  omega

theorem Single.stretch_fresh {is : List Action} (h : Single cfg base userId k m) (hm : m.Fresh)
    (hs : Stretch (step cfg) Internal m is m') : is.length + m'.rank ≤ m.rank := by
  have hI : ∀ s a s', Single cfg base userId k s ∧ s.Fresh → Internal a → step cfg s a = some s' →
      Single cfg base userId k s' ∧ s'.Fresh := by
    intro s a s' hI hi ht
    obtain ⟨hf, hfresh⟩ := hI.1.step_fresh hI.2 hi ht
    exact ⟨hI.1.forward hi ht hf, hfresh⟩
  have hrank : ∀ s a s', Single cfg base userId k s ∧ s.Fresh → Internal a → step cfg s a = some s' →
      s'.rank + (if (fun _ : Action => true) a then 1 else 0) ≤ s.rank := by
    intro s a s' hI hi ht
    have := (hI.1.step_fresh hI.2 hi ht).1.rank
    simp only [if_true]
    omega
  have hle := Stretch.countP_le_rank hI hrank hs ⟨h, hm⟩
  rwa [List.countP_true] at hle

/-- At most one message is answered by a reject on the way. -/
theorem Single.stretch {is : List Action} (h : Single cfg base userId 7 m)
    (hs : Stretch (step cfg) Internal m is m') : is.length + m'.rank ≤ m.rank + 7 := by
  induction is generalizing m with
  | nil =>
    cases hs.2
    simp
  | cons a is ih =>
    obtain ⟨hi, t, ht, hs⟩ := hs.cons
    rcases step_onward h.agree hi ht with hf | hb
    · have hrank := hf.rank
      have hle := ih (h.forward hi ht hf) hs
      rw [List.length_cons]
      omega
    · obtain ⟨ht0, hfresh, hrank⟩ := h.back hi ht hb
      have hle := ht0.stretch_fresh hfresh hs
      -- the message that was answered had a step left
      have hpos := (underway_le_rank t).2
      have hle' := (underway_le_rank m).1
      rw [hb.underway] at hpos
      rw [List.length_cons]
      omega

/-- A report that is stamped when an order comes in, and sent after it. -/
def overtaken : List Action :=
  [.server (.append '8'), .server .take, .server (.stamp 0)] ++ clientSend ++
    [.serverReceive, .server .validate, .server .route]

/-- The report is refused, its reject accepted. -/
def settling : List Action :=
  [.server (.count 0), .server (.transmit 0), .clientReceive, .client .validate] ++
    sendOps.map .client ++ [.serverReceive, .server .validate, .server .route]

end Session

end Fix42
