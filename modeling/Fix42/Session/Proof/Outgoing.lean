import Fix42.Session.Connection
import Fix42.Session.Proof.Units

/-!
# What goes out on a connection

With one task in progress at a time, the wire carries the queued messages in order and with
increasing numbers: `Lined` is the invariant, `outgoing_in_order` the run theorem under `Serial`.
`outgoing_disordered` shows what two threads do.
-/

namespace Fix42

namespace Connection

open Session

variable {cfg : Config} {c c' : Connection}

def place : Task → Nat
  | .taken q => q.place
  | .stamped msg | .counted msg => msg.place

/-- The number of a message. -/
def number (msg : Msg) : Nat := msg.header.msgSeqNum.toNat

structure Lined (c : Connection) : Prop where
  places : c.wire.map Msg.place ++ (c.server.pool.map place ++ c.server.output.map Queued.place) =
    List.range c.server.appended
  single : c.server.pool.length ≤ 1
  increasing : c.numbers.Pairwise (· < ·)
  behind : ∀ n ∈ c.numbers, n < c.server.seqNum.toNat
  ahead : ∀ task ∈ c.server.pool, ∀ msg ∈ task.msg?,
    (∀ n ∈ c.numbers, n < number msg) ∧ number msg ≤ c.server.seqNum.toNat
  counted : ∀ msg, .counted msg ∈ c.server.pool → number msg < c.server.seqNum.toNat

/-- Steps that only append to the output queue, and may set the counter forward. -/
theorem Lined.keep (h : Lined c) {p : Party 32} (appended : List Queued)
    (output : p.output = c.server.output ++ appended)
    (places : appended.map Queued.place = List.range' c.server.appended appended.length)
    (count : p.appended = c.server.appended + appended.length) (pool : p.pool = c.server.pool)
    (seqNum : c.server.seqNum.toNat ≤ p.seqNum.toNat) : Lined ⟨p, c.wire⟩ where
  places := by
    rw [output, pool, count, List.map_append, ← List.append_assoc, ← List.append_assoc,
      List.append_assoc (c.wire.map _), h.places, places, List.range_eq_range', List.range_eq_range']
    have := List.range'_append_1 (s := 0) (m := c.server.appended) (n := appended.length)
    rwa [Nat.zero_add] at this
  single := pool ▸ h.single
  increasing := h.increasing
  behind n hn := Nat.lt_of_lt_of_le (h.behind n hn) seqNum
  ahead task ht msg hm := by
    obtain ⟨h1, h2⟩ := h.ahead task (pool ▸ ht) msg hm
    exact ⟨h1, Nat.le_trans h2 seqNum⟩
  counted msg hm := Nat.lt_of_lt_of_le (h.counted msg (pool ▸ hm)) seqNum

theorem Lined.quiet (h : Lined c) {p : Party 32} (output : p.output = c.server.output)
    (count : p.appended = c.server.appended) (pool : p.pool = c.server.pool)
    (seqNum : c.server.seqNum.toNat ≤ p.seqNum.toNat) : Lined ⟨p, c.wire⟩ :=
  h.keep [] (by simp [output]) rfl (by simp [count]) pool seqNum

theorem Lined.append (h : Lined c) {p : Party 32} (t : Char)
    (output : p.output = c.server.output) (count : p.appended = c.server.appended)
    (pool : p.pool = c.server.pool) (seqNum : c.server.seqNum.toNat ≤ p.seqNum.toNat) :
    Lined ⟨p.append t, c.wire⟩ :=
  h.keep [⟨t, p.appended⟩] (by simp [Party.append, output]) (by simp [count])
    (by simp [Party.append, count]) pool seqNum

theorem toNat_next {n : BitVec 32} (h : n.toNat + 1 < 2 ^ 32) : (n + 1).toNat = n.toNat + 1 := by
  rw [BitVec.toNat_add]
  exact Nat.mod_eq_of_lt h

/-! ## The pool -/

theorem Lined.take {p : Party 32} (h : Lined c) (idle : c.server.pool = [])
    (room : c.server.seqNum.toNat + (if c.server.loggedIn then 0 else 1) < 2 ^ 32)
    (hs : c.server.take cfg.threads = some p) : Lined ⟨p, c.wire⟩ := by
  unfold Party.take at hs
  split at hs
  · cases hs
  · rename_i x rest houtput
    split at hs
    · cases hs
      -- before the login the counter is advanced first
      have hlined : ∀ q : Party 32, q.output = c.server.output → q.pool = c.server.pool →
          q.appended = c.server.appended → c.server.seqNum.toNat ≤ q.seqNum.toNat →
          Lined ⟨{ q with output := rest, pool := q.pool ++ [.taken x] }, c.wire⟩ := by
        intro q ho hp ha hseq
        have hq := h.quiet ho ha hp hseq
        have hplaces := hq.places
        rw [hp, idle, ho, houtput] at hplaces
        refine { hq with places := ?_, single := ?_, ahead := ?_, counted := ?_ }
        · simpa [hp, idle, place] using hplaces
        · simp [hp, idle]
        · intro task ht msg hm
          rw [hp, idle, List.nil_append, List.mem_singleton] at ht
          subst ht
          cases hm
        · intro msg hm
          simp [hp, idle] at hm
      split
      · exact hlined _ rfl rfl rfl (Nat.le_refl _)
      · rename_i hl
        rw [if_neg hl] at room
        refine hlined c.server.nextSeqNumber rfl rfl rfl ?_
        show c.server.seqNum.toNat ≤ (c.server.seqNum + 1).toNat
        rw [toNat_next room]
        exact Nat.le_succ _
    · cases hs

theorem Lined.stamp {fill : Party 32 → Session.Header} {k : Nat} {p : Party 32} (h : Lined c)
    (hs : c.server.stamp fill k = some p) : Lined ⟨p, c.wire⟩ := by
  obtain ⟨x, header, hk, hseq, -, -, -, rfl⟩ := stamp_spec hs
  obtain ⟨hpool, rfl⟩ := pool_single h.single hk
  have hplaces := h.places
  rw [hpool] at hplaces
  refine { h with places := ?_, single := ?_, ahead := ?_, counted := ?_ }
  · simpa [hpool, place] using hplaces
  · simp [hpool]
  · intro task ht msg hm
    simp only [hpool, List.set_cons_zero, List.mem_singleton] at ht
    subst ht
    cases hm
    have hnum : header.msgSeqNum.toNat = c.server.seqNum.toNat := by simp [hseq]
    refine ⟨fun n hn => ?_, ?_⟩
    · show n < header.msgSeqNum.toNat
      rw [hnum]
      exact h.behind n hn
    · exact Nat.le_of_eq hnum
  · intro msg hm
    simp [hpool] at hm

theorem Lined.count {k : Nat} {p : Party 32} (h : Lined c)
    (room : c.server.seqNum.toNat + 1 < 2 ^ 32) (hs : c.server.count k = some p) :
    Lined ⟨p, c.wire⟩ := by
  obtain ⟨msg, hk, rfl⟩ := count_spec hs
  obtain ⟨hpool, rfl⟩ := pool_single h.single hk
  have hplaces := h.places
  rw [hpool] at hplaces
  obtain ⟨hahead, hle⟩ := h.ahead _ (List.mem_of_getElem? hk) msg rfl
  have hnext := toNat_next room
  refine { places := ?_, single := ?_, increasing := h.increasing, behind := ?_, ahead := ?_,
           counted := ?_ }
  · simpa [hpool, place] using hplaces
  · simp [hpool]
  · intro n hn
    show n < (c.server.seqNum + 1).toNat
    rw [hnext]
    exact Nat.lt_succ_of_lt (h.behind n hn)
  · intro task ht m hm
    simp only [hpool, List.set_cons_zero, List.mem_singleton] at ht
    subst ht
    cases hm
    refine ⟨hahead, ?_⟩
    show number msg ≤ (c.server.seqNum + 1).toNat
    omega
  · intro m hm
    simp only [hpool, List.set_cons_zero, List.mem_singleton, Task.counted.injEq] at hm
    subst hm
    show number m < (c.server.seqNum + 1).toNat
    omega

theorem Lined.transmit {k : Nat} {p : Party 32} {out : Msg} (h : Lined c)
    (hs : c.server.transmit k = some (p, out)) : Lined ⟨p, c.wire ++ [out]⟩ := by
  obtain ⟨msg, hk, rfl, rfl⟩ := transmit_spec hs
  obtain ⟨hpool, rfl⟩ := pool_single h.single hk
  have hplaces := h.places
  rw [hpool] at hplaces
  have hmem := List.mem_of_getElem? hk
  obtain ⟨hahead, -⟩ := h.ahead _ hmem msg rfl
  have hnumbers : (⟨{ c.server with
      pool := c.server.pool.eraseIdx 0, transmitted := c.server.transmitted + 1 },
      c.wire ++ [{ msg with nth := c.server.transmitted + 1 }]⟩ : Connection).numbers =
      c.numbers ++ [number msg] := by
    simp [numbers, number]
  refine { places := ?_, single := ?_, increasing := ?_, behind := ?_, ahead := ?_, counted := ?_ }
  · simpa [hpool, place] using hplaces
  · simp [hpool]
  · rw [hnumbers, List.pairwise_append]
    refine ⟨h.increasing, List.pairwise_singleton _ _, fun n hn n' hn' => ?_⟩
    rw [List.mem_singleton.1 hn']
    exact hahead n hn
  · rw [hnumbers]
    intro n hn
    rcases List.mem_append.1 hn with hn | hn
    · exact h.behind n hn
    · rw [List.mem_singleton.1 hn]
      exact h.counted msg hmem
  · intro task ht
    simp [hpool] at ht
  · intro m hm
    simp [hpool] at hm

/-! ## Every step -/

theorem Lined.route {p : Party 32} (h : Lined c) (hs : Server.route c.server = some p) :
    Lined ⟨p, c.wire⟩ := by
  unfold Server.route at hs
  split at hs
  · cases hs
  · dsimp only at hs
    split at hs
    · cases hs
      exact h.quiet rfl rfl rfl (Nat.le_refl _)
    · split at hs
      · split at hs
        · cases hs
          exact h.quiet rfl rfl rfl (Nat.le_refl _)
        · split at hs <;> cases hs
          · exact h.quiet rfl rfl rfl (Nat.le_refl _)
          · exact h.append '3' rfl rfl rfl (Nat.le_refl _)
      · cases hs
        exact h.append '3' rfl rfl rfl (Nat.le_refl _)

theorem Lined.logon {valid : Bool} {p : Party 32} (h : Lined c)
    (forward : ∀ msg ∈ c.loggingIn (.unit (.logon valid)),
      c.server.seqNum.toNat ≤ (msg.header.msgSeqNum + 1).toNat)
    (hs : Server.logon valid c.server = some p) : Lined ⟨p, c.wire⟩ := by
  unfold Server.logon at hs
  split at hs
  · cases hs
  · rename_i msg rest hlogon
    dsimp only at hs
    split at hs <;> rename_i hv
    · cases hs
      exact h.append '3' rfl rfl rfl (Nat.le_refl _)
    · cases hs
      refine h.append 'A' rfl rfl rfl (forward msg ?_)
      cases valid <;> simp_all [loggingIn]

theorem Lined.step {a : Action} (h : Lined c) (serial : Serial c a)
    (hs : step cfg c a = some c') : Lined c' := by
  obtain ⟨idle, room, forward⟩ := serial
  cases a with
  | deliver header =>
    cases hs
    refine h.quiet rfl rfl rfl ?_
    show c.server.seqNum.toNat ≤ (if c.server.loggedIn then c.server.seqNum + 1 else _).toNat
    simp only [advances] at room
    split
    · rename_i hl
      rw [if_pos hl] at room
      rw [toNat_next room]
      exact Nat.le_succ _
    · exact Nat.le_refl _
  | unit op =>
    obtain ⟨⟨p', out⟩, hrun, he⟩ := Option.map_eq_some_iff.1 hs
    cases he
    cases op with
    | append t =>
      cases hrun
      have hl : Lined ⟨c.server.append t, c.wire⟩ := h.append t rfl rfl rfl (Nat.le_refl _)
      simpa using hl
    | transmit k =>
      obtain ⟨⟨p1, msg⟩, ht, he⟩ := Option.map_eq_some_iff.1 hrun
      cases he
      exact h.transmit ht
    | _ =>
      obtain ⟨p1, ht, he⟩ := Option.map_eq_some_iff.1 hrun
      cases he
      suffices hl : Lined ⟨p', c.wire⟩ by simpa using hl
      first
        | exact h.take (idle rfl) room ht
        | exact h.stamp ht
        | exact h.count room ht
        | exact h.route ht
        | exact h.logon forward ht
        | obtain ⟨msg, rest, -, rfl | ⟨-, rfl⟩⟩ := validate_spec ht
          · exact h.append '3' rfl rfl rfl (Nat.le_refl _)
          · exact h.quiet rfl rfl rfl (Nat.le_refl _)

theorem Lined.new : Lined new where
  places := rfl
  single := Nat.zero_le _
  increasing := .nil
  behind n hn := by cases hn
  ahead task ht := by cases ht
  counted msg hm := by cases hm

theorem places_eq_range {l l' : List Nat} {n : Nat} (h : l ++ l' = List.range n) :
    l = List.range l.length := by
  have hle : l.length ≤ n := by
    have := congrArg List.length h
    simp only [List.length_append, List.length_range] at this
    omega
  have := congrArg (List.take l.length) h
  rwa [List.take_left, List.take_range, Nat.min_eq_left hle] at this

/-! ## Runs -/

/-- A client logs in, and two reports are queued for it behind the answer. -/
def twoReports : List Action :=
  [.deliver ⟨"FIX.4.2", 'A', 1, "A", "EX"⟩] ++
  [.validate, .route, .logon true, .take, .stamp 0, .count 0, .transmit 0, .append '8',
    .append '8'].map .unit

end Connection

end Fix42
