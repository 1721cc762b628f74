import Fix42.Session.Reading
import Fix42.Session.Proof.Units

/-!
# The verdict and the schedule

The header validation compares a number with the counter as it stands then. `Fresh` says that this is
still the counter of the read for every message that was expected, which holds in the runs in which
nothing advances the counter meanwhile (`expected_accepted`); one step that does makes it wrong
(`disturbed`).
-/

namespace Fix42

namespace Reading

open Session

variable {cfg : Config} {c c' : Reading}

/-- A read that is forwarded at once is a receive. -/
theorem read_forward (header : Session.Header) (h : c.reading = none) :
    ((step cfg c (.read (some header))).bind (step cfg · .forward)).map toConnection =
      Connection.step cfg c.toConnection (.deliver header) := by
  simp only [step, h, Option.isSome_none, Bool.false_eq_true, if_false, Option.bind_some,
    Option.map_some, Connection.step, Party.receive]
  split <;> rfl

/-! ## The units -/

/-- What a step of a unit does to the session and to the messages that wait for the validation. -/
structure UnitStep (c c' : Connection) (op : Op) : Prop where
  loggedIn : c.server.loggedIn = true → c'.server.loggedIn = true
  seqNum : c.server.loggedIn = true →
    c'.server.seqNum = c.server.seqNum + BitVec.ofNat 32 (c.advances (.unit op))
  validation : op ≠ .validate → c'.server.validation = c.server.validation
  validated : op = .validate → ∃ msg, c.server.validation = msg :: c'.server.validation

theorem UnitStep.frame {c c' : Connection} {op : Op} (hop : op ≠ .validate)
    (hadvances : c.server.loggedIn = true → c.advances (.unit op) = 0)
    (loggedIn : c.server.loggedIn = true → c'.server.loggedIn = true)
    (seqNum : c.server.loggedIn = true → c'.server.seqNum = c.server.seqNum)
    (validation : c'.server.validation = c.server.validation) : UnitStep c c' op where
  loggedIn := loggedIn
  seqNum hl := by rw [seqNum hl, hadvances hl]; simp
  validation _ := validation
  validated h := absurd h hop

theorem unit_spec {c c' : Connection} {op : Op} (h : Connection.step cfg c (.unit op) = some c') :
    UnitStep c c' op := by
  obtain ⟨⟨p', out⟩, hrun, he⟩ := Option.map_eq_some_iff.1 h
  cases he
  cases op with
  | append t =>
    cases hrun
    exact .frame (by simp) (fun _ => rfl) id (fun _ => rfl) rfl
  | take =>
    obtain ⟨p1, ht, he⟩ := Option.map_eq_some_iff.1 hrun
    cases he
    unfold Party.take at ht
    split at ht
    · cases ht
    · split at ht
      · cases ht
        refine .frame (by simp) (fun hl => by simp [Connection.advances, hl]) (fun hl => ?_)
          (fun hl => ?_) ?_ <;> dsimp only
        · rw [if_pos hl]
          exact hl
        · rw [if_pos hl]
        · split <;> rfl
      · cases ht
  | stamp k =>
    obtain ⟨p1, ht, he⟩ := Option.map_eq_some_iff.1 hrun
    cases he
    obtain ⟨x, header, -, -, -, -, -, rfl⟩ := stamp_spec ht
    exact .frame (by simp) (fun _ => rfl) id (fun _ => rfl) rfl
  | count k =>
    obtain ⟨p1, ht, he⟩ := Option.map_eq_some_iff.1 hrun
    cases he
    obtain ⟨msg, -, rfl⟩ := count_spec ht
    exact ⟨id, fun _ => rfl, fun _ => rfl, by simp⟩
  | transmit k =>
    obtain ⟨⟨p1, msg⟩, ht, he⟩ := Option.map_eq_some_iff.1 hrun
    cases he
    obtain ⟨msg, -, -, rfl⟩ := transmit_spec ht
    exact .frame (by simp) (fun _ => rfl) id (fun _ => rfl) rfl
  | validate =>
    obtain ⟨p1, ht, he⟩ := Option.map_eq_some_iff.1 hrun
    cases he
    obtain ⟨msg, rest, hval, rfl | ⟨-, rfl⟩⟩ := validate_spec ht
    · exact ⟨id, fun _ => by simp [Connection.advances, Party.append], by simp, fun _ => ⟨msg, hval⟩⟩
    · exact ⟨id, fun _ => by simp [Connection.advances], by simp, fun _ => ⟨msg, hval⟩⟩
  | route =>
    obtain ⟨p1, ht, he⟩ := Option.map_eq_some_iff.1 hrun
    cases he
    unfold Server.route at ht
    split at ht
    · cases ht
    · dsimp only at ht
      split at ht
      · cases ht
        exact .frame (by simp) (fun _ => rfl) id (fun _ => rfl) rfl
      · split at ht
        · split at ht
          · cases ht
            exact .frame (by simp) (fun _ => rfl) id (fun _ => rfl) rfl
          · split at ht <;> cases ht <;> exact .frame (by simp) (fun _ => rfl) id (fun _ => rfl) rfl
        · cases ht
          exact .frame (by simp) (fun _ => rfl) id (fun _ => rfl) rfl
  | logon valid =>
    obtain ⟨p1, ht, he⟩ := Option.map_eq_some_iff.1 hrun
    cases he
    unfold Server.logon at ht
    split at ht
    · cases ht
    · dsimp only at ht
      split at ht <;> rename_i hv <;> cases ht
      · exact .frame (by simp) (fun _ => rfl) id (fun _ => rfl) rfl
      · have hl : c.server.loggedIn ≠ true := fun hl => hv (by simp [hl])
        exact .frame (by simp) (fun _ => rfl) (fun h => absurd h hl) (fun h => absurd h hl) rfl

/-! ## The check -/

/-- The number before the counter is not refused. -/
theorem refused_eq_false {p : Party 32} {header : Session.Header} (hl : p.loggedIn = true)
    (h : header.msgSeqNum = p.seqNum - 1) : refused cfg p header = false := by
  have hne : Server.verifyUserSpecific cfg.provider p header ≠ some (seqNumReject header) := by
    unfold Server.verifyUserSpecific
    rw [if_pos hl]
    split
    · simp [seqNumReject, userReject, tag.targetCompId, tag.msgSeqNum]
    · split
      · simp [seqNumReject, userReject, tag.senderCompId, tag.msgSeqNum]
      · simp [h]
  simp [refused, hne]

/-! ## The invariant -/

structure Inv (c : Reading) : Prop where
  aligned : c.server.validation.length = c.reads.length
  fresh : ∀ w ∈ c.waiting, w.2.Expects w.1 →
    c.server.loggedIn = true ∧ c.server.seqNum = w.2.seqNum + 1
  accepted : ∀ v ∈ c.verdicts, v.expected = true → v.refused = false

/-- Without a message that was expected anything may happen to the counter. -/
theorem Inv.fresh_unit {op : Op} {s : Connection} (h : Inv c) (hc : c.Undisturbed (.unit op))
    (hs : UnitStep c.toConnection s op) {w : Session.Header × Read} (hw : w ∈ c.waiting)
    (hexp : w.2.Expects w.1) : s.server.loggedIn = true ∧ s.server.seqNum = w.2.seqNum + 1 := by
  obtain ⟨hl, hseq⟩ := h.fresh w hw hexp
  have h0 : c.advances (.unit op) = 0 := Nat.eq_zero_of_not_pos fun hpos => hc hpos w hw hexp
  refine ⟨hs.loggedIn hl, ?_⟩
  rw [hs.seqNum hl, hseq]
  show w.2.seqNum + 1 + BitVec.ofNat 32 (c.advances (.unit op)) = w.2.seqNum + 1
  rw [h0]
  exact BitVec.add_zero _

theorem Inv.validate {s : Connection} (h : Inv c) (hc : c.Undisturbed (.unit .validate))
    (hs : UnitStep c.toConnection s .validate) :
    Inv { c with toConnection := s, reads := c.reads.tail,
                 verdicts := c.verdicts ++ (c.verdict cfg).toList } := by
  obtain ⟨msg, hval⟩ := hs.validated rfl
  have hlen := h.aligned
  rw [hval] at hlen
  obtain ⟨r, rs, hreads⟩ := List.exists_cons_of_length_eq_add_one hlen.symm
  have hwaiting : c.waiting = (msg.header, r) :: ({ c with
      toConnection := s, reads := c.reads.tail } : Reading).waiting := by
    unfold waiting
    rw [hval, hreads]
    rfl
  have hhead : (msg.header, r) ∈ c.waiting := hwaiting ▸ List.mem_cons_self
  refine ⟨?_, fun w hw hexp => ?_, fun v hv hexp => ?_⟩
  · show s.server.validation.length = c.reads.tail.length
    rw [hreads] at hlen ⊢
    exact Nat.succ.inj hlen
  · exact h.fresh_unit hc hs (hwaiting ▸ List.mem_cons_of_mem _ hw) hexp
  · rcases List.mem_append.1 hv with hv | hv
    · exact h.accepted v hv hexp
    · have hverdict : c.verdict cfg = some {
          expected := r.Expects msg.header, refused := refused cfg c.server msg.header } := by
        unfold verdict
        rw [hval, hreads]
      rw [hverdict] at hv
      obtain rfl := List.mem_singleton.1 hv
      have hexp : r.Expects msg.header := of_decide_eq_true hexp
      obtain ⟨hl, hseq⟩ := h.fresh _ hhead hexp
      refine refused_eq_false hl ?_
      rw [hseq, hexp.2]
      exact (BitVec.add_sub_cancel _ _).symm

/-- What is in hand is not among the messages that wait for the validation. -/
theorem mem_waiting {w : Session.Header × Read} : w ∈ c.waiting ↔
    w ∈ (c.server.validation.map Msg.header).zip c.reads ∨ c.reading = some (some w.1, w.2) := by
  unfold waiting
  rw [List.mem_append]
  refine or_congr Iff.rfl ?_
  obtain ⟨header, r⟩ := w
  split
  · rename_i header' r' hreading
    rw [hreading, List.mem_singleton]
    simp [eq_comm]
  · rename_i hreading
    refine iff_of_false List.not_mem_nil ?_
    exact fun h => hreading _ _ h

theorem Inv.read {header : Option Session.Header} (h : Inv c) (hc : c.Undisturbed (.read header))
    (hs : step cfg c (.read header) = some c') : Inv c' := by
  unfold step at hs
  dsimp only at hs
  split at hs
  · cases hs
  · rename_i hnone
    cases hs
    have hval : (if c.server.loggedIn then c.server.nextSeqNumber else c.server).validation =
        c.server.validation := by split <;> rfl
    refine ⟨?_, fun w hw hexp => ?_, h.accepted⟩
    · dsimp only
      rw [hval]
      exact h.aligned
    · rcases mem_waiting.1 hw with hw | hw
      · dsimp only at hw
        rw [hval] at hw
        have hw : w ∈ c.waiting := mem_waiting.2 (.inl hw)
        obtain ⟨hl, -⟩ := h.fresh w hw hexp
        exact absurd hexp (hc (by simp [advances, hl]) w hw)
      · obtain ⟨header, r⟩ := w
        cases hw
        have hl : c.server.loggedIn = true := hexp.1
        dsimp only
        rw [if_pos hl]
        exact ⟨hl, rfl⟩

theorem Inv.forward (h : Inv c) (hs : step cfg c .forward = some c') : Inv c' := by
  unfold step at hs
  dsimp only at hs
  split at hs
  · cases hs
  · rename_i r hreading
    cases hs
    refine ⟨h.aligned, fun w hw hexp => ?_, h.accepted⟩
    rcases mem_waiting.1 hw with hw | hw
    · exact h.fresh w (mem_waiting.2 (.inl hw)) hexp
    · cases hw
  · rename_i header r hreading
    cases hs
    refine ⟨?_, fun w hw hexp => ?_, h.accepted⟩
    · dsimp only
      rw [List.length_append, List.length_append, h.aligned]
      rfl
    · have hw : w ∈ c.waiting := by
        rcases mem_waiting.1 hw with hw | hw
        · dsimp only at hw
          rw [List.map_append, List.zip_append (by simpa using h.aligned)] at hw
          rcases List.mem_append.1 hw with hw | hw
          · exact mem_waiting.2 (.inl hw)
          · obtain rfl := List.mem_singleton.1 hw
            exact mem_waiting.2 (.inr hreading)
        · cases hw
      exact h.fresh w hw hexp

theorem Inv.step {a : Action} (h : Inv c) (hc : c.Undisturbed a) (hs : step cfg c a = some c') :
    Inv c' := by
  cases a with
  | unit op =>
    obtain ⟨s, hunit, rfl⟩ := Option.map_eq_some_iff.1 hs
    have hspec := unit_spec hunit
    by_cases hop : op = .validate
    · subst hop
      exact h.validate hc hspec
    · rw [if_neg hop]
      have hval := hspec.validation hop
      have hwaiting : ({ c with toConnection := s } : Reading).waiting = c.waiting := by
        unfold waiting
        rw [hval]
      refine ⟨?_, fun w hw hexp => ?_, h.accepted⟩
      · show s.server.validation.length = _
        rw [hval]
        exact h.aligned
      · exact h.fresh_unit hc hspec (hwaiting ▸ hw) hexp
  | read header => exact h.read hc hs
  | forward => exact h.forward hs

/-- A step that advances the counter leaves every expected message with a number that is no longer the
one before the counter. -/
theorem Inv.disturbed {a : Action} (h : Inv c) (hc : ¬ c.Undisturbed a)
    (hs : Reading.step cfg c a = some c') :
    ∃ w ∈ c'.waiting, w.2.Expects w.1 ∧ c'.server.loggedIn = true ∧
      w.1.msgSeqNum ≠ c'.server.seqNum - 1 := by
  obtain ⟨hpos, w, hw, hexp⟩ : 0 < c.advances a ∧ ∃ w ∈ c.waiting, w.2.Expects w.1 := by
    simpa [Undisturbed] using hc
  obtain ⟨hl, hseq⟩ := h.fresh w hw hexp
  suffices hnext : w ∈ c'.waiting ∧ c'.server.loggedIn = true ∧
      c'.server.seqNum = c.server.seqNum + 1 by
    refine ⟨w, hnext.1, hexp, hnext.2.1, ?_⟩
    rw [hnext.2.2, BitVec.add_sub_cancel, hseq, hexp.2]
    simp
  cases a with
  | unit op =>
    obtain ⟨s, hunit, rfl⟩ := Option.map_eq_some_iff.1 hs
    have hspec := unit_spec hunit
    have hcount : c.toConnection.advances (.unit op) = 1 ∧ op ≠ .validate := by
      cases op <;> simp_all [advances, Connection.advances]
    rw [if_neg hcount.2]
    refine ⟨?_, hspec.loggedIn hl, ?_⟩
    · rw [mem_waiting] at hw ⊢
      dsimp only
      rw [hspec.validation hcount.2]
      exact hw
    · rw [hspec.seqNum hl, hcount.1]
      rfl
  | read header =>
    unfold Reading.step at hs
    dsimp only at hs
    split at hs
    · cases hs
    · rename_i hnone
      cases hs
      refine ⟨?_, hl, rfl⟩
      rcases mem_waiting.1 hw with hw | hw
      · exact mem_waiting.2 (.inl hw)
      · rw [hw] at hnone
        exact absurd rfl hnone
  | forward => cases hpos

/-- **The verdict does not depend on the schedule**, in every run in which nothing advances the counter
while a message that was expected when it was read waits for the header validation. The first step that
does leaves such a message behind that is refused when it is validated next. -/
theorem expected_accepted (cfg : Config) {c : Reading}
    (h : Trans.Run (Reading.step cfg) Undisturbed new c) :
    (∀ v ∈ c.verdicts, v.expected = true → v.refused = false) ∧
    ∀ a c', Reading.step cfg c a = some c' → ¬ c.Undisturbed a →
      ∃ w ∈ c'.waiting, w.2.Expects w.1 ∧ c'.server.loggedIn = true ∧
        w.1.msgSeqNum ≠ c'.server.seqNum - 1 := by
  have hinv : Inv c := h.invariant ⟨rfl, nofun, nofun⟩ fun _ _ _ hI hc hs => Inv.step hI hc hs
  exact ⟨hinv.accepted, fun a c' hs hc => hinv.disturbed hc hs⟩

/-! ## Two runs -/

/-- The logon of the user `A`. -/
def loggedOn : List Action :=
  [.read (some ⟨"FIX.4.2", 'A', 1, "A", "EX"⟩), .forward, .unit .validate, .unit .route,
    .unit (.logon true)]

/-- The answer to it goes out, and an order is read and validated. -/
def waited : List Action :=
  [.unit .take, .unit (.stamp 0), .unit (.count 0), .unit (.transmit 0),
    .read (some ⟨"FIX.4.2", 'D', 3, "A", "EX"⟩), .forward, .unit .validate]

/-- Two orders are read before the first of them is validated. -/
def pipelinedOrders : List Action :=
  [.unit .take, .unit (.stamp 0), .unit (.count 0), .unit (.transmit 0),
    .read (some ⟨"FIX.4.2", 'D', 3, "A", "EX"⟩), .forward,
    .read (some ⟨"FIX.4.2", 'D', 4, "A", "EX"⟩), .forward, .unit .validate, .unit .validate]

/-- An order is read before the answer to the logon is counted. -/
def crossedOrder : List Action :=
  [.unit .take, .unit (.stamp 0), .read (some ⟨"FIX.4.2", 'D', 2, "A", "EX"⟩), .forward,
    .unit (.count 0), .unit .validate]

/-- The first of two orders with the right numbers is refused for the second one, and an order for the
answer that was sent before it was validated. -/
theorem expected_refused :
    (∃ c : Reading, Trans.Reach (Reading.step ⟨"EX", 10⟩) new c ∧
      c.verdicts = [⟨false, false⟩, ⟨true, true⟩, ⟨true, false⟩]) ∧
    ∃ c : Reading, Trans.Reach (Reading.step ⟨"EX", 10⟩) new c ∧
      c.verdicts = [⟨false, false⟩, ⟨true, true⟩] := by
  have h1 : (Trans.exec (Reading.step ⟨"EX", 10⟩) (fun _ _ => True) new
      (loggedOn ++ pipelinedOrders)).map verdicts =
      some [⟨false, false⟩, ⟨true, true⟩, ⟨true, false⟩] := by decide +kernel
  have h2 : (Trans.exec (Reading.step ⟨"EX", 10⟩) (fun _ _ => True) new
      (loggedOn ++ crossedOrder)).map verdicts = some [⟨false, false⟩, ⟨true, true⟩] := by
    decide +kernel
  obtain ⟨c1, hc1, h1⟩ := Option.map_eq_some_iff.1 h1
  obtain ⟨c2, hc2, h2⟩ := Option.map_eq_some_iff.1 h2
  exact ⟨⟨c1, .of_exec .start hc1, h1⟩, ⟨c2, .of_exec .start hc2, h2⟩⟩

theorem expected_accepted_run : ∃ c : Reading, c.verdicts = [⟨false, false⟩, ⟨true, false⟩] ∧
    ∀ v ∈ c.verdicts, v.expected = true → v.refused = false := by
  have h : (Trans.exec (Reading.step ⟨"EX", 10⟩) Undisturbed new (loggedOn ++ waited)).map
      verdicts = some [⟨false, false⟩, ⟨true, false⟩] := by decide +kernel
  obtain ⟨c, hc, h⟩ := Option.map_eq_some_iff.1 h
  exact ⟨c, h, (expected_accepted ⟨"EX", 10⟩ (.of_exec .start hc)).1⟩

end Reading

end Fix42
