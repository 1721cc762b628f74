import Fix42.Ipc.Proof.RoundTrip
import Fix42.Ipc.Receive

/-!
# Frames that are received

`Aligned`: what was passed on are the first frames, and what the loop has taken, what is unread and
what is to arrive are the others. The loop stays aligned as long as each `recv` finds all it is asked
for.
-/

namespace Fix42

namespace Ipc

open Net

/-- The bytes of the header of a frame. -/
def Frame.header (f : Frame) : Bytes := f.msgType :: bytes32 (BitVec.ofNat 32 f.body.length)

theorem Frame.bytes_eq (f : Frame) : f.bytes = f.header ++ f.body := rfl

@[simp] theorem Frame.length_header (f : Frame) : f.header.length = Header.size := rfl

theorem readHeader_frame (f : Frame) :
    bodySize f.header = f.body.length ∧ (readHeader f.header).2.valid = true ∧
      (readHeader f.header).2.data = f.header := by
  have hreads : Reads (Rest f.header)
      (do let _ : Byte ← extract; extract : StateM Buffer (BitVec 32))
      ([f.msgType] ++ bytes32 (BitVec.ofNat 32 f.body.length)) (BitVec.ofNat 32 f.body.length) :=
    ((codes_byte _).extract _).bind ((codes_bitVec32 _).extract _)
  obtain ⟨hval, hend⟩ := hreads (Buffer.append {} f.header) [] ⟨rfl, rfl, Nat.zero_le _, rfl⟩
  refine ⟨?_, hend.valid, hend.same⟩
  rw [bodySize, readHeader, hval, BitVec.toNat_ofNat, Nat.mod_eq_of_lt f.size]

theorem received_buffer (f : Frame) :
    ((readHeader f.header).2.append f.body).reset = f.buffer := by
  obtain ⟨-, hvalid, hdata⟩ := readHeader_frame f
  rw [Buffer.append, Buffer.reset, hvalid, hdata]
  rfl

namespace ReceiveLoop

variable {frames done rest : List Frame} {s s' : ReceiveLoop} {n : Nat}

theorem complete_append (done rest : List Frame) (n : Nat) :
    complete (done ++ rest) ((done.flatMap Frame.bytes).length + n) = done ++ complete rest n := by
  induction done with
  | nil => rw [List.flatMap_nil, List.length_nil, Nat.zero_add]; rfl
  | cons f done ih =>
    rw [List.flatMap_cons, List.length_append, Nat.add_assoc, List.cons_append, complete,
      if_pos (Nat.le_add_right _ _), Nat.add_sub_cancel_left, ih]
    rfl

/-- Unread bytes that do not start with a complete frame hold none of the frames to come. -/
theorem complete_eq_nil {unread future : Bytes} (h : unread ++ future = rest.flatMap Frame.bytes)
    (hno : startsWithFrame unread = false) : complete rest unread.length = [] := by
  cases rest with
  | nil => rfl
  | cons f rest =>
    rw [complete, if_neg]
    intro hle
    rw [f.bytes_eq, List.length_append, Frame.length_header] at hle
    have htake : unread.take Header.size = f.header := by
      have hh : (unread ++ future).take Header.size = f.header := by
        rw [h, List.flatMap_cons, f.bytes_eq, List.append_assoc]
        exact List.take_left' rfl
      rwa [List.take_append_of_le_length (by omega)] at hh
    have hstart : startsWithFrame unread = true := by
      rw [startsWithFrame, htake, (readHeader_frame f).1]
      simp only [Bool.and_eq_true, decide_eq_true_eq]
      omega
    rw [hno] at hstart
    cases hstart

/-- What the loop has taken of the next frame. -/
def taken (s : ReceiveLoop) : Bytes :=
  match s.pc with
  | .body header => header
  | .wait | .header => []

/-- The invariant (module doc): `done` are passed on, `rest` are not. -/
structure Aligned (done rest : List Frame) (s : ReceiveLoop) : Prop where
  received : s.received = done.map Frame.buffer
  arrived : s.arrived = (done.flatMap Frame.bytes).length + (s.taken.length + s.unread.length)
  stream : s.taken ++ (s.unread ++ s.future) = rest.flatMap Frame.bytes
  header : ∀ header, s.pc = .body header → header.length = Header.size
  ready : s.pc = .wait → s.event = false → complete rest s.unread.length = []

theorem aligned_init (frames : List Frame) : Aligned [] frames (init frames) where
  received := rfl
  arrived := rfl
  stream := rfl
  header _ h := by cases h
  ready _ _ := complete_eq_nil rfl rfl

theorem Aligned.delivered (h : Aligned done rest s) : s.Delivered (done ++ rest) := by
  intro hpc hev
  have htaken : s.taken = [] := by rw [taken, hpc]
  rw [h.received, h.arrived, htaken, complete_append]
  simp [h.ready hpc hev]

theorem Aligned.arrive (h : Aligned done rest s) (n : Nat) (hn : n ≤ s.future.length) :
    Aligned done rest { s with
      future := s.future.drop n
      unread := s.unread ++ s.future.take n
      event := true
      arrived := s.arrived + n } where
  received := h.received
  arrived := by
    have htaken : taken { s with
      future := s.future.drop n
      unread := s.unread ++ s.future.take n
      event := true
      arrived := s.arrived + n } = s.taken := rfl
    rw [htaken, List.length_append, List.length_take, Nat.min_eq_left hn, h.arrived]
    dsimp only
    omega
  stream := by
    have hs := h.stream
    rw [← List.take_append_drop n s.future] at hs
    rw [List.append_assoc]
    exact hs
  header := h.header
  ready _ hev := by cases hev

/-- What the body of the next frame is. -/
theorem Aligned.body (h : Aligned done rest s) {header : Bytes} (hpc : s.pc = .body header)
    (hle : bodySize header ≤ s.unread.length) :
    ∃ f rest' unread', rest = f :: rest' ∧ header = f.header ∧ f.body.length = bodySize header ∧
      s.unread = f.body ++ unread' ∧ unread' ++ s.future = rest'.flatMap Frame.bytes := by
  have hstream := h.stream
  have htaken : s.taken = header := by rw [taken, hpc]
  rw [htaken] at hstream
  cases rest with
  | nil =>
    have hnil := (List.append_eq_nil_iff.1 hstream).1
    have hlen := h.header header hpc
    rw [hnil] at hlen
    cases hlen
  | cons f rest' =>
    rw [List.flatMap_cons, f.bytes_eq, List.append_assoc] at hstream
    obtain ⟨rfl, hbody⟩ := List.append_inj hstream (h.header header hpc)
    rw [(readHeader_frame f).1] at hle ⊢
    have htake : s.unread.take f.body.length = f.body := by
      have ht := congrArg (List.take f.body.length) hbody
      rwa [List.take_append_of_le_length hle, List.take_left] at ht
    have hdrop := congrArg (List.drop f.body.length) hbody
    rw [List.drop_append_of_le_length hle, List.drop_left] at hdrop
    refine ⟨f, rest', s.unread.drop f.body.length, rfl, rfl, rfl, ?_, hdrop⟩
    rw [← htake, List.length_take, Nat.min_eq_left hle, List.take_append_drop]

/-- The next frame is passed on. -/
theorem Aligned.pass {f : Frame} {unread' : Bytes} (h : Aligned done (f :: rest) s)
    (hpc : s.pc = .body f.header) (hunread : s.unread = f.body ++ unread')
    (hstream : unread' ++ s.future = rest.flatMap Frame.bytes)
    (hrest : s.event = false → startsWithFrame unread' = false) :
    Aligned (done ++ [f]) rest
      { s with unread := unread', pc := .wait, received := s.received ++ [f.buffer] } where
  received := by
    rw [List.map_append, ← h.received]
    rfl
  arrived := by
    have htaken : s.taken = f.header := by rw [taken, hpc]
    have harrived := h.arrived
    rw [htaken, hunread, List.length_append] at harrived
    rw [List.flatMap_append, List.length_append, List.flatMap_singleton, f.bytes_eq,
      List.length_append]
    change s.arrived = _ + (0 + unread'.length)
    omega
  stream := hstream
  header := nofun
  ready _ hev := complete_eq_nil hstream (hrest hev)

theorem Aligned.pull (h : Aligned done rest s) (hpc : s.pc = .wait) :
    Aligned done rest
      { s with event := false, pc := if s.unread = [] then .wait else .header } := by
  have htaken : s.taken = [] := by rw [taken, hpc]
  have harrived := h.arrived
  have hstream := h.stream
  rw [htaken] at harrived hstream
  split
  · rename_i hnil
    refine ⟨h.received, harrived, hstream, fun _ he => (by cases he), fun _ _ => ?_⟩
    exact complete_eq_nil hstream (by rw [hnil]; rfl)
  · refine ⟨h.received, harrived, hstream, fun _ he => ?_, fun he => ?_⟩ <;> cases he

/-- A header is read whole. -/
theorem Aligned.takeHeader (h : Aligned done rest s) (hpc : s.pc = .header)
    (hlen : (s.unread.take Header.size).length = Header.size) :
    Aligned done rest
      { s with unread := s.unread.drop Header.size, pc := .body (s.unread.take Header.size) } := by
  have htaken : s.taken = [] := by rw [taken, hpc]
  have hle : Header.size ≤ s.unread.length := by
    rw [← hlen, List.length_take]
    exact Nat.min_le_right ..
  refine ⟨h.received, ?_, ?_, fun header he => ?_, fun he => by cases he⟩
  · rw [h.arrived, htaken]
    change _ = _ + ((s.unread.take Header.size).length + (s.unread.drop Header.size).length)
    rw [hlen, List.length_drop, List.length_nil]
    omega
  · rw [← h.stream, htaken]
    change s.unread.take Header.size ++ (s.unread.drop Header.size ++ s.future) = _
    rw [← List.append_assoc, List.take_append_drop]
    rfl
  · cases he
    exact hlen

theorem Aligned.step {a : Act} (h : Aligned done rest s) (hC : s.Whole a)
    (hs : s.step a = some s') :
    ∃ done' rest', done' ++ rest' = done ++ rest ∧ Aligned done' rest' s' := by
  cases a with
  | arrive n =>
    obtain ⟨hn, hs⟩ := Option.ite_none_right_eq_some.1 hs
    cases hs
    exact ⟨done, rest, rfl, h.arrive n hn.2⟩
  | pull =>
    obtain ⟨hw, hs⟩ := Option.ite_none_right_eq_some.1 hs
    cases hs
    exact ⟨done, rest, rfl, h.pull hw.1⟩
  | receive =>
    simp only [ReceiveLoop.step] at hs
    simp only [Whole] at hC
    cases hpc : s.pc with
    | wait =>
      rw [hpc] at hs
      cases hs
    | header =>
      rw [hpc] at hs hC
      simp only at hs hC
      have hlen : (s.unread.take Header.size).length = Header.size := by
        rw [List.length_take, Nat.min_eq_left hC]
      rw [if_neg (fun he => by rw [he] at hC; cases hC), if_neg (not_not.2 hlen)] at hs
      cases hs
      exact ⟨done, rest, rfl, h.takeHeader hpc hlen⟩
    | body header =>
      rw [hpc] at hs hC
      simp only at hs hC
      obtain ⟨hle, hmax, hrest⟩ := hC
      obtain ⟨f, rest', unread', rfl, rfl, hsize, hunread, hstream⟩ := h.body hpc hle
      rw [hunread, ← hsize, List.drop_left] at hrest
      have hne : ¬ (0 < bodySize f.header ∧ s.unread = []) := by
        intro he
        rw [he.2] at hle
        exact absurd hle (Nat.not_le.2 he.1)
      rw [if_neg hne, Nat.min_eq_left hmax, hunread, ← hsize, List.take_left, List.drop_left,
        if_neg (not_not.2 rfl), received_buffer] at hs
      cases hs
      exact ⟨done ++ [f], rest', by simp, h.pass hpc hunread hstream hrest⟩

/-- **Delivery.** Along the runs in which each `recv` finds all it is asked for, and none leaves a
complete frame behind without an event pending, each frame that has arrived completely has been
passed on, once and in order, whenever the loop waits and no event is pending. -/
theorem frames_delivered {frames : List Frame} {s : ReceiveLoop}
    (h : Trans.Run step Whole (init frames) s) : s.Delivered frames := by
  have hinv : ∃ done rest, done ++ rest = frames ∧ Aligned done rest s := by
    refine h.invariant (I := fun s => ∃ done rest, done ++ rest = frames ∧ Aligned done rest s)
      ⟨[], frames, rfl, aligned_init frames⟩ ?_
    rintro s a s' ⟨done, rest, he, hal⟩ hC hs
    obtain ⟨done', rest', he', hal'⟩ := hal.step hC hs
    exact ⟨done', rest', he'.trans he, hal'⟩
  obtain ⟨done, rest, rfl, hal⟩ := hinv
  exact hal.delivered

/-- A token validation and a handshake. -/
def twoFrames : List Frame :=
  [⟨6, [0, 0, 0, 1, 48], by decide⟩, ⟨8, [], by decide⟩]

/-- They arrive in one burst: the second is left behind with no event to come. -/
theorem frames_stuck : ∃ s : ReceiveLoop, Trans.Reach step (init twoFrames) s ∧ s.future = [] ∧
    s.received.length = 1 ∧ ¬ s.Delivered twoFrames := by
  have h : (Trans.exec step (fun _ _ => True) (init twoFrames)
      [.arrive 15, .pull, .receive, .receive]).map (fun s =>
        (s.pc, s.event, s.future, s.received.length, s.arrived)) =
      some (.wait, false, [], 1, 15) := by decide
  obtain ⟨s, hs, hout⟩ := Option.map_eq_some_iff.1 h
  simp only [Prod.mk.injEq] at hout
  obtain ⟨hpc, hev, hfuture, hlen, harrived⟩ := hout
  refine ⟨s, .of_exec .start hs, hfuture, hlen, fun hd => ?_⟩
  have hall := congrArg List.length (hd hpc hev)
  rw [hlen, harrived] at hall
  exact absurd hall (by decide)

/-- The second arrives while the body of the first is being read. -/
theorem frames_delivered_run : ∃ s : ReceiveLoop,
    Trans.exec step Whole (init twoFrames) [.arrive 7, .pull, .receive, .arrive 8, .receive, .pull,
      .receive, .receive] = some s ∧
    s.received = twoFrames.map Frame.buffer ∧ s.Delivered twoFrames := by
  have h : (Trans.exec step Whole (init twoFrames) [.arrive 7, .pull, .receive, .arrive 8, .receive,
      .pull, .receive, .receive]).map ReceiveLoop.received = some (twoFrames.map Frame.buffer) := by
    decide
  obtain ⟨s, hs, hreceived⟩ := Option.map_eq_some_iff.1 h
  exact ⟨s, hs, hreceived, frames_delivered (.of_exec .start hs)⟩

end ReceiveLoop

end Ipc

end Fix42
