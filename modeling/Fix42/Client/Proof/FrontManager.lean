import Fix42.Client.FrontManager
import Fix42.Ipc.Proof.Receive

/-!
# What gets through the door

A received frame does one of five things to the `FrontManager` (`onReceive_open`,
`onReceive_authenticated`, `onReceive_closed`); the three stages of `front_gated` follow, the last
first.
-/

namespace Fix42

open Ipc Net

/-! ## Reading a frame that may be malformed -/

theorem enumOf_eq_some {α : Type} [DecidableEq α] {first : Nat} {all : List α} {x : α} {b : Byte}
    (hn : all.Nodup) (hx : x ∈ all) (hb : first + all.length ≤ 256) :
    enumOf first all b = some x ↔ b = enumByte first all x := by
  constructor
  · intro h
    unfold enumOf at h
    split at h
    · rename_i hle
      obtain ⟨hlt, rfl⟩ := List.getElem?_eq_some_iff.1 h
      apply BitVec.eq_of_toNat_eq
      rw [enumByte, hn.idxOf_getElem, Nat.add_sub_cancel' hle, BitVec.ofNat_toNat,
        BitVec.setWidth_eq]
    · cases h
  · rintro rfl
    exact enumOf_enumByte hx hb

theorem type_eq_some (b : Byte) (type : MessageType) :
    enumOf 0 MessageType.all b = some type ↔ b = enumByte 0 MessageType.all type :=
  enumOf_eq_some (by decide) (by cases type <;> decide) (by decide)

/-- The header of a received frame, and the buffer at the start of the body. -/
theorem extract_header (f : Frame) : ∃ b, Ipc.Header.extract f.buffer =
    ((enumOf 0 MessageType.all f.msgType).map (⟨·, BitVec.ofNat 32 f.body.length⟩), b) ∧
      Rest f.bytes b f.body := by
  have hreads : Reads (Rest f.bytes) Ipc.Header.extract f.header
      ((enumOf 0 MessageType.all f.msgType).map (⟨·, BitVec.ofNat 32 f.body.length⟩)) :=
    ((codes_byte f.msgType).extract _).bind (((codes_bitVec32 _).extract _).last (.pure _))
  obtain ⟨hval, hrest⟩ := hreads f.buffer f.body ⟨rfl, rfl, Nat.zero_le _, rfl⟩
  exact ⟨_, Prod.ext hval rfl, hrest⟩

/-- A value that is not there. -/
theorem take_none {data l : Bytes} {b : Buffer} {n : Nat} (h : Rest data b l) (hlt : l.length < n) :
    (Buffer.take n b).1 = none := by
  have hl : l.length = data.length - b.read := by rw [← h.left, List.length_drop]
  have hno : ¬ b.read + n ≤ b.data.length := by
    rw [h.same]
    have := h.bound
    omega
  simp [Buffer.take, Buffer.checkSize, hno]

theorem bytes32_number32 {l : Bytes} (h : l.length = 4) : bytes32 (number32 l) = l := by
  obtain ⟨b3, b2, b1, b0, rfl⟩ := List.length_eq_four.1 h
  have h3 := b3.isLt
  have h2 := b2.isLt
  have h1 := b1.isLt
  have h0 := b0.isLt
  simp only [bytes32, number32, List.cons.injEq, and_true, BitVec.toNat_ofNat]
  refine ⟨?_, ?_, ?_, ?_⟩ <;> apply BitVec.eq_of_toNat_eq <;> rw [BitVec.toNat_ofNat] <;> omega

theorem extract_number (b : Buffer) : ((extract : StateM Buffer (BitVec 32)) b).1 =
    ((Buffer.take 4 b).1.map number32).getD 0 := by
  cases h : Buffer.take 4 b with
  | mk bytes b' =>
    simp only [extract, bind, StateT.bind, h]
    cases bytes <;> rfl

theorem chars_eq (length : Nat) (b : Buffer) : (chars length b).1 =
    if 0 < length then (Buffer.take length b).1.getD [] else [] := by
  unfold chars
  split
  · cases h : Buffer.take length b with
    | mk s b' =>
      simp only [bind, StateT.bind, h]
      cases s <;> rfl
  · rfl

theorem extract_string (b : Buffer) : ((extract : StateM Buffer Bytes) b).1 =
    (chars ((extract : StateM Buffer (BitVec 32)) b).1.toNat
      ((extract : StateM Buffer (BitVec 32)) b).2).1 := rfl

/-- A string that is read is there, or empty. -/
theorem extract_bytes_eq {data l own : Bytes} {b : Buffer} (h : Rest data b l) (hown : own ≠ [])
    (hl : l.length < 2 ^ 32) :
    ((extract : StateM Buffer Bytes) b).1 = own ↔ stringBytes own <+: l := by
  constructor
  · rw [extract_string, chars_eq]
    intro hread
    by_cases hlen : l.length < 4
    · have hzero : ((extract : StateM Buffer (BitVec 32)) b).1 = 0 := by
        rw [extract_number, take_none h hlen]
        rfl
      rw [hzero] at hread
      exact absurd hread.symm hown
    · -- the length, and then as much
      have hfour : (l.take 4).length = 4 := by
        rw [List.length_take]
        omega
      have hnum := codes_bitVec32 (number32 (l.take 4))
      rw [bytes32_number32 hfour] at hnum
      obtain ⟨hval, hrest⟩ := hnum.extract data b (l.drop 4) (by rwa [List.take_append_drop])
      rw [hval] at hread
      split at hread
      · by_cases hfit : (number32 (l.take 4)).toNat ≤ (l.drop 4).length
        · have htake := reads_take data ((l.drop 4).take (number32 (l.take 4)).toNat)
          rw [List.length_take, Nat.min_eq_left hfit] at htake
          rw [(htake _ ((l.drop 4).drop (number32 (l.take 4)).toNat)
            (by rwa [List.take_append_drop])).1] at hread
          have hown' : (l.drop 4).take (number32 (l.take 4)).toNat = own := hread
          have hsize : own.length = (number32 (l.take 4)).toNat := by
            rw [← hown', List.length_take, Nat.min_eq_left hfit]
          have hbytes : stringBytes own = l.take 4 ++ own := by
            rw [stringBytes, hsize, BitVec.ofNat_toNat, BitVec.setWidth_eq, bytes32_number32 hfour]
          refine ⟨(l.drop 4).drop (number32 (l.take 4)).toNat, ?_⟩
          rw [hbytes, ← hown', List.append_assoc, List.take_append_drop, List.take_append_drop]
        · rw [take_none hrest (Nat.not_le.1 hfit)] at hread
          exact absurd hread.symm hown
      · exact absurd hread.symm hown
  · rintro ⟨tail, rfl⟩
    rw [List.length_append, length_stringBytes] at hl
    exact ((codes_bytes (by omega)).extract data b tail h).1

namespace FrontManager

variable {own : Bytes} {m : FrontManager} {f : Frame}

/-! ## One frame -/

theorem isToken_iff : isToken own f = true ↔
    f.msgType = enumByte 0 MessageType.all .frontToBackValidToken ∧ stringBytes own <+: f.body := by
  rw [isToken, Bool.and_eq_true, decide_eq_true_eq, List.isPrefixOf_iff_prefix]

theorem msgType_iff (f : Frame) (type : MessageType) (size : BitVec 32) :
    ((enumOf 0 MessageType.all f.msgType).map (⟨·, size⟩)).map Ipc.Header.msgType = some type ↔
      f.msgType = enumByte 0 MessageType.all type := by
  rw [Option.map_map]
  change (enumOf 0 MessageType.all f.msgType).map id = some type ↔ _
  rw [Option.map_id, id, type_eq_some]

/-- Before the authentication: only the own token opens. -/
theorem onReceive_open (hown : own ≠ []) (htoken : m.token = some own) (hauth : m.auth = false) :
    (m.onReceive f.buffer).output = m.output ∧
    (m.onReceive f.buffer).token = m.token ∧
    (m.onReceive f.buffer).handshake = m.handshake ∧
    (m.onReceive f.buffer).auth = isToken own f := by
  obtain ⟨b, hheader, hrest⟩ := extract_header f
  have hstring := extract_bytes_eq hrest hown f.size
  unfold onReceive authValidation
  rw [hheader]
  simp only [hauth, htoken, Bool.not_false, if_true, msgType_iff]
  by_cases htype : f.msgType = enumByte 0 MessageType.all .frontToBackValidToken
  · rw [if_pos htype]
    obtain ⟨front, b', hfront⟩ : ∃ front b',
        (extract : StateM Buffer FrontToBackValidToken) b = (front, b') := ⟨_, _, rfl⟩
    have hval : front.token = ((extract : StateM Buffer Bytes) b).1 :=
      congrArg (fun p => FrontToBackValidToken.token p.1) hfront.symm
    rw [hfront]
    dsimp only
    by_cases hprefix : stringBytes own <+: f.body
    · rw [if_pos (hval.trans (hstring.2 hprefix))]
      exact ⟨rfl, htoken, rfl, (isToken_iff.2 ⟨htype, hprefix⟩).symm⟩
    · rw [if_neg (fun he => hprefix (hstring.1 (hval.symm.trans he)))]
      refine ⟨rfl, htoken, rfl, hauth.trans (Eq.symm ?_)⟩
      exact Bool.eq_false_iff.2 fun he => hprefix (isToken_iff.1 he).2
  · rw [if_neg htype]
    refine ⟨rfl, htoken, rfl, hauth.trans (Eq.symm ?_)⟩
    exact Bool.eq_false_iff.2 fun he => htype (isToken_iff.1 he).1

/-- After it, only the handshake opens. -/
theorem onReceive_authenticated (hauth : m.auth = true) (hshake : m.handshake = false) :
    (m.onReceive f.buffer).output = m.output ∧ (m.onReceive f.buffer).auth = true ∧
    (m.onReceive f.buffer).handshake = isHandshake f := by
  obtain ⟨b, hheader, -⟩ := extract_header f
  unfold onReceive authValidation
  rw [hheader]
  simp only [hauth, hshake, Bool.not_true, Bool.not_false, if_true, msgType_iff, Bool.false_eq_true,
    if_false]
  by_cases htype : f.msgType = enumByte 0 MessageType.all .handShakeAuth
  · rw [if_pos htype]
    exact ⟨rfl, rfl, (decide_eq_true htype).symm⟩
  · rw [if_neg htype]
    exact ⟨rfl, hauth, hshake.trans (decide_eq_false htype).symm⟩

/-- After the handshake each frame gets through as it came. -/
theorem onReceive_closed (hauth : m.auth = true) (hshake : m.handshake = true) :
    m.onReceive f.buffer = { m with output := m.output ++ [f.buffer] } := by
  obtain ⟨b, hheader, hrest⟩ := extract_header f
  have hbuffer : b.reset = f.buffer := by
    rw [Buffer.reset, hrest.valid, hrest.same]
    rfl
  unfold onReceive authValidation
  rw [hheader]
  simp only [hauth, hshake, Bool.not_true, Bool.false_eq_true, if_false, hbuffer]

/-! ## The three stages -/

theorem receive_cons (m : FrontManager) (f : Frame) (frames : List Frame) :
    m.receive (f :: frames) = (m.onReceive f.buffer).receive frames := rfl

theorem receive_closed : ∀ (frames : List Frame) (m : FrontManager), m.auth = true →
    m.handshake = true → (m.receive frames).output = m.output ++ frames.map Frame.buffer
  | [], m, _, _ => (List.append_nil _).symm
  | f :: frames, m, hauth, hshake => by
    rw [receive_cons, onReceive_closed hauth hshake,
      receive_closed frames { m with output := m.output ++ [f.buffer] } hauth hshake,
      List.append_assoc]
    rfl

theorem receive_authenticated : ∀ (frames : List Frame) (m : FrontManager), m.auth = true →
    m.handshake = false → (m.receive frames).output =
      m.output ++ ((frames.dropWhile fun f => !isHandshake f).tail).map Frame.buffer
  | [], m, _, _ => (List.append_nil _).symm
  | f :: frames, m, hauth, hshake => by
    obtain ⟨hout, hauth', hshake'⟩ := onReceive_authenticated (f := f) hauth hshake
    rw [receive_cons, List.dropWhile_cons]
    cases hf : isHandshake f with
    | true =>
      rw [receive_closed frames _ hauth' (hshake'.trans hf), hout]
      rfl
    | false =>
      rw [receive_authenticated frames _ hauth' (hshake'.trans hf), hout]
      rfl

theorem receive_open (hown : own ≠ []) : ∀ (frames : List Frame) (m : FrontManager),
    m.token = some own → m.auth = false → m.handshake = false →
      (m.receive frames).output = m.output ++ (forwarded own frames).map Frame.buffer
  | [], m, _, _, _ => (List.append_nil _).symm
  | f :: frames, m, htoken, hauth, hshake => by
    obtain ⟨hout, htoken', hshake', hauth'⟩ := onReceive_open (f := f) hown htoken hauth
    rw [receive_cons, forwarded, List.dropWhile_cons]
    cases hf : isToken own f with
    | true =>
      rw [receive_authenticated frames _ (hauth'.trans hf) (hshake'.trans hshake), hout]
      rfl
    | false =>
      rw [receive_open hown frames _ (htoken'.trans htoken) (hauth'.trans hf)
        (hshake'.trans hshake), hout]
      rfl

/-- **Gating.** Whatever frames are received, those that get through to the pipeline are the ones
after the first handshake after the first validation of the backend's token, in order, unchanged and
to be read from the start. -/
theorem front_gated (hown : own ≠ []) (frames : List Frame) :
    ((setupToken own).receive frames).output = (forwarded own frames).map Frame.buffer :=
  receive_open hown frames _ rfl rfl rfl

/-- A handshake too early, a validation cut short, the validation, an order too early, the handshake,
and a frame that gets through. -/
theorem front_gated_run :
    let early : List Frame := [⟨8, [], by decide⟩, ⟨6, [0, 0, 0, 9, 48], by decide⟩,
      ⟨6, [0, 0, 0, 1, 48], by decide⟩, ⟨11, [1], by decide⟩, ⟨8, [], by decide⟩]
    let order : Frame := ⟨11, [2], by decide⟩
    ((setupToken (ascii "0")).receive (early ++ [order])).output = [order.buffer] := by
  intro early order
  rw [front_gated (by decide)]
  rfl

end FrontManager

end Fix42
