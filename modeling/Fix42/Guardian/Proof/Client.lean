import Fix42.Guardian.Client

/-!
# The frames the client receives

What is extracted and what is left are always the decoded reads (`receiveAll_text`), and where these are
frames the calls take one after the other (`receiveAll_frames`). Whether they are is a matter of where
the reads were cut.
-/

namespace Fix42

namespace Guardian

open Utf8 (decode encode utf16 Aligned)

variable {p s x y : Text} {i : Nat}

/-! ## Searching -/

theorem indexOf_some (h : indexOf p s = some i) :
    ∃ x y, s = x ++ p ++ y ∧ x.length = i := by
  induction s generalizing i with
  | nil =>
    rw [indexOf] at h
    split at h
    case isTrue hp =>
      obtain rfl := Option.some.inj h
      exact ⟨[], [], by rw [hp]; rfl, rfl⟩
    case isFalse => cases h
  | cons c s ih =>
    rw [indexOf] at h
    split at h
    case isTrue hp =>
      obtain rfl := Option.some.inj h
      obtain ⟨y, hy⟩ := List.isPrefixOf_iff_prefix.1 hp
      exact ⟨[], y, hy.symm, rfl⟩
    case isFalse =>
      obtain ⟨j, hj, rfl⟩ := Option.map_eq_some_iff.1 h
      obtain ⟨x, y, rfl, rfl⟩ := ih hj
      exact ⟨c :: x, y, rfl, rfl⟩

/-- The first occurrence is not behind another one. -/
theorem indexOf_le (x : Text) : ∃ i ≤ x.length, indexOf p (x ++ p ++ y) = some i := by
  induction x with
  | nil =>
    refine ⟨0, Nat.le_refl _, ?_⟩
    rw [List.nil_append]
    cases h : p ++ y with
    | nil => exact if_pos (List.append_eq_nil_iff.1 h).1
    | cons c s =>
      refine if_pos (List.isPrefixOf_iff_prefix.2 ?_)
      rw [← h]
      exact List.prefix_append _ _
  | cons c x ih =>
    obtain ⟨i, hi, hindex⟩ := ih
    by_cases hp : p.isPrefixOf (c :: (x ++ p ++ y)) = true
    · exact ⟨0, Nat.zero_le _, if_pos hp⟩
    · refine ⟨i + 1, Nat.succ_le_succ hi, (if_neg hp).trans ?_⟩
      change (indexOf p (x ++ p ++ y)).map (· + 1) = _
      rw [hindex]
      rfl

theorem findIdx?_append_cons {c : UInt16} (h : c ∉ x) :
    (x ++ c :: y).findIdx? (· = c) = some x.length := by
  induction x with
  | nil => simp [List.findIdx?_cons]
  | cons a x ih =>
    rw [List.mem_cons, not_or] at h
    rw [List.cons_append, List.findIdx?_cons, if_neg (by simpa using Ne.symm h.1), ih h.2]
    rfl

/-! ## One message -/

theorem tryExtractMessage_spec {buffer msg rest : Text}
    (h : tryExtractMessage buffer = some (msg, rest)) : msg ++ rest = buffer := by
  rw [tryExtractMessage] at h
  split at h
  case h_1 => cases h
  case h_2 =>
    split at h
    case h_1 => cases h
    case h_2 =>
      obtain ⟨rfl, rfl⟩ := Prod.mk.inj (Option.some.inj h)
      exact List.take_append_drop _ _

/-- A frame at the front of the buffer is extracted. -/
theorem IsFrame.extract (hs : IsFrame s) (rest : Text) :
    tryExtractMessage (s ++ rest) = some (s, rest) := by
  obtain ⟨body, value, rfl, hvalue, honly⟩ := hs
  have hbuffer : body ++ trailer ++ value ++ [soh] ++ rest =
      body ++ trailer ++ (value ++ soh :: rest) := by simp
  obtain ⟨i, hi, hindex⟩ := indexOf_le (p := trailer) (y := value ++ soh :: rest) body
  -- the first trailer is that of the frame
  have hfirst : i = body.length := by
    obtain ⟨x, y, hxy, rfl⟩ := indexOf_some hindex
    have hframe : body ++ trailer ++ value ++ [soh] <+: body ++ trailer ++ (value ++ soh :: rest) := by
      rw [← hbuffer]
      exact List.prefix_append _ _
    have hfront : x ++ trailer <+: body ++ trailer ++ value ++ [soh] := by
      refine List.prefix_of_prefix_length_le (hxy ▸ List.prefix_append _ _) hframe ?_
      simp only [List.length_append]
      omega
    obtain ⟨z, hz⟩ := hfront
    rw [honly x z hz.symm]
  subst hfirst
  have hdrop : (body ++ trailer ++ (value ++ soh :: rest)).drop (body.length + 4) =
      value ++ soh :: rest := List.drop_left' (by rw [List.length_append]; rfl)
  have hend : indexOfChar soh (body.length + 4) (body ++ trailer ++ (value ++ soh :: rest)) =
      some (body.length + 4 + value.length) := by
    rw [indexOfChar, hdrop, findIdx?_append_cons hvalue]
    rfl
  have hlength : (body ++ trailer ++ value ++ [soh]).length = body.length + 4 + value.length + 1 := by
    simp only [List.length_append, List.length_singleton]
    rfl
  rw [hbuffer, tryExtractMessage, hindex]
  simp only [hend]
  rw [← hbuffer, ← hlength, List.take_left, List.drop_left]

/-- Of a part of a frame nothing is. -/
theorem IsFrame.wait {z : Text} (hs : IsFrame (s ++ z)) (hz : z ≠ []) : tryExtractMessage s = none := by
  obtain ⟨body, value, heq, hvalue, honly⟩ := hs
  rw [tryExtractMessage]
  split
  case h_1 => rfl
  case h_2 i hi =>
    obtain ⟨x, y, rfl, rfl⟩ := indexOf_some hi
    obtain rfl := honly x (y ++ z) (by rw [← List.append_assoc])
    have hy : soh ∉ y := by
      simp only [List.append_assoc, List.append_cancel_left_eq] at heq
      have hframe : value <+: y ++ z := heq ▸ List.prefix_append _ _
      have hfront : y <+: value := by
        refine List.prefix_of_prefix_length_le (List.prefix_append _ _) hframe ?_
        have hlength := congrArg List.length heq
        have hpos := List.length_pos_iff.2 hz
        rw [List.length_append, List.length_append, List.length_singleton] at hlength
        omega
      exact fun h => hvalue (hfront.subset h)
    have hdrop : (x ++ trailer ++ y).drop (x.length + 4) = y :=
      List.drop_left' (by rw [List.length_append]; rfl)
    have hnone : indexOfChar soh (x.length + 4) (x ++ trailer ++ y) = none := by
      rw [indexOfChar, hdrop, Option.map_eq_none_iff, List.findIdx?_eq_none_iff]
      intro c hc
      rw [decide_eq_false_iff_not]
      rintro rfl
      exact hy hc
    simp only [hnone]

/-! ## Receiving -/

variable {buffer msg rest : Text} {reads left : List (List UInt8)}

/-- Nothing is lost, and nothing added. -/
theorem receive_text (h : receive buffer reads = .message msg rest left) :
    msg ++ (rest ++ left.flatMap decode) = buffer ++ reads.flatMap decode := by
  induction reads generalizing buffer with
  | nil =>
    rw [receive] at h
    cases hx : tryExtractMessage buffer with
    | none => simp [hx] at h
    | some r =>
      simp only [hx] at h
      cases h
      rw [← tryExtractMessage_spec hx, List.append_assoc]
  | cons bytes reads ih =>
    rw [receive] at h
    cases hx : tryExtractMessage buffer with
    | some r =>
      simp only [hx] at h
      cases h
      rw [← tryExtractMessage_spec hx, List.append_assoc]
    | none =>
      simp only [hx] at h
      split at h
      case isTrue => cases h
      case isFalse => rw [ih h, List.flatMap_cons, List.append_assoc]

theorem receiveAll_text {n : Nat} {msgs : List Text}
    (h : receiveAll n buffer reads = some (msgs, rest, left)) :
    msgs.flatten ++ (rest ++ left.flatMap decode) = buffer ++ reads.flatMap decode := by
  induction n generalizing buffer reads msgs with
  | zero =>
    rw [receiveAll] at h
    cases h
    rfl
  | succ n ih =>
    rw [receiveAll] at h
    cases hr : receive buffer reads with
    | message msg buffer' reads' =>
      simp only [hr] at h
      obtain ⟨⟨msgs', r⟩, hall, heq⟩ := Option.map_eq_some_iff.1 h
      cases heq
      rw [List.flatten_cons, List.append_assoc, ih hall, receive_text hr]
    | closed => simp [hr] at h
    | waiting => simp [hr] at h

/-- Where a frame comes next, it is the message. -/
theorem receive_frame (hs : IsFrame s) (hreads : ∀ r ∈ reads, r ≠ [])
    (h : buffer ++ reads.flatMap decode = s ++ rest) :
    ∃ buffer' left, receive buffer reads = .message s buffer' left ∧
      buffer' ++ left.flatMap decode = rest ∧ ∀ r ∈ left, r ≠ [] := by
  induction reads generalizing buffer with
  | nil =>
    rw [List.flatMap_nil, List.append_nil] at h
    rw [receive, h, hs.extract]
    exact ⟨rest, [], rfl, List.append_nil _, hreads⟩
  | cons bytes reads ih =>
    rcases List.append_eq_append_iff.1 h with ⟨z, rfl, hz⟩ | ⟨z, rfl, hz⟩
    · by_cases hnil : z = []
      · subst hnil
        rw [List.append_nil] at hs ⊢
        have hx : tryExtractMessage buffer = some (buffer, []) := by
          conv_lhs => rw [← List.append_nil buffer]
          exact hs.extract []
        rw [receive, hx]
        exact ⟨[], bytes :: reads, rfl, hz, hreads⟩
      · obtain ⟨hbytes, hreads⟩ := List.forall_mem_cons.1 hreads
        rw [receive, hs.wait hnil]
        simp only [if_neg hbytes]
        refine ih hreads ?_
        rw [← h, List.flatMap_cons, List.append_assoc]
    · rw [receive, hs.extract]
      exact ⟨z, bytes :: reads, rfl, hz.symm, hreads⟩

theorem receiveAll_frames {frames : List Text} (hframes : ∀ f ∈ frames, IsFrame f)
    (hreads : ∀ r ∈ reads, r ≠ []) (h : buffer ++ reads.flatMap decode = frames.flatten) :
    receiveAll frames.length buffer reads = some (frames, [], []) := by
  induction frames generalizing buffer reads with
  | nil =>
    obtain ⟨rfl, hnil⟩ := List.append_eq_nil_iff.1 h
    cases reads with
    | nil => rfl
    | cons r reads =>
      rw [List.flatMap_cons] at hnil
      exact absurd (List.append_eq_nil_iff.1 hnil).1 (Utf8.decode_ne_nil (hreads r List.mem_cons_self))
  | cons f frames ih =>
    obtain ⟨hf, hframes⟩ := List.forall_mem_cons.1 hframes
    obtain ⟨buffer', left, hr, hrest, hleft⟩ := receive_frame hf hreads h
    rw [List.length_cons, receiveAll, hr]
    simp only [ih hframes hleft hrest]
    rfl

theorem utf16_flatten (frames : List (List Char)) :
    utf16 frames.flatten = (frames.map utf16).flatten := by
  induction frames with
  | nil => rfl
  | cons f frames ih =>
    rw [List.flatten_cons, List.map_cons, List.flatten_cons, ← ih]
    exact List.flatMap_append

/-- **Frames, however they are cut.** The client takes the frames as they were sent exactly when no read
begins inside a character. -/
theorem frames_received_iff (frames : List (List Char)) (hframes : ∀ f ∈ frames, IsFrame (utf16 f))
    (reads : List (List UInt8)) (hreads : ∀ r ∈ reads, r ≠ [])
    (hbytes : reads.flatten = encode frames.flatten) : Yields frames reads ↔ Aligned reads := by
  rw [Yields, ← Utf8.decode_chunks_iff hbytes, utf16_flatten]
  constructor
  · intro h
    have htext := receiveAll_text h
    rw [List.flatMap_nil, List.append_nil, List.append_nil, List.nil_append] at htext
    exact htext.symm
  · intro h
    rw [← List.length_map utf16]
    exact receiveAll_frames (by simpa using hframes) hreads h

/-- A heartbeat with an accent. -/
def accented : List Char := "8=é\x0110=000\x01".toList

theorem isFrame_accented : IsFrame (utf16 accented) := by
  refine ⟨[56, 61, 233], [48, 48, 48], by decide +kernel, by decide, fun x y h => ?_⟩
  have hat : ∀ k ≤ 11, trailer.isPrefixOf ((utf16 accented).drop k) = true → k = 3 := by
    decide +kernel
  have hfront : trailer.isPrefixOf ((utf16 accented).drop x.length) = true := by
    rw [h, List.append_assoc, List.drop_left]
    exact List.isPrefixOf_iff_prefix.2 (List.prefix_append _ _)
  have hle : x.length ≤ 11 := by
    have hlength := congrArg List.length h
    rw [List.length_append, List.length_append, show (utf16 accented).length = 11 by decide +kernel]
      at hlength
    omega
  have hx : x = (utf16 accented).take x.length := by rw [h, List.append_assoc, List.take_left]
  rw [hx, hat _ hle hfront]
  decide +kernel

theorem accented_received :
    Yields [accented] [encode ['8', '=', 'é', '\x01', '1'], encode ['0', '=', '0', '0', '0', '\x01']] :=
  (frames_received_iff [accented] (by simpa using isFrame_accented) _ (by decide +kernel)
    (by decide +kernel)).2 (by decide +kernel)

/-- The two bytes of the accented letter come in two reads. -/
theorem accented_lost :
    ¬ Yields [accented] [[56, 61, 0xC3], [0xA9, 1, 49, 48, 61, 48, 48, 48, 1]] := by
  intro h
  exact absurd h (by decide +kernel)

end Guardian

end Fix42
