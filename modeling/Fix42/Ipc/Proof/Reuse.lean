import Mathlib.Data.List.Basic
import Fix42.Ipc.Proof.Stream

/-!
# Buffers that are used again

`exec_encode`: where the encoding of a value lies ahead, a read of its type takes it off, unless the
cursor would no longer be a `size_t`. From there values written one after the other are read back one
after the other (`reads_encode`), provided that the buffer is valid, which neither `clear` nor `reset`
makes it.
-/

namespace Fix42

namespace Net

variable {b : Buffer} {r : TypedRead} {v : Value} {post : Bytes}

/-! ## One value -/

theorem Buffer.copy_eq {size : Nat} (h : b.read + size ≤ b.data.length) :
    b.copy size = (b.data.drop b.read).take size := by
  have hcopy : ∀ (n k : Nat), k + n ≤ b.data.length →
      (List.range' k n).map (fun i => b.data.getD i 0) = (b.data.drop k).take n := by
    intro n
    induction n with
    | zero => intro k _; rw [List.take_zero]; rfl
    | succ n ih =>
      intro k hk
      have hlt : k < b.data.length := by omega
      rw [List.range'_succ, List.map_cons, ih (k + 1) (by omega), List.drop_eq_getElem_cons hlt,
        List.take_succ_cons, List.getD_eq_getElem?_getD, List.getElem?_eq_getElem hlt, Option.getD_some]
  exact hcopy size b.read h

/-- The bytes `e` ahead of the cursor of a valid buffer. -/
structure Buffer.Ahead (b : Buffer) (e : Bytes) : Prop where
  valid : b.valid = true
  word : b.read < 2 ^ 64
  bound : b.read ≤ b.data.length
  left : ∃ post, b.data.drop b.read = e ++ post

namespace Buffer.Ahead

variable {e e' : Bytes}

theorem length_le (h : b.Ahead e) : b.read + e.length ≤ b.data.length := by
  obtain ⟨post, hpost⟩ := h.left
  have hlen := congrArg List.length hpost
  rw [List.length_drop, List.length_append] at hlen
  have := h.bound
  omega

theorem fits (h : b.Ahead e) (he : e.length < 2 ^ 64) :
    b.fits e.length = true ↔ b.read + e.length < 2 ^ 64 := by
  rw [Buffer.fits_iff h.word he]
  exact ⟨fun h' => h'.2.2, fun h' => ⟨h.valid, h.length_le, h'⟩⟩

theorem copy (h : b.Ahead e) : b.copy e.length = e := by
  obtain ⟨post, hpost⟩ := h.left
  rw [Buffer.copy_eq h.length_le, hpost, List.take_left]

theorem head (h : b.Ahead (e ++ e')) : b.Ahead e := by
  obtain ⟨post, hpost⟩ := h.left
  exact ⟨h.valid, h.word, h.bound, e' ++ post, by rw [hpost, List.append_assoc]⟩

theorem tail (h : b.Ahead (e ++ e')) (hlt : b.read + e.length < 2 ^ 64) :
    (b.advance e.length).Ahead e' := by
  obtain ⟨post, hpost⟩ := h.left
  have hread := Buffer.advance_read hlt
  refine ⟨h.valid, hread ▸ hlt, hread ▸ h.head.length_le, post, ?_⟩
  change b.data.drop (b.advance e.length).read = _
  rw [hread, ← List.drop_drop, hpost, List.append_assoc, List.drop_left]

end Buffer.Ahead

/-- The read of `v` from `b`, where it is there. -/
structure Takes {α : Type} (b : Buffer) (o : ReadOutcome α) (a : α) (size : Nat) : Prop where
  ok : o.ok = true ↔ b.read + size < 2 ^ 64
  value : o.ok = true → o.value = a
  buffer : o.ok = true → o.buffer = b.advance size

theorem Takes.of_failed {α : Type} {o : ReadOutcome α} {a : α} {size : Nat} (hok : o.ok = false)
    (h : ¬ b.read + size < 2 ^ 64) : Takes b o a size := by
  constructor
  · exact iff_of_false (Bool.eq_false_iff.1 hok) h
  · exact fun h' => absurd h' (Bool.eq_false_iff.1 hok)
  · exact fun h' => absurd h' (Bool.eq_false_iff.1 hok)

theorem Number.read_ahead {m n : Number} (ht : m.type = n.type)
    (h : b.Ahead (n.type.convert n.bytes)) :
    Takes b (m.read b) n n.type.size := by
  obtain ⟨t, old, hold⟩ := m
  obtain ⟨t', bytes, hsize⟩ := n
  obtain rfl : t = t' := ht
  have hlen : (t.convert bytes).length = t.size := by rw [NumericType.length_convert, hsize]
  have hfits := h.fits (hlen ▸ t.size_lt)
  have hcopy := h.copy
  rw [hlen] at hfits hcopy
  rw [Number.read]
  dsimp only
  split
  case isTrue hv =>
    refine ⟨⟨fun _ => hfits.1 hv, fun _ => rfl⟩, fun _ => ?_, fun _ => ?_⟩
    · have hbytes : t.convert (Buffer.copy { b with valid := b.fits t.size } t.size) = bytes := by
        rw [show Buffer.copy { b with valid := b.fits t.size } t.size = t.convert bytes from hcopy,
          NumericType.convert_convert]
      simp only [hbytes]
    · rw [hv, ← h.valid]
  case isFalse hv =>
    exact .of_failed rfl fun hlt => hv (hfits.2 hlt)

theorem Number.toUInt32_ofUInt32 (n : BitVec 32) : (Number.ofUInt32 n).toUInt32 = n := by
  rw [Number.toUInt32, Number.ofUInt32, List.reverse_reverse, number32_bytes32]

theorem readString_ahead {s : Bytes} (hs : s.length < 2 ^ 32) (h : b.Ahead (stringBytes s)) :
    Takes b (readString b) s (4 + s.length) := by
  have hp : Takes b ((Number.ofUInt32 0).read b) (Number.ofUInt32 (BitVec.ofNat 32 s.length)) 4 :=
    Number.read_ahead (n := Number.ofUInt32 (BitVec.ofNat 32 s.length)) rfl
      (by rw [Number.ofUInt32, NumericType.convert, List.reverse_reverse]; exact h.head)
  by_cases hfit : b.read + 4 < 2 ^ 64
  · have hok := hp.ok.2 hfit
    have hlen : ((Number.ofUInt32 0).read b).value.toUInt32.toNat = s.length := by
      rw [hp.value hok, Number.toUInt32_ofUInt32, BitVec.toNat_ofNat, Nat.mod_eq_of_lt hs]
    have hs' : (b.advance 4).Ahead s := h.tail hfit
    have hfits := hs'.fits (hs.trans (by decide))
    rw [Buffer.advance_read hfit] at hfits
    rw [readString]
    dsimp only
    rw [hlen, hp.buffer hok]
    split
    case isTrue hpos =>
      split
      case isTrue hv =>
        have hlt := hfits.1 hv
        refine ⟨⟨fun _ => by omega, fun _ => rfl⟩, fun _ => hs'.copy, fun _ => ?_⟩
        rw [hv, Buffer.advance, Buffer.advance, Buffer.advance, h.valid, sizeAdd, sizeAdd, sizeAdd]
        simp only [Buffer.mk.injEq, true_and, and_true]
        omega
      case isFalse hv =>
        exact .of_failed rfl fun hlt => hv (hfits.2 (by omega))
    case isFalse hpos =>
      have hnil : s = [] := List.length_eq_zero_iff.1 (by omega)
      subst hnil
      exact ⟨hp.ok, fun _ => rfl, fun _ => rfl⟩
  · have hnot : b.fits 4 = false := by
      rw [Bool.eq_false_iff]
      exact fun hf => hfit ((Buffer.fits_iff h.word (by decide)).1 hf).2.2
    rw [readString, Number.read_of_not_fits hnot]
    exact .of_failed rfl fun hlt => hfit (by omega)

theorem Value.encode_string {s : Bytes} (h : s.length < 2 ^ 32) :
    (Value.string s).encode = stringBytes s := by
  have hlen : (BitVec.ofNat 32 s.length).toNat = s.length := by
    rw [BitVec.toNat_ofNat, Nat.mod_eq_of_lt h]
  simp only [encode, hlen, List.take_length]
  rfl

theorem TypedRead.exec_encode (ht : r.type = v.type) (hv : v.Short) (h : b.Ahead v.encode) :
    Takes b (r.exec b) v v.encode.length := by
  cases v with
  | number n =>
    cases r with
    | number target =>
      have hn := Number.read_ahead (VarType.number.inj ht) h
      rw [Value.encode, NumericType.length_convert, n.size]
      exact ⟨hn.ok, fun hok => congrArg Value.number (hn.value hok), hn.buffer⟩
    | enumeration | string => cases ht
  | enumeration e =>
    cases r with
    | enumeration local' =>
      have hn := Number.read_ahead (m := Number.ofByte local') (n := Number.ofByte e) rfl h
      refine ⟨hn.ok, fun hok => ?_, hn.buffer⟩
      exact congrArg (fun n : Number => Value.enumeration n.toByte) (hn.value hok)
    | number | string => cases ht
  | string s =>
    cases r with
    | string target =>
      rw [Value.encode_string hv] at h ⊢
      have hs := readString_ahead hv h
      rw [length_stringBytes]
      exact ⟨hs.ok, fun hok => congrArg Value.string (hs.value hok), hs.buffer⟩
    | number | enumeration => cases ht

/-! ## The reads of `Ipc.Buffer` -/

/-- `Ipc.Buffer` takes bytes the same way, in a buffer of a possible size. -/
theorem take_eq {size : Nat} (hb : b.InBounds) (hdata : b.data.length < 2 ^ 64)
    (hs : size < 2 ^ 64) :
    Buffer.take size b = if b.fits size then
        (some (b.copy size), Buffer.advance { b with valid := b.fits size } size)
      else (none, { b with valid := b.fits size }) := by
  have hcheck : b.checkSize size = { b with valid := b.fits size } := by
    rw [Buffer.checkSize, Buffer.mk.injEq, Bool.eq_iff_iff, Buffer.fits_iff hb.word hs,
      Bool.and_eq_true, decide_eq_true_eq]
    refine ⟨⟨?_, ?_⟩, rfl, rfl⟩
    · rintro ⟨hv, hle⟩
      exact ⟨hv, hle, by omega⟩
    · rintro ⟨hv, hle, -⟩
      exact ⟨hv, hle⟩
  simp only [Buffer.take, hcheck]
  split
  case isTrue hf =>
    obtain ⟨-, hle, hlt⟩ := (Buffer.fits_iff hb.word hs).1 hf
    rw [Buffer.copy_eq hle, Buffer.advance, sizeAdd, Nat.mod_eq_of_lt hlt]
  case isFalse => rfl

theorem extract_uint32 (hb : b.InBounds) (hdata : b.data.length < 2 ^ 64) :
    (extract : StateM Buffer (BitVec 32)) b =
      (((Number.ofUInt32 0).read b).value.toUInt32, ((Number.ofUInt32 0).read b).buffer) := by
  have htake := take_eq hb hdata (show 4 < 2 ^ 64 by decide)
  by_cases hf : b.fits 4 = true
  · have hread : ((Number.ofUInt32 0).read b).value.bytes = (b.copy 4).reverse ∧
        ((Number.ofUInt32 0).read b).buffer = Buffer.advance { b with valid := b.fits 4 } 4 := by
      rw [Number.read]
      change (if b.fits 4 = true then _ else _ : ReadOutcome Number).value.bytes = _ ∧
        (if b.fits 4 = true then _ else _ : ReadOutcome Number).buffer = _
      rw [if_pos hf]
      exact ⟨rfl, rfl⟩
    rw [if_pos hf] at htake
    rw [hread.2, Number.toUInt32, hread.1, List.reverse_reverse]
    simp only [extract, bind, StateT.bind, htake]
    rfl
  · rw [if_neg hf, Bool.eq_false_iff.2 hf] at htake
    rw [Number.read_of_not_fits (Bool.eq_false_iff.2 hf), Number.toUInt32_ofUInt32]
    simp only [extract, bind, StateT.bind, htake]
    rfl

theorem extract_string (hb : b.InBounds) (hdata : b.data.length < 2 ^ 64) :
    (extract : StateM Buffer Bytes) b = ((readString b).value, (readString b).buffer) := by
  have hp := (Number.ofUInt32 0).read_spec hb
  change chars ((extract : StateM Buffer (BitVec 32)) b).1.toNat
    ((extract : StateM Buffer (BitVec 32)) b).2 = _
  rw [extract_uint32 hb hdata, chars, readString]
  dsimp only
  have hsize : ((Number.ofUInt32 0).read b).value.toUInt32.toNat < 2 ^ 64 :=
    (BitVec.isLt _).trans (by decide)
  have htake := take_eq hp.bounds (hp.data ▸ hdata) hsize
  split
  case isFalse => rfl
  case isTrue =>
    by_cases hf : ((Number.ofUInt32 0).read b).buffer.fits
        ((Number.ofUInt32 0).read b).value.toUInt32.toNat = true
    · rw [if_pos hf] at htake ⊢
      simp only [bind, StateT.bind, htake]
      rfl
    · rw [if_neg hf] at htake ⊢
      simp only [bind, StateT.bind, htake]
      rfl

/-! ## All that was written -/

theorem foldl_write (values : List Value) (b : Buffer) :
    values.foldl Buffer.write b = b.append (values.flatMap Value.encode) := by
  induction values generalizing b with
  | nil => rw [List.foldl_nil, List.flatMap_nil, Buffer.append, List.append_nil]
  | cons v values ih =>
    rw [List.foldl_cons, ih, Buffer.write, append_append, List.flatMap_cons]

/-- Values that lie ahead, one after the other, are read back iff the cursor stays a `size_t`. -/
theorem reads_encode {values : List Value} {rs : List TypedRead}
    (ht : rs.map TypedRead.type = values.map Value.type) (hv : ∀ v ∈ values, v.Short)
    (h : b.Ahead (values.flatMap Value.encode)) :
    (b.reads rs).map (fun o => (o.value, o.ok)) = values.map (·, true) ↔
      b.read + (values.flatMap Value.encode).length < 2 ^ 64 := by
  induction values generalizing b rs with
  | nil =>
    obtain rfl := List.map_eq_nil_iff.1 ht
    exact ⟨fun _ => h.word, fun _ => rfl⟩
  | cons v values ih =>
    obtain ⟨r, rs, rfl, hr, hrs⟩ := List.map_eq_cons_iff.1 ht
    have hv' : ∀ v ∈ values, v.Short := fun w hw => hv w (List.mem_cons_of_mem _ hw)
    rw [List.flatMap_cons] at h ⊢
    have htake := TypedRead.exec_encode hr (hv v List.mem_cons_self) h.head
    rw [Buffer.reads, List.map_cons, List.map_cons, List.cons.injEq, Prod.mk.injEq,
      List.length_append]
    constructor
    · rintro ⟨⟨-, hok⟩, hrest⟩
      have hlt := htake.ok.1 hok
      rw [htake.buffer hok, ih hrs hv' (h.tail hlt), Buffer.advance_read hlt] at hrest
      omega
    · intro hlt
      have hfit : b.read + v.encode.length < 2 ^ 64 := by omega
      have hok := htake.ok.2 hfit
      refine ⟨⟨htake.value hok, hok⟩, ?_⟩
      rw [htake.buffer hok, ih hrs hv' (h.tail hfit), Buffer.advance_read hfit]
      omega

/-- A string that is read has a length of 32 bits. -/
theorem length_readString (b : Buffer) : (readString b).value.length < 2 ^ 32 := by
  rw [readString]
  dsimp only
  split
  · split
    · rw [Buffer.length_copy]
      exact BitVec.isLt _
    · exact Nat.two_pow_pos 32
  · exact Nat.two_pow_pos 32

theorem short_of_reads (rs : List TypedRead) (b : Buffer) :
    ∀ o ∈ b.reads rs, o.value.Short := by
  induction rs generalizing b with
  | nil => exact fun o ho => absurd ho List.not_mem_nil
  | cons r rs ih =>
    intro o ho
    rcases List.mem_cons.1 ho with rfl | ho
    · cases r with
      | string target => exact length_readString b
      | number | enumeration => trivial
    · exact ih _ o ho

/-- A read of the type of `v`. -/
def Value.target : Value → TypedRead
  | .number n => .number n
  | .enumeration e => .enumeration e
  | .string s => .string s

theorem Value.target_type (v : Value) : v.target.type = v.type := by cases v <;> rfl

theorem roundTrips_iff (b : Buffer) (values : List Value) : b.RoundTrips values ↔
    values = [] ∨ b.valid = true ∧ (∀ v ∈ values, v.Short) ∧
      (values.flatMap Value.encode).length < 2 ^ 64 := by
  have hwrite : values.foldl Buffer.write b.clear = ⟨b.valid, 0, values.flatMap Value.encode⟩ := by
    rw [foldl_write]
    rfl
  have hahead (hvalid : b.valid = true) : Buffer.Ahead ⟨b.valid, 0, values.flatMap Value.encode⟩
      (values.flatMap Value.encode) :=
    ⟨hvalid, Nat.two_pow_pos 64, Nat.zero_le _, [], (List.append_nil _).symm⟩
  rw [Buffer.RoundTrips, hwrite]
  constructor
  · intro h
    have htargets : (values.map Value.target).map TypedRead.type = values.map Value.type := by
      rw [List.map_map]
      exact List.map_congr_left fun v _ => v.target_type
    have hreads := h _ htargets
    cases values with
    | nil => exact .inl rfl
    | cons v values =>
      -- the first read succeeds
      have hvalid : b.valid = true := by
        rw [← Bool.not_eq_false]
        intro hinv
        rw [List.map_cons, Buffer.reads, v.target.exec_invalid (b := ⟨b.valid, 0, _⟩) hinv] at hreads
        simp at hreads
      have hshort : ∀ w ∈ v :: values, w.Short := by
        intro w hw
        have hmem := List.mem_map_of_mem (f := (·, true)) hw
        rw [← hreads] at hmem
        obtain ⟨o, ho, heq⟩ := List.mem_map.1 hmem
        obtain rfl : o.value = w := congrArg Prod.fst heq
        exact short_of_reads _ _ o ho
      have hsize := (reads_encode htargets hshort (hahead hvalid)).1 hreads
      rw [Nat.zero_add] at hsize
      exact .inr ⟨hvalid, hshort, hsize⟩
  · rintro (rfl | ⟨hvalid, hshort, hsize⟩) rs ht
    · obtain rfl := List.map_eq_nil_iff.1 ht
      rfl
    · exact (reads_encode ht hshort (hahead hvalid)).2 (by rwa [Nat.zero_add])

/-! ## Reading again -/

theorem TypedRead.exec_empty (valid : Bool) (r : TypedRead) :
    r.exec ⟨valid, 0, []⟩ = ⟨⟨false, 0, []⟩, r.unread, false, []⟩ := by
  have hfits (t : NumericType) : Buffer.fits ⟨valid, 0, []⟩ t.size = false := by
    rw [Bool.eq_false_iff]
    intro hf
    have hle := ((Buffer.fits_iff (Nat.two_pow_pos 64) t.size_lt).1 hf).2.1
    rw [List.length_nil] at hle
    have := t.size_pos
    omega
  cases r with
  | number target => rw [exec, Number.read_of_not_fits (hfits _)]; rfl
  | enumeration local' => rw [exec, Number.read_of_not_fits (hfits _)]; rfl
  | string target => rw [exec, readString, Number.read_of_not_fits (hfits _)]; rfl

theorem readsLikeNew_iff (b : Buffer) : b.ReadsLikeNew ↔ b.valid = true ∨ b.data = [] := by
  have hreset : b.reset = ⟨b.valid, 0, b.data⟩ := rfl
  have hnew : Buffer.append {} b.data = ⟨true, 0, b.data⟩ := rfl
  rw [Buffer.ReadsLikeNew, hreset, hnew]
  constructor
  · intro h
    by_contra hcon
    obtain ⟨hinv, hdata⟩ := not_or.1 hcon
    -- one byte is there, and only the new buffer reads it
    have hone := h [.enumeration 0]
    rw [Bool.not_eq_true] at hinv
    obtain ⟨c, rest, hcons⟩ := List.exists_cons_of_ne_nil hdata
    have hahead : Buffer.Ahead ⟨true, 0, b.data⟩ (Value.enumeration c).encode :=
      ⟨rfl, Nat.two_pow_pos 64, Nat.zero_le _, rest, hcons⟩
    have hok : ((TypedRead.enumeration 0).exec ⟨true, 0, b.data⟩).ok = true :=
      (TypedRead.exec_encode (v := .enumeration c) rfl trivial hahead).ok.2 (by change 0 + 1 < 2 ^ 64; decide)
    rw [hinv] at hone
    simp only [Buffer.reads, List.map_cons, List.map_nil, hok,
      TypedRead.exec_invalid (b := ⟨false, 0, b.data⟩) rfl, List.cons.injEq, Prod.mk.injEq] at hone
    exact absurd hone.1.2 (by decide)
  · rintro (hvalid | hdata) rs
    · rw [hvalid]
    · rw [hdata]
      cases rs with
      | nil => rfl
      | cons r rs => rw [Buffer.reads, Buffer.reads, r.exec_empty, r.exec_empty]

/-- **A buffer is used again** as a new one exactly while no read from it has failed: what is written
after `clear` is then read back, if its strings have lengths of 32 bits and all of it is shorter than
2^64 bytes, and after `reset` it reads as a new buffer does. -/
theorem buffer_reuse (history : List BufferOp) :
    (∀ values : List Value, (BufferOp.runs {} history).RoundTrips values ↔
      values = [] ∨ BufferOp.NoneFailed {} history ∧ (∀ v ∈ values, v.Short) ∧
        (values.flatMap Value.encode).length < 2 ^ 64) ∧
    ((BufferOp.runs {} history).ReadsLikeNew ↔
      BufferOp.NoneFailed {} history ∨ (BufferOp.runs {} history).data = []) := by
  have hnone := BufferOp.noneFailed_iff BufferOp.inBounds_new rfl history
  refine ⟨fun values => ?_, ?_⟩
  · rw [roundTrips_iff, hnone]
  · rw [readsLikeNew_iff, hnone]

/-- One read of an empty buffer fails, and the buffer never reads anything again. -/
theorem buffer_reuse_failed :
    ¬ (∀ values, (BufferOp.runs {} [.read (.enumeration 0)]).RoundTrips values) ∧
    ¬ (BufferOp.runs {} [.read (.enumeration 0), .append [1]]).ReadsLikeNew := by
  constructor
  · intro h
    exact absurd (h [.enumeration 7] [.enumeration 0] rfl) (by decide +kernel)
  · intro h
    exact absurd (h [.enumeration 0]) (by decide +kernel)

end Net

end Fix42
