import Mathlib.Data.List.Basic
import Fix42.Client.FixBuilder
import Fix42.Ipc.Proof.Reuse

/-!
# What is built of a frame

A structure whose encoding lies ahead is read as it is (`readLogon_ahead`, `readOrder_ahead`), and a
body whose sizes add up is the encoding of one (`exists_string`). The unit builds a message of every
frame of the two types, so those whose sizes do not add up are the ones it is wrong about.
-/

namespace Fix42

open Ipc Net

namespace FixBuilder

variable {b : Buffer} {u : Uninitialized} {f : FrontFrame} {l : Bytes}

/-! ## Encodings -/

theorem put_string (b : Buffer) (s : Bytes) : put b s = b.append (Value.string s).encode := by
  change (if 0 < (BitVec.ofNat 32 s.length).toNat then (put b _).append (s.take _) else put b _) = _
  rw [(codes_bitVec32 _).put]
  split
  case isTrue => rw [append_append]; rfl
  case isFalse h =>
    rw [Value.encode, Nat.eq_zero_of_not_pos h, List.take_zero, List.append_nil]

theorem length_encode_string (s : Bytes) :
    (Value.string s).encode.length = 4 + (BitVec.ofNat 32 s.length).toNat := by
  have hle : (BitVec.ofNat 32 s.length).toNat ≤ s.length := by
    rw [BitVec.toNat_ofNat]
    exact Nat.mod_le _ _
  rw [Value.encode, List.length_append, length_bytes32, List.length_take, Nat.min_eq_left hle]

/-- A written string takes as many bytes as its length says. -/
theorem stringSize_encode (s tail : Bytes) :
    stringSize ((Value.string s).encode ++ tail) = (Value.string s).encode.length := by
  have htake : ((Value.string s).encode ++ tail).take 4 =
      bytes32 (BitVec.ofNat 32 s.length) := by
    rw [Value.encode, List.append_assoc]
    exact List.take_left' rfl
  rw [stringSize, htake, number32_bytes32, length_encode_string]

theorem put_logon (logon : Logon) : (put ({} : Buffer) logon).data =
    (Value.string logon.userId).encode ++ (bytes32 logon.seqNum ++ bytes32 logon.heartBeat) := by
  change (put (put (put ({} : Buffer) logon.userId) logon.seqNum) logon.heartBeat).data = _
  rw [put_string, (codes_bitVec32 _).put, (codes_bitVec32 _).put, append_append, append_append]
  rfl

theorem put_orderSingle (order : OrderSingle) : (order.put {}).data =
    (Value.string order.symbol).encode ++ ((Value.string order.orderId).encode ++
      ((bytes32 order.price.bits).reverse ++ ((bytes32 order.quantity.bits).reverse ++
        [enumByte '1'.toNat sides order.type]))) := by
  simp only [OrderSingle.put, put_string, (codes_float _).put, (codes_byte _).put, append_append,
    List.append_assoc]
  rfl

/-- Four bytes are a number. -/
theorem exists_bytes32 (h : l.length = 4) : ∃ n, l = bytes32 n := by
  obtain ⟨a, b, c, d, rfl⟩ := List.length_eq_four.1 h
  refine ⟨number32 [a, b, c, d], ?_⟩
  have ha := a.isLt
  have hb := b.isLt
  have hc := c.isLt
  have hd := d.isLt
  simp only [bytes32, number32, BitVec.toNat_ofNat, List.cons.injEq, and_true]
  refine ⟨?_, ?_, ?_, ?_⟩ <;>
  · apply BitVec.eq_of_toNat_eq
    rw [BitVec.toNat_ofNat]
    omega

/-- Bytes in front of which there is all of a string. -/
theorem exists_string (h : stringSize l ≤ l.length) :
    ∃ s tail, s.length < 2 ^ 32 ∧ l = stringBytes s ++ tail ∧ stringSize l = 4 + s.length := by
  have hlen : (l.take 4).length = 4 := by
    rw [List.length_take]
    rw [stringSize] at h
    omega
  obtain ⟨n, hn⟩ := exists_bytes32 hlen
  rw [stringSize, hn, number32_bytes32] at h ⊢
  have hs : ((l.drop 4).take n.toNat).length = n.toNat := by
    rw [List.length_take, List.length_drop]
    omega
  refine ⟨(l.drop 4).take n.toNat, (l.drop 4).drop n.toNat, ?_, ?_, ?_⟩
  · rw [hs]
    exact n.isLt
  · rw [stringBytes, hs, BitVec.ofNat_toNat, BitVec.setWidth_eq, List.append_assoc,
      List.take_append_drop, ← hn, List.take_append_drop]
  · rw [hs]

/-! ## Reading a structure -/

/-- Behind what is taken there is `e`. -/
structure Next (b : Buffer) (size : Nat) (e : Bytes) : Prop where
  ahead : (b.advance size).Ahead e
  read : (b.advance size).read = b.read + size

theorem Next.of_ahead {e e' : Bytes} {size : Nat} (h : b.Ahead (e ++ e')) (hsize : e.length = size)
    (hlt : b.read + size < 2 ^ 64) : Next b size e' := by
  subst hsize
  exact ⟨h.tail hlt, Buffer.advance_read hlt⟩

theorem read_uint32 {e : Bytes} {n : BitVec 32} (old : BitVec 32) (h : b.Ahead (bytes32 n ++ e))
    (hlt : b.read + 4 < 2 ^ 64) :
    ((Number.ofUInt32 old).read b).value.toUInt32 = n ∧
      ((Number.ofUInt32 old).read b).buffer = b.advance 4 ∧ Next b 4 e := by
  have htake := Number.read_ahead (m := Number.ofUInt32 old) (n := Number.ofUInt32 n) rfl
    (by rw [Number.ofUInt32, NumericType.convert, List.reverse_reverse]; exact h.head)
  have hok := htake.ok.2 hlt
  rw [htake.value hok, Number.toUInt32_ofUInt32]
  exact ⟨rfl, htake.buffer hok, .of_ahead h (length_bytes32 n) hlt⟩

theorem read_float {e : Bytes} {x : Float32Bits} (old : Float32Bits)
    (h : b.Ahead ((bytes32 x.bits).reverse ++ e)) (hlt : b.read + 4 < 2 ^ 64) :
    toFloat ((float old).read b).value = x ∧ ((float old).read b).buffer = b.advance 4 ∧
      Next b 4 e := by
  have htake := Number.read_ahead (m := float old) (n := float x) rfl h.head
  have hok := htake.ok.2 hlt
  have hsize : (bytes32 x.bits).reverse.length = 4 := by rw [List.length_reverse, length_bytes32]
  rw [htake.value hok, toFloat, float, List.reverse_reverse, number32_bytes32]
  exact ⟨rfl, htake.buffer hok, .of_ahead h hsize hlt⟩

theorem read_byte {e : Bytes} {c : Byte} (old : Byte) (h : b.Ahead (c :: e))
    (hlt : b.read + 1 < 2 ^ 64) :
    ((Number.ofByte old).read b).value.toByte = c ∧
      ((Number.ofByte old).read b).buffer = b.advance 1 ∧ Next b 1 e := by
  have hbyte : b.Ahead ([c] ++ e) := h
  have htake := Number.read_ahead (m := Number.ofByte old) (n := Number.ofByte c) rfl hbyte.head
  have hok := htake.ok.2 hlt
  rw [htake.value hok]
  exact ⟨rfl, htake.buffer hok, .of_ahead hbyte rfl hlt⟩

theorem read_string {e s : Bytes} (hs : s.length < 2 ^ 32) (h : b.Ahead (stringBytes s ++ e))
    (hlt : b.read + (4 + s.length) < 2 ^ 64) :
    (readString b).value = s ∧ (readString b).buffer = b.advance (4 + s.length) ∧
      Next b (4 + s.length) e := by
  have htake := readString_ahead hs h.head
  have hok := htake.ok.2 hlt
  exact ⟨htake.value hok, htake.buffer hok, .of_ahead h (length_stringBytes s) hlt⟩

theorem readHeader_frame (u : Uninitialized) (header : UnitHeader) (f : FrontFrame) :
    readHeader u header f.buffer = (⟨f.msgType, f.bodySize⟩, ⟨true, 5, f.buffer.data⟩) := by
  have htype : f.buffer.Ahead (f.msgType :: (bytes32 f.bodySize ++ f.body)) :=
    ⟨rfl, Nat.two_pow_pos 64, Nat.zero_le _, [], (List.append_nil _).symm⟩
  obtain ⟨ht, htb, hnext⟩ := read_byte u.msgType htype (show 0 + 1 < 2 ^ 64 by decide)
  obtain ⟨hs, hsb, -⟩ := read_uint32 header.bodySize hnext.ahead (show 1 + 4 < 2 ^ 64 by decide)
  simp only [readHeader, ht, htb, hs, hsb]
  rfl

theorem ahead_body (f : FrontFrame) : Buffer.Ahead ⟨true, 5, f.buffer.data⟩ f.body :=
  ⟨rfl, show 5 < 2 ^ 64 by decide, Nat.le_add_left 5 f.body.length, [], (List.append_nil _).symm⟩

theorem readLogon_ahead {logon : Logon} (hs : logon.userId.length < 2 ^ 32)
    (hread : b.read < 2 ^ 32)
    (h : b.Ahead (stringBytes logon.userId ++ (bytes32 logon.seqNum ++ bytes32 logon.heartBeat))) :
    readLogon u b = logon := by
  rw [← List.append_nil (bytes32 logon.heartBeat)] at h
  obtain ⟨hv1, hb1, hnext1⟩ := read_string hs h (by omega)
  have hread1 := hnext1.read
  obtain ⟨hv2, hb2, hnext2⟩ := read_uint32 u.seqNum hnext1.ahead (by omega)
  have hread2 := hnext2.read
  obtain ⟨hv3, -, -⟩ := read_uint32 u.heartBeat hnext2.ahead (by omega)
  simp only [readLogon, hb1, hb2, hv1, hv2, hv3]

theorem readOrder_ahead {order : ReadOrder} (hs : order.symbol.length < 2 ^ 32)
    (ho : order.orderId.length < 2 ^ 32) (hread : b.read < 2 ^ 32)
    (h : b.Ahead (stringBytes order.symbol ++ (stringBytes order.orderId ++
      ((bytes32 order.price.bits).reverse ++ ((bytes32 order.quantity.bits).reverse ++
        [order.type]))))) :
    readOrder u b = order := by
  obtain ⟨hv1, hb1, hnext1⟩ := read_string hs h (by omega)
  have hread1 := hnext1.read
  obtain ⟨hv2, hb2, hnext2⟩ := read_string ho hnext1.ahead (by omega)
  have hread2 := hnext2.read
  obtain ⟨hv3, hb3, hnext3⟩ := read_float u.price hnext2.ahead (by omega)
  have hread3 := hnext3.read
  obtain ⟨hv4, hb4, hnext4⟩ := read_float u.quantity hnext3.ahead (by omega)
  have hread4 := hnext4.read
  obtain ⟨hv5, -, -⟩ := read_byte u.side hnext4.ahead (by omega)
  simp only [readOrder, hb1, hb2, hb3, hb4, hv1, hv2, hv3, hv4, hv5]

/-! ## A frame -/

theorem exact_logon (u : Uninitialized) (hsize : f.body.length = stringSize f.body + 4 + 4) :
    f.body = (put ({} : Buffer) (readLogon u ⟨true, 5, f.buffer.data⟩)).data := by
  obtain ⟨s, tail, hs, hbody, hstring⟩ := exists_string (l := f.body) (by omega)
  have htail : tail.length = 4 + 4 := by
    have hlen := congrArg List.length hbody
    rw [List.length_append, length_stringBytes] at hlen
    omega
  obtain ⟨q, hq⟩ := exists_bytes32 (l := tail.take 4) (by rw [List.length_take]; omega)
  obtain ⟨h, hh⟩ := exists_bytes32 (l := tail.drop 4) (by rw [List.length_drop]; omega)
  have hbody' : f.body = stringBytes s ++ (bytes32 q ++ bytes32 h) := by
    rw [← hq, ← hh, List.take_append_drop, hbody]
  have hread : readLogon u ⟨true, 5, f.buffer.data⟩ = ⟨s, q, h⟩ :=
    readLogon_ahead hs (show 5 < 2 ^ 32 by decide) (hbody' ▸ ahead_body f)
  rw [hread, put_logon, Value.encode_string hs, hbody']

theorem exact_order (u : Uninitialized)
    (hsize : f.body.length =
      stringSize f.body + stringSize (f.body.drop (stringSize f.body)) + 4 + 4 + 1)
    (hside : ∃ side ∈ sides, f.body.getLast? = some (enumByte '1'.toNat sides side)) :
    ∃ order : OrderSingle, f.body = (order.put {}).data ∧
      readOrder u ⟨true, 5, f.buffer.data⟩ = readOf order := by
  obtain ⟨s, tail, hs, hbody, hstring⟩ := exists_string (l := f.body) (by omega)
  have hdrop : f.body.drop (stringSize f.body) = tail := by
    rw [hstring, hbody]
    exact List.drop_left' (length_stringBytes s)
  have htail : f.body.length = 4 + s.length + tail.length := by
    rw [hbody, List.length_append, length_stringBytes]
  rw [hdrop, hstring] at hsize
  obtain ⟨o, rest, ho, htail', hstring'⟩ := exists_string (l := tail) (by omega)
  have hrest : rest.length = 4 + 4 + 1 := by
    have hlen := congrArg List.length htail'
    rw [List.length_append, length_stringBytes] at hlen
    omega
  obtain ⟨p, hp⟩ := exists_bytes32 (l := (rest.take 4).reverse)
    (by rw [List.length_reverse, List.length_take]; omega)
  obtain ⟨q, hq⟩ := exists_bytes32 (l := ((rest.drop 4).take 4).reverse)
    (by rw [List.length_reverse, List.length_take, List.length_drop]; omega)
  obtain ⟨c, hc⟩ := List.length_eq_one_iff.1
    (show ((rest.drop 4).drop 4).length = 1 by rw [List.length_drop, List.length_drop]; omega)
  have hbody' : f.body = stringBytes s ++ (stringBytes o ++ ((bytes32 p).reverse ++
      ((bytes32 q).reverse ++ [c]))) := by
    rw [← hp, ← hq, ← hc, List.reverse_reverse, List.reverse_reverse, List.take_append_drop,
      List.take_append_drop, ← htail', hbody]
  obtain ⟨side, -, hlast⟩ := hside
  have hc' : c = enumByte '1'.toNat sides side := by
    rw [hbody', ← List.append_assoc, ← List.append_assoc, ← List.append_assoc,
      List.getLast?_concat] at hlast
    exact Option.some.inj hlast
  refine ⟨⟨s, o, ⟨p⟩, ⟨q⟩, side⟩, ?_, ?_⟩
  · rw [put_orderSingle, Value.encode_string hs, Value.encode_string ho, hbody', hc']
  · have hahead := ahead_body f
    rw [hbody', hc'] at hahead
    exact readOrder_ahead hs ho (show 5 < 2 ^ 32 by decide) hahead

theorem exact_of_put_logon {logon : Logon} (h : f.body = (put ({} : Buffer) logon).data) :
    f.body.length = stringSize f.body + 4 + 4 := by
  rw [h, put_logon, stringSize_encode, List.length_append, List.length_append, length_bytes32,
    length_bytes32]

theorem exact_of_put_order {order : OrderSingle} (h : f.body = (order.put {}).data) :
    f.body.length = stringSize f.body + stringSize (f.body.drop (stringSize f.body)) + 4 + 4 + 1 ∧
      ∃ side ∈ sides, f.body.getLast? = some (enumByte '1'.toNat sides side) := by
  constructor
  · rw [h, put_orderSingle, stringSize_encode, List.drop_left, stringSize_encode]
    simp only [List.length_append, List.length_reverse, length_bytes32, List.length_cons,
      List.length_nil]
    omega
  · refine ⟨order.type, by cases order.type <;> decide, ?_⟩
    rw [h, put_orderSingle, ← List.append_assoc, ← List.append_assoc, ← List.append_assoc,
      List.getLast?_concat]

/-- What the unit does with a frame, whatever the frames before it left in the header. -/
theorem step_frame (u : Uninitialized) (s : State) (f : FrontFrame) : (step u s f.buffer).2 =
    if f.msgType = enumByte 0 MessageType.all .logon then
      some (buildLogon (readLogon u ⟨true, 5, f.buffer.data⟩)).1
    else if f.msgType = enumByte 0 MessageType.all .orderSingle then
      some (buildOrderSingle (readOrder u ⟨true, 5, f.buffer.data⟩))
    else none := by
  rw [step, readHeader_frame]
  dsimp only
  split
  · rfl
  · split <;> rfl

theorem faithful_iff (u : Uninitialized) (s : State) (f : FrontFrame) :
    Faithful f (step u s f.buffer).2 ↔ Exact f := by
  have hne : enumByte 0 MessageType.all .logon ≠ enumByte 0 MessageType.all .orderSingle := by
    decide
  rw [step_frame]
  constructor
  · intro h
    constructor
    · intro hf
      rw [if_pos hf] at h
      rcases h _ rfl with ⟨logon, -, hbody, -⟩ | ⟨-, hf', -⟩
      · exact exact_of_put_logon hbody
      · exact absurd (hf.symm.trans hf') hne
    · intro hf
      rw [if_neg fun hf' => hne (hf'.symm.trans hf), if_pos hf] at h
      rcases h _ rfl with ⟨-, hf', -⟩ | ⟨order, -, hbody, -⟩
      · exact absurd (hf'.symm.trans hf) hne
      · exact exact_of_put_order hbody
  · intro h m hm
    split at hm
    case isTrue hf =>
      obtain rfl := Option.some.inj hm
      exact .inl ⟨_, hf, exact_logon u (h.logon hf), rfl⟩
    case isFalse =>
      split at hm
      case isTrue hf =>
        obtain rfl := Option.some.inj hm
        obtain ⟨hsize, hside⟩ := h.order hf
        obtain ⟨order, hbody, hread⟩ := exact_order u hsize hside
        exact .inr ⟨order, hf, hbody, congrArg buildOrderSingle hread⟩
      case isFalse => cases hm

/-- **Frames that are not encodings.** Whatever the unit's variables hold, it treats a frame as it is
meant to exactly when the sizes in the frame add up to its length. -/
theorem faithful_iff_exact (s : State) (inputs : List (Uninitialized × FrontFrame)) :
    ∀ p ∈ runtime s inputs, Faithful p.1 p.2 ↔ Exact p.1 := by
  induction inputs generalizing s with
  | nil => exact fun p hp => absurd hp List.not_mem_nil
  | cons input inputs ih =>
    intro p hp
    rcases List.mem_cons.1 hp with rfl | hp
    · exact faithful_iff input.1 s input.2
    · exact ih _ p hp

/-- A logon of a user without a name. -/
theorem built_of_logon :
    Faithful ⟨enumByte 0 MessageType.all .logon, 12, [0, 0, 0, 0, 0, 0, 0, 7, 0, 0, 0, 30]⟩
      (some (.logon .none' 31)) := by
  let u : Uninitialized := ⟨0, 50, 0, 0, ⟨7⟩, ⟨9⟩⟩
  let f : FrontFrame :=
    ⟨enumByte 0 MessageType.all .logon, 12, [0, 0, 0, 0, 0, 0, 0, 7, 0, 0, 0, 30]⟩
  have hmem : (f, some (.logon .none' 31)) ∈ runtime ⟨⟨0, 0⟩, ⟨[], 1⟩⟩ [(u, f)] := by
    have hstep : (step u ⟨⟨0, 0⟩, ⟨[], 1⟩⟩ f.buffer).2 = some (.logon .none' 31) := by decide +kernel
    rw [← hstep]
    exact List.mem_singleton_self _
  refine (faithful_iff_exact _ _ _ hmem).2 ⟨fun _ => by decide +kernel, fun h => ?_⟩
  exact absurd h (by decide)

/-- An order without a body: it is built of what lies in the variables. -/
theorem built_of_nothing :
    let u : Uninitialized := ⟨0, 50, 0, 0, ⟨7⟩, ⟨9⟩⟩
    let f : FrontFrame := ⟨enumByte 0 MessageType.all .orderSingle, 0, []⟩
    let message := some (.newOrderSingle [] .manual ⟨9⟩ .limit ⟨7⟩ 50 [])
    runtime ⟨⟨0, 0⟩, ⟨[], 1⟩⟩ [(u, f)] = [(f, message)] ∧ ¬ Faithful f message := by
  intro u f message
  constructor
  · have hstep : (step u ⟨⟨0, 0⟩, ⟨[], 1⟩⟩ f.buffer).2 = message := by decide +kernel
    rw [← hstep]
    rfl
  · intro h
    rcases h _ rfl with ⟨-, hf, -⟩ | ⟨order, -, hbody, -⟩
    · exact absurd hf (by decide)
    · exact absurd (exact_of_put_order hbody).1 (by decide)

end FixBuilder

end Fix42
