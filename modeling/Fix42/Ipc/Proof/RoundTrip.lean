import Mathlib.Algebra.Order.BigOperators.Group.List
import Mathlib.Algebra.Order.Group.Nat
import Fix42.Ipc.Message

/-!
# IPC messages come back

`Codes x e`: the stream operators of `x` write and read the bytes `e`. It holds of the types with
operators of their own, and so, operator by operator, of the structures. `ipc_round_trip` is what
follows for the buffers `ipc::Helper` builds.
-/

namespace Fix42

namespace Net

/-- `l` is what is left to read of the bytes `data`. -/
structure Rest (data : Bytes) (b : Buffer) (l : Bytes) : Prop where
  valid : b.valid = true
  same : b.data = data
  bound : b.read ≤ data.length
  left : data.drop b.read = l

@[simp] theorem append_append (b : Buffer) (l l' : Bytes) :
    (b.append l).append l' = b.append (l ++ l') := by
  simp [Buffer.append]

theorem reads_take (data l : Bytes) : Reads (Rest data) (Buffer.take l.length) l (some l) := by
  intro b tail h
  have hlen : b.read + (l.length + tail.length) = data.length := by
    rw [← List.length_append, ← h.left, List.length_drop, Nat.add_sub_cancel' h.bound]
  have hfit : b.read + l.length ≤ data.length := by omega
  have hcheck : b.checkSize l.length = b := by
    rw [Buffer.checkSize, decide_eq_true (h.same ▸ hfit : _ ≤ b.data.length), Bool.and_true]
  have htake : Buffer.take l.length b = (some l, { b with read := b.read + l.length }) := by
    simp only [Buffer.take, hcheck]
    rw [if_pos h.valid, h.same, h.left, List.take_left]
  rw [htake]
  refine ⟨rfl, h.valid, h.same, hfit, ?_⟩
  rw [← List.drop_drop, h.left, List.drop_left]

/-- The stream operators write and read `x` as the bytes `e`. -/
structure Codes {α : Type} [Streamable α] (x : α) (e : Bytes) : Prop where
  put : ∀ b, put b x = b.append e
  extract : ∀ data, Reads (Rest data) extract e x

theorem codes_byte (n : Byte) : Codes n [n] where
  put _ := rfl
  extract data := (reads_take data [n]).last (.pure n)

theorem number32_bytes32 (n : BitVec 32) : number32 (bytes32 n) = n := by
  apply BitVec.eq_of_toNat_eq
  have hn := n.isLt
  simp only [bytes32, number32, BitVec.toNat_ofNat]
  omega

theorem codes_bitVec32 (n : BitVec 32) : Codes n (bytes32 n) where
  put _ := rfl
  extract data := (reads_take data (bytes32 n)).last (.pure_eq (number32_bytes32 n))

theorem codes_float (x : Float32Bits) : Codes x (bytes32 x.bits).reverse where
  put _ := rfl
  extract data := (reads_take data (bytes32 x.bits).reverse).last <| .pure_eq <| by
    rw [List.reverse_reverse, number32_bytes32]

@[simp] theorem length_bytes32 (n : BitVec 32) : (bytes32 n).length = 4 := rfl

@[simp] theorem length_stringBytes (s : Bytes) : (stringBytes s).length = 4 + s.length := by
  rw [stringBytes, List.length_append, length_bytes32]

theorem codes_bytes {s : Bytes} (h : s.length < 2 ^ 32) : Codes s (stringBytes s) := by
  have hlen : (BitVec.ofNat 32 s.length).toNat = s.length := by
    rw [BitVec.toNat_ofNat, Nat.mod_eq_of_lt h]
  have hnum := codes_bitVec32 (BitVec.ofNat 32 s.length)
  constructor
  · intro b
    change (if 0 < (BitVec.ofNat 32 s.length).toNat then (put b _).append (s.take _) else put b _) = _
    rw [hlen, hnum.put, List.take_length]
    cases s with
    | nil => rfl
    | cons c s =>
      rw [if_pos (List.length_pos_iff.2 (List.cons_ne_nil c s)), append_append]
      rfl
  · refine fun data => (hnum.extract data).bind ?_
    rw [hlen]
    cases s with
    | nil => exact .pure _
    | cons c s =>
      rw [chars, if_pos (List.length_pos_iff.2 (List.cons_ne_nil c s))]
      exact (reads_take data _).last (.pure _)

end Net

namespace Ipc

open Net

theorem enumOf_enumByte {α : Type} [DecidableEq α] {first : Nat} {all : List α} {x : α}
    (hx : x ∈ all) (hb : first + all.length ≤ 256) :
    enumOf first all (enumByte first all x) = some x := by
  have hlt : all.idxOf x < all.length := List.idxOf_lt_length_of_mem hx
  have hval : (enumByte first all x).toNat = first + all.idxOf x := by
    rw [enumByte, BitVec.toNat_ofNat, Nat.mod_eq_of_lt (by omega)]
  rw [enumOf, hval, if_pos (Nat.le_add_right _ _), Nat.add_sub_cancel_left,
    List.getElem?_eq_getElem hlt, List.getElem_idxOf]

theorem side_enum (side : Side) :
    enumOf '1'.toNat sides (enumByte '1'.toNat sides side) = some side :=
  enumOf_enumByte (by cases side <;> decide) (by decide)

theorem type_enum (type : MessageType) :
    enumOf 0 MessageType.all (enumByte 0 MessageType.all type) = some type :=
  enumOf_enumByte (by cases type <;> decide) (by decide)

theorem status_enum (status : PUStatus) :
    enumOf 0 PUStatus.all (enumByte 0 PUStatus.all status) = some status :=
  enumOf_enumByte (by cases status <;> decide) (by decide)

/-! ## The header -/

/-- The bytes of a header. -/
def headerBytes (h : Header) : Bytes :=
  [enumByte 0 MessageType.all h.msgType] ++ bytes32 h.bodySize

theorem put_header (b : Buffer) (h : Header) : h.put b = b.append (headerBytes h) := by
  rw [Header.put, (codes_byte _).put, (codes_bitVec32 _).put, append_append]
  rfl

theorem reads_header (data : Bytes) (h : Header) :
    Reads (Rest data) Header.extract (headerBytes h) (some h) := by
  refine ((codes_byte _).extract data).bind (((codes_bitVec32 h.bodySize).extract data).last ?_)
  rw [type_enum]
  exact .pure _

/-- What `ipc::Helper` builds around a body of the bytes `e`. -/
theorem build_spec {type : MessageType} {size : Nat} {body : Buffer → Buffer} {e : Bytes}
    {m : Message} (hbody : ∀ b, body b = b.append e)
    (hread : ∀ data, Reads (Rest data) (extractBody type) e (some m)) (hsize : e.length = size) :
    Received (Helper.build type size body) m ∧
      (Sized (Helper.build type size body) ↔
        (Helper.build type size body).data.length - Header.size < 2 ^ 32) := by
  let header : Header := ⟨type, BitVec.ofNat 32 size⟩
  have hbuild : Helper.build type size body = ⟨true, 0, headerBytes header ++ e⟩ := by
    rw [Helper.build, hbody, put_header]
    rfl
  have hrest : Rest (headerBytes header ++ e) (Helper.build type size body)
      (headerBytes header ++ (e ++ [])) := by
    rw [hbuild, List.append_nil]
    exact ⟨rfl, rfl, Nat.zero_le _, rfl⟩
  have hlen : (Helper.build type size body).data.length - Header.size = size := by
    rw [hbuild, List.length_append, hsize]
    exact Nat.add_sub_cancel_left Header.size size
  constructor
  · have hdecode : Reads (Rest (headerBytes header ++ e)) decode (headerBytes header ++ e)
        (some (header, m)) := (reads_header _ header).bind ((hread _).last (.pure _))
    obtain ⟨hval, hend⟩ := hdecode _ [] (by rwa [List.append_assoc])
    have hread := Nat.le_antisymm hend.bound (List.drop_eq_nil_iff.1 hend.left)
    exact ⟨⟨header, hval⟩, hend.valid, hread.trans (by rw [hbuild])⟩
  · rw [Sized, hlen, (reads_header _ header _ _ hrest).1]
    simp only [Option.some.injEq, exists_eq_left', header, BitVec.toNat_ofNat]
    exact ⟨fun h => h ▸ Nat.mod_lt _ (by decide), Nat.mod_eq_of_lt⟩

/-! ## The structures -/

section
variable {α β γ δ : Type} [Streamable α] [Streamable β] [Streamable γ] [Streamable δ]
variable {x : α} {y : β} {z : γ} {w : δ} {e e' e'' : Bytes}

/-- A structure of one field. -/
theorem codes_one (mk : α → δ) (hx : Codes x e) (hput : ∀ b, put b w = put b x)
    (hext : extract = (do let x ← extract; return mk x)) (hw : mk x = w) : Codes w e where
  put b := by rw [hput, hx.put]
  extract data := by
    rw [hext]
    exact (hx.extract data).last (.pure_eq hw)

theorem codes_two (mk : α → β → δ) (hx : Codes x e) (hy : Codes y e')
    (hput : ∀ b, put b w = put (put b x) y)
    (hext : extract = (do let x ← extract; let y ← extract; return mk x y)) (hw : mk x y = w) :
    Codes w (e ++ e') where
  put b := by rw [hput, hx.put, hy.put, append_append]
  extract data := by
    rw [hext]
    exact (hx.extract data).bind ((hy.extract data).last (.pure_eq hw))

theorem codes_three (mk : α → β → γ → δ) (hx : Codes x e) (hy : Codes y e') (hz : Codes z e'')
    (hput : ∀ b, put b w = put (put (put b x) y) z)
    (hext : extract = (do let x ← extract; let y ← extract; let z ← extract; return mk x y z))
    (hw : mk x y z = w) : Codes w (e ++ (e' ++ e'')) where
  put b := by rw [hput, hx.put, hy.put, hz.put, append_append, append_append]
  extract data := by
    rw [hext]
    exact (hx.extract data).bind ((hy.extract data).bind ((hz.extract data).last (.pure_eq hw)))

end

/-- A message of a structure with stream operators. -/
theorem message_spec {α : Type} [Streamable α] {x : α} {e : Bytes} {type : MessageType}
    {mk : α → Message} {size : Nat} (h : Codes x e)
    (hbody : extractBody type = extract >>= fun x => pure (some (mk x))) (hsize : e.length = size) :
    Received (Helper.build type size (put · x)) (mk x) ∧
      (Sized (Helper.build type size (put · x)) ↔
        (Helper.build type size (put · x)).data.length - Header.size < 2 ^ 32) :=
  build_spec h.put (fun data => hbody ▸ (h.extract data).last (.pure _)) hsize

/-- The bytes of an order. -/
def OrderSingle.bytes (order : OrderSingle) : Bytes :=
  stringBytes order.symbol ++ (stringBytes order.orderId ++ ((bytes32 order.price.bits).reverse ++
    ((bytes32 order.quantity.bits).reverse ++ [enumByte '1'.toNat sides order.type])))

theorem put_order {order : OrderSingle} (hs : order.symbol.length < 2 ^ 32)
    (ho : order.orderId.length < 2 ^ 32) (b : Buffer) : order.put b = b.append order.bytes := by
  simp only [OrderSingle.put, (codes_bytes hs).put, (codes_bytes ho).put, (codes_float _).put,
    (codes_byte _).put, append_append, OrderSingle.bytes, List.append_assoc]

theorem reads_order {order : OrderSingle} (hs : order.symbol.length < 2 ^ 32)
    (ho : order.orderId.length < 2 ^ 32) (data : Bytes) :
    Reads (Rest data) OrderSingle.extract order.bytes (some order) := by
  refine ((codes_bytes hs).extract data).bind <| ((codes_bytes ho).extract data).bind <|
    ((codes_float order.price).extract data).bind <|
    ((codes_float order.quantity).extract data).bind <|
    ((codes_byte _).extract data).last (.pure_eq ?_)
  rw [side_enum]
  rfl

theorem length_order (order : OrderSingle) : order.bytes.length =
    4 * 2 + order.symbol.length + order.orderId.length + 4 + 4 + 1 := by
  simp only [OrderSingle.bytes, List.length_append, length_stringBytes, List.length_reverse,
    length_bytes32, List.length_cons, List.length_nil]
  omega

/-- The bytes of an execution. -/
def Execution.bytes (exec : Execution) : Bytes :=
  stringBytes exec.symbol ++ (stringBytes exec.orderId ++ (stringBytes exec.execId ++
    ((bytes32 exec.avgPrice.bits).reverse ++ ((bytes32 exec.price.bits).reverse ++
    ([enumByte '1'.toNat sides exec.side] ++ ((bytes32 exec.quantity.bits).reverse ++
    (bytes32 exec.remainQty.bits).reverse))))))

theorem put_execution {exec : Execution} (hs : exec.symbol.length < 2 ^ 32)
    (ho : exec.orderId.length < 2 ^ 32) (he : exec.execId.length < 2 ^ 32) (b : Buffer) :
    exec.put b = b.append exec.bytes := by
  simp only [Execution.put, (codes_bytes hs).put, (codes_bytes ho).put, (codes_bytes he).put,
    (codes_float _).put, (codes_byte _).put, append_append, Execution.bytes, List.append_assoc]

theorem reads_execution {exec : Execution} (hs : exec.symbol.length < 2 ^ 32)
    (ho : exec.orderId.length < 2 ^ 32) (he : exec.execId.length < 2 ^ 32) (data : Bytes) :
    Reads (Rest data) Execution.extract exec.bytes (some exec) := by
  refine ((codes_bytes hs).extract data).bind <| ((codes_bytes ho).extract data).bind <|
    ((codes_bytes he).extract data).bind <| ((codes_float exec.avgPrice).extract data).bind <|
    ((codes_float exec.price).extract data).bind <| ((codes_byte _).extract data).bind <|
    ((codes_float exec.quantity).extract data).bind <|
    ((codes_float exec.remainQty).extract data).last (.pure_eq ?_)
  rw [side_enum]
  rfl

theorem length_execution (exec : Execution) : exec.bytes.length = 4 * 3 + exec.symbol.length +
    exec.orderId.length + exec.execId.length + 4 * 2 + 1 + 4 * 2 := by
  simp only [Execution.bytes, List.length_append, length_stringBytes, List.length_reverse,
    length_bytes32, List.length_cons, List.length_nil]
  omega

/-- **Round trip.** A message whose strings total fewer than 2^32 bytes comes back, with every byte
read, and the header says how many bytes follow it iff their number is less than 2^32. -/
theorem ipc_round_trip (m : Message) (h : m.stringSize < 2 ^ 32) :
    Received m.encode m ∧ (Sized m.encode ↔ m.encode.data.length - Header.size < 2 ^ 32) := by
  -- each string is no longer than all of them
  have hlen : ∀ s ∈ m.strings, s.length < 2 ^ 32 := fun s hs =>
    (List.le_sum_of_mem (List.mem_map_of_mem hs)).trans_lt h
  cases m with
  | reject m =>
    have hm := codes_bytes (hlen m.message (by simp [Message.strings]))
    exact message_spec (codes_one Reject.mk hm (fun _ => rfl) rfl rfl) rfl (length_stringBytes _)
  | frontToInitiatorAuth m =>
    have ha := codes_bytes (hlen m.apikey (by simp [Message.strings]))
    have hn := codes_bytes (hlen m.name (by simp [Message.strings]))
    refine message_spec (codes_two AuthFrontToInitiator.mk ha hn (fun _ => rfl) rfl rfl) rfl ?_
    rw [List.length_append, length_stringBytes, length_stringBytes]
    omega
  | initiatorToFrontAuth m =>
    have hn := codes_bytes (hlen m.name (by simp [Message.strings]))
    exact message_spec (codes_one AuthInitiatorToFront.mk hn (fun _ => rfl) rfl rfl) rfl
      (length_stringBytes _)
  | backToInitiatorAuth m =>
    have ha := codes_bytes (hlen m.apikey (by simp [Message.strings]))
    refine message_spec (codes_two AuthBackToInitiator.mk ha (codes_bitVec32 m.port) (fun _ => rfl)
      rfl rfl) rfl ?_
    rw [List.length_append, length_stringBytes, length_bytes32]
    omega
  | initiatorToBackAuth m =>
    have ht := codes_bytes (hlen m.token (by simp [Message.strings]))
    have ha := codes_bytes (hlen m.apikey (by simp [Message.strings]))
    refine message_spec (codes_two AuthInitiatorToBack.mk ht ha (fun _ => rfl) rfl rfl) rfl ?_
    rw [List.length_append, length_stringBytes, length_stringBytes]
    omega
  | initiatorToFrontValidToken m =>
    have ht := codes_bytes (hlen m.token (by simp [Message.strings]))
    refine message_spec (codes_two InitiatorToFrontValidToken.mk ht (codes_bitVec32 m.port)
      (fun _ => rfl) rfl rfl) rfl ?_
    rw [List.length_append, length_stringBytes, length_bytes32]
    omega
  | frontToBackValidToken m | backToFrontValidToken m =>
    have ht := codes_bytes (hlen m.token (by simp [Message.strings]))
    exact message_spec (codes_one FrontToBackValidToken.mk ht (fun _ => rfl) rfl rfl) rfl
      (length_stringBytes _)
  | handShakeAuth =>
    have hread : ∀ data, Reads (Rest data) (extractBody .handShakeAuth) [] (some .handShakeAuth) :=
      fun _ => .pure _
    have hid : ∀ b : Buffer, id b = b.append [] := fun b => by
      rw [Buffer.append, List.append_nil]
      rfl
    exact build_spec hid hread rfl
  | status m =>
    have hb := codes_byte (enumByte 0 PUStatus.all m)
    refine build_spec hb.put (fun data => (hb.extract data).last (.pure_eq ?_)) rfl
    rw [status_enum]
    rfl
  | logon m =>
    have hu := codes_bytes (hlen m.userId (by simp [Message.strings]))
    refine message_spec (codes_three Logon.mk hu (codes_bitVec32 m.seqNum)
      (codes_bitVec32 m.heartBeat) (fun _ => rfl) rfl rfl) rfl ?_
    rw [List.length_append, List.length_append, length_stringBytes, length_bytes32, length_bytes32]
    omega
  | orderSingle m =>
    have hs := hlen m.symbol (by simp [Message.strings])
    have ho := hlen m.orderId (by simp [Message.strings])
    exact build_spec (put_order hs ho) (fun data => (reads_order hs ho data).last (.pure _))
      (length_order m)
  | execNew m | execEvent m =>
    have hs := hlen m.symbol (by simp [Message.strings])
    have ho := hlen m.orderId (by simp [Message.strings])
    have he := hlen m.execId (by simp [Message.strings])
    exact build_spec (put_execution hs ho he)
      (fun data => (reads_execution hs ho he data).last (.pure _)) (length_execution m)

/-- A reject whose text, with its length, fills 2^32 bytes: the header says that none follow. -/
theorem ipc_size_wraps : ∃ m : Reject, (Message.reject m).stringSize < 2 ^ 32 ∧
    (∃ header, (Header.extract (Helper.reject m)).1 = some header ∧ header.bodySize = 0) ∧
    (Helper.reject m).data.length = Header.size + 2 ^ 32 ∧ ¬ Sized (Helper.reject m) := by
  let m : Reject := ⟨List.replicate (2 ^ 32 - 4) 0⟩
  have hlen : m.message.length = 2 ^ 32 - 4 := List.length_replicate
  have hm := codes_bytes (s := m.message) (by rw [hlen]; decide)
  have hput := (codes_one Reject.mk hm (fun _ => rfl) rfl rfl : Codes m _).put
  have hbuild : Helper.reject m = ⟨true, 0, headerBytes ⟨.reject, 0⟩ ++ stringBytes m.message⟩ := by
    rw [Helper.reject, Helper.build, hlen, hput, put_header]
    rfl
  have hheader : (Header.extract (Helper.reject m)).1 = some ⟨.reject, 0⟩ := by
    refine (reads_header (Helper.reject m).data ⟨.reject, 0⟩ _ (stringBytes m.message) ?_).1
    rw [hbuild]
    exact ⟨rfl, rfl, Nat.zero_le _, rfl⟩
  have hdata : (Helper.reject m).data.length = Header.size + 2 ^ 32 := by
    rw [hbuild, List.length_append, length_stringBytes, hlen]
    rfl
  refine ⟨m, ?_, ⟨_, hheader, rfl⟩, hdata, ?_⟩
  · simp only [Message.stringSize, Message.strings, List.map_cons, List.map_nil, List.sum_cons,
      List.sum_nil, hlen]
    decide
  · rintro ⟨header, hextract, hsize⟩
    rw [hheader, Option.some.injEq] at hextract
    rw [hdata, ← hextract] at hsize
    exact absurd hsize (by decide)

/-- An execution is read back; its strings and fields fill 32 bytes. -/
theorem ipc_round_trip_execution :
    let m : Message := .execEvent
      { symbol := [65], orderId := [49], execId := [50], avgPrice := ⟨0⟩, price := ⟨1⟩, side := .sell,
        quantity := ⟨2⟩, remainQty := ⟨3⟩ }
    m.encode.data.length = Header.size + 32 ∧ Received m.encode m ∧ Sized m.encode := by
  intro m
  have hlen : m.encode.data.length = Header.size + 32 := by decide
  obtain ⟨hrec, hsized⟩ := ipc_round_trip m (by decide)
  exact ⟨hlen, hrec, hsized.2 (by rw [hlen]; decide)⟩

end Ipc

end Fix42
