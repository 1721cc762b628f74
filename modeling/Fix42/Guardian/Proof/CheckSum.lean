import Fix42.Guardian.CheckSum
import Fix42.Guardian.Proof.FixHelper
import Fix42.Wire.Proof.Corruption

/-!
# When the checksums agree

The server takes the last piece and compares its digits with the sum of the bytes before it
(`verified_iff`); the tool adds up the characters of the pairs (`foldl_addPair`). What one side appends
the other takes where the two sums are the same modulo 256: `verified_addCheckSum` and
`passes_addCheckSum`.
-/

namespace Fix42

namespace Guardian

open Fallible (mapM_concat)
open Getline (join split)
open Utf8 (decode getBytes)
open Wire (checksum fromFix toChars)

variable {Single : Type} {culture : Culture Single} {signs : Signs} {s t r x : Text}
  {m data : Wire.Bytes}

/-! ## Sums -/

theorem foldl_addChar (s : Text) (n : Int) :
    s.foldl addChar (n.bmod (2 ^ 32)) = (n + unitSum s).bmod (2 ^ 32) := by
  induction s generalizing n with
  | nil => rw [List.foldl_nil, unitSum, List.map_nil, List.sum_nil, Int.natCast_zero, Int.add_zero]
  | cons c s ih =>
    have hsum : unitSum (c :: s) = c.toNat + unitSum s := List.sum_cons
    rw [List.foldl_cons, addChar, Int.bmod_add_bmod, ih, hsum, Int.natCast_add, Int.add_assoc]

/-- The number that is shown is the sum of the characters, or negative. -/
theorem shown_nonneg (n : Nat) : 0 ≤ ((n : Int).bmod (2 ^ 32)).tmod 256 ↔
    0 ≤ (n : Int).bmod (2 ^ 32) ∨ n % 256 = 0 := by
  rw [Int.tmod_eq_emod, Int.bmod_def]
  split <;> split <;> omega

theorem shown_eq {n : Nat} (h : 0 ≤ ((n : Int).bmod (2 ^ 32)).tmod 256) :
    (((n : Int).bmod (2 ^ 32)).tmod 256).natAbs = n % 256 := by
  have hmod : (n : Int).bmod (2 ^ 32) % 256 = n % 256 := by
    rw [Int.bmod_def]
    split <;> omega
  rw [Int.tmod_eq_emod] at h ⊢
  split at h <;> rename_i hsign
  · rw [if_pos hsign]
    omega
  · omega

theorem checksum_toNat (m : Wire.Bytes) : (checksum m).toUInt8.toNat = byteSum m % 256 := by
  induction m with
  | nil => rfl
  | cons b m ih =>
    have hsum : byteSum (b :: m) = b.toNat + byteSum m := List.sum_cons
    rw [Wire.checksum_cons, UInt32.toUInt8_add, Wire.toUInt8_charValue, UInt8.toNat_add, ih, hsum]
    omega

theorem foldl_addUnit (s : Text) (n : UInt32) :
    (s.foldl (fun checksum c => checksum + c.toUInt32) n).toNat = (n.toNat + unitSum s) % 2 ^ 32 := by
  induction s generalizing n with
  | nil => exact (Nat.mod_eq_of_lt n.toNat_lt).symm
  | cons c s ih =>
    have hsum : unitSum (c :: s) = c.toNat + unitSum s := List.sum_cons
    rw [List.foldl_cons, ih, UInt32.toNat_add, UInt16.toNat_toUInt32, hsum]
    omega

theorem foldl_addPair (pairs : MapMessage) (n : UInt32) :
    (pairs.foldl addPair n).toNat = (n.toNat + pairSum pairs) % 2 ^ 32 := by
  induction pairs generalizing n with
  | nil => exact (Nat.mod_eq_of_lt n.toNat_lt).symm
  | cons p pairs ih =>
    have hsum : pairSum (p :: pairs) = unitSum (digits p.1.toNat ++ p.2) + 62 + pairSum pairs :=
      List.sum_cons
    rw [List.foldl_cons, ih, addPair, UInt32.toNat_add, foldl_addUnit, hsum]
    simp only [UInt32.reduceToNat]
    omega

/-! ## The server's check -/

/-- The last piece is a CheckSum field with the sum of the bytes before it. -/
theorem verified_iff : Verified data ↔ ∃ ps p v, split Wire.soh data = ps ++ [p] ∧
    split Wire.equals p = [Wire.ascii "10", v] ∧
    fromFix v = .ok (checksum (join Wire.soh ps)).toUInt8 := by
  constructor
  · rintro ⟨ps, p, k, v, map, out, hdata, hp, hverify⟩
    obtain ⟨w, hmap, hw⟩ := Wire.verifyCheckSum_spec hverify
    obtain ⟨-, hpair⟩ := List.append_inj' hmap rfl
    obtain ⟨rfl, rfl⟩ := Prod.mk.inj (List.singleton_inj.1 hpair)
    exact ⟨ps, p, v, hdata, hp, by rw [hw, ← Wire.pieceSum_eq]; rfl⟩
  · rintro ⟨ps, p, v, hdata, hp, hv⟩
    refine ⟨ps, p, _, v, [], [], hdata, hp, ?_⟩
    rw [← Wire.pieceSum_eq, Wire.pieceSum] at hv
    rw [Wire.verifyCheckSum, List.nil_append, List.getLast?_singleton]
    simp [hv, bind, Except.bind]

theorem split_tag {q v : Wire.Bytes} (hq : Wire.equals ∉ q) (hv : v ≠ []) (heq : Wire.equals ∉ v) :
    split Wire.equals (q ++ (Wire.ascii "10=" ++ v)) = [q ++ Wire.ascii "10", v] := by
  have htag : Wire.ascii "10=" = Wire.ascii "10" ++ [Wire.equals] := by decide
  have hten : Wire.equals ∉ q ++ Wire.ascii "10" := by
    rw [List.mem_append, not_or]
    exact ⟨hq, by decide⟩
  rw [htag, List.append_assoc, List.singleton_append, ← List.append_assoc,
    Getline.split_append_cons hten, Getline.split_of_not_mem heq hv]

/-- Behind what is not closed the last piece is not a CheckSum field, as its tag is longer. -/
theorem closed_of_verified {v : Wire.Bytes} (hv : v ≠ []) (hpiece : Wire.soh ∉ Wire.ascii "10=" ++ v)
    (heq : Wire.equals ∉ v) (h : Verified (m ++ (Wire.ascii "10=" ++ (v ++ [Wire.soh])))) :
    m = [] ∨ m.getLast? = some Wire.soh := by
  by_contra hm
  rw [not_or] at hm
  obtain ⟨ps', p, w, hdata, hp, -⟩ := verified_iff.1 h
  obtain ⟨ps, q, hq, hcut⟩ := Getline.split_cut (z := []) hm.1 hm.2 hpiece
  simp only [List.append_assoc] at hcut hdata
  rw [hcut] at hdata
  obtain ⟨-, hlast⟩ := List.append_inj' hdata rfl
  obtain rfl := List.singleton_inj.1 hlast
  -- the piece has no other `=`, so what is left of the message is a part of the tag
  have hlen := congrArg List.length hp
  rw [← List.append_assoc, Getline.length_split_append hv, Getline.split_of_not_mem heq hv,
    List.count_append] at hlen
  have hcount : q.count Wire.equals = 0 := by
    have hone : (Wire.ascii "10=").count Wire.equals = 1 := by decide
    simp only [List.length_cons, List.length_nil] at hlen
    omega
  rw [split_tag (List.count_eq_zero.1 hcount) hv heq] at hp
  have hnil : q = [] := List.append_left_eq_self.1 (List.cons.inj hp).1
  rcases Getline.split_eq_concat hq with ⟨-, hne⟩ | hmsg
  · exact hne hnil
  · rw [← List.append_assoc] at hmsg
    exact hm.2 (hmsg ▸ List.getLast?_concat)

/-- A text is written behind a message as the value of the CheckSum field; the message has to be closed
for the field to be one. -/
theorem verified_value {v : Wire.Bytes} (hv : v ≠ []) (hsoh : Wire.soh ∉ v) (heq : Wire.equals ∉ v) :
    Verified (m ++ (Wire.ascii "10=" ++ (v ++ [Wire.soh]))) ↔
      (m = [] ∨ m.getLast? = some Wire.soh) ∧ fromFix v = .ok (checksum m).toUInt8 := by
  have hpiece : Wire.soh ∉ Wire.ascii "10=" ++ v := by
    rw [List.mem_append, not_or]
    exact ⟨by decide, hsoh⟩
  have hfield : split Wire.equals (Wire.ascii "10=" ++ v) = [Wire.ascii "10", v] :=
    split_tag List.not_mem_nil hv heq
  rw [← and_iff_right_of_imp (closed_of_verified hv hpiece heq)]
  refine and_congr_right fun hm => ?_
  have hjoin : join Wire.soh (split Wire.soh m) = m := by
    rcases hm with rfl | hm
    · rfl
    · exact Getline.join_split hm
  have hsplit : split Wire.soh (m ++ (Wire.ascii "10=" ++ (v ++ [Wire.soh]))) =
      split Wire.soh m ++ [Wire.ascii "10=" ++ v] := by
    conv_lhs => rw [← hjoin]
    rw [Getline.split_join_append fun p hp => Getline.not_mem_of_mem_split hp, ← List.append_assoc,
      Getline.split_append_cons hpiece]
    rfl
  rw [verified_iff]
  constructor
  · rintro ⟨ps, p, w, hdata, hp, hw⟩
    rw [hsplit] at hdata
    obtain ⟨rfl, hlast⟩ := List.append_inj' hdata rfl
    obtain rfl := List.singleton_inj.1 hlast
    rw [hfield] at hp
    cases hp
    rwa [hjoin] at hw
  · intro hw
    exact ⟨_, _, v, hsplit, hfield, by rwa [hjoin]⟩

/-- What the server parses behind a header it forwards if the checksum is right. -/
theorem forwarded_iff_verified {H : Type} {fix : Wire.FixHeader H} {n : BitVec 32} {p : Wire.Parse H}
    (hp : Wire.parse fix n (split Wire.soh data) (Wire.Parse.new fix) = .ok p)
    (hcomplet : p.headerComplet = true) : Wire.Forwarded fix n data ↔ Verified data := by
  constructor
  · intro h
    obtain ⟨ps, q, v, hdata, hq, hv⟩ := Wire.forwarded_sum h
    exact verified_iff.2 ⟨ps, q, v, hdata, hq, hv⟩
  · intro h
    obtain ⟨ps, q, v, hdata, hq, hv⟩ := verified_iff.1 h
    have hparse := hp
    rw [hdata] at hparse
    obtain ⟨t, ht, hlast⟩ := Wire.parse_append.1 hparse
    obtain ⟨u, hu, hnil⟩ := Wire.parse_cons hlast
    cases hnil
    obtain ⟨k, w, hkw, hacc⟩ := Wire.parsePiece_spec hu
    rw [hq] at hkw
    cases hkw
    have hmap : p.map = t.map ++ [(Wire.ascii "10", v)] := by
      cases hacc with
      | body _ _ _ hm => exact hm
      | first _ _ _ _ hm => exact hm
      | header _ hc => simp [hcomplet] at hc
    refine ⟨(p.header, t.map), ?_⟩
    rw [Wire.Server.buildHeader, Wire.buildHeader, hp]
    simp only [bind, Except.bind]
    rw [Wire.parse_sum hparse, Wire.pieceSum_eq, hmap, Wire.verifyCheckSum, List.getLast?_concat]
    simp [hv, bind, Except.bind]

/-! ## What the tool sends -/

theorem ascii_toChars (n : Nat) : ∀ b ∈ toChars n, b.toNat < 0x80 := fun b hb => by
  have hle : b ≤ 57 := (Wire.digit_of_mem_toChars hb).2
  rw [UInt8.le_iff_toNat_le] at hle
  exact Nat.lt_of_le_of_lt hle (by decide)

theorem ascii_tag : ∀ b ∈ Wire.ascii "10=", b.toNat < 0x80 := by
  have hall : ((Wire.ascii "10=").all fun b => b.toNat < 0x80) = true := by decide
  exact fun b hb => of_decide_eq_true (List.all_eq_true.1 hall b hb)

/-- What is sent of a message with a checksum behind it. -/
theorem getBytes_addArbitraryCheckSum (n : Int) :
    getBytes (addArbitraryCheckSum signs t n) =
      getBytes t ++ (Wire.ascii "10=" ++ (getBytes (formatInt signs n) ++ [Wire.soh])) := by
  have hend : getBytes (formatInt signs n ++ [soh]) = getBytes (formatInt signs n) ++ [Wire.soh] :=
    Utf8.getBytes_append_ascii (t := [Wire.soh]) (List.forall_mem_singleton.2 (by decide))
  rw [addArbitraryCheckSum, text, widen, Utf8.getBytes_append_append ascii_tag (by decide), hend]

theorem getBytes_digits (n : Nat) : getBytes (digits n) = toChars n :=
  @Utf8.getBytes_append_ascii [] _ (ascii_toChars n)

theorem not_isDigit_head {u : UInt16} {us : Text} (h : isDigit u = false) :
    ∃ b bs, getBytes (u :: us) = b :: bs ∧ Wire.isDigit b = false := by
  by_cases hu : 0x80 ≤ u.toNat
  · obtain ⟨b, bs, hbytes, hb⟩ := @Utf8.getBytes_head u us hu
    refine ⟨b, bs, hbytes, ?_⟩
    simp only [Wire.isDigit, Bool.and_eq_false_iff, decide_eq_false_iff_not, UInt8.le_iff_toNat_le]
    refine .inr fun hle => ?_
    have := Nat.le_trans hb hle
    simp at this
  · have hunit : u = (u.toUInt8).toUInt16 := UInt16.toNat_inj.1 (by simp; omega)
    refine ⟨u.toUInt8, getBytes us, ?_, ?_⟩
    · have hbytes : getBytes ([] ++ u.toUInt8.toUInt16 :: us) = [] ++ u.toUInt8 :: getBytes us :=
        Utf8.getBytes_cons_ascii (by simp; omega)
      rwa [← hunit] at hbytes
    · rw [hunit] at h
      simp only [isDigit, Wire.isDigit, UInt16.le_iff_toNat_le, UInt8.le_iff_toNat_le,
        UInt8.toNat_toUInt16] at h ⊢
      exact h

/-- A negative number is not read by the server: its sign is no digit. -/
theorem fromFix_negative {n : Int} (h : n < 0) :
    ∀ b, fromFix (getBytes (formatInt signs n)) ≠ .ok b := by
  intro b
  obtain ⟨u, us, hminus⟩ := List.exists_cons_of_ne_nil signs.minus
  have hu : isDigit u = false := signs.noDigit u (by simp [hminus])
  obtain ⟨c, bs, hbytes, hc⟩ := @not_isDigit_head u (us ++ digits n.natAbs) hu
  rw [formatInt, if_pos h, hminus, List.cons_append, hbytes, fromFix,
    List.takeWhile_cons_of_neg (by simp [hc])]
  exact nofun

theorem formatInt_plain (n : Int) : getBytes (formatInt signs n) ≠ [] ∧
    Wire.soh ∉ getBytes (formatInt signs n) ∧ Wire.equals ∉ getBytes (formatInt signs n) := by
  have hmem {c : UInt16} (hc : isDigit c = false) (hminus : c ∉ signs.negative) :
      c ∉ formatInt signs n := by
    rw [formatInt]
    split
    · rw [List.mem_append, not_or]
      exact ⟨hminus, not_mem_digits hc⟩
    · exact not_mem_digits hc
  refine ⟨fun h => ?_, fun h => ?_, fun h => ?_⟩
  · rw [Utf8.getBytes_eq_nil, formatInt] at h
    split at h
    · exact digits_ne_nil _ (List.append_eq_nil_iff.1 h).2
    · exact digits_ne_nil _ h
  · exact hmem (by decide) signs.plain.1 (Utf8.mem_getBytes (by decide) h)
  · exact hmem (by decide) signs.plain.2 (Utf8.mem_getBytes (by decide) h)

/-- **The server takes the tool's checksum** of the texts with `SameSum`. -/
theorem verified_addCheckSum (signs : Signs) (t : Text) :
    Verified (getBytes (addCheckSum signs t)) ↔ SameSum t := by
  obtain ⟨hne, hsoh, heq⟩ := @formatInt_plain signs ((t.foldl addChar 0).tmod 256)
  have hsum : t.foldl addChar 0 = (unitSum t : Int).bmod (2 ^ 32) := by
    simpa using foldl_addChar t 0
  have hclosed : getBytes t = [] ∨ (getBytes t).getLast? = some Wire.soh ↔
      t = [] ∨ t.getLast? = some soh :=
    or_congr Utf8.getBytes_eq_nil (Utf8.getLast?_getBytes (by decide))
  rw [addCheckSum, getBytes_addArbitraryCheckSum, verified_value hne hsoh heq, hclosed, hsum]
  by_cases hshown : 0 ≤ ((unitSum t : Int).bmod (2 ^ 32)).tmod 256
  · have hdigits : getBytes (formatInt signs (((unitSum t : Int).bmod (2 ^ 32)).tmod 256)) =
        toChars (UInt8.ofNat (unitSum t)).toNat := by
      rw [formatInt_natCast hshown, shown_eq hshown, getBytes_digits, UInt8.toNat_ofNat']
    rw [hdigits, Wire.fromFix_toChars, Except.ok.injEq, ← UInt8.toNat_inj, UInt8.toNat_ofNat',
      checksum_toNat]
    exact ⟨fun h => ⟨h.1, (shown_nonneg _).1 hshown, h.2⟩, fun h => ⟨h.closed, h.sum⟩⟩
  · exact iff_of_false (fun h => fromFix_negative (Int.not_le.1 hshown) _ h.2)
      fun h => hshown ((shown_nonneg _).2 h.sign)

/-! ## What the tool reads -/

/-- A text is fields with a SOH each, and what follows them. -/
theorem exists_join (s : Text) : ∃ fs r, s = join soh fs ++ r ∧ (∀ f ∈ fs, soh ∉ f) ∧ soh ∉ r := by
  induction s with
  | nil => exact ⟨[], [], rfl, nofun, List.not_mem_nil⟩
  | cons c s ih =>
    obtain ⟨fs, r, rfl, hfs, hr⟩ := ih
    by_cases hc : c = soh
    · subst hc
      exact ⟨[] :: fs, r, rfl, List.forall_mem_cons.2 ⟨List.not_mem_nil, hfs⟩, hr⟩
    · cases fs with
      | nil => exact ⟨[], c :: r, rfl, hfs, by simp [hr, Ne.symm hc]⟩
      | cons f fs =>
        obtain ⟨hf, hfs⟩ := List.forall_mem_cons.1 hfs
        refine ⟨(c :: f) :: fs, r, by simp, List.forall_mem_cons.2 ⟨?_, hfs⟩, hr⟩
        simp [hf, Ne.symm hc]

/-- What is no row of fields with a SOH each is no map. -/
theorem nil_of_toMap {fs : List Text} {map : MapMessage} (h : ∀ f ∈ fs, soh ∉ f) (hr : soh ∉ r)
    (hmap : toMap culture (join soh fs ++ r) = .ok map) : r = [] := by
  by_contra hne
  rw [toMap, splitOn_join h hr] at hmap
  simp [hne] at hmap

/-- A field is a tag, `=` and a value. -/
theorem toPair_iff {f : Text} {p : UInt16 × Text} : toPair culture f = .ok p ↔
    ∃ k, f = k ++ equals :: p.2 ∧ equals ∉ k ∧ equals ∉ p.2 ∧ toUInt16 culture.signs k = .ok p.1 := by
  constructor
  · intro h
    have hmem : equals ∈ f := by
      by_contra hf
      rw [toPair, List.splitOn_eq_singleton hf] at h
      cases h
    obtain ⟨k, v, rfl, hk⟩ := List.eq_append_cons_of_mem hmem
    have hv : equals ∉ v := by
      intro hv
      obtain ⟨x, y, rfl, hx⟩ := List.eq_append_cons_of_mem hv
      rw [toPair, List.splitOn_append_cons_self_of_not_mem hk,
        List.splitOn_append_cons_self_of_not_mem hx] at h
      cases hy : y.splitOn equals with
      | nil => exact List.splitOn_ne_nil _ _ hy
      | cons z zs =>
        rw [hy] at h
        cases h
    rw [toPair, List.splitOn_append_cons_self_of_not_mem hk, List.splitOn_eq_singleton hv] at h
    dsimp only at h
    cases htag : toUInt16 culture.signs k with
    | error e =>
      rw [htag] at h
      cases h
    | ok tag =>
      rw [htag] at h
      cases h
      exact ⟨k, rfl, hk, hv, htag⟩
  · rintro ⟨k, rfl, hk, hv, htag⟩
    rw [toPair, List.splitOn_append_cons_self_of_not_mem hk, List.splitOn_eq_singleton hv]
    simp only [htag]
    rfl

/-- What stands before an appended CheckSum field gets into its tag. -/
theorem toPair_tail {ds : Text} {p : UInt16 × Text} (hds : equals ∉ ds) :
    toPair culture (r ++ (text "10=" ++ ds)) = .ok p ↔
      equals ∉ r ∧ toUInt16 culture.signs (r ++ text "10") = .ok p.1 ∧ p.2 = ds := by
  have hfield : r ++ (text "10=" ++ ds) = (r ++ text "10") ++ equals :: ds := by
    rw [List.append_assoc]
    rfl
  have htag : equals ∉ r ++ text "10" ↔ equals ∉ r := by
    rw [List.mem_append, not_or, and_iff_left (by decide)]
  rw [toPair_iff, hfield]
  constructor
  · rintro ⟨k, heq, hk, hv, hnumber⟩
    -- the last `=` is the only one
    have hcount := congrArg (List.count equals) heq
    rw [List.count_append, List.count_cons_self, @List.count_append _ _ _ k, List.count_cons_self,
      List.count_eq_zero.2 hds, List.count_eq_zero.2 hk, List.count_eq_zero.2 hv] at hcount
    have hr : equals ∉ r ++ text "10" := List.count_eq_zero.1 (by omega)
    obtain ⟨rfl, -, hvalue⟩ := (List.append_cons_inj_of_notMem hk hv).1 heq.symm
    exact ⟨htag.1 hr, hnumber, hvalue⟩
  · rintro ⟨hr, hnumber, rfl⟩
    exact ⟨_, rfl, htag.2 hr, hds, hnumber⟩

/-! ## What the tool takes -/

/-- The CheckSum pair is the last, and holds the sum of the others. -/
theorem validCheckSum_iff {pairs : MapMessage} {k : UInt16} {n : Nat} (h : n < 2 ^ 32) :
    validCheckSum signs (pairs ++ [(k, digits n)]) = .ok () ↔ k = 10 ∧ n = pairSum pairs % 256 := by
  have hsum : (pairs.foldl addPair 0 % 256).toNat = pairSum pairs % 256 := by
    rw [UInt32.toNat_mod, foldl_addPair]
    simp only [UInt32.reduceToNat]
    omega
  rw [validCheckSum, List.getLast?_concat]
  dsimp only
  rw [List.dropLast_concat, parseUnsigned_digits signs h, hsum]
  by_cases hk : k = 10 <;> by_cases hn : n = pairSum pairs % 256 <;> simp [hk, hn]

/-- What the tool decodes of a message with a checksum behind it. -/
theorem decode_addCheckSum (m : Wire.Bytes) : decode (Wire.addCheckSum m) =
    decode m ++ (text "10=" ++ (digits (checksum m).toUInt8.toNat ++ [soh])) := by
  have hascii : ∀ b ∈ Wire.ascii "10=" ++ toChars (checksum m).toUInt8.toNat ++ [Wire.soh],
      b.toNat < 0x80 := by
    intro b hb
    rcases List.mem_append.1 hb with hb | hb
    · rcases List.mem_append.1 hb with hb | hb
      · exact ascii_tag b hb
      · exact ascii_toChars _ b hb
    · rw [List.mem_singleton.1 hb]
      decide
  rw [Wire.addCheckSum, Utf8.decode_append_of_ascii hascii (by simp)]
  simp only [List.map_append, List.append_assoc]
  rfl

/-- A CheckSum field behind fields and some of a tag. -/
theorem toMap_tail {fs : List Text} {ds : Text} {map : MapMessage} (hfs : ∀ f ∈ fs, soh ∉ f)
    (hr : soh ∉ r) (hds : NoSeparator ds) :
    toMap culture (join soh fs ++ r ++ (text "10=" ++ (ds ++ [soh]))) = .ok map ↔
      ∃ pairs k, toMap culture (join soh fs) = .ok pairs ∧ equals ∉ r ∧
        toUInt16 culture.signs (r ++ text "10") = .ok k ∧ map = pairs ++ [(k, ds)] := by
  have hjoin : join soh fs ++ r ++ (text "10=" ++ (ds ++ [soh])) =
      join soh (fs ++ [r ++ (text "10=" ++ ds)]) := by
    rw [Getline.join_append, Getline.join_cons, Getline.join_nil]
    simp only [List.append_assoc]
  have hpiece : ∀ f ∈ fs ++ [r ++ (text "10=" ++ ds)], soh ∉ f := by
    intro f hf
    rcases List.mem_append.1 hf with hf | hf
    · exact hfs f hf
    · rw [List.mem_singleton.1 hf, List.mem_append, not_or, List.mem_append, not_or]
      exact ⟨hr, by decide, hds.1⟩
  have hblank : (fs ++ [r ++ (text "10=" ++ ds)]).any (·.all isWhiteSpace) =
      fs.any (·.all isWhiteSpace) := by
    have hone : (text "10=").all isWhiteSpace = false := by decide
    simp [hone]
  rw [hjoin, toMap_join hpiece, hblank]
  constructor
  · rintro ⟨hany, hmap⟩
    obtain ⟨pairs, ⟨k, v⟩, hpairs, hp, rfl⟩ := mapM_concat.1 hmap
    obtain ⟨heq, hnumber, rfl⟩ := (toPair_tail hds.2).1 hp
    exact ⟨pairs, k, (toMap_join hfs).2 ⟨hany, hpairs⟩, heq, hnumber, rfl⟩
  · rintro ⟨pairs, k, hmap, heq, hnumber, rfl⟩
    obtain ⟨hany, hpairs⟩ := (toMap_join hfs).1 hmap
    exact ⟨hany, mapM_concat.2 ⟨pairs, (k, ds), hpairs, (toPair_tail hds.2).2 ⟨heq, hnumber, rfl⟩, rfl⟩⟩

/-- The map determines where the bytes are cut. -/
theorem sameMapSum_iff {fs : List Text} (hm : decode m = join soh fs ++ r) (hfs : ∀ f ∈ fs, soh ∉ f)
    (hr : soh ∉ r) : SameMapSum culture m ↔ ∃ pairs, toMap culture (join soh fs) = .ok pairs ∧
      equals ∉ r ∧ toUInt16 culture.signs (r ++ text "10") = .ok 10 ∧
      pairSum pairs % 256 = byteSum m % 256 := by
  constructor
  · rintro ⟨x, r', pairs, hx, ⟨hsoh, heq⟩, hmap, hnumber, hsum⟩
    obtain ⟨gs, q, rfl, hgs, hq⟩ := exists_join x
    obtain rfl := nil_of_toMap hgs hq hmap
    rw [List.append_nil] at hx hmap
    have hsplit := congrArg (List.splitOn soh) (hm.symm.trans hx)
    rw [splitOn_join hfs hr, splitOn_join hgs hsoh] at hsplit
    obtain ⟨rfl, hlast⟩ := List.append_inj' hsplit rfl
    obtain rfl := List.singleton_inj.1 hlast
    exact ⟨pairs, hmap, heq, hnumber, hsum⟩
  · rintro ⟨pairs, hmap, heq, hnumber, hsum⟩
    exact ⟨_, r, pairs, hm, ⟨hr, heq⟩, hmap, hnumber, hsum⟩

/-- **The tool takes the server's checksum** of the bytes with `SameMapSum`. -/
theorem passes_addCheckSum (culture : Culture Single) (m : Wire.Bytes) :
    Passes culture (Wire.addCheckSum m) ↔ SameMapSum culture m := by
  obtain ⟨fs, r, hm, hfs, hr⟩ := exists_join (decode m)
  have hlt : (checksum m).toUInt8.toNat < 2 ^ 32 := Nat.lt_trans (UInt8.toNat_lt _) (by decide)
  rw [Passes, decode_addCheckSum, sameMapSum_iff hm hfs hr, hm]
  constructor
  · rintro ⟨map, hmap, hvalid⟩
    obtain ⟨pairs, k, hpairs, heq, hnumber, rfl⟩ := (toMap_tail hfs hr (noSeparator_digits _)).1 hmap
    obtain ⟨rfl, hsum⟩ := (validCheckSum_iff hlt).1 hvalid
    rw [checksum_toNat] at hsum
    exact ⟨pairs, hpairs, heq, hnumber, hsum.symm⟩
  · rintro ⟨pairs, hpairs, heq, hnumber, hsum⟩
    refine ⟨_, (toMap_tail hfs hr (noSeparator_digits _)).2 ⟨pairs, 10, hpairs, heq, hnumber, rfl⟩,
      (validCheckSum_iff hlt).2 ⟨rfl, ?_⟩⟩
    rw [checksum_toNat, hsum]

/-- The field `58=é`. -/
def accentField : Text := text "58=" ++ [0xE9, soh]

end Guardian

end Fix42
