import Fix42.Wire.Proof.Grammar
import Fix42.Wire.Proof.RoundTrip

/-!
# One wrong byte

The sum a receiver compares is that of all bytes before the CheckSum field, modulo 256
(`forwarded_sum`), so a frame with one of them replaced is not forwarded: `corruption_detected`. If the
byte is the SOH before the CheckSum field, that field is none any more (`boundary_not_forwarded`).
-/

namespace Fix42

namespace Wire

open Getline

variable {H : Type*} {fix : FixHeader H} {n n' : BitVec 32}

/-! ## The sum of the bytes -/

theorem toUInt8_charValue : ∀ c : UInt8, (charValue c).toUInt8 = c := by
  have h : ∀ k : Fin 256, (charValue (UInt8.ofNat k)).toUInt8 = UInt8.ofNat k := by decide +kernel
  intro c
  have := h ⟨c.toNat, c.toNat_lt⟩
  rwa [UInt8.ofNat_toNat] at this

theorem checksum_cons (c : UInt8) (x : Bytes) : checksum (c :: x) = charValue c + checksum x := by
  rw [← List.singleton_append, checksum_append]
  simp [checksum]

/-- The sum that is compared tells any two bytes at one place from each other. -/
theorem checksum_byte {x y : Bytes} {b c : UInt8}
    (h : (checksum (x ++ b :: y)).toUInt8 = (checksum (x ++ c :: y)).toUInt8) : b = c := by
  have hsum (a : UInt8) : (checksum (x ++ a :: y)).toUInt8 =
      (checksum x).toUInt8 + (a + (checksum y).toUInt8) := by
    rw [checksum_append, checksum_cons, UInt32.toUInt8_add, UInt32.toUInt8_add, toUInt8_charValue]
  rw [hsum b, hsum c] at h
  exact (UInt8.add_left_inj _).1 ((UInt8.add_right_inj _).1 h)

theorem pieceSum_eq (ps : List Bytes) : pieceSum ps = checksum (join soh ps) := by
  induction ps with
  | nil => rfl
  | cons p ps ih =>
    have hp : checksum (p ++ [soh]) = countCheckSum p := by
      rw [checksum_append]
      rfl
    rw [join_cons, List.append_cons, checksum_append, hp, ← ih]
    rfl

/-! ## The last piece -/

/-- The last piece of a forwarded frame is its CheckSum field, which holds the sum of the others. -/
theorem forwarded_sum {data : Bytes} (h : Forwarded fix n data) :
    ∃ ps p v, split soh data = ps ++ [p] ∧ split equals p = [ascii "10", v] ∧
      fromFix v = .ok (checksum (join soh ps)).toUInt8 := by
  obtain ⟨x, h⟩ := h
  obtain ⟨s, hs, -, v, hmap, hv⟩ := buildHeader_spec h
  have hc : s.headerComplet = true := by
    by_contra hc
    have hnil := parse_new hs (by simpa using hc)
    simp [hmap] at hnil
  obtain ⟨ps, p, hsplit⟩ := (List.eq_nil_or_concat' (split soh data)).resolve_left fun hnil => by
    rw [hnil] at hs
    cases hs
    cases hc
  rw [hsplit] at hs
  obtain ⟨t, ht, hlast⟩ := parse_append.1 hs
  obtain ⟨t', hp, hnil⟩ := parse_cons hlast
  cases hnil
  obtain ⟨k, v', hkv, hacc⟩ := parsePiece_spec hp
  have hm : s.map = t.map ++ [(k, v')] := by
    cases hacc with
    | body _ _ _ hm => exact hm
    | first _ _ _ _ hm => exact hm
    | header _ hc' => simp [hc] at hc'
  rw [hm] at hmap
  obtain ⟨-, hpair⟩ := List.append_inj' hmap rfl
  cases hpair
  refine ⟨ps, p, v, hsplit, hkv, ?_⟩
  rw [hv, parse_sum hs, pieceSum_eq]

/-- What stands before the last piece, and what that piece becomes if it is put behind something. -/
theorem checkSumStart_spec {data p : Bytes} {ps : List Bytes} (h : split soh data = ps ++ [p]) :
    ∃ tail, data = join soh ps ++ tail ∧ checkSumStart data = (join soh ps).length ∧ p <+: tail ∧
      ∀ q, soh ∉ q → split soh (q ++ tail) = [q ++ p] := by
  have hp : soh ∉ p := not_mem_of_mem_split (h ▸ List.mem_concat_self)
  rcases split_eq_concat h with ⟨hdata, hne⟩ | hdata
  · refine ⟨p, hdata, ?_, List.prefix_rfl, fun q hq => ?_⟩
    · have hlast : data.getLast? ≠ some soh := by
        rw [hdata, List.getLast?_append_of_ne_nil _ hne]
        exact fun hlast => hp (List.mem_of_getLast? hlast)
      rw [checkSumStart, if_neg hlast, h, List.getLastD_concat, hdata, List.length_append]
      omega
    · exact split_of_not_mem (by simp [hq, hp]) (by simp [hne])
  · refine ⟨p ++ [soh], hdata, ?_, List.prefix_append _ _, fun q hq => ?_⟩
    · have hlast : data.getLast? = some soh := by
        rw [hdata, ← List.append_assoc, List.getLast?_concat]
      rw [checkSumStart, if_pos hlast, h, List.getLastD_concat, hdata, List.length_append,
        List.length_append, List.length_singleton]
      omega
    · rw [← List.append_assoc, split_append_cons (by simp [hq, hp])]
      rfl

/-! ## The wrong byte -/

/-- Without the SOH before it the CheckSum field is part of a piece that has no single `=`. -/
theorem merged_not_forwarded {data p q : Bytes} {b : UInt8} (hq : (split equals q).length = 2)
    (hp : (split equals p).length = 2) (hmem : q ++ b :: p ∈ split soh data) :
    ¬ Forwarded fix n data := by
  rintro ⟨x, h⟩
  have hlen := length_piece h hmem
  have hne : p ≠ [] := by
    rintro rfl
    cases hp
  rw [List.append_cons, length_split_append hne, List.count_append] at hlen
  have hle := length_split_le (c := equals) (l := q)
  omega

/-- The byte is the SOH in front of the CheckSum field `p`, which is merged with the field `q`. -/
theorem boundary_not_forwarded {qs : List Bytes} {q p tail : Bytes} {b : UInt8} (hb : b ≠ soh)
    (hsoh : ∀ a ∈ qs ++ [q], soh ∉ a) (hq : (split equals q).length = 2)
    (hp : (split equals p).length = 2)
    (htail : ∀ q, soh ∉ q → split soh (q ++ tail) = [q ++ p]) :
    ¬ Forwarded fix n (join soh qs ++ q ++ b :: tail) := by
  refine merged_not_forwarded (b := b) hq hp ?_
  have hsohq : soh ∉ q := hsoh q (List.mem_append_right qs (List.mem_singleton_self q))
  rw [List.append_assoc, split_join_append fun a ha => hsoh a (List.mem_append_left _ ha),
    List.append_cons, htail (q ++ [b]) (by simp [hsohq, hb.symm]), ← List.append_cons]
  exact List.mem_concat_self

/-- Of two forwarded frames with the same CheckSum field neither is the other with one byte replaced. -/
theorem replaced_eq {x y tail p : Bytes} {b c : UInt8} (htail : split soh tail = [p])
    (h : Forwarded fix n (x ++ b :: (y ++ soh :: tail)))
    (h' : Forwarded fix n' (x ++ c :: (y ++ soh :: tail))) : b = c := by
  have hpieces (a : UInt8) : split soh (x ++ a :: (y ++ soh :: tail)) =
      split soh (x ++ a :: (y ++ [soh])) ++ [p] := by
    have := split_append_sep (c := soh) (x := x ++ a :: y) (y := tail)
    simpa [htail] using this
  have hjoin (a : UInt8) : join soh (split soh (x ++ a :: (y ++ [soh]))) = x ++ a :: (y ++ [soh]) :=
    join_split (by rw [← List.cons_append, ← List.append_assoc, List.getLast?_concat])
  obtain ⟨ps, q, v, hsplit, hkv, hv⟩ := forwarded_sum h
  obtain ⟨ps', q', v', hsplit', hkv', hv'⟩ := forwarded_sum h'
  rw [hpieces] at hsplit hsplit'
  obtain ⟨rfl, hq⟩ := List.append_inj' hsplit rfl
  obtain ⟨rfl, hq'⟩ := List.append_inj' hsplit' rfl
  cases hq
  cases hq'
  rw [hkv] at hkv'
  cases hkv'
  rw [hv, hjoin, hjoin] at hv'
  exact checksum_byte (Except.ok.inj hv')

theorem exists_at {l : Bytes} {i : Nat} (h : i < l.length) :
    ∃ x c y, l = x ++ c :: y ∧ x.length = i := by
  refine ⟨l.take i, l[i], l.drop (i + 1), ?_, by simp; omega⟩
  rw [← List.drop_eq_getElem_cons h, List.take_append_drop]

/-- **One wrong byte is detected**: no frame is forwarded that differs from a forwarded one in one byte
before its CheckSum field. -/
theorem corruption_detected (fix : FixHeader H) (seqNum : BitVec 32) (data : Bytes)
    (h : Forwarded fix seqNum data) :
    ascii "10=" <+: data.drop (checkSumStart data) ∧
      ∀ seqNum' i b, i < checkSumStart data → data[i]? ≠ some b →
        ¬ Forwarded fix seqNum' (data.set i b) := by
  obtain ⟨ps, p, v, hsplit, hkv, -⟩ := forwarded_sum h
  obtain ⟨tail, hdata, hstart, hprefix, htail⟩ := checkSumStart_spec hsplit
  have hlen : ∀ a ∈ split soh data, (split equals a).length = 2 := by
    obtain ⟨message, hm⟩ := h
    exact fun a ha => length_piece hm ha
  rw [hstart]
  constructor
  · obtain ⟨r, hr, -⟩ := split_key hkv
    rw [hdata, List.drop_left]
    refine List.IsPrefix.trans ⟨r, ?_⟩ hprefix
    rw [hr]
    simp [ascii, equals]
  intro seqNum' i b hi hb h'
  obtain ⟨x, c, y, hjoin, rfl⟩ := exists_at hi
  have hlast : (join soh ps).getLast? = some soh := getLast?_join (by rintro rfl; cases hi)
  rw [hdata, hjoin] at h h' hb
  rw [hjoin, List.getLast?_append_cons] at hlast
  simp only [List.append_assoc, List.cons_append, List.set_append_right _ _ (Nat.le_refl _),
    Nat.sub_self, List.set_cons_zero, List.getElem?_append_right (Nat.le_refl _),
    List.getElem?_cons_zero, ne_eq, Option.some.injEq] at h h' hb
  rcases List.eq_nil_or_concat' y with rfl | ⟨y, d, rfl⟩
  · obtain rfl : c = soh := by simpa using hlast
    obtain ⟨qs, q, rfl⟩ := (List.eq_nil_or_concat' ps).resolve_left (by rintro rfl; cases hi)
    have hmem : ∀ a ∈ qs ++ [q], a ∈ split soh data := fun a ha => by
      rw [hsplit]
      exact List.mem_append_left _ ha
    have hq := hmem q (List.mem_append_right qs (List.mem_singleton_self q))
    rw [join_append, join_cons, join_nil, ← List.append_assoc] at hjoin
    obtain ⟨rfl, -⟩ := List.append_inj' hjoin rfl
    exact boundary_not_forwarded (Ne.symm hb) (fun a ha => not_mem_of_mem_split (hmem a ha))
      (hlen q hq) (by rw [hkv]; rfl) htail h'
  · rw [← List.cons_append, List.getLast?_concat] at hlast
    obtain rfl : d = soh := Option.some.inj hlast
    rw [List.append_assoc] at h h'
    exact hb (replaced_eq (htail [] List.not_mem_nil) h h')

/-- A heartbeat that starts with `9` in place of `8` is not forwarded. -/
theorem heartbeat_corrupted : ¬ Forwarded FixHeader.table 1 (heartbeat.data.set 0 57) :=
  (corruption_detected FixHeader.table 1 heartbeat.data
    ⟨heartbeat.message, by decide +kernel⟩).2 1 0 57 (by decide +kernel) (by decide +kernel)

end Wire

end Fix42
