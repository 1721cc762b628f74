import Fix42.Lib.Fallible
import Fix42.Wire.Input

/-!
# What a parse accepts

`parsePiece_spec` says what one accepted piece does, `parse_complete` and `parse_open` what a row of
accepted pieces does behind and within the header, and `buildHeader_spec` puts a forwarded message
together from them.
-/

namespace Fix42

namespace Wire

open Getline

open Fallible (bind_eq_ok)

variable {H : Type*} {fix : FixHeader H} {n n' : BitVec 32} {s s' : Parse H}

/-! ## One piece -/

/-- A piece that is accepted, read as `k=v`. -/
inductive Accepts (fix : FixHeader H) (k v : Bytes) (s s' : Parse H) : Prop
  | body (complete : s.headerComplet = true) (complete' : s'.headerComplet = true)
    (header : s'.header = s.header) (map : s'.map = s.map ++ [(k, v)])
  | first (complete : s.headerComplet = false) (complete' : s'.headerComplet = true)
    (insert : fix.tryInsert k v s.header = (.ok false, s'.header))
    (verify : verifyHeader fix s'.header s.tagset = none) (map : s'.map = s.map ++ [(k, v)])
  | header (complete : s.headerComplet = false) (complete' : s'.headerComplet = false)
    (insert : fix.tryInsert k v s.header = (.ok true, s'.header)) (map : s'.map = s.map)

theorem parsePiece_spec {p : Bytes} (h : parsePiece fix n s p = .ok s') :
    ∃ k v, split equals p = [k, v] ∧ Accepts fix k v s s' := by
  simp only [parsePiece] at h
  split at h
  · rename_i k v hkv
    refine ⟨k, v, hkv, ?_⟩
    split at h
    · rename_i hc
      cases h
      exact .body hc hc rfl rfl
    · rename_i hc
      have hc : s.headerComplet = false := by simpa using hc
      split at h
      · cases h
      · rename_i header hi
        split at h
        · cases h
        · rename_i hv
          cases h
          exact .first hc rfl hi hv rfl
      · rename_i header hi
        split at h
        · cases h
        · cases h
          exact .header hc hc hi rfl
  · cases h

/-- What is accepted does not depend on the counter. -/
theorem parsePiece_congr {p : Bytes} (h : parsePiece fix n s p = .ok s') :
    parsePiece fix n' s p = .ok s' := by
  simp only [parsePiece] at h ⊢
  split at h
  · split at h
    · rename_i hc
      rw [if_pos hc]
      exact h
    · rename_i hc
      rw [if_neg hc]
      split at h
      · cases h
      · split at h
        · cases h
        · exact h
      · exact h
  · cases h

/-! ## A row of pieces -/

theorem parse_cons_eq {p : Bytes} {ps : List Bytes} :
    parse fix n (p :: ps) s = (parsePiece fix n s p).bind (parse fix n ps) := by
  simp only [parse, List.foldlM_cons]
  rfl

theorem parse_cons {p : Bytes} {ps : List Bytes} (h : parse fix n (p :: ps) s = .ok s') :
    ∃ t, parsePiece fix n s p = .ok t ∧ parse fix n ps t = .ok s' := by
  rw [parse_cons_eq] at h
  exact bind_eq_ok.1 h

theorem parse_append {ps qs : List Bytes} : parse fix n (ps ++ qs) s = .ok s' ↔
    ∃ t, parse fix n ps s = .ok t ∧ parse fix n qs t = .ok s' := by
  rw [parse, List.foldlM_append, bind_eq_ok]
  rfl

theorem parse_congr {ps : List Bytes} (h : parse fix n ps s = .ok s') :
    parse fix n' ps s = .ok s' := by
  induction ps generalizing s with
  | nil => exact h
  | cons p ps ih =>
    obtain ⟨t, hp, h⟩ := parse_cons h
    rw [parse_cons_eq, parsePiece_congr hp]
    exact ih h

/-- Behind the header each piece is one entry of the map. -/
theorem parse_complete {ps : List Bytes} (hs : s.headerComplet = true)
    (h : parse fix n ps s = .ok s') :
    s'.headerComplet = true ∧ s'.map.length = s.map.length + ps.length := by
  induction ps generalizing s with
  | nil =>
    cases h
    exact ⟨hs, rfl⟩
  | cons p ps ih =>
    obtain ⟨t, hp, h⟩ := parse_cons h
    obtain ⟨k, v, -, hacc⟩ := parsePiece_spec hp
    cases hacc with
    | body _ hc _ hm =>
      obtain ⟨hc', hlen⟩ := ih hc h
      refine ⟨hc', ?_⟩
      rw [hlen, hm, List.length_append, List.length_singleton, List.length_cons]
      omega
    | first hc _ _ _ _ =>
      rw [hs] at hc
      cases hc
    | header hc _ _ _ =>
      rw [hs] at hc
      cases hc

/-- Within the header the map is empty. -/
theorem parse_open {ps : List Bytes} (hs : s.headerComplet = false → s.map = [])
    (h : parse fix n ps s = .ok s') : s'.headerComplet = false → s'.map = [] := by
  induction ps generalizing s with
  | nil =>
    cases h
    exact hs
  | cons p ps ih =>
    obtain ⟨t, hp, h⟩ := parse_cons h
    obtain ⟨k, v, -, hacc⟩ := parsePiece_spec hp
    refine ih (fun ht => ?_) h
    cases hacc with
    | body _ hc _ _ =>
      rw [ht] at hc
      cases hc
    | first _ hc _ _ _ =>
      rw [ht] at hc
      cases hc
    | header hc _ _ hm => rw [hm, hs hc]

/-! ## A message -/

theorem verifyCheckSum_spec {checksum : UInt32} {map m : MapMessage}
    (h : verifyCheckSum checksum map = .ok m) :
    ∃ v, map = m ++ [(ascii "10", v)] ∧ fromFix v = .ok checksum.toUInt8 := by
  simp only [verifyCheckSum] at h
  split at h
  · cases h
  · rename_i k v hlast
    split at h
    · rename_i hk
      subst hk
      obtain ⟨out, hv, h⟩ := bind_eq_ok.1 h
      split at h
      · cases h
      · rename_i hout
        cases h
        refine ⟨v, ?_, congrArg Except.ok (not_not.1 hout) |> hv.trans⟩
        exact (List.dropLast_append_getLast? _ hlast).symm
    · cases h

theorem buildHeader_spec {data : Bytes} {x : H × MapMessage}
    (h : buildHeader fix n data = .ok x) :
    ∃ s, parse fix n (split soh data) (Parse.new fix) = .ok s ∧ x.1 = s.header ∧
      ∃ v, s.map = x.2 ++ [(ascii "10", v)] ∧
        fromFix v = .ok (s.checksum - s.lastChecksum).toUInt8 := by
  unfold buildHeader at h
  obtain ⟨s, hs, h⟩ := bind_eq_ok.1 h
  split at h
  · cases h
  · rename_i m hm
    cases h
    obtain ⟨v, hmap, hv⟩ := verifyCheckSum_spec hm
    exact ⟨s, hs, rfl, v, hmap, hv⟩

theorem buildHeader_congr {data : Bytes} {x : H × MapMessage}
    (h : buildHeader fix n data = .ok x) : buildHeader fix n' data = .ok x := by
  unfold buildHeader at h ⊢
  obtain ⟨s, hs, h⟩ := bind_eq_ok.1 h
  refine bind_eq_ok.2 ⟨s, parse_congr hs, ?_⟩
  split at h
  · cases h
  · exact h

/-- Each piece of a forwarded message has a key and a value. -/
theorem length_piece {data : Bytes} {x : H × MapMessage} (h : buildHeader fix n data = .ok x)
    {p : Bytes} (hp : p ∈ split soh data) : (split equals p).length = 2 := by
  obtain ⟨s, hs, -⟩ := buildHeader_spec h
  obtain ⟨ps, qs, hsplit⟩ := List.append_of_mem hp
  rw [hsplit] at hs
  obtain ⟨t, -, hs⟩ := parse_append.1 hs
  obtain ⟨t', hpiece, -⟩ := parse_cons hs
  obtain ⟨k, v, hkv, -⟩ := parsePiece_spec hpiece
  rw [hkv, List.length_cons, List.length_singleton]

end Wire

end Fix42
