import Fix42.Lib.Split

/-!
# The segments between separators

A segment of `s` without the separator is maximal if on either side of it is a separator or an end of `s`
(`MaximalSegment`). `maximalSegment_iff` finds them all, in their order, in `List.splitOn`, and
`splitOn_eq` compares that with what a loop of `getline` reads.
-/

namespace Getline

variable {α : Type*} [DecidableEq α] {c : α} {s p x y : List α} {ps l r : List (List α)}

/-- In `s` the segment `p`, behind `x` and before `y`, is without `c` and as long as it can be. -/
structure MaximalSegment (c : α) (s x p y : List α) : Prop where
  text : s = x ++ p ++ y
  free : c ∉ p
  left : x = [] ∨ x.getLast? = some c
  right : y = [] ∨ y.head? = some c

/-- A list is without the separator, or has a first piece with the separator behind it. -/
theorem piece_induction {motive : List α → Prop} (last : ∀ x, c ∉ x → motive x)
    (piece : ∀ x y, c ∉ x → motive y → motive (x ++ c :: y)) (s : List α) : motive s := by
  by_cases hs : c ∈ s
  · obtain ⟨x, y, rfl, hx⟩ := List.eq_append_cons_of_mem hs
    exact piece x y hx (piece_induction last piece y)
  · exact last s hs
  termination_by s.length
  decreasing_by subst_vars; simp; omega

/-! ## Joining -/

omit [DecidableEq α] in
theorem intercalate_cons : [c].intercalate (p :: r) = p ++ r.flatMap (c :: ·) := by
  induction r generalizing p with
  | nil => simp
  | cons q r ih => simp [List.intercalate_cons_cons, ih]

omit [DecidableEq α] in
theorem intercalate_append_cons :
    [c].intercalate (l ++ p :: r) = join c l ++ p ++ r.flatMap (c :: ·) := by
  induction l with
  | nil => exact intercalate_cons
  | cons q l ih =>
    rw [List.cons_append, List.intercalate_cons_of_ne_nil (by simp), ih]
    simp

omit [DecidableEq α] in
theorem intercalate_concat_nil (h : ps ≠ []) :
    [c].intercalate (ps ++ [[]]) = [c].intercalate ps ++ [c] := by
  obtain ⟨qs, q, rfl⟩ := (List.eq_nil_or_concat' ps).resolve_left h
  rw [intercalate_append_cons, intercalate_append_cons, join_append]
  simp

/-! ## splitOn -/

theorem not_mem_of_mem_splitOn (h : p ∈ s.splitOn c) : c ∉ p := by
  induction s using piece_induction (c := c) with
  | last x hx =>
    rw [List.splitOn_eq_singleton hx, List.mem_singleton] at h
    exact h ▸ hx
  | piece x y hx ih =>
    rw [List.splitOn_append_cons_self_of_not_mem hx] at h
    rcases List.mem_cons.1 h with rfl | h
    · exact hx
    · exact ih h

/-- What ends with a separator is pieces, each with a separator behind it. -/
theorem exists_join (h : x = [] ∨ x.getLast? = some c) : ∃ l, (∀ q ∈ l, c ∉ q) ∧ x = join c l := by
  rcases h with rfl | h
  · exact ⟨[], by simp, rfl⟩
  · exact ⟨split c x, fun q hq => not_mem_of_mem_split hq, (join_split h).symm⟩

/-- What starts with a separator is pieces, each with a separator before it. -/
theorem exists_flatMap (h : y = [] ∨ y.head? = some c) :
    ∃ r : List (List α), (∀ q ∈ r, c ∉ q) ∧ y = r.flatMap (c :: ·) := by
  rcases h with rfl | h
  · exact ⟨[], by simp, rfl⟩
  · obtain ⟨z, rfl⟩ := List.head?_eq_some_iff.1 h
    refine ⟨z.splitOn c, fun q hq => not_mem_of_mem_splitOn hq, ?_⟩
    obtain ⟨q, qs, hz⟩ := List.exists_cons_of_ne_nil (List.splitOn_ne_nil c z)
    rw [hz, List.flatMap_cons, List.cons_append, ← intercalate_cons, ← hz, List.intercalate_splitOn]

/-- The segments that are as long as they can be are the pieces. -/
theorem maximalSegment_iff : MaximalSegment c s x p y ↔
    ∃ l r, s.splitOn c = l ++ p :: r ∧ x = join c l ∧ y = r.flatMap (c :: ·) := by
  constructor
  · rintro ⟨rfl, hp, hx, hy⟩
    obtain ⟨l, hl, rfl⟩ := exists_join hx
    obtain ⟨r, hr, rfl⟩ := exists_flatMap hy
    refine ⟨l, r, ?_, rfl, rfl⟩
    rw [← intercalate_append_cons, List.splitOn_intercalate c _ (by simp)]
    intro q hq
    rcases List.mem_append.1 hq with hq | hq
    · exact hl q hq
    · rcases List.mem_cons.1 hq with rfl | hq
      · exact hp
      · exact hr q hq
  · rintro ⟨l, r, hs, rfl, rfl⟩
    have hp : p ∈ s.splitOn c := by simp [hs]
    refine ⟨?_, not_mem_of_mem_splitOn hp, ?_, ?_⟩
    · rw [← intercalate_append_cons, ← hs, List.intercalate_splitOn]
    · by_cases hl : l = []
      · exact .inl (by simp [hl])
      · exact .inr (getLast?_join hl)
    · cases r with
      | nil => exact .inl rfl
      | cons q r => exact .inr rfl

/-- Behind a separator at the end there is one more segment, which is empty. -/
theorem splitOn_eq :
    s.splitOn c = if s = [] ∨ s.getLast? = some c then split c s ++ [[]] else split c s := by
  induction s using piece_induction (c := c) with
  | last x hx =>
    rw [List.splitOn_eq_singleton hx]
    by_cases hnil : x = []
    · simp [hnil]
    · have hlast : x.getLast? ≠ some c := fun h => hx (List.mem_of_getLast? h)
      rw [if_neg (by simp [hnil, hlast]), split_of_not_mem hx hnil]
  | piece x y hx ih =>
    have hlast : (x ++ c :: y).getLast? = some c ↔ y = [] ∨ y.getLast? = some c := by
      cases y <;> simp
    rw [List.splitOn_append_cons_self_of_not_mem hx, split_append_cons hx, ih]
    simp only [hlast, List.append_eq_nil_iff, List.cons_ne_nil, and_false, false_or]
    split <;> rfl

theorem getLast?_split (hs : s ≠ []) (hlast : s.getLast? ≠ some c) : (split c s).getLast? ≠ some [] := by
  intro h
  obtain ⟨ps, hps⟩ := List.getLast?_eq_some_iff.1 h
  rcases split_eq_concat hps with ⟨-, hne⟩ | rfl
  · exact hne rfl
  · exact hlast (by simp)

/-- All segments are read but an empty last one. -/
theorem split_eq_splitOn :
    split c s = if (s.splitOn c).getLast? = some [] then (s.splitOn c).dropLast else s.splitOn c := by
  rw [splitOn_eq]
  by_cases h : s = [] ∨ s.getLast? = some c
  · simp [h]
  · rw [if_neg h]
    obtain ⟨hs, hlast⟩ := not_or.1 h
    rw [if_neg (getLast?_split hs hlast)]

theorem intercalate_split :
    [c].intercalate (split c s) = if s.getLast? = some c then s.dropLast else s := by
  have hs : [c].intercalate (s.splitOn c) = s := List.intercalate_splitOn c
  rw [splitOn_eq] at hs
  by_cases hnil : s = []
  · simp [hnil]
  · by_cases hlast : s.getLast? = some c
    · rw [if_pos (.inr hlast), intercalate_concat_nil (by simpa using hnil)] at hs
      have hdrop := congrArg List.dropLast hs
      rw [List.dropLast_concat] at hdrop
      rw [if_pos hlast, hdrop]
    · rw [if_neg (by simp [hnil, hlast])] at hs
      rw [if_neg hlast, hs]

end Getline
