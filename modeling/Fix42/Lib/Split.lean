import Mathlib.Data.List.Basic
import Mathlib.Data.List.Count

/-!
# Splitting a list at a separator

`split c l` is what a loop of `getline` with the delimiter `c` reads from `l`: the pieces between the
separators, and what follows the last separator unless that is empty.

`split_append_sep` takes a list apart behind a separator, `split_cut` in the middle of a piece, and
`length_split_append` counts the pieces. `join` puts pieces together again; what that loses is said by
`join_split` and `split_eq_pair`: whether the list ended with a separator.
-/

namespace Getline

variable {α : Type*} [DecidableEq α]

def split (c : α) : List α → List (List α)
  | [] => []
  | a :: l =>
    if a = c then [] :: split c l
    else match split c l with
      | [] => [[a]]
      | p :: ps => (a :: p) :: ps

variable {c a : α} {l x y z p : List α}

@[simp] theorem split_nil : split c ([] : List α) = [] := rfl

@[simp] theorem split_cons_self : split c (c :: l) = [] :: split c l := by simp [split]

theorem split_cons_nil (ha : a ≠ c) (h : split c l = []) : split c (a :: l) = [[a]] := by
  simp [split, ha, h]

theorem split_cons_cons {ps : List (List α)} (ha : a ≠ c) (h : split c l = p :: ps) :
    split c (a :: l) = (a :: p) :: ps := by
  simp [split, ha, h]

@[simp] theorem split_eq_nil : split c l = [] ↔ l = [] := by
  cases l with
  | nil => simp
  | cons a l =>
    by_cases ha : a = c
    · simp [ha]
    · cases h : split c l with
      | nil => simp [split_cons_nil ha h]
      | cons p ps => simp [split_cons_cons ha h]

theorem not_mem_of_mem_split (h : p ∈ split c l) : c ∉ p := by
  induction l generalizing p with
  | nil => cases h
  | cons a l ih =>
    by_cases ha : a = c
    · subst ha
      rw [split_cons_self] at h
      rcases List.mem_cons.1 h with rfl | h
      · exact List.not_mem_nil
      · exact ih h
    · cases hs : split c l with
      | nil =>
        rw [split_cons_nil ha hs, List.mem_singleton] at h
        subst h
        simpa using Ne.symm ha
      | cons q qs =>
        rw [hs] at ih
        rw [split_cons_cons ha hs] at h
        rcases List.mem_cons.1 h with rfl | h
        · have := ih (p := q) List.mem_cons_self
          simpa [Ne.symm ha] using this
        · exact ih (List.mem_cons_of_mem _ h)

theorem mem_of_mem_split (hp : p ∈ split c l) (ha : a ∈ p) : a ∈ l := by
  induction l generalizing p with
  | nil => cases hp
  | cons b l ih =>
    by_cases hb : b = c
    · subst hb
      rw [split_cons_self] at hp
      rcases List.mem_cons.1 hp with rfl | hp
      · cases ha
      · exact List.mem_cons_of_mem _ (ih hp ha)
    · cases hs : split c l with
      | nil =>
        rw [split_cons_nil hb hs, List.mem_singleton] at hp
        subst hp
        exact List.mem_cons.2 (.inl (List.mem_singleton.1 ha))
      | cons q qs =>
        rw [hs] at ih
        rw [split_cons_cons hb hs] at hp
        rcases List.mem_cons.1 hp with rfl | hp
        · rcases List.mem_cons.1 ha with rfl | ha
          · exact List.mem_cons_self
          · exact List.mem_cons_of_mem _ (ih List.mem_cons_self ha)
        · exact List.mem_cons_of_mem _ (ih (List.mem_cons_of_mem _ hp) ha)

theorem forall_ne_of_not_mem (h : c ∉ x) : ∀ a ∈ x, decide (a ≠ c) = true := by
  intro a ha
  rw [decide_eq_true_eq]
  rintro rfl
  exact h ha

/-! ## Behind a separator -/

theorem split_append_cons (h : c ∉ x) : split c (x ++ c :: y) = x :: split c y := by
  induction x with
  | nil => simp
  | cons a x ih =>
    rw [List.mem_cons, not_or] at h
    exact split_cons_cons (Ne.symm h.1) (ih h.2)

theorem split_of_not_mem (h : c ∉ x) (hx : x ≠ []) : split c x = [x] := by
  induction x with
  | nil => cases hx rfl
  | cons a x ih =>
    rw [List.mem_cons, not_or] at h
    by_cases hx' : x = []
    · subst hx'
      exact split_cons_nil (Ne.symm h.1) rfl
    · exact split_cons_cons (Ne.symm h.1) (ih h.2 hx')

theorem split_append_sep : split c (x ++ c :: y) = split c (x ++ [c]) ++ split c y := by
  induction x with
  | nil => simp
  | cons a x ih =>
    by_cases ha : a = c
    · subst ha
      simp only [List.cons_append, split_cons_self, ih]
    · cases hs : split c (x ++ [c]) with
      | nil => simp at hs
      | cons p ps =>
        rw [hs, List.cons_append] at ih
        rw [List.cons_append, split_cons_cons ha ih, List.cons_append, split_cons_cons ha hs,
          List.cons_append]

theorem split_key {k q : List α} {qs : List (List α)} (h : split c p = k :: q :: qs) :
    ∃ r, p = k ++ c :: r ∧ c ∉ k := by
  have hk : c ∉ k := not_mem_of_mem_split (h ▸ List.mem_cons_self)
  by_cases hp : c ∈ p
  · obtain ⟨x, y, rfl, hx⟩ := List.eq_append_cons_of_mem hp
    rw [split_append_cons hx] at h
    obtain ⟨rfl, -⟩ := List.cons.inj h
    exact ⟨y, rfl, hx⟩
  · have hne : p ≠ [] := by
      rintro rfl
      cases h
    rw [split_of_not_mem hp hne] at h
    cases h

/-- A beginning of a list that goes on behind `y` has a beginning of `y` as a piece. -/
theorem exists_mem_split (hx : x ≠ []) (hy : c ∉ y) (h : x ++ l = y ++ c :: z) :
    ∃ y₁ y₂, y = y₁ ++ y₂ ∧ y₁ ∈ split c x := by
  rcases List.append_eq_append_iff.1 h with ⟨a, rfl, -⟩ | ⟨a, rfl, ha⟩
  · refine ⟨x, a, rfl, ?_⟩
    rw [split_of_not_mem (fun hc => hy (List.mem_append_left _ hc)) hx]
    exact List.mem_singleton_self x
  · refine ⟨y, [], (List.append_nil y).symm, ?_⟩
    cases a with
    | nil =>
      rw [List.append_nil] at hx ⊢
      rw [split_of_not_mem hy hx]
      exact List.mem_singleton_self y
    | cons b a =>
      rw [List.cons_append] at ha
      obtain ⟨rfl, -⟩ := List.cons.inj ha
      rw [split_append_cons hy]
      exact List.mem_cons_self

/-! ## In the middle of a piece -/

/-- A list whose last element is no separator, cut off from `y` up to the next one. -/
theorem split_cut (hx : x ≠ []) (hlast : x.getLast? ≠ some c) (hy : c ∉ y) :
    ∃ ps p, split c x = ps ++ [p] ∧ split c (x ++ y ++ c :: z) = ps ++ (p ++ y) :: split c z := by
  induction x with
  | nil => cases hx rfl
  | cons a x ih =>
    by_cases hx' : x = []
    · subst hx'
      have ha : a ≠ c := by simpa using hlast
      refine ⟨[], [a], split_cons_nil ha rfl, ?_⟩
      exact split_append_cons (by simpa [Ne.symm ha] using hy)
    · obtain ⟨ps, p, h1, h2⟩ := ih hx' (by
        rwa [List.getLast?_cons_of_ne_nil hx'] at hlast)
      rw [List.cons_append, List.cons_append]
      by_cases ha : a = c
      · subst ha
        exact ⟨[] :: ps, p, by simp [h1], by simp only [split_cons_self, h2, List.cons_append]⟩
      · cases ps with
        | nil => exact ⟨[], a :: p, split_cons_cons ha h1, split_cons_cons ha h2⟩
        | cons q qs => exact ⟨(a :: q) :: qs, p, split_cons_cons ha h1, split_cons_cons ha h2⟩

/-! ## Putting the pieces together -/

/-- The pieces, each with a separator behind it. -/
def join (c : α) (ps : List (List α)) : List α := ps.flatMap (· ++ [c])

omit [DecidableEq α] in
@[simp] theorem join_nil : join c [] = [] := rfl

omit [DecidableEq α] in
@[simp] theorem join_cons {ps : List (List α)} : join c (p :: ps) = p ++ c :: join c ps := by
  simp [join]

omit [DecidableEq α] in
theorem join_append {ps qs : List (List α)} : join c (ps ++ qs) = join c ps ++ join c qs :=
  List.flatMap_append

theorem split_join_append {ps : List (List α)} (h : ∀ p ∈ ps, c ∉ p) :
    split c (join c ps ++ l) = ps ++ split c l := by
  induction ps with
  | nil => rfl
  | cons p ps ih =>
    rw [join_cons, List.append_assoc, List.cons_append, split_append_cons (h p List.mem_cons_self),
      ih fun q hq => h q (List.mem_cons_of_mem _ hq)]
    rfl

theorem split_join {ps : List (List α)} (h : ∀ p ∈ ps, c ∉ p) : split c (join c ps) = ps := by
  simpa using split_join_append (l := []) h

/-- The first piece ends at a separator, or is the whole list. -/
theorem split_eq_cons {ps : List (List α)} (h : split c l = p :: ps) :
    c ∉ p ∧ ((l = p ∧ p ≠ [] ∧ ps = []) ∨ ∃ r, l = p ++ c :: r ∧ split c r = ps) := by
  refine ⟨not_mem_of_mem_split (h ▸ List.mem_cons_self), ?_⟩
  by_cases hl : c ∈ l
  · obtain ⟨x, r, rfl, hx⟩ := List.eq_append_cons_of_mem hl
    rw [split_append_cons hx] at h
    obtain ⟨rfl, rfl⟩ := List.cons.inj h
    exact .inr ⟨r, rfl, rfl⟩
  · have hne : l ≠ [] := by
      rintro rfl
      cases h
    rw [split_of_not_mem hl hne] at h
    obtain ⟨rfl, rfl⟩ := List.cons.inj h
    exact .inl ⟨rfl, hne, rfl⟩

/-- A list with its last piece taken off: the separator behind that piece is the only one that may be
missing. -/
theorem split_eq_concat {ps : List (List α)} (h : split c l = ps ++ [p]) :
    l = join c ps ++ p ∧ p ≠ [] ∨ l = join c ps ++ (p ++ [c]) := by
  induction ps generalizing l with
  | nil =>
    obtain ⟨-, ⟨rfl, hp, -⟩ | ⟨r, rfl, hr⟩⟩ := split_eq_cons h
    · exact .inl ⟨rfl, hp⟩
    · rw [split_eq_nil.1 hr]
      exact .inr rfl
  | cons q qs ih =>
    obtain ⟨-, ⟨-, -, hnil⟩ | ⟨r, rfl, hr⟩⟩ := split_eq_cons h
    · simp at hnil
    · rw [join_cons]
      rcases ih hr with ⟨rfl, hp⟩ | rfl
      · exact .inl ⟨by simp, hp⟩
      · exact .inr (by simp)

theorem join_split (h : l.getLast? = some c) : join c (split c l) = l := by
  rcases List.eq_nil_or_concat' (split c l) with hs | ⟨ps, p, hs⟩
  · rw [hs, split_eq_nil.1 hs]
    rfl
  · have hp : c ∉ p := not_mem_of_mem_split (hs ▸ List.mem_concat_self)
    rw [hs, join_append, join_cons, join_nil]
    rcases split_eq_concat hs with ⟨rfl, hne⟩ | rfl
    · rw [List.getLast?_append_of_ne_nil _ hne] at h
      exact absurd (List.mem_of_getLast? h) hp
    · rfl

omit [DecidableEq α] in
theorem getLast?_join {ps : List (List α)} (h : ps ≠ []) : (join c ps).getLast? = some c := by
  obtain ⟨qs, q, rfl⟩ := (List.eq_nil_or_concat' ps).resolve_left h
  rw [join_append, join_cons, join_nil, ← List.append_assoc]
  exact List.getLast?_concat

/-- Two pieces are split by the first separator; the second may have one more behind it. -/
theorem split_eq_pair {k v : List α} (h : split c l = [k, v]) :
    l = k ++ c :: v ∧ c ∉ k ∧ c ∉ v ∧ v ≠ [] ∨ l = k ++ c :: (v ++ [c]) ∧ c ∉ k ∧ c ∉ v := by
  obtain ⟨hk, ⟨-, -, hnil⟩ | ⟨r, rfl, hr⟩⟩ := split_eq_cons h
  · cases hnil
  · obtain ⟨hv, ⟨rfl, hne, -⟩ | ⟨r', rfl, hr'⟩⟩ := split_eq_cons hr
    · exact .inl ⟨rfl, hk, hv, hne⟩
    · rw [split_eq_nil.1 hr']
      exact .inr ⟨rfl, hk, hv⟩

/-! ## How many pieces -/

theorem length_split_append (hy : y ≠ []) :
    (split c (x ++ y)).length = x.count c + (split c y).length := by
  induction x with
  | nil => simp
  | cons a x ih =>
    rw [List.cons_append]
    by_cases ha : a = c
    · subst ha
      rw [split_cons_self, List.length_cons, ih, List.count_cons_self]
      omega
    · rw [List.count_cons_of_ne ha]
      cases hs : split c (x ++ y) with
      | nil =>
        rw [split_eq_nil, List.append_eq_nil_iff] at hs
        exact absurd hs.2 hy
      | cons p ps =>
        rw [split_cons_cons ha hs]
        simpa [hs] using ih

theorem length_split_le : (split c l).length ≤ l.count c + 1 := by
  by_cases hl : l = []
  · simp [hl]
  · obtain ⟨x, a, rfl⟩ := (List.eq_nil_or_concat' l).resolve_left hl
    rw [length_split_append (by simp), List.count_append]
    by_cases ha : a = c
    · simp [ha]
    · rw [split_cons_nil ha rfl]
      simp

/-- Of a list that splits in two, no part behind a part that does splits in two. -/
theorem length_cut (hx : (split c x).length = 2) (hxyz : (split c (x ++ (y ++ z))).length = 2) :
    (split c y).length ≠ 2 := by
  intro hy
  have hx1 := length_split_le (c := c) (l := x)
  have hy1 := length_split_le (c := c) (l := y)
  have hne : y ≠ [] := by
    rintro rfl
    cases hy
  rw [length_split_append (by simp [hne])] at hxyz
  by_cases hz : z = []
  · subst hz
    rw [List.append_nil] at hxyz
    omega
  · have hz1 : split c z ≠ [] := by simpa using hz
    have := List.length_pos_iff.2 hz1
    rw [length_split_append hz] at hxyz
    omega

end Getline
