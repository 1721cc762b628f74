import Mathlib.Algebra.BigOperators.Group.List.Basic
import Mathlib.Algebra.Order.BigOperators.Group.List
import Mathlib.Algebra.Order.Group.MinMax

/-!
# Serving claims in order

`allot cs q` gives a supply `q` out to the claims `cs` one after the other, each as much as it asks
for while something is left. Every claim before one that is given something is served in full
(`allot_full`), and as much is given out as there is to give or to ask for (`sum_allot`). Serving a
list in two parts serves it (`allot_append`).
-/

namespace Allotment

variable {ι α : Type*} [AddCommGroup α] [LinearOrder α]

def allot : List (ι × α) → α → List (ι × α)
  | [], _ => []
  | (i, c) :: cs, q => if q = 0 then [] else (i, min c q) :: allot cs (q - min c q)

/-- What is left of the supply. -/
def left : List (ι × α) → α → α
  | [], q => q
  | (_, c) :: cs, q => if q = 0 then q else left cs (q - min c q)

@[simp] theorem allot_zero (cs : List (ι × α)) : allot cs 0 = [] := by
  cases cs <;> simp [allot]

@[simp] theorem left_zero (cs : List (ι × α)) : left cs 0 = 0 := by
  cases cs <;> simp [left]

theorem allot_append (cs ds : List (ι × α)) (q : α) :
    allot (cs ++ ds) q = allot cs q ++ allot ds (left cs q) := by
  induction cs generalizing q with
  | nil => simp [allot, left]
  | cons c cs ih =>
    by_cases hq : q = 0
    · simp [hq]
    · simp [allot, left, hq, ih]

theorem left_append (cs ds : List (ι × α)) (q : α) : left (cs ++ ds) q = left ds (left cs q) := by
  induction cs generalizing q with
  | nil => rfl
  | cons c cs ih =>
    by_cases hq : q = 0
    · simp [hq]
    · simp [left, hq, ih]

/-- What is given out and what is left make up the supply. -/
theorem sum_add_left (cs : List (ι × α)) (q : α) :
    ((allot cs q).map Prod.snd).sum + left cs q = q := by
  induction cs generalizing q with
  | nil => simp [allot, left]
  | cons c cs ih =>
    by_cases hq : q = 0
    · simp [hq]
    · simp only [allot, left, hq, if_false, List.map_cons, List.sum_cons]
      rw [add_assoc, ih, add_sub_cancel]

/-- The claims served are the first ones. -/
theorem allot_served (cs : List (ι × α)) (q : α) :
    (allot cs q).map Prod.fst <+: cs.map Prod.fst := by
  induction cs generalizing q with
  | nil => exact List.prefix_refl _
  | cons c cs ih =>
    unfold allot
    split
    · exact List.nil_prefix
    · exact (List.prefix_cons_inj c.1).2 (ih _)

/-- No claim is given more than it asks for. -/
theorem allot_le {cs : List (ι × α)} {q : α} {x : ι × α} (h : x ∈ allot cs q) :
    ∃ c ∈ cs, c.1 = x.1 ∧ x.2 ≤ c.2 := by
  induction cs generalizing q with
  | nil => cases h
  | cons c cs ih =>
    unfold allot at h
    split at h
    · cases h
    · rcases List.mem_cons.1 h with rfl | h
      · exact ⟨c, List.mem_cons_self, rfl, min_le_left _ _⟩
      · obtain ⟨c', hc, he⟩ := ih h
        exact ⟨c', List.mem_cons_of_mem c hc, he⟩

/-- The claims before one that is served are served in full. -/
theorem allot_full {cs : List (ι × α)} {q : α} {l r : List (ι × α)} {x : ι × α}
    (h : allot cs q = l ++ x :: r) : l <+: cs := by
  induction cs generalizing q l with
  | nil => simp [allot] at h
  | cons c cs ih =>
    obtain ⟨i, c⟩ := c
    unfold allot at h
    split at h
    · simp at h
    · cases l with
      | nil => exact List.nil_prefix
      | cons y l =>
        rw [List.cons_append, List.cons.injEq] at h
        obtain ⟨rfl, h⟩ := h
        -- something is left behind the claim, so the supply was not smaller
        have hlt : c < q := by
          by_contra hle
          rw [min_eq_right (not_lt.1 hle), sub_self, allot_zero] at h
          simp at h
        rw [min_eq_left hlt.le]
        exact (List.prefix_cons_inj _).2 (ih h)

section
variable [IsOrderedAddMonoid α]

theorem left_eq {cs : List (ι × α)} (hc : ∀ c ∈ cs, 0 ≤ c.2) {q : α} (hq : 0 ≤ q) :
    left cs q = max (q - (cs.map Prod.snd).sum) 0 := by
  induction cs generalizing q with
  | nil => simp [left, hq]
  | cons c cs ih =>
    have hsum : 0 ≤ (cs.map Prod.snd).sum := by
      apply List.sum_nonneg
      intro x hx
      obtain ⟨c', hc', rfl⟩ := List.mem_map.1 hx
      exact hc c' (List.mem_cons_of_mem _ hc')
    have hc0 : 0 ≤ c.2 := hc c List.mem_cons_self
    rw [left, List.map_cons, List.sum_cons]
    split
    · rename_i hz
      subst hz
      rw [zero_sub, max_eq_right (neg_nonpos.2 (add_nonneg hc0 hsum))]
    · rw [ih (fun c' hc' => hc c' (List.mem_cons_of_mem _ hc')) (sub_nonneg.2 (min_le_right _ _))]
      rcases le_total c.2 q with hle | hle
      · rw [min_eq_left hle, sub_sub]
      · rw [min_eq_right hle, sub_self, zero_sub, max_eq_right (neg_nonpos.2 hsum), max_eq_right]
        exact sub_nonpos.2 (hle.trans (le_add_of_nonneg_right hsum))

/-- As much is given out as there is to give or to ask for. -/
theorem sum_allot {cs : List (ι × α)} (hc : ∀ c ∈ cs, 0 ≤ c.2) {q : α} (hq : 0 ≤ q) :
    ((allot cs q).map Prod.snd).sum = min q (cs.map Prod.snd).sum := by
  rw [eq_sub_of_add_eq (sum_add_left cs q), left_eq hc hq]
  rcases le_total q (cs.map Prod.snd).sum with hle | hle
  · rw [max_eq_right (sub_nonpos.2 hle), sub_zero, min_eq_left hle]
  · rw [max_eq_left (sub_nonneg.2 hle), sub_sub_cancel, min_eq_right hle]

end

end Allotment
