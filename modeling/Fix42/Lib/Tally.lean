import Mathlib.Algebra.Group.Basic
import Mathlib.Data.List.Nodup

/-!
# Amounts by key

`tally l k` adds up what a list of keyed amounts holds under `k`.
-/

namespace Fix42

variable {κ α : Type*} [DecidableEq κ]

section
variable [AddMonoid α]

def tally : List (κ × α) → κ → α
  | [], _ => 0
  | (k', a) :: l, k => (if k' = k then a else 0) + tally l k

@[simp] theorem tally_nil (k : κ) : tally ([] : List (κ × α)) k = 0 := rfl

@[simp] theorem tally_cons (k' k : κ) (a : α) (l : List (κ × α)) :
    tally ((k', a) :: l) k = (if k' = k then a else 0) + tally l k := rfl

@[simp] theorem tally_append (l l' : List (κ × α)) (k : κ) :
    tally (l ++ l') k = tally l k + tally l' k := by
  induction l with
  | nil => simp
  | cons p l ih => rw [List.cons_append, tally_cons, tally_cons, ih, add_assoc]

theorem tally_eq_zero {l : List (κ × α)} {k : κ} (h : k ∉ l.map Prod.fst) : tally l k = 0 := by
  induction l with
  | nil => rfl
  | cons p l ih =>
    rw [List.map_cons, List.mem_cons, not_or] at h
    rw [tally_cons, if_neg (Ne.symm h.1), ih h.2, add_zero]

/-- A key listed once holds its one amount. -/
theorem tally_eq_of_mem {l : List (κ × α)} {k : κ} {a : α} (hn : (l.map Prod.fst).Nodup)
    (h : (k, a) ∈ l) : tally l k = a := by
  induction l with
  | nil => cases h
  | cons p l ih =>
    rw [List.map_cons, List.nodup_cons] at hn
    rcases List.mem_cons.1 h with rfl | h
    · rw [tally_cons, if_pos rfl, tally_eq_zero hn.1, add_zero]
    · have hk : p.1 ≠ k := fun he => hn.1 (List.mem_map.2 ⟨_, h, he.symm⟩)
      rw [tally_cons, if_neg hk, ih hn.2 h, zero_add]

end

theorem tally_perm [AddCommMonoid α] {l l' : List (κ × α)} (h : l.Perm l') (k : κ) :
    tally l k = tally l' k := by
  induction h with
  | nil => rfl
  | cons p _ ih => rw [tally_cons, tally_cons, ih]
  | swap p q l => rw [tally_cons, tally_cons, tally_cons, tally_cons, add_left_comm]
  | trans _ _ ih ih' => rw [ih, ih']

end Fix42
