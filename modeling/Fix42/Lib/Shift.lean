import Mathlib.Data.Set.Finite.Basic
import Mathlib.Order.Interval.Finset.Nat
import Mathlib.Order.Monotone.Basic

/-!
# A run that is moved up

Places 0, 1, 2, … with an entry or none. The run that starts at 0 is moved one place up entry by entry,
the last one first: `shifted f start gap` is how far that is when the entries from `start` on have been
moved (`moveUp_shifted`). In the end every entry is kept, in the same order (`moved_shifted`), and so
however often this is done with a new entry put at 0 each time (`Moved.keeps`, `Keeps.trans`).
-/

namespace Shift

variable {β : Type*} {f g k : Nat → Option β} {start gap n : Nat}

/-- The entry at `n` goes one place up, over what is there. -/
def moveUp (f : Nat → Option β) (n : Nat) : Nat → Option β :=
  if (f n).isSome then Function.update (Function.update f n none) (n + 1) (f n) else f

/-- From `start` on there are entries up to `gap`, which is empty. -/
structure FirstGap (f : Nat → Option β) (start gap : Nat) : Prop where
  le : start ≤ gap
  full : ∀ n, start ≤ n → n < gap → (f n).isSome
  empty : f gap = none

/-- The entries from `start` on up to `gap` are one place up. -/
def shifted (f : Nat → Option β) (start gap : Nat) : Nat → Option β := fun n =>
  if n < start ∨ gap < n then f n else if n = start then none else f (n - 1)

/-- There is no empty place up to `n`. -/
def InRun (f : Nat → Option β) (n : Nat) : Prop := ∀ m ≤ n, (f m).isSome

instance (f : Nat → Option β) (n : Nat) : Decidable (InRun f n) :=
  inferInstanceAs (Decidable (∀ m ≤ n, (f m).isSome))

/-- Where the entry at `n` is when the run has been moved. -/
def renumber (f : Nat → Option β) (n : Nat) : Nat := if InRun f n then n + 1 else n

/-- The run of `f` that starts at 0 has been moved up, and nothing else was done. -/
structure Moved (f g : Nat → Option β) : Prop where
  kept : ∀ n, (f n).isSome → g (renumber f n) = f n
  order : StrictMonoOn (renumber f) {n | (f n).isSome}
  only : ∀ n, (g n).isSome → ∃ m, (f m).isSome ∧ renumber f m = n
  free : g 0 = none

/-- Every entry of `f` is somewhere in `g`, in the same order. -/
def Keeps (f g : Nat → Option β) : Prop :=
  ∃ place : Nat → Nat, StrictMonoOn place {n | (f n).isSome} ∧ ∀ n, (f n).isSome → g (place n) = f n

/-! ## The first gap -/

theorem FirstGap.next (h : FirstGap f start gap) (hlt : start < gap) : FirstGap f (start + 1) gap :=
  ⟨hlt, fun n hn => h.full n (Nat.le_of_succ_le hn), h.empty⟩

theorem FirstGap.eq_or_lt (h : FirstGap f start gap) :
    start = gap ∧ f start = none ∨ start < gap ∧ (f start).isSome := by
  rcases Nat.eq_or_lt_of_le h.le with heq | hlt
  · exact .inl ⟨heq, heq ▸ h.empty⟩
  · exact .inr ⟨hlt, h.full start (Nat.le_refl _) hlt⟩

theorem exists_firstGap (hf : {n | (f n).isSome}.Finite) : ∃ gap, FirstGap f 0 gap := by
  classical
  have hempty : ∃ n, f n = none := by
    obtain ⟨n, hn⟩ := hf.exists_notMem
    exact ⟨n, by simpa using hn⟩
  refine ⟨Nat.find hempty, Nat.zero_le _, fun n _ hn => ?_, Nat.find_spec hempty⟩
  exact Option.isSome_iff_ne_none.2 (Nat.find_min hempty hn)

theorem FirstGap.inRun_iff (h : FirstGap f 0 gap) : InRun f n ↔ n < gap := by
  constructor
  · intro hn
    by_contra hle
    have hgap := hn gap (Nat.not_lt.1 hle)
    rw [h.empty] at hgap
    cases hgap
  · intro hn m hm
    exact h.full m (Nat.zero_le _) (Nat.lt_of_le_of_lt hm hn)

theorem FirstGap.renumber_eq (h : FirstGap f 0 gap) :
    renumber f n = if n < gap then n + 1 else n := by
  simp only [renumber, h.inRun_iff]

/-! ## Moving -/

theorem moveUp_of_none (h : f n = none) : moveUp f n = f := by
  rw [moveUp, h]
  rfl

theorem shifted_self (h : f gap = none) : shifted f gap gap = f := by
  funext n
  rw [shifted]
  rcases Nat.lt_trichotomy n gap with hlt | rfl | hlt
  · rw [if_pos (.inl hlt)]
  · simp [h]
  · rw [if_pos (.inr hlt)]

/-- What is behind the entry at `start` has been moved, and now that is. -/
theorem moveUp_shifted (hlt : start < gap) (hf : (f start).isSome) :
    moveUp (shifted f (start + 1) gap) start = shifted f start gap := by
  have hstart : shifted f (start + 1) gap start = f start := if_pos (.inl (Nat.lt_succ_self _))
  rw [moveUp, hstart, if_pos hf]
  funext n
  by_cases hnext : n = start + 1
  · subst hnext
    rw [Function.update_self, shifted, if_neg (by omega), if_neg (by omega), Nat.add_sub_cancel]
  · rw [Function.update_of_ne hnext]
    by_cases hn : n = start
    · subst hn
      rw [Function.update_self, shifted, if_neg (by omega), if_pos rfl]
    · rw [Function.update_of_ne hn, shifted, shifted, if_neg hnext, if_neg hn]
      by_cases hout : n < start ∨ gap < n
      · rw [if_pos hout, if_pos (by omega)]
      · rw [if_neg hout, if_neg (by omega)]

theorem moved_shifted (h : FirstGap f 0 gap) : Moved f (shifted f 0 gap) := by
  have hne : ∀ n, (f n).isSome → n ≠ gap := by
    rintro n hn rfl
    rw [h.empty] at hn
    cases hn
  refine ⟨fun n hn => ?_, fun n hn m hm hnm => ?_, fun n hn => ?_, ?_⟩
  · have := hne n hn
    rw [h.renumber_eq, shifted]
    split
    · rw [if_neg (by omega), if_neg (by omega), Nat.add_sub_cancel]
    · rw [if_pos (by omega)]
  · have := hne n hn
    have := hne m hm
    rw [h.renumber_eq, h.renumber_eq]
    split <;> split <;> omega
  · rw [shifted] at hn
    split at hn
    case isTrue hout =>
      refine ⟨n, hn, ?_⟩
      rw [h.renumber_eq, if_neg (by omega)]
    case isFalse hin =>
      split at hn
      case isTrue => cases hn
      case isFalse h0 =>
        refine ⟨n - 1, hn, ?_⟩
        rw [h.renumber_eq, if_pos (by omega)]
        omega
  · rw [shifted, if_neg (by omega), if_pos rfl]

/-! ## Keeping the entries -/

theorem Moved.renumber_ne_zero (h : Moved f g) (hn : (f n).isSome) : renumber f n ≠ 0 := by
  intro h0
  have hkept := h.kept n hn
  rw [h0, h.free] at hkept
  rw [← hkept] at hn
  cases hn

/-- What is put at 0 is not put over an entry. -/
theorem Moved.kept_of_eq (h : Moved f g) (hk : ∀ n ≠ 0, k n = g n) (hn : (f n).isSome) :
    k (renumber f n) = f n := by
  rw [hk _ (h.renumber_ne_zero hn), h.kept n hn]

theorem Moved.keeps (h : Moved f g) (hk : ∀ n ≠ 0, k n = g n) : Keeps f k :=
  ⟨renumber f, h.order, fun _ hn => h.kept_of_eq hk hn⟩

theorem Keeps.refl : Keeps f f := ⟨id, strictMonoOn_id, fun _ _ => rfl⟩

theorem Keeps.trans (h : Keeps f g) (h' : Keeps g k) : Keeps f k := by
  obtain ⟨place, hmono, hkept⟩ := h
  obtain ⟨place', hmono', hkept'⟩ := h'
  have hsome : ∀ n, (f n).isSome → (g (place n)).isSome := fun n hn => (hkept n hn).symm ▸ hn
  refine ⟨place' ∘ place, fun n hn m hm hnm => ?_, fun n hn => ?_⟩
  · exact hmono' (hsome n hn) (hsome m hm) (hmono hn hm hnm)
  · exact (hkept' _ (hsome n hn)).trans (hkept n hn)

end Shift
