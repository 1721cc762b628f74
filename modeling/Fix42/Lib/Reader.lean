import Mathlib.Logic.Basic

/-!
# Readers

A reader takes a value off a source. `Reads rest r l a` says that it takes `a` off every source that
starts with `l`, and nothing more; `rest s l` says that `l` is what is left in the source `s`.
Readers are `StateM` programs, and the rules follow their `pure` and `bind`.
-/

namespace Fix42

variable {σ τ α β : Type}

def Reads (rest : σ → List τ → Prop) (r : StateM σ α) (l : List τ) (a : α) : Prop :=
  ∀ s tail, rest s (l ++ tail) → (r s).1 = a ∧ rest (r s).2 tail

namespace Reads

variable {rest : σ → List τ → Prop} {r : StateM σ α} {l l' : List τ} {a : α} {b : β}

theorem pure (a : α) : Reads rest (pure a) [] a := fun _ _ h => ⟨rfl, h⟩

theorem pure_eq {a' : α} (h : a' = a) : Reads rest (Pure.pure a') [] a := h ▸ pure a'

theorem bind {k : α → StateM σ β} (h : Reads rest r l a) (h' : Reads rest (k a) l' b) :
    Reads rest (r >>= k) (l ++ l') b := fun s tail hs => by
  obtain ⟨ha, hr⟩ := h s (l' ++ tail) (by rwa [← List.append_assoc])
  have hk : (r >>= k) s = k (r s).1 (r s).2 := rfl
  rw [hk, ha]
  exact h' _ tail hr

/-- The last reader that takes something. -/
theorem last {k : α → StateM σ β} (h : Reads rest r l a) (h' : Reads rest (k a) [] b) :
    Reads rest (r >>= k) l b := by
  have hb := h.bind h'
  rwa [List.append_nil] at hb

end Reads

end Fix42
