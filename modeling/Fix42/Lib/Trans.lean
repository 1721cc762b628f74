import Mathlib.Logic.Relation

/-!
# Runs of a labelled step function

`Run step C s₀ s`: some sequence of labels leads from `s₀` to `s`, every step taken (`step` gives a
state) meeting `C` in the state it starts from. `Reach` is the case without a condition. Safety
proofs go through `Run.invariant`; concrete runs are built with `Run.of_exec`.
-/

namespace Trans

variable {σ ι : Type*}

inductive Run (step : σ → ι → Option σ) (C : σ → ι → Prop) (s₀ : σ) : σ → Prop
  | start : Run step C s₀ s₀
  | next {s s' : σ} {i : ι} : Run step C s₀ s → C s i → step s i = some s' → Run step C s₀ s'

/-- Runs without a condition on their steps. -/
abbrev Reach (step : σ → ι → Option σ) (s₀ s : σ) : Prop := Run step (fun _ _ => True) s₀ s

variable {step : σ → ι → Option σ} {C C' : σ → ι → Prop} {s₀ s s' : σ}

/-- What holds at the start and is kept by every step that meets `C` holds along the runs. -/
theorem Run.invariant {I : σ → Prop} (h : Run step C s₀ s) (h0 : I s₀)
    (hs : ∀ s i s', I s → C s i → step s i = some s' → I s') : I s := by
  induction h with
  | start => exact h0
  | next _ hc ht ih => exact hs _ _ _ ih hc ht

theorem Run.mono (h : Run step C s₀ s) (hC : ∀ s i, C s i → C' s i) : Run step C' s₀ s := by
  induction h with
  | start => exact .start
  | next _ hc ht ih => exact .next ih (hC _ _ hc) ht

theorem Run.trans (h : Run step C s₀ s) (h' : Run step C s s') : Run step C s₀ s' := by
  induction h' with
  | start => exact h
  | next _ hc ht ih => exact ih.next hc ht

theorem Run.reach (h : Run step C s₀ s) : Reach step s₀ s := h.mono fun _ _ _ => trivial

/-- `I` may use an invariant `J` proved before. -/
theorem Run.invariant_with {I J : σ → Prop} (h : Run step C s₀ s) (h0 : I s₀)
    (hJ : ∀ s, Run step C s₀ s → J s)
    (hs : ∀ s i s', I s → J s → C s i → step s i = some s' → I s') : I s := by
  induction h with
  | start => exact h0
  | next hr hc ht ih => exact hs _ _ _ ih (hJ _ hr) hc ht

/-! ## Concrete runs -/

/-- Takes the labels in order; `none` as soon as a step is not enabled or does not meet `C`. -/
def exec (step : σ → ι → Option σ) (C : σ → ι → Prop) [∀ s i, Decidable (C s i)] :
    σ → List ι → Option σ
  | s, [] => some s
  | s, i :: is => if C s i then (step s i).bind fun s' => exec step C s' is else none

theorem exec_append [∀ s i, Decidable (C s i)] {is js : List ι} {s : σ}
    (h : exec step C s is = some s') : exec step C s (is ++ js) = exec step C s' js := by
  induction is generalizing s with
  | nil =>
    cases h
    rfl
  | cons i is ih =>
    unfold exec at h
    rw [List.cons_append, exec]
    split at h
    · rename_i hc
      obtain ⟨t, ht, h⟩ := Option.bind_eq_some_iff.1 h
      rw [if_pos hc, ht]
      exact ih h
    · cases h

theorem Run.of_exec [∀ s i, Decidable (C s i)] : ∀ {is : List ι} {s : σ}, Run step C s₀ s →
    exec step C s is = some s' → Run step C s₀ s'
  | [], s, hr, h => by
    cases h
    exact hr
  | i :: is, s, hr, h => by
    unfold exec at h
    split at h
    · rename_i hc
      obtain ⟨t, ht, h⟩ := Option.bind_eq_some_iff.1 h
      exact Run.of_exec (hr.next hc ht) h
    · cases h

end Trans
