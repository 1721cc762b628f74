import Fix42.Lib.Trans

/-!
# Bounded progress

A rank that the steps of one kind lower and no other step raises bounds how many steps of that kind a
stretch of a run can have (`countP_le_rank`), or how many it can have before something happens that stays
so (`countP_le_rank_until`).
-/

namespace Trans

variable {σ ι : Type*} {step : σ → ι → Option σ} {I : σ → Prop} {P : ι → Prop} {own : ι → Bool}
  {rank : σ → Nat}

/-- A stretch of a run whose labels meet `P`. -/
abbrev Stretch (step : σ → ι → Option σ) (P : ι → Prop) (s : σ) (is : List ι) (s' : σ) : Prop :=
  (∀ i ∈ is, P i) ∧ exec step (fun _ _ => True) s is = some s'

theorem Stretch.cons {s s' : σ} {i : ι} {is : List ι} (h : Stretch step P s (i :: is) s') :
    P i ∧ ∃ t, step s i = some t ∧ Stretch step P t is s' := by
  obtain ⟨hP, h⟩ := h
  rw [exec, if_pos trivial] at h
  obtain ⟨t, ht, h⟩ := Option.bind_eq_some_iff.1 h
  exact ⟨hP i List.mem_cons_self, t, ht, fun j hj => hP j (List.mem_cons_of_mem i hj), h⟩

/-- What every step that meets `P` keeps holds after a stretch. -/
theorem Stretch.invariant (hI : ∀ s i s', I s → P i → step s i = some s' → I s') {s s' : σ}
    {is : List ι} (h : Stretch step P s is s') (h0 : I s) : I s' := by
  induction is generalizing s with
  | nil =>
    cases h.2
    exact h0
  | cons i is ih =>
    obtain ⟨hi, t, ht, h⟩ := h.cons
    exact ih h (hI s i t h0 hi ht)

/-- As many own steps as the rank at most before `G` holds, where `G` stays true. -/
theorem Stretch.countP_le_rank_until {G : σ → Prop}
    (hG : ∀ s i s', G s → step s i = some s' → G s')
    (hI : ∀ s i s', I s → P i → step s i = some s' → I s')
    (hrank : ∀ s i s', I s → P i → step s i = some s' → ¬ G s' →
      rank s' + (if own i then 1 else 0) ≤ rank s)
    {s s' : σ} {is : List ι} (h : Stretch step P s is s') (h0 : I s) (hend : ¬ G s') :
    is.countP own + rank s' ≤ rank s := by
  induction is generalizing s with
  | nil =>
    cases h.2
    simp
  | cons i is ih =>
    obtain ⟨hi, t, ht, h⟩ := h.cons
    have hnot : ¬ G t := by
      intro hg
      exact hend (Stretch.invariant (fun s i s' hs _ => hG s i s' hs) h hg)
    have hle := hrank s i t h0 hi ht hnot
    have ih := ih h (hI s i t h0 hi ht)
    rw [List.countP_cons]
    omega

/-- As many own steps as the rank at most. -/
theorem Stretch.countP_le_rank (hI : ∀ s i s', I s → P i → step s i = some s' → I s')
    (hrank : ∀ s i s', I s → P i → step s i = some s' →
      rank s' + (if own i then 1 else 0) ≤ rank s)
    {s s' : σ} {is : List ι} (h : Stretch step P s is s') (h0 : I s) :
    is.countP own + rank s' ≤ rank s :=
  Stretch.countP_le_rank_until (G := fun _ => False) (fun _ _ _ h _ => h) hI
    (fun s i s' hs hi ht _ => hrank s i s' hs hi ht) h h0 id

end Trans
