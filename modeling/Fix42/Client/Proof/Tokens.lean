import Fix42.Client.Proof.Initiator

/-!
# Tokens of the sessions

The static that tokens are made from is never written, so every session is issued the same one
(`Issued`). Live sessions are then kept apart iff at most one of them was issued a token (`Single`).
-/

namespace Fix42

open Net Trans

namespace Initiator

variable {s s' : Initiator} {a : Act} {i j : SessionId}

/-! ## Issued tokens -/

structure Issued (s : Initiator) : Prop where
  counter : s.token = 0
  token : ∀ i, ∀ t ∈ (s.session i).token, t = ascii "0" ∧ i < s.next
  listed : ∀ i ∈ s.sessions, i < s.next
  queued : ∀ p ∈ s.tasks, p.1 < s.next

theorem issued_init (rows : List Row) : Issued (init rows) where
  counter := rfl
  token _ _ h := by cases h
  listed _ h := by cases h
  queued _ h := by cases h

theorem Issued.frame (h : Issued s) (hs : ∀ i, (s'.session i).token = (s.session i).token)
    (hc : s'.token = s.token) (hn : s'.next = s.next) (hl : s'.sessions ⊆ s.sessions)
    (hq : ∀ p ∈ s'.tasks, p ∈ s.tasks ∨ p.1 ∈ s.sessions) : Issued s' where
  counter := hc.trans h.counter
  token i t ht := by
    rw [hs] at ht
    rw [hn]
    exact h.token i t ht
  listed i hi := hn ▸ h.listed i (hl hi)
  queued p hp := hn ▸ (hq p hp).elim (h.queued p) (h.listed p.1)

theorem Issued.step (h : Issued s) (hs : step s a = some s') : Issued s' := by
  cases step_effect hs with
  | newSession =>
    refine ⟨h.counter, fun i t ht => ?_, fun i hi => ?_, fun p hp => ?_⟩
    · exact ⟨(h.token i t ht).1, Nat.lt_succ_of_lt (h.token i t ht).2⟩
    · rcases List.mem_append.1 hi with hi | hi
      · exact Nat.lt_succ_of_lt (h.listed i hi)
      · cases List.mem_singleton.1 hi
        exact Nat.lt_succ_self _
    · exact Nat.lt_succ_of_lt (h.queued p hp)
  | ignored => exact h
  | selected _ _ _ _ | launched _ _ | lost _ _ _ =>
    exact h.frame (fun _ => rfl) rfl rfl (List.Subset.refl _) fun _ => .inl
  | erased => exact h.frame (fun _ => rfl) rfl rfl List.erase_subset fun _ => .inl
  | rejected | updated _ | closed _ =>
    exact h.frame (update_field (·.token) rfl) rfl rfl (List.Subset.refl _) fun _ => .inl
  | identified _ =>
    exact h.frame (fun _ => token_setFrontend) rfl rfl (List.Subset.refl _) fun _ => .inl
  | bound _ hj =>
    refine h.frame (update_field (·.token) rfl) rfl rfl (List.Subset.refl _) fun p hp => ?_
    refine (List.mem_append.1 hp).imp_right fun hp => ?_
    cases List.mem_singleton.1 hp
    exact mem_of_findSession hj
  | @issued j _ _ ht =>
    refine ⟨h.counter, fun i t hi => ?_, h.listed, fun p hp => h.queued p ?_⟩
    · simp only [identifyBackend, session_update] at hi
      split at hi
      · rename_i hij
        subst hij
        cases hi
        exact ⟨by rw [generateToken, h.counter]; rfl, h.queued (i, _) (by rw [ht]; exact .head _)⟩
      · exact h.token i t hi
    · rw [ht]
      exact List.mem_cons_of_mem _ hp

theorem run_issued {rows : List Row} {C : Initiator → Act → Prop}
    (h : Run step C (init rows) s) : Issued s :=
  h.invariant (issued_init rows) fun _ _ _ hI _ => hI.step

/-! ## Separation -/

/-- At most one live session was issued a token. -/
def Single (s : Initiator) : Prop :=
  ∀ i j, i ≠ j → s.Live i → s.Live j → (s.session i).token.isSome → (s.session j).token = none

theorem accepts_own : accepts (ascii "0") (ascii "0") = true := by decide +kernel

theorem Issued.eq_zero (h : Issued s) (hi : (s.session i).token.isSome) :
    (s.session i).token = some (ascii "0") := by
  obtain ⟨t, ht⟩ := Option.isSome_iff_exists.1 hi
  rw [ht, (h.token i t ht).1]

theorem Issued.separated_iff (h : Issued s) : s.Separated ↔ s.Single := by
  refine forall₂_congr fun i j => forall₃_congr fun hij hi hj => ⟨fun hs hti => ?_, ?_⟩
  · by_contra htj
    have hti' := h.eq_zero hti
    have htj' := h.eq_zero (Option.isSome_iff_ne_none.2 htj)
    have hno := hs _ _ hti' htj'
    rw [accepts_own] at hno
    cases hno
  · intro hs token own hti htj
    rw [hs (by rw [hti]; rfl)] at htj
    cases htj

theorem Issued.distinct_iff (h : Issued s) : s.Distinct ↔ s.Single := by
  refine forall₂_congr fun i j => forall₃_congr fun hij hi hj => ⟨fun hs hti => ?_, ?_⟩
  · by_contra htj
    exact hs _ (h.eq_zero hti) (h.eq_zero (Option.isSome_iff_ne_none.2 htj))
  · intro hs token hti
    rw [hs (by rw [hti]; rfl)]
    exact nofun

theorem single_init (rows : List Row) : Single (init rows) :=
  fun i _ _ hi => absurd hi.1 (Nat.not_lt_zero i)

section
variable (h : Single s)
include h

theorem Single.frame (hI : Issued s) (hs : ∀ i, (s'.session i).token = (s.session i).token)
    (hc : ∀ i, (s'.session i).closed = (s.session i).closed) : Single s' := by
  intro i j hij hi hj hti
  rw [hs] at hti ⊢
  by_contra htj
  have htj' := Option.isSome_iff_ne_none.2 htj
  have hlive (i : SessionId) (hi : s'.Live i) (ht : (s.session i).token.isSome) : s.Live i :=
    ⟨(hI.token i _ (hI.eq_zero ht)).2, (hc i).symm.trans hi.2⟩
  exact htj (h i j hij (hlive i hi hti) (hlive j hj htj') hti)

theorem Single.issue {auth : Ipc.AuthBackToInitiator}
    {tasks : List (SessionId × Ipc.AuthBackToInitiator)} (ht : s.tasks = (j, auth) :: tasks) :
    ({ s with tasks }.identifyBackend j auth).Single ↔ s.FirstToken .issue := by
  have hlive (i : SessionId) : ({ s with tasks }.identifyBackend j auth).Live i ↔ s.Live i := by
    by_cases hi : i = j <;> simp [Live, identifyBackend, hi]
  have htoken (i : SessionId) : (({ s with tasks }.identifyBackend j auth).session i).token =
      if i = j then some s.generateToken else (s.session i).token := by
    by_cases hi : i = j <;> simp [identifyBackend, generateToken, hi]
  simp only [Single, hlive, htoken, FirstToken, ht]
  constructor
  · rintro hs task ⟨⟩ hj i - hij hi
    by_contra hti
    have hno := hs i j hij hi hj (by rw [if_neg hij]; exact Option.isSome_iff_ne_none.2 hti)
    rw [if_pos rfl] at hno
    cases hno
  · intro hf i k hik hi hk hti
    have hf' := hf _ rfl
    by_cases hij : i = j
    · subst hij
      rw [if_neg hik.symm]
      exact hf' hi k hk.1 hik.symm hk
    · rw [if_neg hij] at hti
      by_cases hkj : k = j
      · subst hkj
        rw [hf' hk i hi.1 hij hi] at hti
        cases hti
      · rw [if_neg hkj]
        exact h i k hik hi hk hti

theorem Single.step_iff (hI : Issued s) (hs : step s a = some s') :
    s'.Single ↔ s.FirstToken a := by
  cases step_effect hs with
  | newSession | ignored | erased | selected _ _ _ _ | launched _ _ | lost _ _ _ =>
    exact iff_of_true (h.frame hI (fun _ => rfl) fun _ => rfl) trivial
  | rejected | updated _ | bound _ _ =>
    exact iff_of_true (h.frame hI (update_field (·.token) rfl) (update_field (·.closed) rfl)) trivial
  | closed _ =>
    refine iff_of_true (fun i k hik hi hk hti => ?_) trivial
    rw [token_close] at hti ⊢
    exact h i k hik (live_close.1 hi).2 (live_close.1 hk).2 hti
  | identified _ =>
    exact iff_of_true (h.frame hI (fun _ => token_setFrontend) fun _ => closed_setFrontend) trivial
  | issued ht => exact h.issue ht

end

/-! ## Runs -/

end Initiator

end Fix42
