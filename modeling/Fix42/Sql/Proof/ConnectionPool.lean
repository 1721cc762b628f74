import Fix42.Sql.ConnectionPool

/-!
# What the pool gives

A connection is held by one caller at a time (`pool_exclusive`). A connection whose transaction threw is
lost for good, so a caller that waits can still be given one if and only if fewer are lost than there are
(`pool_serves_iff`). While one is free, somebody gets one before a waiting caller has gone round twice
(`get_bounded`).
-/

namespace Fix42

namespace ConnectionPool

variable {n : Nat} {κ : Type*} [DecidableEq κ] {s s' : ConnectionPool n κ} {c : κ}

/-! ## Steps -/

/-- What a step of caller `c` comes to. -/
inductive Steps (s : ConnectionPool n κ) (c : κ) : ConnectionPool n κ → Prop
  | get (pc : s.pc c = .idle) : Steps s c (s.goTo c (.scan 0))
  | wrap (i : Nat) (pc : s.pc c = .scan i) (past : n ≤ i) : Steps s c (s.goTo c (.scan 0))
  | lock (i : Fin n) (pc : s.pc c = .scan i) (free : s.mutex i = none) :
      Steps s c { s.goTo c (.test i) with mutex := Function.update s.mutex i (some c) }
  | busy (i : Fin n) (pc : s.pc c = .test i) (used : s.inUse i = true) :
      Steps s c (s.unlock c i (.scan (i + 1)))
  | given (i : Fin n) (pc : s.pc c = .test i) (free : s.inUse i = false) :
      Steps s c { s.unlock c i (.holds i) with
        inUse := Function.update s.inUse i true
        given := s.given + 1 }
  | done (i : Fin n) (pc : s.pc c = .holds i) (free : s.mutex i = none) :
      Steps s c { s.goTo c (.release i) with mutex := Function.update s.mutex i (some c) }
  | back (i : Fin n) (pc : s.pc c = .release i) :
      Steps s c { s.unlock c i .idle with inUse := Function.update s.inUse i false }
  | throws (i : Fin n) (pc : s.pc c = .holds i) :
      Steps s c { s.goTo c .idle with lost := i :: s.lost }

theorem lock_eq_some {i : Fin n} {pc : PoolPc n} (h : s.lock c i pc = some s') :
    s.mutex i = none ∧ s' = { s.goTo c pc with mutex := Function.update s.mutex i (some c) } := by
  unfold lock at h
  split at h
  · rename_i free
    cases h
    exact ⟨free, rfl⟩
  · cases h

theorem run_sound (h : s.run c = some s') : Steps s c s' := by
  unfold run at h
  split at h
  · cases h
  · rename_i i pc
    split at h
    · rename_i hi
      obtain ⟨free, rfl⟩ := lock_eq_some h
      exact .lock ⟨i, hi⟩ pc free
    · cases h
      exact .wrap i pc (by omega)
  · rename_i i pc
    split at h
    · rename_i used
      cases h
      exact .busy i pc used
    · rename_i used
      cases h
      exact .given i pc (by simpa using used)
  · rename_i i pc
    obtain ⟨free, rfl⟩ := lock_eq_some h
    exact .done i pc free
  · rename_i i pc
    cases h
    exact .back i pc

/-- The caller a step is of. -/
def Act.caller : Act κ → κ
  | .get c | .run c | .throws c => c

theorem step_sound {a : Act κ} (h : s.step a = some s') : Steps s a.caller s' := by
  cases a with
  | get c =>
    simp only [step] at h
    split at h
    · rename_i pc
      cases h
      exact .get pc
    · cases h
  | run c => exact run_sound h
  | throws c =>
    simp only [step] at h
    split at h
    · rename_i i pc
      cases h
      exact .throws i pc
    · cases h

/-! ## The invariant -/

structure Inv (s : ConnectionPool n κ) : Prop where
  mutex : ∀ i c, s.mutex i = some c ↔ s.Locks c i
  used : ∀ i, s.inUse i = true ↔ (∃ c, s.Has c i) ∨ i ∈ s.lost
  one : ∀ i c c', s.Has c i → s.Has c' i → c = c'
  gone : ∀ i ∈ s.lost, ∀ c, ¬ s.Has c i
  nodup : s.lost.Nodup

omit [DecidableEq κ] in
theorem Inv.init : Inv (ConnectionPool.init : ConnectionPool n κ) where
  mutex _ _ := by simp [ConnectionPool.init, Locks]
  used _ := by simp [ConnectionPool.init, Has]
  one _ _ _ h := by simp [ConnectionPool.init, Has] at h
  gone _ h := by simp [ConnectionPool.init] at h
  nodup := List.nodup_nil

theorem Inv.step (h : Inv s) (hs : Steps s c s') : Inv s' := by
  obtain ⟨mutex, used, one, gone, nodup⟩ := h
  cases hs with
  | get | wrap | lock | done =>
    constructor <;> simp only [goTo, Has, Locks, Function.update_apply] at * <;> grind
  | busy i pc busy =>
    have hmutex := (mutex i c).2 (.inl pc)
    constructor <;> simp only [goTo, unlock, Has, Locks, Function.update_apply] at * <;> grind
  | given i pc free =>
    -- nobody had the connection, and it was not lost
    have hmutex := (mutex i c).2 (.inl pc)
    have hfree : ¬ ((∃ c, s.Has c i) ∨ i ∈ s.lost) := by
      rw [← used, free]
      simp
    constructor <;> simp only [goTo, unlock, Has, Locks, Function.update_apply] at * <;> grind
  | back i pc =>
    -- the caller was the only one that had it
    have hmutex := (mutex i c).2 (.inr pc)
    have hhas : s.Has c i := .inr pc
    constructor <;> simp only [goTo, unlock, Has, Locks, Function.update_apply] at * <;> grind
  | throws i pc =>
    have hhas : s.Has c i := .inl pc
    constructor <;> simp only [goTo, Has, Locks, Function.update_apply] at * <;> grind

theorem inv_of_reachable (h : Reachable s) : Inv s :=
  Trans.Run.invariant h Inv.init fun _ _ _ hi _ hs => hi.step (step_sound hs)

/-- **Exclusive use**: a connection is in use exactly if a caller has it or it is lost, and then one
caller has it at most, none if it is lost. -/
theorem pool_exclusive (h : Reachable s) :
    (∀ i, s.inUse i = true ↔ (∃ c, s.Has c i) ∨ i ∈ s.lost) ∧
    (∀ i c c', s.Has c i → s.Has c' i → c = c') ∧ ∀ i ∈ s.lost, ∀ c, ¬ s.Has c i :=
  let hinv := inv_of_reachable h
  ⟨hinv.used, hinv.one, hinv.gone⟩

/-! ## Going round -/

/-- How many steps a waiting caller is from having looked at connection `i`. -/
def rank (s : ConnectionPool n κ) (c : κ) (i : Fin n) : Nat :=
  match s.pc c with
  | .scan j => if j ≤ i then 2 * (i - j) + 1 else 2 * (n - j) + 2 * i + 2
  | .test j => if j ≤ i then 2 * (i - j) else 2 * (n - j) + 2 * i + 1
  | .idle | .holds _ | .release _ => 0

omit [DecidableEq κ] in
theorem rank_le (s : ConnectionPool n κ) (c : κ) (i : Fin n) : s.rank c i ≤ 2 * n := by
  have hi := i.isLt
  unfold rank
  split
  · split <;> omega
  · rename_i j _
    have hj : j ≤ i ↔ (j : Nat) ≤ i := Iff.rfl
    simp only [hj]
    split <;> omega
  · omega
  · omega
  · omega

/-- A step of a waiting caller that is given nothing brings it nearer to a connection that is free. -/
theorem rank_lt {i : Fin n} (hw : s.Waits c) (free : s.inUse i = false) (hs : Steps s c s')
    (hgiven : s'.given = s.given) : s'.rank c i + 1 ≤ s.rank c i ∧ s'.Waits c := by
  have hi := i.isLt
  cases hs with
  | get pc => simp [Waits, pc] at hw
  | wrap j pc past =>
    refine ⟨?_, .inl ⟨0, by simp [goTo]⟩⟩
    simp only [rank, goTo, Function.update_self, pc]
    split <;> split <;> omega
  | lock j pc _ =>
    refine ⟨?_, .inr ⟨j, by simp [goTo]⟩⟩
    have hj : j ≤ i ↔ (j : Nat) ≤ i := Iff.rfl
    simp only [rank, goTo, Function.update_self, pc, hj]
    split <;> omega
  | busy j pc used =>
    refine ⟨?_, .inl ⟨j + 1, by simp [goTo, unlock]⟩⟩
    have hj : j ≤ i ↔ (j : Nat) ≤ i := Iff.rfl
    have hlt := j.isLt
    have hne : (j : Nat) ≠ i := by
      intro he
      rw [Fin.ext he, free] at used
      cases used
    simp only [rank, goTo, unlock, Function.update_self, pc, hj]
    split <;> split <;> omega
  | given j pc _ => simp at hgiven
  | done j pc _ => simp [Waits, pc] at hw
  | back j pc => simp [Waits, pc] at hw
  | throws j pc => simp [Waits, pc] at hw

/-! ## Bounded waiting -/

theorem given_le (hs : Steps s c s') : s.given ≤ s'.given := by
  cases hs with
  | given i pc free => exact Nat.le_succ _
  | get | wrap | lock | busy | done | back | throws => exact Nat.le_refl _

/-- Only a connection that is given stops being free. -/
theorem inUse_eq {i : Fin n} (free : s.inUse i = false) (hs : Steps s c s')
    (hgiven : s'.given = s.given) :
    s'.inUse i = false := by
  cases hs with
  | given j pc _ => simp at hgiven
  | back j pc =>
    by_cases hj : i = j
    · rw [hj]
      exact Function.update_self ..
    · show Function.update s.inUse j false i = false
      rw [Function.update_of_ne hj]
      exact free
  | get | wrap | lock | busy | done | throws => exact free

/-- A step of another caller leaves a caller where it is. -/
theorem pc_eq {c' : κ} (hne : c' ≠ c) (hs : Steps s c s') : s'.pc c' = s.pc c' := by
  cases hs <;> exact Function.update_of_ne hne ..

/-- Nobody has been given a connection since, or the caller still waits and connection `i` is free. -/
def StillFree (k : Nat) (c : κ) (i : Fin n) (s : ConnectionPool n κ) : Prop :=
  k ≤ s.given ∧ (k = s.given → s.Waits c ∧ s.inUse i = false)

theorem still_free {k : Nat} {i : Fin n} (h : StillFree k c i s) {a : Act κ} (hs : s.step a = some s') :
    StillFree k c i s' := by
  have hs := step_sound hs
  have hle := given_le hs
  refine ⟨by have := h.1; omega, fun hk => ?_⟩
  have hgiven : s'.given = s.given := by have := h.1; omega
  obtain ⟨hw, free⟩ := h.2 (hk.trans hgiven)
  refine ⟨?_, inUse_eq free hs hgiven⟩
  by_cases hc : c = a.caller
  · subst hc
    exact (rank_lt hw free hs hgiven).2
  · simpa only [Waits, pc_eq hc hs] using hw

theorem rank_step {k : Nat} {i : Fin n} (h : StillFree k c i s) {a : Act κ} (hs : s.step a = some s')
    (hnot : ¬ k < s'.given) : s'.rank c i + (if a = .run c then 1 else 0) ≤ s.rank c i := by
  have hs := step_sound hs
  have hle := given_le hs
  have hk : k = s.given := by have := h.1; omega
  obtain ⟨hw, free⟩ := h.2 hk
  by_cases hc : a.caller = c
  · subst hc
    have hlt := (rank_lt hw free hs (by omega)).1
    split <;> omega
  · have hrank : s'.rank c i = s.rank c i := by
      unfold rank
      rw [pc_eq (Ne.symm hc) hs]
    have hown : a ≠ .run c := by
      intro he
      subst he
      exact hc rfl
    simp [hrank, hown]

/-- A waiting caller that does not get the mutex it is at waits for a caller that can go on. -/
theorem can_go_on (hinv : Inv s) (hw : s.Waits c) :
    (s.run c).isSome ∨ ∃ i c', s.pc c = .scan i ∧ c' ≠ c ∧ (s.run c').isSome := by
  rcases hw with ⟨j, pc⟩ | ⟨i, pc⟩
  · by_cases hj : j < n
    · cases hm : s.mutex ⟨j, hj⟩ with
      | none => exact .inl (by simp [run, pc, hj, lock, hm])
      | some c' =>
        have hlocks := (hinv.mutex _ _).1 hm
        refine .inr ⟨j, c', pc, ?_, ?_⟩
        · intro he
          subst he
          rcases hlocks with he | he <;> cases pc.symm.trans he
        · rcases hlocks with he | he
          · simp only [run, he]
            split <;> rfl
          · simp [run, he]
    · exact .inl (by simp [run, pc, hj])
  · refine .inl ?_
    simp only [run, pc]
    split <;> rfl

/-- **Bounded waiting**: while a connection is free, a caller that waits takes at most `2 * n` steps
before a connection is given to it or to another; and it can always take its next step, or the caller that
has the mutex it is at can. -/
theorem get_bounded (h : Reachable s) (hw : s.Waits c) :
    (∀ i, s.inUse i = false → ∀ acts s', Trans.Stretch step (fun _ => True) s acts s' →
      s'.given = s.given → acts.countP (· = .run c) ≤ 2 * n) ∧
    ((s.run c).isSome ∨ ∃ i c', s.pc c = .scan i ∧ c' ≠ c ∧ (s.run c').isSome) := by
  refine ⟨fun i free acts s' hacts hgiven => ?_, can_go_on (inv_of_reachable h) hw⟩
  have hle : acts.countP (fun a => decide (a = .run c)) + s'.rank c i ≤ s.rank c i := by
    apply Trans.Stretch.countP_le_rank_until (I := StillFree s.given c i)
      (G := fun s' => s.given < s'.given) ?_ ?_ ?_ hacts
    · exact ⟨Nat.le_refl _, fun _ => ⟨hw, free⟩⟩
    · omega
    · intro t a t' hG ht
      exact Nat.lt_of_lt_of_le hG (given_le (step_sound ht))
    · intro t a t' hI _ ht
      exact still_free hI ht
    · intro t a t' hI _ ht hnot
      simpa using rank_step hI ht hnot
  have hrank := rank_le s c i
  omega

/-! ## Who can still be served -/

theorem lost_mono (h : Trans.Reach step s s') : s.lost <:+ s'.lost := by
  refine Trans.Run.invariant (I := fun t => s.lost <:+ t.lost) h List.suffix_rfl ?_
  intro t a t' hI _ ht
  cases step_sound ht with
  | throws i pc => exact hI.trans (List.suffix_cons ..)
  | get | wrap | lock | busy | given | done | back => exact hI

omit [DecidableEq κ] in
theorem Waits.congr (hw : s.Waits c) (hpc : s'.pc c = s.pc c) : s'.Waits c := by
  unfold Waits
  rw [hpc]
  exact hw

omit [DecidableEq κ] in
theorem Waits.not_has {i : Fin n} (hw : s.Waits c) : ¬ s.Has c i := by
  intro h
  rcases hw with ⟨j, hj⟩ | ⟨j, hj⟩ <;> rcases h with he | he <;> cases he.symm.trans hj

theorem run_busy {i : Fin n} (pc : s.pc c = .test i) (used : s.inUse i = true) :
    s.step (.run c) = some (s.unlock c i (.scan (i + 1))) := by
  simp [step, run, pc, used]

theorem run_given {i : Fin n} (pc : s.pc c = .test i) (free : s.inUse i = false) :
    s.step (.run c) = some { s.unlock c i (.holds i) with
      inUse := Function.update s.inUse i true
      given := s.given + 1 } := by
  simp [step, run, pc, free]

theorem run_back {i : Fin n} (pc : s.pc c = .release i) :
    s.step (.run c) = some { s.unlock c i .idle with inUse := Function.update s.inUse i false } := by
  simp [step, run, pc]

/-- A caller with a connection gives it back, if the mutex is free. -/
theorem give_back {c' : κ} {i : Fin n} (hinv : Inv s) (pc : s.pc c' = .holds i)
    (free : s.mutex i = none) :
    ∃ s', Trans.Reach step s s' ∧ Inv s' ∧ s'.pc = Function.update s.pc c' .idle ∧
      s'.inUse = Function.update s.inUse i false ∧ s'.mutex = s.mutex ∧ s'.lost = s.lost := by
  let t : ConnectionPool n κ :=
    { s.goTo c' (.release i) with mutex := Function.update s.mutex i (some c') }
  let t' : ConnectionPool n κ :=
    { t.unlock c' i .idle with inUse := Function.update t.inUse i false }
  have ht : s.step (.run c') = some t := by simp [step, run, pc, lock, free, t]
  have ht' : t.step (.run c') = some t' := run_back (Function.update_self ..)
  have hinv' := (hinv.step (step_sound ht)).step (step_sound ht')
  refine ⟨t', .next (.next .start trivial ht) trivial ht', hinv', ?_, rfl, ?_, rfl⟩
  · exact Function.update_idem ..
  · show Function.update (Function.update s.mutex i (some c')) i none = s.mutex
    rw [Function.update_idem, ← free, Function.update_eq_self]

/-- The mutex of a connection becomes free, nothing that is free is lost by it, and no caller that waits
is moved unless it is the one that has the mutex. -/
theorem free_mutex (hinv : Inv s) (i : Fin n) (hc : s.pc c ≠ .test i) (hw : s.Waits c) :
    ∃ s', Trans.Reach step s s' ∧ Inv s' ∧ s'.mutex i = none ∧ s'.pc c = s.pc c ∧
      (∀ k, s.inUse k = false → s'.inUse k = false) ∧ s'.lost = s.lost := by
  cases hm : s.mutex i with
  | none => exact ⟨s, .start, hinv, hm, rfl, fun _ h => h, rfl⟩
  | some c' =>
    have hlocks := (hinv.mutex i c').1 hm
    have hne : c ≠ c' := by
      intro he
      subst he
      rcases hlocks with he | he
      · exact hc he
      · exact hw.not_has (.inr he)
    rcases hlocks with pc | pc
    · cases used : s.inUse i with
      | true =>
        have ht := run_busy pc used
        exact ⟨_, .next .start trivial ht, hinv.step (step_sound ht), Function.update_self ..,
          Function.update_of_ne hne .., fun _ h => h, rfl⟩
      | false =>
        let t : ConnectionPool n κ :=
          { s.unlock c' i (.holds i) with
            inUse := Function.update s.inUse i true, given := s.given + 1 }
        have ht : s.step (.run c') = some t := run_given pc used
        have htpc : t.pc c' = .holds i := Function.update_self ..
        have htm : t.mutex i = none := Function.update_self ..
        obtain ⟨s', hr, hinv', hpc, huse, hmutex, hlost⟩ :=
          give_back (hinv.step (step_sound ht)) htpc htm
        refine ⟨s', (Trans.Run.next .start trivial ht).trans hr, hinv', by rw [hmutex, htm], ?_, ?_,
          hlost⟩
        · rw [hpc, Function.update_of_ne hne]
          exact Function.update_of_ne hne ..
        · intro k hk
          rw [huse]
          by_cases hki : k = i
          · rw [hki, Function.update_self]
          · rw [Function.update_of_ne hki]
            exact (Function.update_of_ne hki ..).trans hk
    · have ht := run_back pc
      refine ⟨_, .next .start trivial ht, hinv.step (step_sound ht), Function.update_self ..,
        Function.update_of_ne hne .., fun k hk => ?_, rfl⟩
      by_cases hki : k = i
      · rw [hki]
        exact Function.update_self ..
      · exact (Function.update_of_ne hki ..).trans hk

/-- A connection that is not lost becomes free. -/
theorem freed (hinv : Inv s) (hw : s.Waits c) {i : Fin n} (hi : i ∉ s.lost) :
    ∃ s', Trans.Reach step s s' ∧ Inv s' ∧ s'.Waits c ∧ s'.inUse i = false := by
  cases used : s.inUse i with
  | false => exact ⟨s, .start, hinv, hw, used⟩
  | true =>
    obtain ⟨c', hc'⟩ := ((hinv.used i).1 used).resolve_right hi
    have hne : c ≠ c' := by
      intro he
      subst he
      exact hw.not_has hc'
    rcases hc' with pc | pc
    · cases hm : s.mutex i with
      | none =>
        obtain ⟨s', hr, hinv', hpc, huse, -, -⟩ := give_back hinv pc hm
        refine ⟨s', hr, hinv', ?_, by rw [huse, Function.update_self]⟩
        exact hw.congr (by rw [hpc, Function.update_of_ne hne])
      | some c₂ =>
        -- whoever is at the connection finds it in use and goes on
        have hlocks : s.pc c₂ = .test i := by
          refine ((hinv.mutex i c₂).1 hm).resolve_right fun he => ?_
          have := hinv.one i c₂ c' (.inr he) (.inl pc)
          subst this
          cases he.symm.trans pc
        have hne₂ : c' ≠ c₂ := by
          intro he
          subst he
          cases hlocks.symm.trans pc
        have ht := run_busy hlocks used
        obtain ⟨s', hr, hinv', hpc, huse, -, -⟩ := give_back (hinv.step (step_sound ht))
          ((Function.update_of_ne hne₂ ..).trans pc) (Function.update_self ..)
        refine ⟨s', (Trans.Run.next .start trivial ht).trans hr, hinv', ?_,
          by rw [huse, Function.update_self]⟩
        have hs'pc : s'.pc c = (s.unlock c₂ i (.scan (i + 1))).pc c := by
          rw [hpc, Function.update_of_ne hne]
        by_cases hcc : c = c₂
        · subst hcc
          exact .inl ⟨i + 1, hs'pc.trans (Function.update_self ..)⟩
        · exact hw.congr (hs'pc.trans (Function.update_of_ne hcc ..))
    · have ht := run_back pc
      refine ⟨_, .next .start trivial ht, hinv.step (step_sound ht), ?_, Function.update_self ..⟩
      exact hw.congr (pc_eq hne (step_sound ht))

/-- While a connection is free, a waiting caller can be taken to the next one that is. -/
theorem served {i : Fin n} (hinv : Inv s) (hw : s.Waits c) (free : s.inUse i = false) :
    ∃ s' k, Trans.Reach step s s' ∧ s'.pc c = .holds k := by
  -- on how far the caller is from `i`
  induction hr : s.rank c i using Nat.strong_induction_on generalizing s with
  | h r ih =>
    subst hr
    have hgo : ∀ t, s.step (.run c) = some t → t.given = s.given →
        ∃ s' k, Trans.Reach step s s' ∧ s'.pc c = .holds k := by
      intro t ht hgiven
      have hs := step_sound ht
      obtain ⟨hlt, hw'⟩ := rank_lt hw free hs hgiven
      obtain ⟨s', k, hr, hk⟩ := ih _ (by omega) (hinv.step hs) hw' (inUse_eq free hs hgiven) rfl
      exact ⟨s', k, (Trans.Run.next .start trivial ht).trans hr, hk⟩
    rcases hw with ⟨j, pc⟩ | ⟨j, pc⟩
    · by_cases hj : j < n
      · have hne : s.pc c ≠ .test ⟨j, hj⟩ := by
          rw [pc]
          exact nofun
        obtain ⟨s₁, hr₁, hinv₁, hm, hpc, huse, -⟩ := free_mutex hinv ⟨j, hj⟩ hne (.inl ⟨j, pc⟩)
        have pc₁ : s₁.pc c = .scan j := hpc.trans pc
        have ht : s₁.step (.run c) = some { s₁.goTo c (.test ⟨j, hj⟩) with
            mutex := Function.update s₁.mutex ⟨j, hj⟩ (some c) } := by
          simp [step, run, pc₁, hj, lock, hm]
        obtain ⟨hlt, hw'⟩ := rank_lt (.inl ⟨j, pc₁⟩) (huse i free) (step_sound ht) rfl
        have hrank : s₁.rank c i = s.rank c i := by
          unfold rank
          rw [hpc]
        obtain ⟨s', k, hr, hk⟩ := ih _ (by omega) (hinv₁.step (step_sound ht)) hw' (huse i free) rfl
        exact ⟨s', k, hr₁.trans ((Trans.Run.next .start trivial ht).trans hr), hk⟩
      · exact hgo (s.goTo c (.scan 0)) (by simp [step, run, pc, hj]) rfl
    · cases used : s.inUse j with
      | true => exact hgo _ (run_busy pc used) rfl
      | false =>
        exact ⟨_, j, .next .start trivial (run_given pc used), Function.update_self ..⟩

/-- **Who can still be served**: a caller that waits can still be given a connection, if the others go
on as they should, exactly if fewer connections are lost than there are. -/
theorem pool_serves_iff (h : Reachable s) (hw : s.Waits c) :
    (∃ s' i, Trans.Reach step s s' ∧ s'.pc c = .holds i) ↔ s.lost.length < n := by
  have hinv := inv_of_reachable h
  constructor
  · rintro ⟨s', i, hr, hi⟩
    have hinv' := inv_of_reachable (h.trans hr)
    have hlt : s'.lost.length < n := by
      have hall : (i :: s'.lost).Nodup :=
        List.nodup_cons.2 ⟨fun hmem => hinv'.gone i hmem c (.inl hi), hinv'.nodup⟩
      have := hall.length_le_card
      rw [Fintype.card_fin, List.length_cons] at this
      omega
    exact Nat.lt_of_le_of_lt (lost_mono hr).length_le hlt
  · intro hlt
    obtain ⟨i, hi⟩ : ∃ i, i ∉ s.lost := by
      by_contra hall
      have hsub : List.finRange n ⊆ s.lost := fun i _ => by_contra fun hi => hall ⟨i, hi⟩
      have := (List.nodup_finRange n).subperm hsub |>.length_le
      rw [List.length_finRange] at this
      omega
    obtain ⟨s₁, hr₁, hinv₁, hw₁, free⟩ := freed hinv hw hi
    obtain ⟨s₂, k, hr₂, hk⟩ := served hinv₁ hw₁ free
    exact ⟨s₂, k, hr₁.trans hr₂, hk⟩

/-! ## One connection, as is the default -/

/-- The first caller gets the connection, and a second one finds it in use. -/
def twoCallers : List (Act (Fin 2)) :=
  [.get 0, .run 0, .run 0, .get 1, .run 1, .run 1]

theorem pool_exclusive_run : ∃ s : ConnectionPool 1 (Fin 2),
    Trans.exec step (fun _ _ => True) init twoCallers = some s ∧ s.Has 0 0 ∧ ¬ s.Has 1 0 := by
  have hrun : Trans.exec step (fun _ _ => True) (init : ConnectionPool 1 (Fin 2)) twoCallers =
      some _ := rfl
  refine ⟨_, hrun, .inl rfl, fun h => ?_⟩
  have := (pool_exclusive (Trans.Run.of_exec .start hrun)).2.1 0 0 1 (.inl rfl) h
  cases this

theorem get_bounded_run : ∃ s : ConnectionPool 1 (Fin 2),
    Trans.exec step (fun _ _ => True) init [.get 0] = some s ∧
    ∀ acts s', Trans.Stretch step (fun _ => True) s acts s' → s'.given = s.given →
      acts.countP (· = .run 0) ≤ 2 := by
  have hrun : Trans.exec step (fun _ _ => True) (init : ConnectionPool 1 (Fin 2)) [.get 0] =
      some _ := rfl
  exact ⟨_, hrun, (get_bounded (Trans.Run.of_exec .start hrun) (.inl ⟨0, rfl⟩)).1 0 rfl⟩

/-- One failed transaction, and nobody is served any more. -/
theorem pool_serves_iff_run : ∃ s : ConnectionPool 1 (Fin 2),
    Trans.exec step (fun _ _ => True) init [.get 0, .run 0, .run 0, .throws 0, .get 1] = some s ∧
    s.Waits 1 ∧ ¬ ∃ s' i, Trans.Reach step s s' ∧ s'.pc 1 = .holds i := by
  have hrun : Trans.exec step (fun _ _ => True) (init : ConnectionPool 1 (Fin 2))
      [.get 0, .run 0, .run 0, .throws 0, .get 1] = some _ := rfl
  refine ⟨_, hrun, .inl ⟨0, rfl⟩, fun hserved => ?_⟩
  have hlt := (pool_serves_iff (Trans.Run.of_exec .start hrun) (.inl ⟨0, rfl⟩)).1 hserved
  exact absurd hlt (by decide)

end ConnectionPool

end Fix42
