import Fix42.Client.Removal

/-!
# Sessions are removed once, or not at all well

While nothing is reported of a front-end whose receive failed, every session that failed is removed, once
and in order, and nothing goes wrong (`removal_once`). A second failing receive of one session makes the
pool erase the end of the list (`second_failure`), and what a front-end sends after its removal ends the
front handler, for as long as no other session is removed (`late_report`).
-/

namespace Fix42

namespace FrontHandler

variable {s s' : FrontHandler} {i : SessionId}

/-! ## Steps -/

/-- What a step comes to. -/
inductive Steps (s : FrontHandler) : Act → FrontHandler → Prop
  | connect (pc : s.pc = .poll) : Steps s .connect { s with
      made := s.made + 1
      registered := s.registered ++ [s.made]
      sessions := s.sessions ++ [s.made] }
  | pull (sockets : List SessionId) (pc : s.pc = .poll) (nodup : sockets.Nodup)
      (isOpen : ∀ i ∈ sockets, s.Open i) (registered : ∀ i ∈ sockets, i ∈ s.registered) :
      Steps s (.pull sockets) { s with pc := .next sockets, clients := sockets }
  | unregistered (sockets : List SessionId) (pc : s.pc = .poll) (isOpen : ∀ i ∈ sockets, s.Open i)
      (i : SessionId) (mem : i ∈ sockets) (missing : i ∉ s.registered) :
      Steps s (.pull sockets) { s with fault := some .unregistered }
  | finished (pc : s.pc = .next []) : Steps s .find { s with pc := .poll }
  | find (i : SessionId) (rest : List SessionId) (pc : s.pc = .next (i :: rest)) :
      Steps s .find { s with pc := .found i (if i ∈ s.sessions then some i else none) rest }
  | message (i : SessionId) (session : Option SessionId) (rest : List SessionId)
      (pc : s.pc = .found i session rest) :
      Steps s (.process true) { s with pc := .next rest, messages := s.messages ++ [session] }
  | fails (i : SessionId) (session : Option SessionId) (rest : List SessionId)
      (pc : s.pc = .found i session rest) : Steps s (.process false) { s with pc := .failed session rest }
  | nullRemove (rest : List SessionId) (pc : s.pc = .failed none rest) :
      Steps s .remove { s with fault := some .nullSession }
  | remove (i : SessionId) (rest : List SessionId) (pc : s.pc = .failed (some i) rest) :
      Steps s .remove { s with
        pc := .next rest
        removals := s.removals ++ [i]
        failures := s.failures ++ [i] }
  | nullMessage (messages : List (Option SessionId)) (queue : s.messages = none :: messages) :
      Steps s .handle { s with fault := some .nullSession }
  | handle (i : SessionId) (messages : List (Option SessionId))
      (queue : s.messages = some i :: messages) :
      Steps s .handle { s with messages, message := some i }
  | take (i : SessionId) (removals : List SessionId) (eraser : s.eraser = .wait)
      (queue : s.removals = i :: removals) :
      Steps s .erase { s with removals, removal := some i, eraser := .erase i }
  | erase (i : SessionId) (eraser : s.eraser = .erase i) (mem : i ∈ s.sessions) :
      Steps s .erase { s with
        sessions := s.sessions.erase i
        eraser := .callbacks i
        erased := s.erased ++ [i] }
  | eraseEnd (i : SessionId) (eraser : s.eraser = .erase i) (missing : i ∉ s.sessions) :
      Steps s .erase { s with fault := some .eraseEnd }
  | callbacks (i : SessionId) (eraser : s.eraser = .callbacks i) :
      Steps s .erase { s with registered := s.registered.erase i, eraser := .wait }

theorem step_sound {a : Act} (h : s.step a = some s') : s.fault = none ∧ Steps s a s' := by
  unfold step at h
  split at h
  · cases h
  · rename_i hf
    refine ⟨by simpa using hf, ?_⟩
    cases a with
    | connect =>
      dsimp only at h
      split at h
      · cases h
        exact .connect ‹_›
      · cases h
    | pull sockets =>
      dsimp only at h
      split at h
      · rename_i hpull
        obtain ⟨pc, nodup, isOpen⟩ := hpull
        split at h
        · cases h
          exact .pull sockets pc nodup isOpen ‹_›
        · rename_i hmissing
          cases h
          obtain ⟨i, hi⟩ := not_forall.1 hmissing
          obtain ⟨mem, missing⟩ := Classical.not_imp.1 hi
          exact .unregistered sockets pc isOpen i mem missing
      · cases h
    | find =>
      dsimp only at h
      split at h
      · cases h
        exact .finished ‹_›
      · cases h
        exact .find _ _ ‹_›
      · cases h
    | process success =>
      dsimp only at h
      split at h
      · cases success with
        | true =>
          cases h
          exact .message _ _ _ ‹_›
        | false =>
          cases h
          exact .fails _ _ _ ‹_›
      · cases h
    | remove =>
      dsimp only at h
      split at h
      · cases h
        exact .nullRemove _ ‹_›
      · cases h
        exact .remove _ _ ‹_›
      · cases h
    | handle =>
      dsimp only at h
      split at h
      · cases h
      · cases h
        exact .nullMessage _ ‹_›
      · cases h
        exact .handle _ _ ‹_›
    | erase =>
      dsimp only at h
      split at h
      · split at h
        · cases h
        · cases h
          exact .take _ _ ‹_› ‹_›
      · split at h
        · cases h
          exact .erase _ ‹_› ‹_›
        · cases h
          exact .eraseEnd _ ‹_› ‹_›
      · cases h
        exact .callbacks _ ‹_›

/-! ## The invariant -/

structure Inv (s : FrontHandler) : Prop where
  order : s.failures = s.erased ++ s.erasing ++ s.removals
  sessions : ∀ i, i ∈ s.sessions ↔ i < s.made ∧ i ∉ s.erased
  nodup : s.sessions.Nodup
  erased : s.erased.Nodup
  made : ∀ i ∈ s.erased, i < s.made
  registered : ∀ i, i ∈ s.registered ↔ i ∈ s.sessions ∨ s.eraser = .callbacks i
  registered_nodup : s.registered.Nodup
  callbacks : ∀ i, s.eraser = .callbacks i → i ∈ s.erased
  task : ∀ i, s.removal = some i → i ∈ s.erased ∨ s.eraser = .erase i

theorem Inv.new : Inv new where
  order := rfl
  sessions := by simp [FrontHandler.new]
  nodup := List.nodup_nil
  erased := List.nodup_nil
  made := by simp [FrontHandler.new]
  registered := by simp [FrontHandler.new]
  registered_nodup := List.nodup_nil
  callbacks := by simp [FrontHandler.new]
  task := by simp [FrontHandler.new]

theorem nodup_append_one {l : List SessionId} (h : l.Nodup) (hi : i ∉ l) : (l ++ [i]).Nodup := by
  rw [← List.concat_eq_append]
  exact List.Nodup.concat hi h

/-- The front handler and its pool go on, or something goes wrong; nothing is removed. -/
theorem Inv.frame (h : Inv s) (pc : FrontPc) (clients : List SessionId)
    (messages : List (Option SessionId)) (message : Option SessionId) (fault : Option RemovalFault) :
    Inv { s with pc, clients, messages, message, fault } :=
  ⟨h.order, h.sessions, h.nodup, h.erased, h.made, h.registered, h.registered_nodup, h.callbacks,
    h.task⟩

theorem Inv.connect (h : Inv s) : Inv { s with
    made := s.made + 1
    registered := s.registered ++ [s.made]
    sessions := s.sessions ++ [s.made] } := by
  have hsession : s.made ∉ s.sessions := fun hmem => Nat.lt_irrefl _ ((h.sessions _).1 hmem).1
  have herased : s.made ∉ s.erased := fun hmem => Nat.lt_irrefl _ (h.made _ hmem)
  have hregistered : s.made ∉ s.registered := by
    intro hmem
    rcases (h.registered _).1 hmem with hmem | he
    · exact hsession hmem
    · exact herased (h.callbacks _ he)
  refine ⟨h.order, fun i => ?_, ?_, h.erased, fun i hi => ?_, fun i => ?_, ?_, h.callbacks, h.task⟩
  · have := h.sessions i
    show i ∈ s.sessions ++ [s.made] ↔ i < s.made + 1 ∧ i ∉ s.erased
    rw [List.mem_append, List.mem_singleton, this]
    by_cases hi : i = s.made
    · subst hi
      simp [herased]
    · have hlt : i < s.made + 1 ↔ i < s.made :=
        ⟨fun h => Nat.lt_of_le_of_ne (Nat.le_of_lt_succ h) hi, Nat.lt_succ_of_lt⟩
      rw [hlt]
      simp [hi]
  · exact nodup_append_one h.nodup hsession
  · exact Nat.lt_succ_of_lt (h.made i hi)
  · show i ∈ s.registered ++ [s.made] ↔ i ∈ s.sessions ++ [s.made] ∨ _
    rw [List.mem_append, List.mem_append, h.registered i]
    exact or_right_comm
  · exact nodup_append_one h.registered_nodup hregistered

theorem Inv.erase (h : Inv s) (eraser : s.eraser = .erase i) (mem : i ∈ s.sessions) : Inv { s with
    sessions := s.sessions.erase i
    eraser := .callbacks i
    erased := s.erased ++ [i] } := by
  obtain ⟨hmade, hnot⟩ := (h.sessions i).1 mem
  refine ⟨?_, fun j => ?_, h.nodup.erase i, nodup_append_one h.erased hnot, fun j hj => ?_,
    fun j => ?_, h.registered_nodup, fun j hj => ?_, fun j hj => .inl ?_⟩
  · have horder := h.order
    simp only [erasing, eraser] at horder
    simpa [erasing] using horder
  · show j ∈ s.sessions.erase i ↔ j < s.made ∧ j ∉ s.erased ++ [i]
    rw [h.nodup.mem_erase_iff, h.sessions j, List.mem_append, List.mem_singleton]
    tauto
  · rcases List.mem_append.1 hj with hj | hj
    · exact h.made j hj
    · rwa [List.mem_singleton.1 hj]
  · show j ∈ s.registered ↔ j ∈ s.sessions.erase i ∨ EraserPc.callbacks i = .callbacks j
    rw [h.registered j, h.nodup.mem_erase_iff, eraser]
    by_cases hj : j = i
    · subst hj
      simp [mem]
    · simp [hj, Ne.symm hj]
  · cases hj
    exact List.mem_append_right _ List.mem_cons_self
  · rcases h.task j hj with hj | hj
    · exact List.mem_append_left _ hj
    · cases eraser.symm.trans hj
      exact List.mem_append_right _ List.mem_cons_self

theorem Inv.callbacks_done (h : Inv s) (eraser : s.eraser = .callbacks i) :
    Inv { s with registered := s.registered.erase i, eraser := .wait } := by
  have hsession : i ∉ s.sessions := fun hmem => ((h.sessions i).1 hmem).2 (h.callbacks i eraser)
  refine ⟨?_, h.sessions, h.nodup, h.erased, h.made, fun j => ?_, h.registered_nodup.erase i,
    fun j hj => ?_, fun j hj => .inl ?_⟩
  · have horder := h.order
    simp only [erasing, eraser] at horder
    simpa [erasing] using horder
  · show j ∈ s.registered.erase i ↔ j ∈ s.sessions ∨ EraserPc.wait = .callbacks j
    rw [h.registered_nodup.mem_erase_iff, h.registered j, eraser]
    by_cases hj : j = i
    · subst hj
      simp [hsession]
    · simp [hj, Ne.symm hj]
  · cases hj
  · rcases h.task j hj with hj | hj
    · exact hj
    · cases eraser.symm.trans hj

theorem Inv.step (h : Inv s) {a : Act} (hs : Steps s a s') : Inv s' := by
  cases hs with
  | connect pc => exact h.connect
  | remove i rest pc =>
    have hr := h.frame (.next rest) s.clients s.messages s.message s.fault
    refine ⟨?_, hr.sessions, hr.nodup, hr.erased, hr.made, hr.registered, hr.registered_nodup,
      hr.callbacks, hr.task⟩
    show s.failures ++ [i] = s.erased ++ s.erasing ++ (s.removals ++ [i])
    rw [h.order, List.append_assoc]
  | take i removals eraser queue =>
    refine ⟨?_, h.sessions, h.nodup, h.erased, h.made, fun j => ?_, h.registered_nodup,
      fun j hj => ?_, fun j hj => .inr ?_⟩
    · have horder := h.order
      simp only [erasing, eraser, queue] at horder
      simpa [erasing] using horder
    · simpa [eraser] using h.registered j
    · cases hj
    · cases hj
      rfl
  | erase i eraser mem => exact h.erase eraser mem
  | callbacks i eraser => exact h.callbacks_done eraser
  | pull | unregistered | finished | find | message | fails | nullRemove | nullMessage | handle
  | eraseEnd => exact h.frame ..

theorem inv_of_reachable (h : Reachable s) : Inv s :=
  Trans.Run.invariant h Inv.new fun _ _ _ hi _ hs => hi.step (step_sound hs).2

/-! ## While nothing is reported of a session that failed -/

structure Good (s : FrontHandler) : Prop where
  fault : s.fault = none
  failures : s.failures.Nodup
  known : ∀ i ∈ s.failures, i < s.made
  pending : ∀ i ∈ s.pc.pending, i < s.made ∧ i ∉ s.failures
  nodup : s.pc.pending.Nodup
  found : ∀ i session rest, s.pc = .found i session rest → session = some i
  failed : ∀ rest, s.pc ≠ .failed none rest
  messages : none ∉ s.messages

theorem Good.new : Good new where
  fault := rfl
  failures := List.nodup_nil
  known := by simp [FrontHandler.new]
  pending := by simp [FrontHandler.new, FrontPc.pending]
  nodup := List.nodup_nil
  found := nofun
  failed := nofun
  messages := by simp [FrontHandler.new]

theorem Inv.not_erased (h : Inv s) (hi : i ∉ s.failures) : i ∉ s.erased := by
  intro hmem
  rw [h.order] at hi
  exact hi (List.mem_append_left _ (List.mem_append_left _ hmem))

/-- A socket that was made is registered as long as its session has not failed. -/
theorem Inv.registered_of_not_failed (h : Inv s) (hmade : i < s.made) (hi : i ∉ s.failures) :
    i ∈ s.sessions ∧ i ∈ s.registered := by
  have hsession := (h.sessions i).2 ⟨hmade, h.not_erased hi⟩
  exact ⟨hsession, (h.registered i).2 (.inl hsession)⟩

theorem Good.step (h : Good s) (hinv : Inv s) {a : Act} (quiet : s.Quiet a)
    (hs : Steps s a s') : Good s' := by
  obtain ⟨fault, failures, known, pending, nodup, found, failed, messages⟩ := h
  cases hs with
  | connect pc =>
    refine ⟨fault, failures, fun i hi => Nat.lt_succ_of_lt (known i hi), ?_, nodup, found, failed,
      messages⟩
    intro i hi
    exact ⟨Nat.lt_succ_of_lt (pending i hi).1, (pending i hi).2⟩
  | pull sockets pc nodup isOpen registered =>
    exact ⟨fault, failures, known, fun i hi => ⟨(isOpen i hi).1, quiet i hi⟩, nodup, nofun, nofun,
      messages⟩
  | unregistered sockets pc isOpen i mem missing =>
    exact absurd (hinv.registered_of_not_failed (isOpen i mem).1 (quiet i mem)).2 missing
  | finished pc => exact ⟨fault, failures, known, nofun, List.nodup_nil, nofun, nofun, messages⟩
  | find i rest pc =>
    rw [pc] at pending nodup
    obtain ⟨hmade, hi⟩ := pending i List.mem_cons_self
    refine ⟨fault, failures, known, pending, nodup, ?_, nofun, messages⟩
    intro j session rest' hpc
    cases hpc
    exact if_pos (hinv.registered_of_not_failed hmade hi).1
  | message i session rest pc =>
    obtain rfl := found i session rest pc
    rw [pc] at pending nodup
    refine ⟨fault, failures, known, fun j hj => pending j (List.mem_cons_of_mem _ hj),
      (List.nodup_cons.1 nodup).2, nofun, nofun, ?_⟩
    simpa using messages
  | fails i session rest pc =>
    obtain rfl := found i session rest pc
    rw [pc] at pending nodup
    exact ⟨fault, failures, known, pending, nodup, nofun, nofun, messages⟩
  | nullRemove rest pc => exact absurd pc (failed rest)
  | remove i rest pc =>
    rw [pc] at pending nodup
    obtain ⟨hmade, hi⟩ := pending i List.mem_cons_self
    obtain ⟨hrest, hnodup⟩ := List.nodup_cons.1 nodup
    refine ⟨fault, nodup_append_one failures hi, ?_, ?_, hnodup, nofun, nofun, messages⟩
    · intro j hj
      rcases List.mem_append.1 hj with hj | hj
      · exact known j hj
      · rwa [List.mem_singleton.1 hj]
    · intro j hj
      obtain ⟨hj1, hj2⟩ := pending j (List.mem_cons_of_mem _ hj)
      refine ⟨hj1, fun hmem => ?_⟩
      rcases List.mem_append.1 hmem with hmem | hmem
      · exact hj2 hmem
      · rw [List.mem_singleton.1 hmem] at hj
        exact hrest hj
  | nullMessage messages' queue => exact absurd (queue ▸ List.mem_cons_self) messages
  | handle i messages' queue =>
    rw [queue] at messages
    exact ⟨fault, failures, known, pending, nodup, found, failed,
      fun hmem => messages (List.mem_cons_of_mem _ hmem)⟩
  | eraseEnd i eraser missing =>
    have hi : i ∈ s.failures ∧ i ∉ s.erased := by
      have horder := hinv.order
      simp only [erasing, eraser] at horder
      rw [horder, List.append_assoc] at failures
      refine ⟨by simp [horder], fun hmem => ?_⟩
      exact (List.disjoint_of_nodup_append failures) hmem (by simp)
    exact absurd ((hinv.sessions i).2 ⟨known i hi.1, hi.2⟩) missing
  | take | erase | callbacks => exact ⟨fault, failures, known, pending, nodup, found, failed, messages⟩

theorem Inv.drained (h : Inv s) (hd : s.Drained) : s.failures = s.erased := by
  rw [h.order, hd.1, erasing, hd.2]
  simp

/-- **Removed once**: while nothing is reported of a session that failed, nothing goes wrong in any
interleaving of the front handler and the two pools; each session that failed is removed once, in the
order of the failures; the others are listed; and when the removals are done, exactly the sessions that
did not fail are listed and registered. -/
theorem removal_once (h : Trans.Run step Quiet new s) :
    s.fault = none ∧ s.failures.Nodup ∧ s.failures = s.erased ++ s.erasing ++ s.removals ∧
    (∀ i, i ∈ s.sessions ↔ i < s.made ∧ i ∉ s.erased) ∧
    (s.Drained → ∀ i, (i ∈ s.sessions ↔ i < s.made ∧ i ∉ s.failures) ∧
      (i ∈ s.registered ↔ i < s.made ∧ i ∉ s.failures)) := by
  have hinv := inv_of_reachable h.reach
  have hgood : Good s := Trans.Run.invariant_with (J := Inv) h Good.new
    (fun _ hr => inv_of_reachable hr.reach)
    fun _ _ _ hg hi hq hs => hg.step hi hq (step_sound hs).2
  refine ⟨hgood.fault, hgood.failures, hinv.order, hinv.sessions, fun hd i => ?_⟩
  have hsessions := hinv.sessions i
  rw [← hinv.drained hd] at hsessions
  refine ⟨hsessions, (hinv.registered i).trans ?_⟩
  rw [hd.2, hsessions]
  simp

/-! ## What goes wrong otherwise -/

theorem failures_mono (h : Trans.Reach step s s') : s.failures <+: s'.failures := by
  refine Trans.Run.invariant (I := fun t => s.failures <+: t.failures) h List.prefix_rfl ?_
  intro t a t' hI _ ht
  cases (step_sound ht).2 with
  | remove => exact hI.trans (List.prefix_append ..)
  | connect | pull | unregistered | finished | find | message | fails | nullRemove | nullMessage
  | handle | take | erase | eraseEnd | callbacks => exact hI

/-- The thread of `m_tp_onremove` goes on while there is a removal to do. -/
theorem erase_enabled (hf : s.fault = none) (hd : ¬ s.Drained) : (s.step .erase).isSome := by
  simp only [FrontHandler.step, hf, Option.isSome_none, Bool.false_eq_true, if_false]
  cases he : s.eraser with
  | wait =>
    cases hr : s.removals with
    | nil => exact absurd ⟨hr, he⟩ hd
    | cons i removals => rfl
  | erase i =>
    dsimp only
    split <;> rfl
  | callbacks i => rfl

/-- How many steps the thread has to take for the removals there are. -/
def work (s : FrontHandler) : Nat :=
  3 * s.removals.length + match s.eraser with
    | .wait => 0
    | .erase _ => 2
    | .callbacks _ => 1

theorem work_step {a : Act} (ha : a ≠ .remove) (hs : Steps s a s') (hf : s'.fault = none) :
    s'.work + (if a = .erase then 1 else 0) ≤ s.work := by
  cases hs with
  | remove => exact absurd rfl ha
  | take i removals eraser queue =>
    simp only [work, eraser, queue, List.length_cons, if_true]
    omega
  | erase i eraser _ =>
    simp only [work, eraser, if_true]
    omega
  | callbacks i eraser =>
    simp only [work, eraser, if_true]
    omega
  | unregistered | nullRemove | nullMessage | eraseEnd => cases hf
  | connect | pull | finished | find | message | fails | handle => exact Nat.le_refl _

/-- **A second failure**: once a session was given to `removeSession` twice, the removals are never done,
whatever comes: their thread can always go on, and it has gone wrong after at most three steps for each
removal unless further sessions fail. -/
theorem second_failure (h : Reachable s) (htwice : ¬ s.failures.Nodup) :
    (∀ s', Trans.Reach step s s' → ¬ s'.Drained ∧ (s'.fault = none → (s'.step .erase).isSome)) ∧
    ∀ acts s', Trans.Stretch step (· ≠ .remove) s acts s' → s'.fault = none →
      acts.countP (· = .erase) ≤ 3 * s.removals.length + 2 := by
  constructor
  · intro s' hr
    have hinv := inv_of_reachable (h.trans hr)
    have hd : ¬ s'.Drained := by
      intro hd
      have hnodup : s'.failures.Nodup := hinv.drained hd ▸ hinv.erased
      exact htwice (hnodup.sublist (failures_mono hr).sublist)
    exact ⟨hd, fun hf => erase_enabled hf hd⟩
  · intro acts s' hacts hf
    have hle : acts.countP (fun a => decide (a = .erase)) + s'.work ≤ s.work := by
      apply Trans.Stretch.countP_le_rank_until (I := fun _ => True)
        (G := fun t => t.fault ≠ none) ?_ ?_ ?_ hacts trivial (by simpa using hf)
      · intro t a t' hG ht
        exact absurd (step_sound ht).1 hG
      · exact fun _ _ _ _ _ _ => trivial
      · intro t a t' _ ha ht hnot
        simpa using work_step ha (step_sound ht).2 (by simpa using hnot)
    have hwork : s.work ≤ 3 * s.removals.length + 2 := by
      unfold work
      split <;> omega
    omega

/-- **A late report**: the front-end whose session was removed last still has an open socket that no map
holds. Until another session fails, whatever it sends ends the front handler. -/
theorem late_report (h : Reachable s) (hd : s.Drained) (hlast : s.removal = some i)
    (hr : Trans.Reach step s s') (hsame : s'.failures = s.failures) (hf : s'.fault = none)
    (hpc : s'.pc = .poll) : ∃ t, s'.step (.pull [i]) = some t ∧ t.fault = some .unregistered := by
  have hkeep : s.failures <+: s'.failures ∧
      (s'.failures = s.failures → s'.Drained ∧ s'.removal = some i) := by
    refine Trans.Run.invariant (I := fun t => s.failures <+: t.failures ∧
      (t.failures = s.failures → t.Drained ∧ t.removal = some i)) hr
      ⟨List.prefix_rfl, fun _ => ⟨hd, hlast⟩⟩ ?_
    intro t a t' hI _ ht
    obtain ⟨hpre, hstill⟩ := hI
    cases (step_sound ht).2 with
    | remove j rest pc =>
      refine ⟨hpre.trans (List.prefix_append ..), fun he => ?_⟩
      have hle := hpre.length_le
      have hlen := congrArg List.length he
      simp only [List.length_append, List.length_singleton] at hlen
      omega
    | take j removals eraser queue =>
      refine ⟨hpre, fun he => ?_⟩
      cases queue.symm.trans (hstill he).1.1
    | erase j eraser | callbacks j eraser =>
      refine ⟨hpre, fun he => ?_⟩
      cases eraser.symm.trans (hstill he).1.2
    | connect | pull | unregistered | finished | find | message | fails | nullRemove | nullMessage
    | handle | eraseEnd => exact ⟨hpre, hstill⟩
  obtain ⟨hdrained, hremoval⟩ := hkeep.2 hsame
  have hinv := inv_of_reachable (h.trans hr)
  have herased : i ∈ s'.erased := by
    refine (hinv.task i hremoval).resolve_right fun he => ?_
    cases hdrained.2.symm.trans he
  have hmissing : i ∉ s'.registered := by
    rw [hinv.registered i, hinv.sessions i, hdrained.2]
    simp [herased]
  have hopen : s'.Open i := by simp [Open, hinv.made i herased, hremoval]
  refine ⟨{ s' with fault := some .unregistered }, ?_, rfl⟩
  simp [FrontHandler.step, hf, hpc, hopen, hmissing]

/-! ## Runs -/

/-- A front-end connects, and its receive fails. -/
def failing : List Act := [.pull [0], .find, .process false, .remove]

/-- Its session is removed. -/
theorem removal_once_run : ∃ s,
    Trans.exec step Quiet new (.connect :: failing ++ [.find, .erase, .erase, .erase]) = some s ∧
    s.fault = none ∧ s.erased = [0] ∧ 0 ∉ s.registered := by
  have hrun : Trans.exec step Quiet new (.connect :: failing ++ [.find, .erase, .erase, .erase]) =
      some _ := rfl
  exact ⟨_, hrun, (removal_once (Trans.Run.of_exec .start hrun)).1, rfl, by decide⟩

/-- It fails again before its removal is taken up. -/
theorem second_failure_run : ∃ s,
    Trans.exec step (fun _ _ => True) new (.connect :: failing ++ [.find] ++ failing) = some s ∧
    s.failures = [0, 0] ∧ ∀ s', Trans.Reach step s s' → ¬ s'.Drained := by
  have hrun : Trans.exec step (fun _ _ => True) new (.connect :: failing ++ [.find] ++ failing) =
      some _ := rfl
  refine ⟨_, hrun, rfl, fun s' hr => ?_⟩
  exact ((second_failure (Trans.Run.of_exec .start hrun) (by decide)).1 s' hr).1

/-- What is left when its session is removed. -/
def afterRemoval : FrontHandler :=
  { new with made := 1, clients := [0], removal := some 0, failures := [0], erased := [0] }

/-- It sends something after that, and after another front-end has been served. -/
theorem late_report_run : ∃ s t,
    Trans.exec step (fun _ _ => True) new
      (.connect :: failing ++ [.find, .erase, .erase, .erase]) = some afterRemoval ∧
    Trans.exec step (fun _ _ => True) afterRemoval
      [.connect, .pull [1], .find, .process true, .find] = some s ∧
    s.step (.pull [0]) = some t ∧ t.fault = some .unregistered := by
  have hrun : Trans.exec step (fun _ _ => True) new
      (.connect :: failing ++ [.find, .erase, .erase, .erase]) = some afterRemoval := rfl
  have hrest : Trans.exec step (fun _ _ => True) afterRemoval
      [.connect, .pull [1], .find, .process true, .find] = some _ := rfl
  obtain ⟨t, ht, hf⟩ := late_report (i := 0) (Trans.Run.of_exec .start hrun) ⟨rfl, rfl⟩ rfl
    (Trans.Run.of_exec .start hrest) rfl rfl rfl
  exact ⟨_, t, hrun, hrest, ht, hf⟩

end FrontHandler

end Fix42
