import Mathlib.Data.List.Nodup
import Mathlib.Data.List.Range
import Fix42.Thread.Pool

/-!
# What a pool has run when it is stopped

`Inv` is what every run keeps: the tasks started and then those queued are the tasks enqueued, in
order, and a task started has ended or is run by one worker. `Drained` is what the runs under
`NotLast` keep besides: when the last worker has left, no task enqueued before the stop is queued.
-/

namespace Fix42

namespace ThreadPool

variable {S : Nat} {s s' : ThreadPool S} {w w' : Fin S} {pc : PoolWorker}

theorem setWorker_worker (s : ThreadPool S) (w w' : Fin S) (pc : PoolWorker) :
    (s.setWorker w pc).worker w' = if w' = w then pc else s.worker w' := by
  simp [setWorker, Function.update_apply]

/-- The other workers stay where they are. -/
theorem setWorker_kept {x : PoolWorker} (h : s.worker w' = x) (hne : s.worker w ≠ x) :
    (s.setWorker w pc).worker w' = x := by
  rw [setWorker_worker, if_neg, h]
  rintro rfl
  exact hne h

theorem setWorker_was {x : PoolWorker} (h : (s.setWorker w pc).worker w' = x) :
    w' = w ∧ pc = x ∨ s.worker w' = x := by
  rw [setWorker_worker] at h
  split at h
  · exact .inl ⟨‹_›, h⟩
  · exact .inr h

structure Inv (s : ThreadPool S) : Prop where
  order : s.started ++ s.queue = List.range s.next
  running : ∀ w t, s.worker w = .task t → t ∈ s.started ∧ t ∉ s.executed
  distinct : ∀ w w' t, s.worker w = .task t → s.worker w' = .task t → w = w'
  nodup : s.executed.Nodup
  ran : s.executed ⊆ s.started
  started : ∀ t ∈ s.started, t ∈ s.executed ∨ ∃ w, s.worker w = .task t
  before : s.before ≤ s.next
  /-- no worker leaves before the stop -/
  left : ∀ w, s.worker w = .returned → s.terminate = true
  called : s.stop = .notCalled ↔ s.terminate = false
  joined : ∀ k, s.stop = .join k → ∀ w : Fin S, w < k → s.worker w = .returned
  returned : s.stop = .returned → ∀ w, s.worker w = .returned

/-- When every worker has left, the tasks enqueued before the stop are taken. -/
def Drained (s : ThreadPool S) : Prop :=
  s.finish = .waitEmpty → (∀ w, s.worker w = .returned) → ∀ t ∈ s.queue, s.before ≤ t

theorem inv_init (S : Nat) : Inv (init S) where
  order := rfl
  running _ _ h := by cases h
  distinct _ _ _ h := by cases h
  nodup := .nil
  ran := List.Subset.refl _
  started _ h := by cases h
  before := Nat.le_refl 0
  left _ h := by cases h
  called := by simp [init]
  joined _ h := by cases h
  returned h := by cases h

namespace Inv

/-- A worker that runs no task goes elsewhere. -/
theorem set (h : Inv s) (hold : ∀ t, s.worker w ≠ .task t) (hret : s.worker w ≠ .returned)
    (hnew : ∀ t, pc ≠ .task t) (hterm : pc = .returned → s.terminate = true) :
    Inv (s.setWorker w pc) where
  order := h.order
  running w' t ht := h.running w' t ((setWorker_was ht).resolve_left fun he => hnew t he.2)
  distinct w1 w2 t h1 h2 := h.distinct w1 w2 t
    ((setWorker_was h1).resolve_left fun he => hnew t he.2)
    ((setWorker_was h2).resolve_left fun he => hnew t he.2)
  nodup := h.nodup
  ran := h.ran
  started t ht := (h.started t ht).imp_right fun ⟨w', hw'⟩ => ⟨w', setWorker_kept hw' (hold t)⟩
  before := h.before
  left w' hw' := (setWorker_was hw').elim (fun he => hterm he.2) (h.left w')
  called := h.called
  joined k hk w' hw' := setWorker_kept (h.joined k hk w' hw') hret
  returned hs _ := absurd (h.returned hs w) hret

/-- A worker takes the task at the front of the queue. -/
theorem take (h : Inv s) {t : Nat} {queue : List Nat} (hw : s.worker w = .wait)
    (hq : s.queue = t :: queue) :
    Inv { s.setWorker w (.task t) with queue, started := s.started ++ [t] } := by
  have horder : (s.started ++ [t]) ++ queue = List.range s.next := by
    rw [← h.order, hq, List.append_assoc, List.singleton_append]
  have hnew : t ∉ s.started := fun ht => by
    have hn : ((s.started ++ [t]) ++ queue).Nodup := horder ▸ List.nodup_range
    exact List.disjoint_of_nodup_append (List.nodup_append.1 hn).1 ht (List.mem_singleton_self t)
  have hold : ∀ x, x ≠ .wait → s.worker w ≠ x := fun x hx he => hx (he.symm.trans hw)
  have hrun : ∀ w' t', (s.setWorker w (.task t)).worker w' = .task t' →
      w' = w ∧ t = t' ∨ s.worker w' = .task t' := fun w' t' ht =>
    (setWorker_was ht).imp_left fun he => ⟨he.1, PoolWorker.task.inj he.2⟩
  refine ⟨horder, fun w' t' ht => ?_, fun w1 w2 t' h1 h2 => ?_, h.nodup,
    fun t' ht => List.mem_append_left _ (h.ran ht), fun t' ht => ?_, h.before,
    fun w' hw' => ?_, h.called,
    fun k hk w' hw' => setWorker_kept (h.joined k hk w' hw') (hold _ nofun),
    fun hs => absurd (h.returned hs w) (hold _ nofun)⟩
  · rcases hrun w' t' ht with ⟨-, rfl⟩ | ht
    · exact ⟨List.mem_append_right _ (List.mem_singleton_self _), fun he => hnew (h.ran he)⟩
    · exact ⟨List.mem_append_left _ (h.running w' t' ht).1, (h.running w' t' ht).2⟩
  · rcases hrun w1 t' h1 with ⟨rfl, rfl⟩ | h1
    · rcases hrun w2 _ h2 with ⟨rfl, -⟩ | h2
      · rfl
      · exact absurd (h.running w2 _ h2).1 hnew
    · rcases hrun w2 t' h2 with ⟨-, rfl⟩ | h2
      · exact absurd (h.running w1 _ h1).1 hnew
      · exact h.distinct w1 w2 t' h1 h2
  · rcases List.mem_append.1 ht with ht | ht
    · exact (h.started t' ht).imp_right fun ⟨w', hw'⟩ => ⟨w', setWorker_kept hw' (hold _ nofun)⟩
    · refine .inr ⟨w, ?_⟩
      rw [List.mem_singleton.1 ht]
      exact (setWorker_worker s w w _).trans (if_pos rfl)
  · rcases setWorker_was (show (s.setWorker w (.task t)).worker w' = .returned from hw') with he | he
    · cases he.2
    · exact h.left w' he

/-- The task of a worker ends. -/
theorem done (h : Inv s) {t : Nat} (hw : s.worker w = .task t) :
    Inv { s.setWorker w .head with executed := s.executed ++ [t] } := by
  obtain ⟨hstarted, hnot⟩ := h.running w t hw
  have hret : s.worker w ≠ .returned := by rw [hw]; exact PoolWorker.noConfusion
  have hrun : ∀ w' t', (s.setWorker w .head).worker w' = .task t' → s.worker w' = .task t' ∧ t' ≠ t :=
      fun w' t' ht => by
    rw [setWorker_worker] at ht
    split at ht
    · cases ht
    · rename_i hne
      exact ⟨ht, fun he => hne (h.distinct w' w t (he ▸ ht) hw)⟩
  refine ⟨h.order, fun w' t' ht => ?_, fun w1 w2 t' h1 h2 => ?_, ?_, fun t' ht => ?_,
    fun t' ht => ?_, h.before, fun w' hw' => ?_, h.called,
    fun k hk w' hw' => setWorker_kept (h.joined k hk w' hw') hret,
    fun hs => absurd (h.returned hs w) hret⟩
  · obtain ⟨ht, hne⟩ := hrun w' t' ht
    refine ⟨(h.running w' t' ht).1, fun he => ?_⟩
    rcases List.mem_append.1 he with he | he
    · exact (h.running w' t' ht).2 he
    · exact hne (List.mem_singleton.1 he)
  · exact h.distinct w1 w2 t' (hrun w1 t' h1).1 (hrun w2 t' h2).1
  · exact List.nodup_append.2 ⟨h.nodup, List.nodup_singleton t, fun a ha b hb he =>
      hnot (by rwa [← List.mem_singleton.1 hb, ← he])⟩
  · rcases List.mem_append.1 ht with ht | ht
    · exact h.ran ht
    · exact List.mem_singleton.1 ht ▸ hstarted
  · by_cases hne : t' = t
    · exact .inl (List.mem_append_right _ (List.mem_singleton.2 hne))
    · refine (h.started t' ht).imp (List.mem_append_left _) fun ⟨w', hw'⟩ => ⟨w', ?_⟩
      exact setWorker_kept hw' fun he => hne (PoolWorker.task.inj (he.symm.trans hw))
  · rcases setWorker_was (show (s.setWorker w .head).worker w' = .returned from hw') with he | he
    · cases he.2
    · exact h.left w' he

end Inv

/-- The block under the mutex: the worker waits, leaves, or takes a task. -/
theorem stepLock_cases (s : ThreadPool S) (w : Fin S) :
    (s.terminate = false ∧ s.stepLock w = s.setWorker w .asleep) ∨
    (s.terminate = true ∧ (s.finish = .waitEmpty → s.queue = []) ∧
      s.stepLock w = s.setWorker w .returned) ∨
    ∃ t queue, s.queue = t :: queue ∧
      s.stepLock w = { s.setWorker w (.task t) with queue, started := s.started ++ [t] } := by
  unfold stepLock
  cases hq : s.queue with
  | nil =>
    cases ht : s.terminate with
    | false => exact .inl ⟨rfl, rfl⟩
    | true =>
      refine .inr (.inl ⟨rfl, fun _ => rfl, ?_⟩)
      cases s.finish <;> rfl
  | cons t queue =>
    cases ht : s.terminate with
    | false => exact .inr (.inr ⟨t, queue, rfl, rfl⟩)
    | true =>
      cases hf : s.finish with
      | waitEmpty => exact .inr (.inr ⟨t, queue, rfl, rfl⟩)
      | direct => exact .inr (.inl ⟨rfl, nofun, rfl⟩)

theorem Inv.step {a : Act S} (h : Inv s) (hs : s.step a = some s') : Inv s' := by
  cases a with
  | enqueue =>
    cases hs
    refine { h with order := ?_, before := Nat.le_succ_of_le h.before }
    rw [← List.append_assoc, h.order, List.range_succ]
  | stop finish =>
    simp only [ThreadPool.step] at hs
    split at hs
    · cases hs
      refine { h with before := le_rfl, left := fun _ _ => rfl, called := by simp, joined := ?_,
                      returned := nofun }
      intro k hk w hw
      cases hk
      exact absurd hw (Nat.not_lt_zero _)
    · cases hs
  | join =>
    simp only [ThreadPool.step] at hs
    split at hs
    · rename_i k hk
      have hterm : s.terminate = true := by
        rw [← Bool.not_eq_false, ← h.called, hk]
        exact PoolStop.noConfusion
      split at hs
      · rename_i hlt
        split at hs
        · rename_i hret
          cases hs
          refine { h with called := by simp [hterm], joined := ?_, returned := nofun }
          intro k' hk' w hw
          cases hk'
          rcases Nat.lt_succ_iff_lt_or_eq.1 hw with hw | hw
          · exact h.joined k hk w hw
          · exact (Fin.ext hw : w = ⟨k, hlt⟩) ▸ hret
        · cases hs
      · rename_i hge
        cases hs
        refine { h with called := by simp [hterm], joined := nofun, returned := ?_ }
        exact fun _ w => h.joined k hk w (Nat.lt_of_lt_of_le w.2 (Nat.le_of_not_lt hge))
    · cases hs
  | loop w =>
    simp only [ThreadPool.step] at hs
    split at hs
    · rename_i hw
      cases hs
      refine h.set (by simp [hw]) (by simp [hw]) (fun t => ?_) fun hpc => ?_
      · split <;> exact PoolWorker.noConfusion
      · split at hpc
        · assumption
        · cases hpc
    · cases hs
  | lock w =>
    simp only [ThreadPool.step] at hs
    split at hs
    · rename_i hw
      cases hs
      have hold : ∀ x, x ≠ .wait → s.worker w ≠ x := fun x hx he => hx (he.symm.trans hw)
      rcases stepLock_cases s w with ⟨-, he⟩ | ⟨hterm, -, he⟩ | ⟨t, queue, hq, he⟩
      · rw [he]
        exact h.set (fun _ => hold _ nofun) (hold _ nofun) (fun _ => nofun) nofun
      · rw [he]
        exact h.set (fun _ => hold _ nofun) (hold _ nofun) (fun _ => nofun) fun _ => hterm
      · rw [he]
        exact h.take hw hq
    · cases hs
  | wake w =>
    simp only [ThreadPool.step] at hs
    split at hs
    · rename_i hw
      cases hs
      exact h.set (by simp [hw]) (by simp [hw]) (fun _ => nofun) nofun
    · cases hs
  | done w =>
    simp only [ThreadPool.step] at hs
    split at hs
    · rename_i t hw
      cases hs
      exact h.done hw
    · cases hs

/-- A step after which not every worker has left. -/
theorem Drained.of_worker (h : s.worker w ≠ .returned) : s.Drained := fun _ hall => absurd (hall w) h

theorem Drained.step {a : Act S} (hS : 0 < S) (hI : Inv s) (h : s.Drained) (hC : s.NotLast a)
    (hs : s.step a = some s') : s'.Drained := by
  cases a with
  | enqueue =>
    cases hs
    intro hf hall t ht
    rcases List.mem_append.1 ht with ht | ht
    · exact h hf hall t ht
    · rw [List.mem_singleton.1 ht]
      exact hI.before
  | stop finish =>
    simp only [ThreadPool.step] at hs
    split at hs
    · rename_i hnot
      cases hs
      -- before the stop no worker has left
      refine Drained.of_worker (w := ⟨0, hS⟩) fun hret => ?_
      rw [hI.called, ← Bool.not_eq_true] at hnot
      exact hnot (hI.left _ hret)
    · cases hs
  | join =>
    simp only [ThreadPool.step] at hs
    split at hs
    · split at hs
      · split at hs
        · cases hs
          exact h
        · cases hs
      · cases hs
        exact h
    · cases hs
  | loop w =>
    simp only [ThreadPool.step] at hs
    split at hs
    · cases hs
      intro hf hall
      have hterm : s.terminate = true := by
        by_contra hno
        have hw := hall w
        rw [setWorker_worker, if_pos rfl, if_neg hno] at hw
        cases hw
      refine hC hterm hf fun w' hne => ?_
      have hw' := hall w'
      rwa [setWorker_worker, if_neg hne] at hw'
    · cases hs
  | lock w =>
    simp only [ThreadPool.step] at hs
    split at hs
    · cases hs
      rcases stepLock_cases s w with ⟨-, he⟩ | ⟨-, hempty, he⟩ | ⟨t, queue, -, he⟩
      · rw [he]
        exact .of_worker (w := w) (by simp [setWorker_worker])
      · rw [he]
        intro hf _ t ht
        have hq : s.queue = [] := hempty hf
        have ht' : t ∈ s.queue := ht
        rw [hq] at ht'
        cases ht'
      · rw [he]
        exact .of_worker (w := w) (by simp [setWorker])
    · cases hs
  | wake w =>
    simp only [ThreadPool.step] at hs
    split at hs
    · cases hs
      exact .of_worker (w := w) (by simp [setWorker_worker])
    · cases hs
  | done w =>
    simp only [ThreadPool.step] at hs
    split at hs
    · cases hs
      exact .of_worker (w := w) (by simp [setWorker])
    · cases hs

theorem Inv.complete (h : Inv s) (hd : s.Drained) : s.Complete := by
  have hnodup : (s.started ++ s.queue).Nodup := h.order ▸ List.nodup_range
  have honce : ∀ t, s.started.count t ≤ 1 :=
    List.nodup_iff_count_le_one.1 (List.nodup_append.1 hnodup).1
  refine ⟨honce, fun hret hf t ht => ?_⟩
  have hall := h.returned hret
  have hmem : t ∈ s.started ++ s.queue := by
    rw [h.order]
    exact List.mem_range.2 (ht.trans_le h.before)
  have hstarted : t ∈ s.started := (List.mem_append.1 hmem).resolve_right fun hq =>
    absurd (hd hf hall t hq) (Nat.not_le.2 ht)
  have hexec : t ∈ s.executed := (h.started t hstarted).resolve_right fun ⟨w, hw⟩ => by
    rw [hall w] at hw
    cases hw
  exact ⟨List.count_eq_one_of_mem (List.nodup_append.1 hnodup).1 hstarted,
    List.count_eq_one_of_mem h.nodup hexec⟩

/-- Once all workers have left, the stop returns. -/
theorem joins : ∀ (n k : Nat) (s : ThreadPool S), S - k = n → s.stop = .join k →
    (∀ w, s.worker w = .returned) → Trans.Reach step s { s with stop := .returned }
  | 0, k, s, hn, hk, _ => by
    have hs : s.step .join = some { s with stop := .returned } := by
      simp only [step, hk]
      rw [dif_neg (Nat.not_lt.2 (Nat.le_of_sub_eq_zero hn))]
    exact .next .start trivial hs
  | n + 1, k, s, hn, hk, hall => by
    have hlt : k < S := Nat.lt_of_sub_eq_succ hn
    have hs : s.step .join = some { s with stop := .join (k + 1) } := by
      simp only [step, hk]
      rw [dif_pos hlt, if_pos (hall _)]
    have hrest := joins n (k + 1) { s with stop := .join (k + 1) }
      (by rw [Nat.sub_succ, hn]; rfl) rfl hall
    exact (Trans.Run.next .start trivial hs).trans hrest

/-- When the last worker leaves with such a task queued, the stop returns without it. -/
theorem Inv.incomplete {a : Act S} (h : Inv s) (hs : s.step a = some s') (hC : ¬ s.NotLast a) :
    ∃ s'', Trans.Reach ThreadPool.step s' s'' ∧ ¬ s''.Complete := by
  cases a with
  | loop w =>
    simp only [NotLast, not_forall, exists_prop, Nat.not_le] at hC
    obtain ⟨hterm, hf, hothers, t, ht, hlt⟩ := hC
    simp only [ThreadPool.step] at hs
    split at hs
    · rename_i hw
      cases hs
      have hall : ∀ w', (s.setWorker w .returned).worker w' = .returned := fun w' => by
        rw [setWorker_worker]
        split
        · rfl
        · exact hothers w' ‹_›
      obtain ⟨k, hk⟩ : ∃ k, s.stop = .join k := by
        cases hstop : s.stop with
        | notCalled => exact absurd (h.called.1 hstop) (by simp [hterm])
        | join k => exact ⟨k, rfl⟩
        | returned => exact absurd (h.returned hstop w) (by simp [hw])
      refine ⟨_, joins _ k (s.setWorker w .returned) rfl hk hall, fun hc => ?_⟩
      have hstarted : s.started.count t = 1 := (hc.executed rfl hf t hlt).1
      have hnodup : (s.started ++ s.queue).Nodup := h.order ▸ List.nodup_range
      refine List.disjoint_of_nodup_append hnodup (List.count_pos_iff.1 ?_) ht
      rw [hstarted]
      exact Nat.one_pos
    · cases hs
  | enqueue | stop _ | join | lock _ | wake _ | done _ => exact absurd trivial hC

/-- **Completion**, exactly when: along the runs in which the last worker does not leave at the head of
the loop with a task queued that was enqueued before the stop, no task runs twice, and a stop that
waits for the queue to be empty returns after each task enqueued before it has run once. When a
worker does leave so, a stop may return without. -/
theorem stop_complete (hS : 0 < S) :
    (∀ s, Trans.Run step NotLast (init S) s → s.Complete) ∧
    ∀ s a s', Trans.Run step NotLast (init S) s → s.step a = some s' → ¬ s.NotLast a →
      ∃ s'', Trans.Reach step s' s'' ∧ ¬ s''.Complete := by
  have hinv : ∀ s, Trans.Run step NotLast (init S) s → Inv s := fun s h =>
    h.invariant (inv_init S) fun _ _ _ hI _ hs => hI.step hs
  refine ⟨fun s h => ?_, fun s a s' h hs hC => (hinv s h).incomplete hs hC⟩
  exact (hinv s h).complete <| h.invariant_with (Drained.of_worker (w := ⟨0, hS⟩) nofun) hinv
    fun _ _ _ hd hI hC hs => hd.step hS hI hC hs

/-- Two tasks and a stop that waits for the queue to be empty, while the one worker is about to take
the first: it runs it and leaves, and the stop returns with the second task queued. -/
theorem stop_incomplete : ∃ s : ThreadPool 1, Trans.Reach step (init 1) s ∧ s.stop = .returned ∧
    s.finish = .waitEmpty ∧ s.before = 2 ∧ s.executed = [0] ∧ s.queue = [1] ∧ ¬ s.Complete := by
  have h : (Trans.exec step (fun _ _ => True) (init 1)
      [.enqueue, .enqueue, .loop 0, .stop .waitEmpty, .lock 0, .done 0, .loop 0, .join, .join]).map
      (fun s => (s.stop, s.finish, s.before, s.executed, s.queue)) =
      some (.returned, .waitEmpty, 2, [0], [1]) := by decide
  obtain ⟨s, hs, hout⟩ := Option.map_eq_some_iff.1 h
  simp only [Prod.mk.injEq] at hout
  obtain ⟨hstop, hf, hbefore, hexec, hq⟩ := hout
  refine ⟨s, .of_exec .start hs, hstop, hf, hbefore, hexec, hq, fun hc => ?_⟩
  have hone := (hc.executed hstop hf 1 (by rw [hbefore]; exact Nat.lt_succ_self 1)).2
  rw [hexec] at hone
  exact absurd hone (by decide)

/-- Two workers, of which one has left when the other takes the last task. -/
theorem stop_complete_run : ∃ s : ThreadPool 2,
    Trans.exec step NotLast (init 2) [.enqueue, .enqueue, .loop 0, .loop 1, .stop .waitEmpty,
      .lock 0, .done 0, .loop 0, .lock 1, .done 1, .loop 1, .join, .join, .join] = some s ∧
    s.stop = .returned ∧ s.executed = [0, 1] ∧ s.Complete := by
  have h : (Trans.exec step NotLast (init 2) [.enqueue, .enqueue, .loop 0, .loop 1, .stop .waitEmpty,
      .lock 0, .done 0, .loop 0, .lock 1, .done 1, .loop 1, .join, .join, .join]).map
      (fun s => (s.stop, s.executed)) = some (.returned, [0, 1]) := by decide
  obtain ⟨s, hs, hout⟩ := Option.map_eq_some_iff.1 h
  simp only [Prod.mk.injEq] at hout
  exact ⟨s, hs, hout.1, hout.2, (stop_complete (by decide)).1 s (.of_exec .start hs)⟩

end ThreadPool

end Fix42
