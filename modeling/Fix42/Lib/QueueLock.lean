import Mathlib.Data.List.Infix
import Mathlib.Data.List.Nodup

/-!
# A lock served from a queue

Tickets are allowed at the back of a queue. The ticket at the front may take the lock; unlocking pops
it. A ticket whose holder has not entered may be finished, wherever it stands. `allowed`, `finished`
and `served` record what happened.

`Inv` ties the queue to the records: what was allowed and not finished is what was served, in that
order, and then the queue. `Inv.sections_prefix` and `Inv.served_own` are what it is for.
-/

namespace QueueLock

variable {ι : Type*}

structure State (ι : Type*) where
  queue : List ι
  holder : Option ι
  allowed : List ι
  finished : List ι
  /-- who unlocked, and the ticket popped -/
  served : List (ι × Option ι)

/-- The tickets that took the lock, in order; the last may still hold it. -/
def State.sections (s : State ι) : List ι := s.served.map Prod.fst ++ s.holder.toList

variable [DecidableEq ι]

inductive Step (s : State ι) : State ι → Prop
  | allow (id : ι) (fresh : id ∉ s.allowed) :
      Step s { s with queue := s.queue ++ [id], allowed := s.allowed ++ [id] }
  | finish (id : ι) (known : id ∈ s.allowed) (waits : id ∉ s.sections) :
      Step s { s with queue := s.queue.filter (· ≠ id), finished := s.finished ++ [id] }
  | lock (id : ι) (front : s.queue.head? = some id) (free : s.holder = none) :
      Step s { s with holder := some id }
  | unlock (id : ι) (hold : s.holder = some id) :
      Step s { s with queue := s.queue.tail, holder := none,
                      served := s.served ++ [(id, s.queue.head?)] }

/-- The invariant (module doc). -/
structure Inv (s : State ι) : Prop where
  nodup : s.allowed.Nodup
  finished : s.finished ⊆ s.allowed
  order : s.allowed.filter (· ∉ s.finished) = s.served.map Prod.fst ++ s.queue
  front : ∀ id, s.holder = some id → s.queue.head? = some id
  own : ∀ u ∈ s.served, u.2 = some u.1

namespace Inv

variable {s s' : State ι} {id : ι}

theorem new : Inv (⟨[], none, [], [], []⟩ : State ι) where
  nodup := .nil
  finished := List.Subset.refl _
  order := rfl
  front := by simp
  own := by simp

theorem mem_queue (h : Inv s) (hq : id ∈ s.queue) : id ∈ s.allowed ∧ id ∉ s.finished := by
  have hm : id ∈ s.allowed.filter (· ∉ s.finished) := h.order ▸ List.mem_append_right _ hq
  simpa using hm

theorem queue_nodup (h : Inv s) : s.queue.Nodup :=
  (List.nodup_append.1 (h.order ▸ h.nodup.filter _)).2.1

/-- The sections follow the order of the allowed tickets, and none but finished ones are missing. -/
theorem sections_prefix (h : Inv s) : s.sections <+: s.allowed.filter (· ∉ s.finished) := by
  rw [h.order, State.sections, List.prefix_append_right_inj]
  cases hh : s.holder with
  | none => exact List.nil_prefix
  | some id =>
    obtain ⟨q, hq⟩ := List.head?_eq_some_iff.1 (h.front id hh)
    exact ⟨q, hq.symm⟩

/-! ## Preservation -/

theorem allow (h : Inv s) (fresh : id ∉ s.allowed) :
    Inv { s with queue := s.queue ++ [id], allowed := s.allowed ++ [id] } where
  nodup := List.nodup_append.2 ⟨h.nodup, List.nodup_singleton _, by
    rintro x hx y hy rfl
    exact fresh (List.mem_singleton.1 hy ▸ hx)⟩
  finished x hx := List.mem_append_left _ (h.finished hx)
  order := by
    have hid : id ∉ s.finished := fun hf => fresh (h.finished hf)
    rw [List.filter_append, h.order, List.append_assoc]
    simp [hid]
  front x hx := by
    obtain ⟨q, hq⟩ := List.head?_eq_some_iff.1 (h.front x hx)
    simp [hq]
  own := h.own

theorem finish (h : Inv s) (known : id ∈ s.allowed) (waits : id ∉ s.sections) :
    Inv { s with queue := s.queue.filter (· ≠ id), finished := s.finished ++ [id] } where
  nodup := h.nodup
  finished := List.append_subset.2 ⟨h.finished, by simpa using known⟩
  order := by
    have hserved : ∀ x ∈ s.served.map Prod.fst, decide (x ≠ id) = true := fun x hx => by
      have : x ≠ id := fun he => waits (List.mem_append_left _ (he ▸ hx))
      simpa using this
    calc s.allowed.filter (· ∉ s.finished ++ [id])
        = (s.allowed.filter (· ∉ s.finished)).filter (· ≠ id) := by
          rw [List.filter_filter]
          congr 1
          funext x
          simp [and_comm]
      _ = s.served.map Prod.fst ++ s.queue.filter (· ≠ id) := by
          rw [h.order, List.filter_append, List.filter_eq_self.2 hserved]
  front x hx := by
    have hne : x ≠ id := by
      rintro rfl
      exact waits (List.mem_append_right _ (Option.mem_toList.2 hx))
    obtain ⟨q, hq⟩ := List.head?_eq_some_iff.1 (h.front x hx)
    simp [hq, hne]
  own := h.own

theorem unlock (h : Inv s) (hold : s.holder = some id) :
    Inv { s with queue := s.queue.tail, holder := none,
                 served := s.served ++ [(id, s.queue.head?)] } where
  nodup := h.nodup
  finished := h.finished
  order := by
    obtain ⟨q, hq⟩ := List.head?_eq_some_iff.1 (h.front id hold)
    rw [h.order, hq]
    simp
  front x hx := by cases hx
  own u hu := by
    rcases List.mem_append.1 hu with hu | hu
    · exact h.own u hu
    · rw [List.mem_singleton.1 hu]
      exact h.front id hold

theorem step (h : Inv s) (hs : Step s s') : Inv s' := by
  cases hs with
  | allow id fresh => exact h.allow fresh
  | finish id known waits => exact h.finish known waits
  | lock id front free => exact { h with front := fun x hx => Option.some.inj hx ▸ front }
  | unlock id hold => exact h.unlock hold

/-- A finished ticket has left the queue. -/
theorem not_mem_of_finished (h : Inv s) (hf : id ∈ s.finished) : id ∉ s.queue := fun hq =>
  (h.mem_queue hq).2 hf

/-! ## One step at a time -/

/-- The ticket at the front goes only by its own holder's unlock or because it is finished. -/
theorem front_stays (h : Inv s) (hs : Step s s') (front : s.queue.head? = some id)
    (unserved : id ∉ s'.served.map Prod.fst) (unfinished : id ∉ s'.finished) :
    s'.queue.head? = some id := by
  obtain ⟨q, hq⟩ := List.head?_eq_some_iff.1 front
  cases hs with
  | allow x fresh => simp [hq]
  | finish x known waits =>
    have hne : id ≠ x := by
      rintro rfl
      simp at unfinished
    simp [hq, hne]
  | lock x _ free => exact front
  | unlock x hold =>
    have hx : id = x := Option.some.inj (front.symm.trans (h.front x hold))
    simp [hx] at unserved

/-- A ticket that left the queue without its turn was finished. -/
theorem finished_of_not_mem (h : Inv s) (hal : id ∈ s.allowed) (hq : id ∉ s.queue)
    (unserved : id ∉ s.served.map Prod.fst) : id ∈ s.finished := by
  by_contra hf
  have hm : id ∈ s.served.map Prod.fst ++ s.queue := h.order ▸ by simp [hal, hf]
  exact (List.mem_append.1 hm).elim unserved hq

end Inv

end QueueLock
