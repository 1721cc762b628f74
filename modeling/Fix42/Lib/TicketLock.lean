import Mathlib.Data.List.Nodup
import Mathlib.Logic.Function.Basic

/-!
# Tickets through pipelines

A lock whose tickets wait in one queue. The requests they belong to go through pipelines, one for
each `k : κ`: a router allows the ticket and hands the request to the pipeline's unit; the unit
finishes the ticket or passes the request on to the pipeline's worker, which waits for the lock,
holds it and unlocks. `handed`, `finished`, `queued` and `unlocked` record what happened.

`Inv` is the invariant: each pipeline holds the queue's tickets of its kind, in the queue's order.
`Inv.accounted` and `Inv.custody` are what it is for.
-/

namespace TicketLock

variable {κ ι : Type*}

inductive Router (κ ι : Type*)
  | idle
  | allowing (k : κ) (id : ι)
  | handing (k : κ) (id : ι)

inductive Worker (ι : Type*)
  | idle
  | waiting (id : ι)
  | holding (id : ι)
  deriving DecidableEq

def Worker.tickets : Worker ι → List ι
  | .idle => []
  | .waiting id | .holding id => [id]

@[ext] structure State (κ ι : Type*) where
  queue : List ι
  locked : Bool
  router : Router κ ι
  unit : κ → List ι
  ready : κ → List ι
  worker : κ → Worker ι
  routed : κ → List ι
  handed : List ι
  finished : List ι
  queued : List ι
  /-- whose worker unlocked, and the ticket it popped -/
  unlocked : List (ι × Option ι)

variable [DecidableEq κ] [DecidableEq ι]

def Router.tickets (k : κ) : Router κ ι → List ι
  | .handing k' id => if k' = k then [id] else []
  | _ => []

open Function in
inductive Step (s : State κ ι) : State κ ι → Prop
  | route (k : κ) (id : ι) (idle : s.router = .idle) (fresh : ∀ k', id ∉ s.routed k') :
      Step s { s with router := .allowing k id, routed := update s.routed k (s.routed k ++ [id]) }
  | allow (k : κ) (id : ι) (pc : s.router = .allowing k id) :
      Step s { s with router := .handing k id, queue := s.queue ++ [id] }
  | hand (k : κ) (id : ι) (pc : s.router = .handing k id) :
      Step s { s with router := .idle, unit := update s.unit k (s.unit k ++ [id]),
                      handed := s.handed ++ [id] }
  | finish (k : κ) (id : ι) (rest : List ι) (unit : s.unit k = id :: rest) :
      Step s { s with unit := update s.unit k rest, queue := s.queue.filter (· ≠ id),
                      finished := s.finished ++ [id] }
  | pass (k : κ) (id : ι) (rest : List ι) (unit : s.unit k = id :: rest) :
      Step s { s with unit := update s.unit k rest, ready := update s.ready k (s.ready k ++ [id]),
                      queued := s.queued ++ [id] }
  | take (k : κ) (id : ι) (rest : List ι) (idle : s.worker k = .idle)
      (ready : s.ready k = id :: rest) :
      Step s { s with ready := update s.ready k rest, worker := update s.worker k (.waiting id) }
  | lock (k : κ) (id : ι) (wait : s.worker k = .waiting id) (head : s.queue.head? = some id)
      (free : s.locked = false) :
      Step s { s with locked := true, worker := update s.worker k (.holding id) }
  | unlock (k : κ) (id : ι) (hold : s.worker k = .holding id) :
      Step s { s with queue := s.queue.tail, locked := false, worker := update s.worker k .idle,
                      unlocked := s.unlocked ++ [(id, s.queue.head?)] }

namespace State

/-- The tickets in pipeline `k`, from the worker back to the router. -/
def pipe (s : State κ ι) (k : κ) : List ι :=
  (s.worker k).tickets ++ s.ready k ++ s.unit k ++ s.router.tickets k

omit [DecidableEq κ] [DecidableEq ι] in
/-- The ticket is out of the queue for good. -/
def Gone (s : State κ ι) (id : ι) : Prop := id ∈ s.finished ∨ ∃ u ∈ s.unlocked, u.1 = id

/-- The request was rejected: its ticket was finished and it never got to the worker. -/
def Rejected (s : State κ ι) (id : ι) : Prop :=
  id ∈ s.finished ∧ id ∉ s.queued ∧ id ∉ s.queue ∧ ∀ u ∈ s.unlocked, u.1 ≠ id ∧ u.2 ≠ some id

/-- The ticket is in the queue until the request's own worker unlocks it. -/
def Held (s : State κ ι) (id : ι) : Prop :=
  id ∉ s.finished ∧
    (id ∈ s.queue ∧ (∀ u ∈ s.unlocked, u.1 ≠ id ∧ u.2 ≠ some id) ∨
      id ∉ s.queue ∧ (id, some id) ∈ s.unlocked)

end State

/-- The invariant (module doc). -/
structure Inv (s : State κ ι) : Prop where
  kinds : ∀ k k' id, id ∈ s.routed k → id ∈ s.routed k' → k = k'
  nodup : s.queue.Nodup
  routed : ∀ id, id ∈ s.queue ∨ s.Gone id → ∃ k, id ∈ s.routed k
  pipes : ∀ k, s.pipe k = s.queue.filter (· ∈ s.routed k)
  allowing : ∀ k id, s.router = .allowing k id → id ∈ s.routed k ∧ id ∉ s.queue ∧ ¬ s.Gone id
  holding : ∀ k id, s.worker k = .holding id → s.queue.head? = some id
  locked : s.locked = true ↔ ∃ k id, s.worker k = .holding id
  gone : ∀ id, s.Gone id → id ∉ s.queue
  finished : ∀ id ∈ s.finished, id ∉ s.queued ∧ ∀ u ∈ s.unlocked, u.1 ≠ id
  queued : ∀ id ∈ s.queued, (∃ k, id ∈ (s.worker k).tickets ++ s.ready k) ∨
    ∃ u ∈ s.unlocked, u.1 = id
  unlocked : ∀ u ∈ s.unlocked, u.2 = some u.1
  handed : ∀ id ∈ s.handed, s.Gone id ∨ id ∈ s.queue

namespace Inv

variable {s s' : State κ ι} {k k' : κ} {id : ι}

theorem mem_pipe (h : Inv s) : id ∈ s.pipe k ↔ id ∈ s.queue ∧ id ∈ s.routed k := by
  rw [h.pipes k, List.mem_filter, decide_eq_true_eq]

theorem pipe_nodup (h : Inv s) (k : κ) : (s.pipe k).Nodup := h.pipes k ▸ h.nodup.filter _

/-- A ticket is in one pipeline. -/
theorem pipe_unique (h : Inv s) (h1 : id ∈ s.pipe k) (h2 : id ∈ s.pipe k') : k = k' :=
  h.kinds k k' id (h.mem_pipe.1 h1).2 (h.mem_pipe.1 h2).2

theorem worker_mem (_ : Inv s) (hw : id ∈ (s.worker k).tickets) : id ∈ s.pipe k := by
  simp [State.pipe, hw]

/-- One worker holds the lock. -/
theorem holding_unique {id' : ι} (h : Inv s) (h1 : s.worker k = .holding id)
    (h2 : s.worker k' = .holding id') : k = k' := by
  have he := (h.holding k id h1).symm.trans (h.holding k' id' h2)
  cases he
  have hm : ∀ j, s.worker j = .holding id → id ∈ s.pipe j := fun j hj =>
    h.worker_mem (by simp [hj, Worker.tickets])
  exact h.pipe_unique (hm k h1) (hm k' h2)

/-- Taking one ticket out of its pipeline and out of the queue. -/
theorem pipes_remove (h : Inv s) (hm : id ∈ s.pipe k)
    (hpipe : s'.pipe k = (s.pipe k).filter (· ≠ id)) (hother : ∀ j ≠ k, s'.pipe j = s.pipe j)
    (hq : s'.queue = s.queue.filter (· ≠ id)) (hr : s'.routed = s.routed) (j : κ) :
    s'.pipe j = s'.queue.filter (· ∈ s'.routed j) := by
  have hj : s'.pipe j = (s.pipe j).filter (· ≠ id) := by
    by_cases hjk : j = k
    · rw [hjk, hpipe]
    · rw [hother j hjk, List.filter_eq_self.2]
      intro x hx
      simp only [ne_eq, decide_not, Bool.not_eq_eq_eq_not, Bool.not_true, decide_eq_false_iff_not]
      rintro rfl
      exact hjk (h.pipe_unique hx hm)
  rw [hj, h.pipes j, hq, hr, List.filter_filter, List.filter_filter]
  congr 1
  funext x
  exact Bool.and_comm _ _

omit [DecidableEq κ] in
/-- The front of the queue stays when another ticket goes. -/
theorem head_remove {id' : ι} (hh : s.queue.head? = some id') (hne : id' ≠ id) :
    (s.queue.filter (· ≠ id)).head? = some id' := by
  cases hq : s.queue with
  | nil => simp [hq] at hh
  | cons a q =>
    simp only [hq, List.head?_cons, Option.some.injEq] at hh
    subst hh
    simp [hne]

/-! ## Preservation -/

theorem new : Inv (⟨[], false, .idle, fun _ => [], fun _ => [], fun _ => .idle, fun _ => [], [], [],
    [], []⟩ : State κ ι) where
  kinds := by simp
  nodup := .nil
  routed := by simp [State.Gone]
  pipes := by simp [State.pipe, Worker.tickets, Router.tickets]
  allowing := by simp
  holding := by simp
  locked := by simp
  gone := by simp
  finished := by simp
  queued := by simp
  unlocked := by simp
  handed := by simp

theorem route (h : Inv s) (idle : s.router = .idle) (fresh : ∀ k', id ∉ s.routed k') :
    Inv { s with router := .allowing k id,
                 routed := Function.update s.routed k (s.routed k ++ [id]) } := by
  have hnew : ¬ (id ∈ s.queue ∨ s.Gone id) := fun hq => by
    obtain ⟨j, hj⟩ := h.routed id hq
    exact fresh j hj
  have hmem : ∀ j x, x ∈ Function.update s.routed k (s.routed k ++ [id]) j ↔
      x ∈ s.routed j ∨ j = k ∧ x = id := fun j x => by
    by_cases hj : j = k
    · subst hj
      simp
    · simp [hj]
  refine { h with kinds := ?_, routed := ?_, pipes := ?_, allowing := ?_ }
  · intro j j' x hx hx'
    rcases (hmem j x).1 hx with hx | ⟨hj, he⟩ <;> rcases (hmem j' x).1 hx' with hx' | ⟨hj', he'⟩
    · exact h.kinds j j' x hx hx'
    · exact absurd (he' ▸ hx) (fresh j)
    · exact absurd (he ▸ hx') (fresh j')
    · rw [hj, hj']
  · intro x hx
    obtain ⟨j, hj⟩ := h.routed x hx
    exact ⟨j, (hmem j x).2 (.inl hj)⟩
  · intro j
    have hp := h.pipes j
    simp only [State.pipe, idle, Router.tickets] at hp ⊢
    rw [hp]
    refine List.filter_congr fun x hx => ?_
    have hne : x ≠ id := fun he => hnew (.inl (he ▸ hx))
    simp [hmem, hne]
  · intro j x hx
    cases hx
    exact ⟨(hmem k id).2 (.inr ⟨rfl, rfl⟩), fun hq => hnew (.inl hq), fun hg => hnew (.inr hg)⟩

theorem allow (h : Inv s) (k : κ) (id : ι) (pc : s.router = .allowing k id) :
    Inv { s with router := .handing k id, queue := s.queue ++ [id] } := by
  obtain ⟨hr, hq, hg⟩ := h.allowing k id pc
  refine { h with nodup := ?_, routed := ?_, pipes := ?_, allowing := ?_, holding := ?_, gone := ?_,
                  handed := ?_ }
  · exact List.nodup_append.2 ⟨h.nodup, List.nodup_singleton _, fun a ha b hb hab => by
      rw [List.mem_singleton.1 hb] at hab
      exact hq (hab ▸ ha)⟩
  · rintro x (hx | hx)
    · rcases List.mem_append.1 hx with hx | hx
      · exact h.routed x (.inl hx)
      · exact ⟨k, List.mem_singleton.1 hx ▸ hr⟩
    · exact h.routed x (.inr hx)
  · intro j
    have hp := h.pipes j
    simp only [State.pipe, pc, Router.tickets, List.append_nil] at hp
    simp only [State.pipe, Router.tickets, hp, List.filter_append]
    by_cases hj : k = j
    · subst hj
      simp [hr]
    · have : id ∉ s.routed j := fun hm => hj (h.kinds k j id hr hm)
      simp [hj, this]
  · intro j x hx
    cases hx
  · intro j x hx
    have := h.holding j x hx
    cases hs : s.queue with
    | nil => simp [hs] at this
    | cons a q => simpa [hs] using this
  · intro x hx hm
    rcases List.mem_append.1 hm with hm | hm
    · exact h.gone x hx hm
    · rw [List.mem_singleton.1 hm] at hx
      exact hg hx
  · intro x hx
    exact (h.handed x hx).imp_right (List.mem_append_left _)

theorem hand (h : Inv s) (k : κ) (id : ι) (pc : s.router = .handing k id) :
    Inv { s with router := .idle, unit := Function.update s.unit k (s.unit k ++ [id]),
                 handed := s.handed ++ [id] } := by
  refine { h with pipes := ?_, allowing := ?_, handed := ?_ }
  · intro j
    have hp := h.pipes j
    simp only [State.pipe, pc, Router.tickets] at hp ⊢
    by_cases hj : k = j
    · subst hj
      simpa using hp
    · simpa [hj, Function.update_of_ne (Ne.symm hj)] using hp
  · intro j x hx
    cases hx
  · intro x hx
    rcases List.mem_append.1 hx with hx | hx
    · exact h.handed x hx
    · have hm : id ∈ s.pipe k := by simp [State.pipe, pc, Router.tickets]
      rw [List.mem_singleton.1 hx]
      exact .inr (h.mem_pipe.1 hm).1

/-- A ticket in the pipelines is not gone, nor about to be allowed. -/
theorem not_gone (h : Inv s) (hm : id ∈ s.pipe k) : ¬ s.Gone id := fun hg =>
  h.gone id hg (h.mem_pipe.1 hm).1

theorem finish (h : Inv s) {rest : List ι} (unit : s.unit k = id :: rest) :
    Inv { s with unit := Function.update s.unit k rest, queue := s.queue.filter (· ≠ id),
                 finished := s.finished ++ [id] } := by
  have hm : id ∈ s.pipe k := by simp [State.pipe, unit]
  have hnd := h.pipe_nodup k
  simp only [State.pipe, unit] at hnd
  have hpipe : ∀ j ≠ k, Function.update s.unit k rest j = s.unit j := fun j hj =>
    Function.update_of_ne hj _ _
  have hgone : ∀ x, (x ∈ s.finished ++ [id] ∨ ∃ u ∈ s.unlocked, u.1 = x) → s.Gone x ∨ x = id := by
    rintro x (hx | hx)
    · rcases List.mem_append.1 hx with hx | hx
      · exact .inl (.inl hx)
      · exact .inr (List.mem_singleton.1 hx)
    · exact .inl (.inr hx)
  -- the ticket was still with the unit, so the worker has not seen it
  have hready : ∀ j, id ∉ (s.worker j).tickets ++ s.ready j := fun j hj => by
    have hj' : id ∈ s.pipe j := by
      simp only [State.pipe, List.mem_append] at hj ⊢
      exact .inl (.inl hj)
    cases h.pipe_unique hj' hm
    simp only [List.append_assoc, List.cons_append] at hnd
    rw [← List.append_assoc, List.nodup_middle] at hnd
    exact (List.nodup_cons.1 hnd).1 (List.mem_append_left _ hj)
  have hqueued : id ∉ s.queued := fun hq => by
    rcases h.queued id hq with ⟨j, hj⟩ | ⟨u, hu, he⟩
    · exact hready j hj
    · exact h.not_gone hm (.inr ⟨u, hu, he⟩)
  refine { h with nodup := h.nodup.filter _, routed := ?_, pipes := ?_, allowing := ?_, holding := ?_,
                  gone := ?_, finished := ?_, handed := ?_ }
  · rintro x (hx | hx)
    · exact h.routed x (.inl (List.mem_filter.1 hx).1)
    · rcases hgone x hx with hx | rfl
      · exact h.routed x (.inr hx)
      · exact ⟨k, (h.mem_pipe.1 hm).2⟩
  · refine h.pipes_remove hm ?_ (fun j hj => ?_) rfl rfl
    · simp only [State.pipe, Function.update_self, unit]
      have hrest : (s.worker k).tickets ++ s.ready k ++ rest ++ s.router.tickets k =
          ((s.worker k).tickets ++ s.ready k ++ id :: rest ++ s.router.tickets k).erase id := by
        rw [List.append_assoc _ (id :: rest), List.erase_append_right _ (hready k),
          List.cons_append, List.erase_cons_head, List.append_assoc _ rest]
      rw [hrest, hnd.erase_eq_filter]
      exact List.filter_congr fun x _ => Bool.eq_iff_iff.2 (by simp)
    · simp only [State.pipe, hpipe j hj]
  · intro j x hx
    obtain ⟨h1, h2, h3⟩ := h.allowing j x hx
    refine ⟨h1, fun hq => h2 (List.mem_filter.1 hq).1, fun hg => ?_⟩
    rcases hgone x hg with hg | rfl
    · exact h3 hg
    · exact h2 (h.mem_pipe.1 hm).1
  · intro j x hx
    refine head_remove (h.holding j x hx) ?_
    rintro rfl
    exact hready j (by simp [show s.worker j = .holding x from hx, Worker.tickets])
  · intro x hx hq
    rcases hgone x hx with hx | rfl
    · exact h.gone x hx (List.mem_filter.1 hq).1
    · simp at hq
  · intro x hx
    rcases List.mem_append.1 hx with hx | hx
    · exact h.finished x hx
    · rw [List.mem_singleton.1 hx]
      exact ⟨hqueued, fun u hu he => h.not_gone hm (.inr ⟨u, hu, he⟩)⟩
  · intro x hx
    by_cases hxid : x = id
    · exact .inl (.inl (by simp [hxid]))
    · refine (h.handed x hx).imp (Or.imp_left (List.mem_append_left _)) fun hq => ?_
      exact List.mem_filter.2 ⟨hq, by simpa using hxid⟩

theorem pass (h : Inv s) {rest : List ι} (unit : s.unit k = id :: rest) :
    Inv { s with unit := Function.update s.unit k rest,
                 ready := Function.update s.ready k (s.ready k ++ [id]),
                 queued := s.queued ++ [id] } := by
  have hm : id ∈ s.pipe k := by simp [State.pipe, unit]
  refine { h with pipes := ?_, finished := ?_, queued := ?_ }
  · intro j
    have hp := h.pipes j
    simp only [State.pipe] at hp ⊢
    by_cases hj : j = k
    · subst hj
      simpa [unit] using hp
    · simpa [Function.update_of_ne hj] using hp
  · intro x hx
    obtain ⟨h1, h2⟩ := h.finished x hx
    refine ⟨fun hq => ?_, h2⟩
    rcases List.mem_append.1 hq with hq | hq
    · exact h1 hq
    · exact h.not_gone hm (.inl (List.mem_singleton.1 hq ▸ hx))
  · intro x hx
    rcases List.mem_append.1 hx with hx | hx
    · refine (h.queued x hx).imp_left ?_
      rintro ⟨j, hj⟩
      refine ⟨j, ?_⟩
      by_cases hjk : j = k
      · subst hjk
        simp only [Function.update_self, List.mem_append] at hj ⊢
        exact hj.imp_right .inl
      · simpa [Function.update_of_ne hjk] using hj
    · exact .inl ⟨k, by simp [List.mem_singleton.1 hx]⟩

theorem take (h : Inv s) (k : κ) (id : ι) (rest : List ι) (idle : s.worker k = .idle)
    (ready : s.ready k = id :: rest) :
    Inv { s with ready := Function.update s.ready k rest,
                 worker := Function.update s.worker k (.waiting id) } := by
  have hmoved : ∀ j, (Function.update s.worker k (.waiting id) j).tickets ++
      Function.update s.ready k rest j = (s.worker j).tickets ++ s.ready j := fun j => by
    by_cases hj : j = k
    · subst hj
      simp [idle, ready, Worker.tickets]
    · simp [Function.update_of_ne hj]
  have hhold : ∀ j x, Function.update s.worker k (.waiting id) j = .holding x ↔
      s.worker j = .holding x := fun j x => by
    by_cases hj : j = k
    · subst hj
      simp [idle]
    · simp [Function.update_of_ne hj]
  refine { h with pipes := ?_, holding := ?_, locked := ?_, queued := ?_ }
  · intro j
    simp only [State.pipe, hmoved]
    exact h.pipes j
  · intro j x hx
    exact h.holding j x ((hhold j x).1 hx)
  · simp only [hhold]
    exact h.locked
  · simp only [hmoved]
    exact h.queued

theorem lock (h : Inv s) (k : κ) (id : ι) (wait : s.worker k = .waiting id)
    (head : s.queue.head? = some id) :
    Inv { s with locked := true, worker := Function.update s.worker k (.holding id) } := by
  have htickets : ∀ j, (Function.update s.worker k (.holding id) j).tickets =
      (s.worker j).tickets := fun j => by
    by_cases hj : j = k
    · subst hj
      simp [wait, Worker.tickets]
    · simp [Function.update_of_ne hj]
  refine { h with pipes := ?_, holding := ?_, locked := ?_, queued := ?_ }
  · intro j
    simp only [State.pipe, htickets]
    exact h.pipes j
  · intro j x hx
    by_cases hj : j = k
    · subst hj
      simp only [Function.update_self, Worker.holding.injEq] at hx
      exact hx ▸ head
    · simp only [Function.update_of_ne hj] at hx
      exact h.holding j x hx
  · exact ⟨fun _ => ⟨k, id, by simp⟩, fun _ => rfl⟩
  · simp only [htickets]
    exact h.queued

theorem unlock (h : Inv s) (hold : s.worker k = .holding id) :
    Inv { s with queue := s.queue.tail, locked := false,
                 worker := Function.update s.worker k .idle,
                 unlocked := s.unlocked ++ [(id, s.queue.head?)] } := by
  have hm : id ∈ s.pipe k := h.worker_mem (by simp [hold, Worker.tickets])
  have hhead := h.holding k id hold
  have hnd := h.nodup
  have htail : s.queue.tail = s.queue.filter (· ≠ id) := by
    cases hs : s.queue with
    | nil => rfl
    | cons a q =>
      simp only [hs, List.head?_cons, Option.some.injEq] at hhead
      subst hhead
      rw [hs, List.nodup_cons] at hnd
      rw [List.tail_cons, List.filter_cons_of_neg (by simp), List.filter_eq_self.2]
      intro x hx
      simp only [ne_eq, decide_not, Bool.not_eq_eq_eq_not, Bool.not_true, decide_eq_false_iff_not]
      rintro rfl
      exact hnd.1 hx
  have hother : ∀ j ≠ k, Function.update s.worker k .idle j = s.worker j := fun j hj =>
    Function.update_of_ne hj _ _
  have hgone : ∀ x, (x ∈ s.finished ∨ ∃ u ∈ s.unlocked ++ [(id, s.queue.head?)], u.1 = x) →
      s.Gone x ∨ x = id := by
    rintro x (hx | ⟨u, hu, he⟩)
    · exact .inl (.inl hx)
    · rcases List.mem_append.1 hu with hu | hu
      · exact .inl (.inr ⟨u, hu, he⟩)
      · rw [List.mem_singleton.1 hu] at he
        exact .inr he.symm
  refine { h with nodup := ?_, routed := ?_, pipes := ?_, allowing := ?_, holding := ?_,
                  locked := ?_, gone := ?_, finished := ?_, queued := ?_, unlocked := ?_,
                  handed := ?_ }
  · exact htail ▸ h.nodup.filter _
  · rintro x (hx | hx)
    · exact h.routed x (.inl (List.mem_of_mem_tail hx))
    · rcases hgone x hx with hx | rfl
      · exact h.routed x (.inr hx)
      · exact ⟨k, (h.mem_pipe.1 hm).2⟩
  · refine h.pipes_remove hm ?_ (fun j hj => ?_) htail rfl
    · have hp := h.pipe_nodup k
      simp only [State.pipe, hold, Worker.tickets, List.cons_append, List.nil_append,
        Function.update_self] at hp ⊢
      rw [List.filter_cons_of_neg (by simp), List.filter_eq_self.2]
      intro x hx
      simp only [ne_eq, decide_not, Bool.not_eq_eq_eq_not, Bool.not_true, decide_eq_false_iff_not]
      rintro rfl
      exact (List.nodup_cons.1 hp).1 hx
    · simp only [State.pipe, hother j hj]
  · intro j x hx
    obtain ⟨h1, h2, h3⟩ := h.allowing j x hx
    refine ⟨h1, fun hq => h2 (List.mem_of_mem_tail hq), fun hg => ?_⟩
    rcases hgone x hg with hg | rfl
    · exact h3 hg
    · exact h2 (h.mem_pipe.1 hm).1
  · intro j x hx
    by_cases hj : j = k
    · subst hj
      simp at hx
    · simp only [hother j hj] at hx
      exact absurd (h.holding_unique hx hold) hj
  · refine ⟨fun hl => (by cases hl), ?_⟩
    rintro ⟨j, x, hx⟩
    by_cases hj : j = k
    · subst hj
      simp at hx
    · simp only [hother j hj] at hx
      exact absurd (h.holding_unique hx hold) hj
  · intro x hx hq
    rcases hgone x hx with hx | rfl
    · exact h.gone x hx (List.mem_of_mem_tail hq)
    · simp only [htail] at hq
      simp at hq
  · intro x hx
    obtain ⟨h1, h2⟩ := h.finished x hx
    refine ⟨h1, fun u hu he => ?_⟩
    rcases List.mem_append.1 hu with hu | hu
    · exact h2 u hu he
    · rw [List.mem_singleton.1 hu] at he
      obtain rfl : id = x := he
      exact h.not_gone hm (.inl hx)
  · intro x hx
    rcases h.queued x hx with ⟨j, hj⟩ | ⟨u, hu, he⟩
    · by_cases hjk : j = k
      · subst hjk
        simp only [hold, Worker.tickets, List.cons_append, List.nil_append, List.mem_cons] at hj
        rcases hj with rfl | hj
        · exact .inr ⟨_, List.mem_append_right _ (List.mem_singleton_self _), rfl⟩
        · exact .inl ⟨j, by simp [hj, Worker.tickets]⟩
      · exact .inl ⟨j, by simpa [hother j hjk] using hj⟩
    · exact .inr ⟨u, List.mem_append_left _ hu, he⟩
  · intro u hu
    rcases List.mem_append.1 hu with hu | hu
    · exact h.unlocked u hu
    · rw [List.mem_singleton.1 hu]
      exact hhead
  · intro x hx
    by_cases hxid : x = id
    · exact .inl (.inr ⟨_, List.mem_append_right _ (List.mem_singleton_self _), hxid.symm⟩)
    · refine (h.handed x hx).imp (Or.imp_right ?_) fun hq => ?_
      · rintro ⟨u, hu, he⟩
        exact ⟨u, List.mem_append_left _ hu, he⟩
      · simp only [htail]
        exact List.mem_filter.2 ⟨hq, by simpa using hxid⟩

theorem step (h : Inv s) (hs : Step s s') : Inv s' := by
  cases hs with
  | route k id idle fresh => exact h.route idle fresh
  | allow k id pc => exact h.allow k id pc
  | hand k id pc => exact h.hand k id pc
  | finish k id rest unit => exact h.finish unit
  | pass k id rest unit => exact h.pass unit
  | take k id rest idle ready => exact h.take k id rest idle ready
  | lock k id wait head free => exact h.lock k id wait head
  | unlock k id hold => exact h.unlock hold

/-! ## Consequences -/

/-- Every request handed to a unit was rejected, or its ticket is in the queue until its own worker
unlocks it. -/
theorem accounted (h : Inv s) (hid : id ∈ s.handed) :
    s.Rejected id ∧ ¬ s.Held id ∨ s.Held id ∧ ¬ s.Rejected id := by
  have hpop : (∀ u ∈ s.unlocked, u.1 ≠ id) → ∀ u ∈ s.unlocked, u.1 ≠ id ∧ u.2 ≠ some id :=
    fun hu u hm => ⟨hu u hm, fun he => hu u hm (by simpa [h.unlocked u hm] using he)⟩
  by_cases hf : id ∈ s.finished
  · obtain ⟨h1, h2⟩ := h.finished id hf
    exact .inl ⟨⟨hf, h1, h.gone id (.inl hf), hpop h2⟩, fun hh => hh.1 hf⟩
  · refine .inr ⟨⟨hf, ?_⟩, fun hr => hf hr.1⟩
    by_cases hq : id ∈ s.queue
    · exact .inl ⟨hq, hpop fun u hu he => h.gone id (.inr ⟨u, hu, he⟩) hq⟩
    · rcases (h.handed id hid).resolve_right hq with hg | ⟨⟨w, p⟩, hu, rfl⟩
      · exact absurd hg hf
      · obtain rfl : p = some w := h.unlocked _ hu
        exact .inr ⟨hq, hu⟩

theorem waiting_mem (h : Inv s) (wait : s.worker k = .waiting id) : id ∈ s.queue :=
  (h.mem_pipe.1 (h.worker_mem (k := k) (by simp [wait, Worker.tickets]))).1

/-- The ticket at the front is with someone who can go on: a worker that holds the lock, or, with the
lock free, the first of its pipeline. -/
theorem custody (h : Inv s) (hh : s.queue.head? = some id) :
    (∃ k, s.worker k = .holding id) ∨ s.locked = false ∧ ∃ k,
      s.worker k = .waiting id ∨ s.worker k = .idle ∧
        ((∃ rest, s.ready k = id :: rest) ∨ (∃ rest, s.unit k = id :: rest) ∨
          s.router = .handing k id) := by
  cases hl : s.locked with
  | true =>
    obtain ⟨k, id', hk⟩ := h.locked.1 hl
    have he := hh.symm.trans (h.holding k id' hk)
    cases he
    exact .inl ⟨k, hk⟩
  | false =>
    refine .inr ⟨rfl, ?_⟩
    obtain ⟨q, hq⟩ : ∃ q, s.queue = id :: q := by
      cases hs : s.queue with
      | nil => simp [hs] at hh
      | cons a q =>
        simp only [hs, List.head?_cons, Option.some.injEq] at hh
        exact ⟨q, by rw [hh]⟩
    obtain ⟨k, hk⟩ := h.routed id (.inl (by simp [hq]))
    have hp : s.pipe k = id :: q.filter (· ∈ s.routed k) := by
      rw [h.pipes k, hq, List.filter_cons_of_pos (by simpa using hk)]
    simp only [State.pipe] at hp
    refine ⟨k, ?_⟩
    cases hw : s.worker k with
    | holding id' => simp [(h.locked.2 ⟨k, id', hw⟩)] at hl
    | waiting id' =>
      simp only [hw, Worker.tickets, List.cons_append, List.cons.injEq] at hp
      exact .inl (by rw [hp.1])
    | idle =>
      refine .inr ⟨rfl, ?_⟩
      simp only [hw, Worker.tickets, List.nil_append] at hp
      cases hr : s.ready k with
      | cons a rest =>
        simp only [hr, List.cons_append, List.cons.injEq] at hp
        exact .inl ⟨rest, by rw [hp.1]⟩
      | nil =>
        simp only [hr, List.nil_append] at hp
        cases hu : s.unit k with
        | cons a rest =>
          simp only [hu, List.cons_append, List.cons.injEq] at hp
          exact .inr (.inl ⟨rest, by rw [hp.1]⟩)
        | nil =>
          simp only [hu, List.nil_append] at hp
          unfold Router.tickets at hp
          split at hp
          · rename_i k' id' pc
            split at hp
            · rename_i hk'
              simp only [List.cons.injEq] at hp
              exact .inr (.inr (by rw [pc, hk', hp.1]))
            · cases hp
          · cases hp

end Inv

end TicketLock
