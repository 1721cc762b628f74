import Fix42.Thread.ProcessUnit

/-!
# What a process unit does with its input

`Inv` holds of every reachable unit. `unit_delivers` reads off it what the queue is for: each message is
handled once, in the order of the pushes, and a unit that was stopped leaves those behind that were pushed
after it last found its queue empty. `stop_bounded` bounds the steps of a unit that was asked to stop and
gets no more input; `stop_postponed` shows that it can go on for as long as there is input.
-/

namespace Fix42

namespace ProcessUnit

variable {μ : Type*} {u u' : ProcessUnit μ}

/-- The thread is past its loop, or before it, with no message read since the queue was found empty. -/
def Idle (u : ProcessUnit μ) : Prop :=
  u.pc = .unstarted ∨ u.pc = .head ∨ u.pc = .returned ∨ u.promise = .value

structure Inv (u : ProcessUnit μ) : Prop where
  pushed : u.pushed = u.handled ++ u.hand ++ u.queue
  pop : u.pc = .pop → u.queue ≠ []
  fresh : u.Idle → u.queue = u.fresh
  promise : u.promise = .unset ↔ u.pc ≠ .ended
  asked : u.pc = .returned ∨ u.promise = .value → u.stopRequested = true
  started : u.stopRequested = true → u.pc ≠ .unstarted
  valid : u.valid = false → u.promise ≠ .unset
  stopped : u.stop = .returned → u.pc = .ended

theorem Inv.new : Inv (ProcessUnit.new : ProcessUnit μ) where
  pushed := rfl
  pop h := by cases h
  fresh _ := rfl
  promise := ⟨fun _ h => (by cases h), fun _ => rfl⟩
  asked h := by rcases h with h | h <;> cases h
  started h := by cases h
  valid h := by cases h
  stopped h := by cases h

theorem Inv.push (h : Inv u) (m : μ) : Inv (u.push m) where
  pushed := by
    show u.pushed ++ [m] = u.handled ++ u.hand ++ (u.queue ++ [m])
    rw [h.pushed, List.append_assoc]
  pop hp := List.append_ne_nil_of_left_ne_nil (h.pop hp) [m]
  fresh hi := congrArg (· ++ [m]) (h.fresh hi)
  promise := h.promise
  asked := h.asked
  started := h.started
  valid := h.valid
  stopped := h.stopped

/-- `status` touches the future only, and gives it up only when the thread has ended. -/
theorem status_cases (u : ProcessUnit μ) :
    u.status.2 = u ∨ u.status.2 = { u with valid := false } ∧ u.promise ≠ .unset := by
  unfold status
  split
  · split
    · exact .inl rfl
    · rename_i hp
      exact .inr ⟨rfl, by rw [hp]; exact UnitPromise.noConfusion⟩
    · rename_i hp
      exact .inr ⟨rfl, by rw [hp]; exact UnitPromise.noConfusion⟩
  · exact .inl rfl

theorem Inv.status (h : Inv u) : Inv u.status.2 := by
  rcases u.status_cases with he | ⟨he, hp⟩
  · rw [he]
    exact h
  · rw [he]
    exact ⟨h.pushed, h.pop, h.fresh, h.promise, h.asked, h.started, fun _ => hp, h.stopped⟩

/-- The ways the thread can go on. -/
inductive Goes (u : ProcessUnit μ) : Bool → ProcessUnit μ → Prop
  | leave {t} (pc : u.pc = .head) (asked : u.stopRequested = true) :
      Goes u t { u with pc := .returned }
  | sleep {t} (pc : u.pc = .head) (asked : u.stopRequested = false) : Goes u t { u with pc := .wait }
  | wake {t} (pc : u.pc = .wait) : Goes u t { u with pc := .test }
  | empty {t} (pc : u.pc = .test) (queue : u.queue = []) :
      Goes u t { u with pc := .head, fresh := [] }
  | more {t} (pc : u.pc = .test) (queue : u.queue ≠ []) : Goes u t { u with pc := .pop }
  | take {t} (m : μ) (rest : List μ) (pc : u.pc = .pop) (queue : u.queue = m :: rest) :
      Goes u t { u with pc := .input m, queue := rest }
  | done (m : μ) (pc : u.pc = .input m) :
      Goes u false { u with pc := .test, handled := u.handled ++ [m] }
  | thrown (m : μ) (pc : u.pc = .input m) :
      Goes u true { u with pc := .caught, handled := u.handled ++ [m] }
  | kept {t} (pc : u.pc = .returned) : Goes u t { u with pc := .ended, promise := .value }
  | broken {t} (pc : u.pc = .caught) : Goes u t { u with pc := .ended, promise := .exception }

theorem run_sound {throws : Bool} (hs : u.run throws = some u') : Goes u throws u' := by
  unfold ProcessUnit.run at hs
  split at hs
  · cases hs
  · cases hs
  · rename_i pc
    by_cases asked : u.stopRequested = true
    · rw [if_pos asked] at hs
      cases hs
      exact .leave pc asked
    · rw [if_neg asked] at hs
      cases hs
      exact .sleep pc (Bool.eq_false_iff.2 asked)
  · rename_i pc
    cases hs
    exact .wake pc
  · rename_i pc
    split at hs
    · rename_i queue
      cases hs
      exact .empty pc queue
    · rename_i m rest queue
      cases hs
      exact .more pc (by rw [queue]; exact List.cons_ne_nil m rest)
  · rename_i pc
    split at hs
    · cases hs
    · rename_i m rest queue
      cases hs
      exact .take m rest pc queue
  · rename_i m pc
    cases hs
    cases throws with
    | false => exact .done m pc
    | true => exact .thrown m pc
  · rename_i pc
    cases hs
    exact .kept pc
  · rename_i pc
    cases hs
    exact .broken pc

/-- A step of the thread that does not end it. -/
theorem Inv.thread (h : Inv u) {pc : UnitPc μ} {queue handled fresh : List μ}
    (alive : u.pc ≠ .ended) (alive' : pc ≠ .ended) (started' : pc ≠ .unstarted)
    (pushed : u.pushed = handled ++ ({ u with pc } : ProcessUnit μ).hand ++ queue)
    (pop : pc = .pop → queue ≠ []) (idle : pc = .head ∨ pc = .returned → queue = fresh)
    (asked : pc = .returned → u.stopRequested = true) :
    Inv { u with pc, queue, handled, fresh } := by
  have hunset : u.promise = .unset := h.promise.2 alive
  refine ⟨pushed, pop, ?_, ⟨fun _ => alive', fun _ => hunset⟩, ?_, fun _ => started', h.valid, ?_⟩
  · rintro (hpc | hpc | hpc | hp)
    · exact absurd hpc started'
    · exact idle (.inl hpc)
    · exact idle (.inr hpc)
    · cases hunset.symm.trans hp
  · rintro (hpc | hp)
    · exact asked hpc
    · cases hunset.symm.trans hp
  · intro hstop
    exact absurd (h.stopped hstop) alive

theorem Inv.run (h : Inv u) {throws : Bool} (hs : u.run throws = some u') : Inv u' := by
  have hpushed := h.pushed
  unfold hand at hpushed
  cases run_sound hs with
  | leave pc asked =>
    rw [pc] at hpushed
    exact h.thread (by simp [pc]) (by simp) (by simp) hpushed (by simp)
      (fun _ => h.fresh (.inr (.inl pc))) fun _ => asked
  | sleep pc asked =>
    rw [pc] at hpushed
    exact h.thread (by simp [pc]) (by simp) (by simp) hpushed (by simp) (by simp) (by simp)
  | wake pc =>
    rw [pc] at hpushed
    exact h.thread (by simp [pc]) (by simp) (by simp) hpushed (by simp) (by simp) (by simp)
  | empty pc queue =>
    rw [pc] at hpushed
    exact h.thread (by simp [pc]) (by simp) (by simp) hpushed (by simp) (fun _ => queue) (by simp)
  | more pc queue =>
    rw [pc] at hpushed
    exact h.thread (by simp [pc]) (by simp) (by simp) hpushed (fun _ => queue) (by simp) (by simp)
  | take m rest pc queue =>
    rw [pc, queue] at hpushed
    refine h.thread (by simp [pc]) (by simp) (by simp) ?_ (by simp) (by simp) (by simp)
    rw [hpushed, List.append_nil, List.append_assoc]
    rfl
  | done m pc | thrown m pc =>
    rw [pc] at hpushed
    refine h.thread (by simp [pc]) (by simp) (by simp) ?_ (by simp) (by simp) (by simp)
    rw [hpushed]
    exact congrArg (· ++ u.queue) (List.append_nil _).symm
  | kept pc =>
    rw [pc] at hpushed
    exact ⟨hpushed, (by simp), fun _ => h.fresh (.inr (.inr (.inl pc))), by simp,
      fun _ => h.asked (.inl pc), by simp, by simp, fun _ => rfl⟩
  | broken pc =>
    rw [pc] at hpushed
    exact ⟨hpushed, (by simp), (by simp [Idle]), by simp, by simp, by simp, by simp, fun _ => rfl⟩

/-- What the calls of the owner leave alone. -/
structure Frame (u u' : ProcessUnit μ) : Prop where
  pc : u'.pc = u.pc
  queue : u'.queue = u.queue
  handled : u'.handled = u.handled
  asked : u.stopRequested = true → u'.stopRequested = true

theorem status_frame (u : ProcessUnit μ) : Frame u u.status.2 := by
  rcases u.status_cases with he | ⟨he, -⟩ <;> rw [he] <;> exact ⟨rfl, rfl, rfl, id⟩

theorem stopStep_frame (hs : u.stopStep = some u') : Frame u u' := by
  unfold ProcessUnit.stopStep at hs
  split at hs
  · cases hs
    exact ⟨rfl, rfl, rfl, id⟩
  · cases hs
    exact ⟨rfl, rfl, rfl, fun _ => rfl⟩
  · cases hs
    exact ⟨rfl, rfl, rfl, id⟩
  · cases hs
  · split at hs
    · cases hs
    · cases hs
      exact ⟨rfl, rfl, rfl, id⟩
  · cases hs

theorem Inv.stopStep (h : Inv u) (hs : u.stopStep = some u') : Inv u' := by
  unfold ProcessUnit.stopStep at hs
  split at hs
  · cases hs
    exact ⟨h.pushed, h.pop, h.fresh, h.promise, h.asked, h.started, h.valid, by simp⟩
  · rename_i hne
    cases hs
    exact ⟨h.pushed, h.pop, h.fresh, h.promise, fun _ => rfl, fun _ => hne, h.valid, by simp⟩
  · cases hs
    exact ⟨h.pushed, h.pop, h.fresh, h.promise, h.asked, h.started, h.valid, by simp⟩
  · cases hs
  · split at hs
    · cases hs
    · rename_i hgo
      cases hs
      refine ⟨h.pushed, h.pop, h.fresh, h.promise, h.asked, h.started, h.valid, fun _ => ?_⟩
      -- the promise is set, or the future was given up because it was
      by_contra hpc
      have hp := h.promise.2 hpc
      cases hv : u.valid with
      | false => exact h.valid hv hp
      | true => simp [hv, hp] at hgo
  · cases hs

theorem Inv.step (h : Inv u) {a : Act μ} (hs : u.step a = some u') : Inv u' := by
  cases a with
  | push m =>
    cases hs
    exact h.push m
  | start =>
    simp only [ProcessUnit.step] at hs
    split at hs
    · rename_i pc
      cases hs
      have hpushed := h.pushed
      unfold hand at hpushed
      rw [pc] at hpushed
      exact h.thread (by simp [pc]) (by simp) (by simp) hpushed (by simp)
        (fun _ => h.fresh (.inl pc)) (by simp)
    · cases hs
  | run throws => exact h.run hs
  | status =>
    cases hs
    exact h.status
  | stop => exact h.stopStep hs

theorem inv_of_reachable (h : Trans.Reach step new u) : Inv u :=
  h.invariant .new fun _ _ _ hI _ hs => hI.step hs

/-- **Delivery.** Every message pushed was handled, is in hand, or is queued, in the order of the pushes
and once; the thread takes no message from an empty queue; a unit that ended without a crash leaves those
messages in its queue that were pushed after it last found it empty; and once its thread has ended, as it
has when `stop` returns, it handles nothing more. -/
theorem unit_delivers (h : Trans.Reach step new u) :
    u.pushed = u.handled ++ u.hand ++ u.queue ∧ (u.pc = .pop → u.queue ≠ []) ∧
      (u.promise = .value → u.queue = u.fresh) ∧ (u.stop = .returned → u.pc = .ended) ∧
      ∀ a u', u.pc = .ended → step u a = some u' → u'.pc = .ended ∧ u'.handled = u.handled := by
  have hI := inv_of_reachable h
  refine ⟨hI.pushed, hI.pop, fun hp => hI.fresh (.inr (.inr (.inr hp))), hI.stopped, ?_⟩
  intro a u' hpc hs
  cases a with
  | push m =>
    cases hs
    exact ⟨hpc, rfl⟩
  | start => simp [step, hpc] at hs
  | run throws => simp [step, ProcessUnit.run, hpc] at hs
  | status =>
    cases hs
    exact ⟨u.status_frame.pc.trans hpc, u.status_frame.handled⟩
  | stop =>
    have hf := stopStep_frame hs
    exact ⟨hf.pc.trans hpc, hf.handled⟩

/-- Asked to stop after it found its queue empty, the unit leaves a message that was there before. -/
theorem unit_delivers_run : ∃ u : ProcessUnit Nat, u.stop = .returned ∧ u.promise = .value ∧
    u.handled = [1] ∧ u.queue = [2] ∧ u.queue = u.fresh := by
  have h : (Trans.exec step (fun _ _ => True) new
      [.push 1, .start, .run false, .run false, .run false, .run false, .run false, .run false, .push 2,
        .stop, .run false, .run false, .stop, .stop]).map
      (fun u => decide (u.stop = .returned ∧ u.promise = .value ∧ u.handled = [1] ∧ u.queue = [2])) =
      some true := by decide
  obtain ⟨u, hu, h⟩ := Option.map_eq_some_iff.1 h
  obtain ⟨hstop, hp, hhandled, hqueue⟩ := of_decide_eq_true h
  exact ⟨u, hstop, hp, hhandled, hqueue, (unit_delivers (.of_exec .start hu)).2.2.1 hp⟩

/-! ## Stopping -/

def Act.isRun : Act μ → Bool
  | .run _ => true
  | .push _ | .start | .status | .stop => false

/-- Nothing is pushed. -/
def Act.Quiet : Act μ → Prop
  | .push _ => False
  | .start | .run _ | .status | .stop => True

/-- A unit that was asked to stop. -/
def Asked (u : ProcessUnit μ) : Prop := u.stopRequested = true ∧ u.pc ≠ .unstarted

theorem Frame.asked_step {a : Act μ} (hf : Frame u u') (h : u.Asked) (ha : a.isRun = false) :
    u'.Asked ∧ u'.rest + (if a.isRun then 1 else 0) ≤ u.rest := by
  have hrest : u'.rest = u.rest := by rw [rest, rest, hf.pc, hf.queue]
  refine ⟨⟨hf.asked h.1, by rw [hf.pc]; exact h.2⟩, ?_⟩
  rw [hrest, ha]
  exact Nat.le_refl _

theorem Asked.step {a : Act μ} (h : u.Asked) (ha : a.Quiet) (hs : u.step a = some u') :
    u'.Asked ∧ u'.rest + (if a.isRun then 1 else 0) ≤ u.rest := by
  cases a with
  | push m => exact ha.elim
  | start =>
    simp only [ProcessUnit.step] at hs
    split at hs
    · rename_i hun
      exact absurd hun h.2
    · cases hs
  | run throws =>
    obtain ⟨hasked, -⟩ := h
    cases run_sound hs with
    | sleep pc free => cases hasked.symm.trans free
    | more pc queue =>
      refine ⟨⟨hasked, by simp⟩, ?_⟩
      simp [rest, pc, Act.isRun]
    | take m rest' pc queue =>
      refine ⟨⟨hasked, by simp⟩, ?_⟩
      simp only [rest, pc, queue, Act.isRun, List.length_cons, if_true]
      omega
    | leave pc | wake pc | done m pc | thrown m pc | kept pc | broken pc =>
      refine ⟨⟨hasked, by simp⟩, ?_⟩
      simp [rest, pc, Act.isRun]
    | empty pc queue =>
      refine ⟨⟨hasked, by simp⟩, ?_⟩
      simp [rest, pc, queue, Act.isRun]
  | status =>
    cases hs
    exact u.status_frame.asked_step h rfl
  | stop => exact (stopStep_frame hs).asked_step h rfl

/-- The thread can always go on. -/
theorem run_goes (h : Inv u) (throws : Bool) (started : u.pc ≠ .unstarted) :
    u.pc = .ended ∨ ∃ u', u.step (.run throws) = some u' := by
  unfold step ProcessUnit.run
  cases hpc : u.pc with
  | unstarted => exact absurd hpc started
  | ended => exact .inl rfl
  | test => cases u.queue <;> exact .inr ⟨_, rfl⟩
  | pop =>
    obtain ⟨m, rest, hq⟩ := List.exists_cons_of_ne_nil (h.pop hpc)
    rw [hq]
    exact .inr ⟨_, rfl⟩
  | head | wait | input m | returned | caught => exact .inr ⟨_, rfl⟩

/-- **Stopping.** A unit that was asked to stop ends after at most `rest` steps of its thread, three for
each queued message and four more, in any stretch in which nothing is pushed, whatever else happens and
however its calls of `onInput` end. -/
theorem stop_bounded (h : Trans.Reach step new u) (hasked : u.stopRequested = true) {as : List (Act μ)}
    (hs : Trans.Stretch step Act.Quiet u as u') :
    as.countP Act.isRun + u'.rest ≤ u.rest ∧ u.rest ≤ 3 * u.queue.length + 4 ∧
      (u'.pc = .ended ∨ ∃ u'', u'.step (.run false) = some u'') ∧
      (u'.rest = 0 → u'.pc = .ended) := by
  have hI := inv_of_reachable h
  have h0 : u.Asked := ⟨hasked, hI.started hasked⟩
  have hI' : u'.Inv := hs.invariant (fun s i s' h _ hs => h.step hs) hI
  have hasked' : u'.Asked := hs.invariant (fun s i s' h hi hs => (h.step hi hs).1) h0
  refine ⟨hs.countP_le_rank (fun s i s' h hi hs => (h.step hi hs).1)
    (fun s i s' h hi hs => (h.step hi hs).2) h0, ?_, run_goes hI' false hasked'.2, ?_⟩
  · unfold rest
    split <;> omega
  · intro hz
    unfold rest at hz
    split at hz
    · rename_i hpc
      exact absurd hpc hasked'.2
    · rename_i hpc
      exact hpc
    all_goals omega

/-- Two messages are queued when the unit is asked to stop; ten steps later it has ended. -/
theorem stop_bounded_run : ∃ u u' : ProcessUnit Nat, u.stopRequested = true ∧ u.rest = 10 ∧
    Trans.Stretch step Act.Quiet u (List.replicate 10 (.run false)) u' ∧ u'.pc = .ended := by
  have h : ((Trans.exec step (fun _ _ => True) new
      [.push 1, .push 2, .start, .run false, .stop]).bind fun u =>
        (Trans.exec step (fun _ _ => True) u (List.replicate 10 (.run false))).map fun u' =>
          decide (u.stopRequested = true ∧ u.rest = 10 ∧ u'.rest = 0)) = some true := by decide
  obtain ⟨u, hu, h⟩ := Option.bind_eq_some_iff.1 h
  obtain ⟨u', hu', h⟩ := Option.map_eq_some_iff.1 h
  obtain ⟨hasked, hrest, hz⟩ := of_decide_eq_true h
  have hstretch : Trans.Stretch step Act.Quiet u (List.replicate 10 (.run false)) u' := by
    refine ⟨fun a ha => ?_, hu'⟩
    rw [List.eq_of_mem_replicate ha]
    trivial
  exact ⟨u, u', hasked, hrest, hstretch,
    (stop_bounded (.of_exec .start hu) hasked hstretch).2.2.2 hz⟩

/-- One round of the inner loop, with a push in it. -/
theorem round {m : μ} (hpc : u.pc = .pop) (hq : u.queue = [m]) : ∃ u',
    Trans.Reach step u u' ∧ u'.pc = .pop ∧ u'.queue = [m] ∧ u'.handled = u.handled ++ [m] := by
  let u1 : ProcessUnit μ := { u with pc := .input m, queue := [] }
  let u2 := u1.push m
  let u3 : ProcessUnit μ := { u2 with pc := .test, handled := u.handled ++ [m] }
  have h1 : u.step (.run false) = some u1 := by simp [step, ProcessUnit.run, hpc, hq, u1]
  have h2 : u1.step (.push m) = some u2 := rfl
  have h3 : u2.step (.run false) = some u3 := rfl
  have h4 : u3.step (.run false) = some { u3 with pc := .pop } := rfl
  exact ⟨_, .next (.next (.next (.next .start trivial h1) trivial h2) trivial h3) trivial h4, rfl, rfl,
    rfl⟩

/-- **Starvation.** The inner loop does not look at the stop token: asked to stop with one message
queued, a unit can handle any number of messages pushed after that, and not have ended. -/
theorem stop_postponed (m : μ) (n : Nat) : ∃ u u' : ProcessUnit μ, Trans.Reach step new u ∧
    u.stopRequested = true ∧ u.queue.length = 1 ∧ Trans.Reach step u u' ∧ u'.pc ≠ .ended ∧
    u'.handled.length = u.handled.length + n := by
  let u : ProcessUnit μ :=
    { (new.push m : ProcessUnit μ) with pc := .pop, stopRequested := true, stop := .join }
  have hu : Trans.Reach step new u := by
    have h : Trans.exec step (fun _ _ => True) new
        [.push m, .start, .run false, .run false, .run false, .stop] = some u := rfl
    exact .of_exec .start h
  suffices h : ∃ u', Trans.Reach step u u' ∧ u'.pc = .pop ∧ u'.queue = [m] ∧ u'.handled.length = n by
    obtain ⟨u', hr, hpc, -, hlen⟩ := h
    refine ⟨u, u', hu, rfl, rfl, hr, by rw [hpc]; exact nofun, ?_⟩
    rw [hlen]
    exact (Nat.zero_add n).symm
  induction n with
  | zero => exact ⟨u, .start, rfl, rfl, rfl⟩
  | succ n ih =>
    obtain ⟨u1, hr, hpc, hq, hlen⟩ := ih
    obtain ⟨u2, hr', hpc', hq', hhandled⟩ := round hpc hq
    refine ⟨u2, hr.trans hr', hpc', hq', ?_⟩
    rw [hhandled, List.length_append, hlen]
    rfl

end ProcessUnit

end Fix42
