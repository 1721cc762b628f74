import Fix42.Thread.Core
import Fix42.Thread.Proof.ProcessUnit

/-!
# What Core notices

`view_step`: a step of a process unit is a step of its `UnitLife`, or none. `Inv` holds of every reachable
`Core`; by it no future is asked after it was given up, and `start` fails only for a unit that crashed
(`core_sound`). A crash of a unit that is watched ends the loop within two rounds
(`watched_crash_noticed`), and one of a unit that is not watched never does (`unwatched_crash_missed`).
-/

namespace Fix42

/-! ## Process units -/

namespace ProcessUnit

variable {μ : Type*} {u u' : ProcessUnit μ}

/-- What a step of a process unit is to `Core`. -/
theorem view_step (h : Inv u) {a : Act μ} (hs : u.step a = some u') :
    match a with
    | .push _ => u'.view = u.view
    | .start => u.view.life = .unstarted ∧ u'.view = u.view.start
    | .run _ => u'.view = u.view ∨ ∃ t, u.view.finish t = some u'.view
    | .status => u.view.status = (u.status.1, u'.view)
    | .stop => u.view.stopStep = some u'.view := by
  cases a with
  | push m =>
    cases hs
    rfl
  | start =>
    simp only [step] at hs
    split at hs
    · rename_i hpc
      cases hs
      simp [view, hpc, UnitLife.start]
    · cases hs
  | run throws =>
    show u'.view = u.view ∨ ∃ t, u.view.finish t = some u'.view
    cases run_sound hs with
    | kept pc =>
      have hasked := h.asked (.inl pc)
      refine .inr ⟨false, ?_⟩
      simp [view, pc, UnitLife.finish, hasked]
    | broken pc =>
      refine .inr ⟨true, ?_⟩
      simp [view, pc, UnitLife.finish]
    | leave pc | sleep pc | wake pc | empty pc | more pc | take m rest pc | done m pc | thrown m pc =>
      exact .inl (by simp [view, pc])
  | status =>
    cases hs
    show u.view.status = (u.status.1, u.status.2.view)
    cases hv : u.valid <;> cases hp : u.promise <;> simp [UnitLife.status, status, view, hv, hp]
  | stop =>
    show u.view.stopStep = some u'.view
    have hlife : ∀ {pc : UnitPc μ}, (u.pc = pc → False) → (pc = .unstarted → u.view.life ≠ .unstarted) ∧
        (pc = .ended → u.view.life ≠ .ended) := by
      intro pc hne
      constructor <;> intro hpc <;> subst hpc <;> unfold view <;> cases hu : u.pc <;> simp_all
    simp only [step, stopStep] at hs
    split at hs
    · rename_i hstop hpc
      cases hs
      simp [UnitLife.stopStep, view, hstop, hpc]
    · rename_i hstop hpc
      cases hs
      rw [UnitLife.stopStep, show u.view.stop = .notCalled from hstop]
      exact if_neg ((hlife hpc).1 rfl)
    · rename_i hstop hpc
      cases hs
      simp [UnitLife.stopStep, view, hstop, hpc]
    · cases hs
    · rename_i hstop
      split at hs
      · cases hs
      · rename_i hgo
        cases hs
        rw [UnitLife.stopStep, show u.view.stop = .wait from hstop]
        exact if_neg hgo
    · cases hs

end ProcessUnit

/-! ## Core -/

namespace UnitLife

variable {u u' : UnitLife}

/-- What is true of every unit of a `Core`, which stops no unit it has not started. -/
structure Inv (u : UnitLife) : Prop where
  promise : u.promise = .unset ↔ u.life ≠ .ended
  asked : u.promise = .value → u.stopRequested = true
  valid : u.valid = false → u.promise ≠ .unset
  joining : u.stop = .join → u.stopRequested = true
  stopped : u.stop = .wait ∨ u.stop = .returned → u.life = .ended

theorem Inv.new : Inv .new where
  promise := ⟨fun _ h => (by cases h), fun _ => rfl⟩
  asked h := by cases h
  valid h := by cases h
  joining h := by cases h
  stopped h := by rcases h with h | h <;> cases h

theorem Inv.start (h : Inv u) (hu : u.life = .unstarted) : Inv u.start where
  promise := ⟨fun _ h => (by cases h), fun _ => h.promise.2 (by rw [hu]; exact nofun)⟩
  asked := h.asked
  valid := h.valid
  joining := h.joining
  stopped hs := by
    have hended := h.stopped hs
    rw [hu] at hended
    cases hended

/-- A unit's thread ends once, and by itself only with an exception. -/
theorem finish_cases {throws : Bool} (hs : u.finish throws = some u') : u.life = .alive ∧
    (throws = true ∧ u' = { u with life := .ended, promise := .exception } ∨
      u.stopRequested = true ∧ u' = { u with life := .ended, promise := .value }) := by
  unfold finish at hs
  split at hs
  · cases hs
  · rename_i hlife
    split at hs
    · rename_i hthrows
      cases hs
      exact ⟨not_not.1 hlife, .inl ⟨hthrows, rfl⟩⟩
    · split at hs
      · rename_i hasked
        cases hs
        exact ⟨not_not.1 hlife, .inr ⟨hasked, rfl⟩⟩
      · cases hs

theorem Inv.finish (h : Inv u) {throws : Bool} (hs : u.finish throws = some u') : Inv u' := by
  obtain ⟨-, ⟨-, rfl⟩ | ⟨hasked, rfl⟩⟩ := finish_cases hs
  · exact ⟨by simp, by simp, by simp, h.joining, fun _ => rfl⟩
  · exact ⟨by simp, fun _ => hasked, by simp, h.joining, fun _ => rfl⟩

/-- What `status` gives of a future that was not given up. -/
theorem status_cases (hv : u.valid = true) : u.promise = .unset ∧ u.status = (.running, u) ∨
    u.promise = .value ∧ u.status = (.stop, { u with valid := false }) ∨
    u.promise = .exception ∧ u.status = (.rethrown, { u with valid := false }) := by
  cases hp : u.promise <;> simp [status, hv, hp]

theorem Inv.given (h : Inv u) (hp : u.promise ≠ .unset) : Inv { u with valid := false } :=
  ⟨h.promise, h.asked, fun _ => hp, h.joining, h.stopped⟩

/-- `stop` goes on unless it joins a thread that has not ended. -/
theorem stopStep_cases (h : Inv u) (hlife : u.life ≠ .unstarted) (hstop : u.stop ≠ .returned) :
    (∃ u', u.stopStep = some u' ∧ Inv u' ∧ u'.life = u.life ∧ u'.promise = u.promise) ∨
    u.stopStep = none ∧ u.life = .alive ∧ u.stopRequested = true := by
  unfold stopStep
  cases hs : u.stop with
  | notCalled =>
    exact .inl ⟨_, if_neg hlife, ⟨h.promise, fun _ => rfl, h.valid, fun _ => rfl, by simp⟩, rfl, rfl⟩
  | join =>
    by_cases hended : u.life = .ended
    · exact .inl ⟨_, if_pos hended, ⟨h.promise, h.asked, h.valid, nofun, fun _ => hended⟩, rfl, rfl⟩
    · refine .inr ⟨if_neg hended, ?_, h.joining hs⟩
      cases hl : u.life with
      | unstarted => exact absurd hl hlife
      | alive => rfl
      | ended => exact absurd hl hended
  | wait =>
    have hended := h.stopped (.inl hs)
    have hset : ¬ (u.valid && u.promise = .unset) = true := by
      intro hw
      simp only [Bool.and_eq_true, decide_eq_true_eq] at hw
      exact h.promise.1 hw.2 hended
    exact .inl ⟨_, if_neg hset, ⟨h.promise, h.asked, h.valid, nofun, fun _ => hended⟩, rfl, rfl⟩
  | returned => exact absurd hs hstop

end UnitLife

namespace Core

variable {ν : Type*} [DecidableEq ν] {cfg : Pipeline ν} {c c' : Core ν} {x : ν}

@[simp] theorem setUnit_units (c : Core ν) (x : ν) (u : UnitLife) :
    (c.setUnit x u).units = Function.update c.units x u := rfl

@[simp] theorem setUnit_pc (c : Core ν) (x : ν) (u : UnitLife) : (c.setUnit x u).pc = c.pc := rfl

@[simp] theorem setUnit_running (c : Core ν) (x : ν) (u : UnitLife) :
    (c.setUnit x u).running = c.running := rfl

theorem setUnit_self (c : Core ν) (x : ν) : c.setUnit x (c.units x) = c := by
  unfold setUnit
  rw [Function.update_eq_self]

/-- Nothing has been asked to stop, and no unit is known to have ended. -/
def Watching : CorePc ν → Prop
  | .starting _ | .head | .checking _ => True
  | .failed | .stopping _ | .closed | .undefined => False

structure Inv (cfg : Pipeline ν) (c : Core ν) : Prop where
  unit : ∀ x, (c.units x).Inv
  quiet : Watching c.pc → ∀ x, (c.units x).valid = true ∧ (c.units x).stopRequested = false
  running : Watching c.pc ∨ c.pc = .failed → c.running = true
  starting : ∀ todo, c.pc = .starting todo → todo <:+ cfg.started ∧
    (∀ x ∈ todo, (c.units x).life = .unstarted) ∧
    ∀ x ∈ cfg.started, x ∈ todo ∨ (c.units x).life ≠ .unstarted
  started : (∀ todo, c.pc ≠ .starting todo) → ∀ x ∈ cfg.started, (c.units x).life ≠ .unstarted
  checking : ∀ todo, c.pc = .checking todo → todo <:+ cfg.watched
  failed : c.pc = .failed → ∃ x ∈ cfg.watched, (c.units x).promise = .exception
  undefined : c.pc ≠ .undefined
  stopping : ∀ todo, c.pc = .stopping todo → ∃ done, cfg.stopped = done ++ todo ∧
    ∀ x ∈ done, (c.units x).stop = .returned
  closed : c.pc = .closed → ∀ x ∈ cfg.stopped, (c.units x).stop = .returned

omit [DecidableEq ν] in
theorem Inv.new (cfg : Pipeline ν) : Inv cfg (Core.new cfg) where
  unit _ := .new
  quiet _ _ := ⟨rfl, rfl⟩
  running _ := rfl
  starting todo h := by
    cases h
    exact ⟨List.suffix_rfl, fun _ _ => rfl, fun x hx => .inl hx⟩
  started h := absurd rfl (h cfg.started)
  checking todo h := by cases h
  failed h := by cases h
  undefined h := by cases h
  stopping todo h := by cases h
  closed h := by cases h

/-- What is true of every unit, and of the new one, is true after the update. -/
theorem forall_units {P : ν → UnitLife → Prop} {u : UnitLife} (h : ∀ y, P y (c.units y)) (hu : P x u) :
    ∀ y, P y ((c.setUnit x u).units y) :=
  Function.forall_update_iff _ P |>.2 ⟨hu, fun y _ => h y⟩

/-- A unit changes as its own invariants allow. -/
theorem Inv.update (h : Inv cfg c) {u : UnitLife} (hu : u.Inv)
    (quiet : Watching c.pc → u.valid = true ∧ u.stopRequested = false)
    (life : (c.units x).life = .unstarted ↔ u.life = .unstarted)
    (promise : (c.units x).promise = .exception → u.promise = .exception)
    (stop : (c.units x).stop = .returned → u.stop = .returned) : Inv cfg (c.setUnit x u) where
  unit := forall_units h.unit hu
  quiet hw := forall_units (P := fun _ u => u.valid = true ∧ u.stopRequested = false) (h.quiet hw)
    (quiet hw)
  running := h.running
  starting todo hpc := by
    obtain ⟨hsuf, htodo, hall⟩ := h.starting todo hpc
    refine ⟨hsuf, ?_, ?_⟩
    · refine forall_units (P := fun y u => y ∈ todo → u.life = .unstarted) htodo fun hx => ?_
      exact life.1 (htodo x hx)
    · refine forall_units (P := fun y u => y ∈ cfg.started → y ∈ todo ∨ u.life ≠ .unstarted) hall
        fun hx => ?_
      exact (hall x hx).imp_right fun hne hu => hne (life.2 hu)
  started hpc := by
    refine forall_units (P := fun y u => y ∈ cfg.started → u.life ≠ .unstarted) (h.started hpc)
      fun hx hu => ?_
    exact h.started hpc x hx (life.2 hu)
  checking := h.checking
  failed hpc := by
    obtain ⟨y, hy, hp⟩ := h.failed hpc
    refine ⟨y, hy, ?_⟩
    by_cases hyx : y = x
    · subst hyx
      rw [setUnit_units, Function.update_self]
      exact promise hp
    · rw [setUnit_units, Function.update_of_ne hyx]
      exact hp
  undefined := h.undefined
  stopping todo hpc := by
    obtain ⟨done, hd, hall⟩ := h.stopping todo hpc
    refine ⟨done, hd, ?_⟩
    exact forall_units (P := fun y u => y ∈ done → u.stop = .returned) hall fun hx => stop (hall x hx)
  closed hpc := by
    refine forall_units (P := fun y u => y ∈ cfg.stopped → u.stop = .returned) (h.closed hpc) fun hx => ?_
    exact stop (h.closed hpc x hx)

/-- The thread of a unit ends. -/
theorem Inv.finish (h : Inv cfg c) {throws : Bool} {u : UnitLife}
    (hs : (c.units x).finish throws = some u) : Inv cfg (c.setUnit x u) := by
  have hunset : (c.units x).promise = .unset := by
    apply (h.unit x).promise.2
    rw [(UnitLife.finish_cases hs).1]
    exact nofun
  refine h.update ((h.unit x).finish hs) ?_ ?_ ?_ ?_
  · intro hw
    obtain ⟨-, ⟨-, rfl⟩ | ⟨-, rfl⟩⟩ := UnitLife.finish_cases hs <;> exact h.quiet hw x
  · obtain ⟨hlife, ⟨-, rfl⟩ | ⟨-, rfl⟩⟩ := UnitLife.finish_cases hs <;> simp [hlife]
  · rw [hunset]
    exact nofun
  · obtain ⟨-, ⟨-, rfl⟩ | ⟨-, rfl⟩⟩ := UnitLife.finish_cases hs <;> exact id

omit [DecidableEq ν] in
/-- The units stay as they are and the main thread goes on elsewhere than to a start or a failure. -/
theorem Inv.goes (h : Inv cfg c) {pc : CorePc ν} {running : Bool}
    (watching : Watching pc → Watching c.pc ∧ running = true)
    (not_starting : (∀ todo, c.pc ≠ .starting todo) ∨ c.pc = .starting [])
    (not_starting' : ∀ todo, pc ≠ .starting todo) (not_failed : pc ≠ .failed)
    (undefined : pc ≠ .undefined) (checking : ∀ todo, pc = .checking todo → todo <:+ cfg.watched)
    (stopping : ∀ todo, pc = .stopping todo → ∃ done, cfg.stopped = done ++ todo ∧
      ∀ x ∈ done, (c.units x).stop = .returned)
    (closed : pc = .closed → ∀ x ∈ cfg.stopped, (c.units x).stop = .returned) :
    Inv cfg { c with pc, running } where
  unit := h.unit
  quiet hw := h.quiet (watching hw).1
  running hw := (watching (hw.resolve_right not_failed)).2
  starting todo hpc := absurd hpc (not_starting' todo)
  started _ := by
    rcases not_starting with hpc | hpc
    · exact h.started hpc
    · intro x hx
      exact ((h.starting [] hpc).2.2 x hx).resolve_left List.not_mem_nil
  checking := checking
  failed hpc := absurd hpc not_failed
  undefined := undefined
  stopping := stopping
  closed := closed

omit [DecidableEq ν] in
theorem Inv.callStop (h : Inv cfg c) (hrun : c.running = true) (hpc : ∀ todo, c.pc ≠ .starting todo) :
    Inv cfg (c.callStop cfg) := by
  rw [Core.callStop, if_pos hrun]
  refine h.goes ?_ (.inl hpc) ?_ ?_ ?_ ?_ ?_ ?_
  · exact False.elim
  · exact nofun
  · exact nofun
  · exact nofun
  · exact nofun
  · intro todo ht
    cases ht
    exact ⟨[], rfl, nofun⟩
  · exact nofun

/-- The unit at the head of the list starts. -/
theorem Inv.start (h : Inv cfg c) {todo : List ν} (hpc : c.pc = .starting (x :: todo)) :
    Inv cfg { c.setUnit x (c.units x).start with pc := .starting todo } := by
  have hw : Watching c.pc := by
    rw [hpc]
    trivial
  obtain ⟨hsuf, htodo, hall⟩ := h.starting _ hpc
  have hx := htodo x List.mem_cons_self
  have hnot : x ∉ todo := (List.nodup_cons.1 (cfg.once.sublist hsuf.sublist)).1
  exact
    { unit := forall_units h.unit ((h.unit x).start hx)
      quiet := fun _ => forall_units (P := fun _ u => u.valid = true ∧ u.stopRequested = false)
        (h.quiet hw) (h.quiet hw x)
      running := fun _ => h.running (.inl hw)
      starting := by
        intro rest hrest
        cases hrest
        refine ⟨(List.suffix_cons x todo).trans hsuf, ?_, ?_⟩
        · refine forall_units (P := fun y u => y ∈ todo → u.life = .unstarted)
            (fun y hy => htodo y (List.mem_cons_of_mem x hy)) fun hy => absurd hy hnot
        · intro y hy
          by_cases hyx : y = x
          · subst hyx
            right
            rw [setUnit_units, Function.update_self]
            exact nofun
          · rw [setUnit_units, Function.update_of_ne hyx]
            refine (hall y hy).imp_left fun hmem => ?_
            exact (List.mem_cons.1 hmem).resolve_left hyx
      started := fun hne => absurd rfl (hne todo)
      checking := nofun
      failed := nofun
      undefined := nofun
      stopping := nofun
      closed := nofun }

/-- The status of a unit: it has not ended, or it crashed. -/
theorem Inv.check (h : Inv cfg c) {todo : List ν} (hpc : c.pc = .checking (x :: todo)) :
    (c.units x).promise = .unset ∧ c.main cfg = some { c with pc := .checking todo } ∨
    (c.units x).promise = .exception ∧
      c.main cfg = some { c.setUnit x { c.units x with valid := false } with pc := .failed } := by
  have hw : Watching c.pc := by
    rw [hpc]
    trivial
  obtain ⟨hvalid, hquiet⟩ := h.quiet hw x
  rcases UnitLife.status_cases hvalid with ⟨hp, hs⟩ | ⟨hp, hs⟩ | ⟨hp, hs⟩
  · refine .inl ⟨hp, ?_⟩
    simp only [Core.main, hpc, hs, setUnit_self]
  · have hasked := (h.unit x).asked hp
    rw [hquiet] at hasked
    cases hasked
  · refine .inr ⟨hp, ?_⟩
    simp only [Core.main, hpc, hs]

theorem Inv.main (h : Inv cfg c) (hs : c.main cfg = some c') : Inv cfg c' := by
  cases hpc : c.pc with
  | starting todo =>
    cases todo with
    | nil =>
      simp only [Core.main, hpc] at hs
      cases hs
      have hrun := h.running (.inl (by rw [hpc]; trivial))
      exact h.goes (fun _ => ⟨by rw [hpc]; trivial, hrun⟩) (.inr hpc) nofun nofun nofun nofun nofun nofun
    | cons x todo =>
      simp only [Core.main, hpc] at hs
      cases hs
      exact h.start hpc
  | head =>
    have hw : Watching c.pc := by
      rw [hpc]
      trivial
    have hrun := h.running (.inl hw)
    have hne : ∀ todo, c.pc ≠ .starting todo := by
      rw [hpc]
      exact nofun
    simp only [Core.main, hpc] at hs
    split at hs
    · cases hs
      refine h.goes (fun _ => ⟨hw, hrun⟩) (.inl hne) nofun nofun nofun ?_ nofun nofun
      intro todo ht
      cases ht
      exact List.suffix_rfl
    · cases hs
      exact h.callStop hrun hne
  | checking todo =>
    have hw : Watching c.pc := by
      rw [hpc]
      trivial
    have hrun := h.running (.inl hw)
    have hne : ∀ todo, c.pc ≠ .starting todo := by
      rw [hpc]
      exact nofun
    cases todo with
    | nil =>
      simp only [Core.main, hpc] at hs
      cases hs
      exact h.goes (fun _ => ⟨hw, hrun⟩) (.inl hne) nofun nofun nofun nofun nofun nofun
    | cons x todo =>
      have hsuf := h.checking _ hpc
      rcases h.check hpc with ⟨-, hm⟩ | ⟨hp, hm⟩
      · cases hm.symm.trans hs
        refine h.goes (fun _ => ⟨hw, hrun⟩) (.inl hne) nofun nofun nofun ?_ nofun nofun
        intro rest hrest
        cases hrest
        exact (List.suffix_cons x todo).trans hsuf
      · cases hm.symm.trans hs
        have hset : (c.units x).promise ≠ .unset := by
          rw [hp]
          exact nofun
        exact
          { unit := forall_units h.unit ((h.unit x).given hset)
            quiet := False.elim
            running := fun _ => hrun
            starting := nofun
            started := fun _ => forall_units (P := fun y u => y ∈ cfg.started → u.life ≠ .unstarted)
              (h.started hne) (h.started hne x)
            checking := nofun
            failed := fun _ => by
              refine ⟨x, hsuf.subset List.mem_cons_self, ?_⟩
              rw [setUnit_units, Function.update_self]
              exact hp
            undefined := nofun
            stopping := nofun
            closed := nofun }
  | failed =>
    have hrun := h.running (.inr hpc)
    have hne : ∀ todo, c.pc ≠ .starting todo := by
      rw [hpc]
      exact nofun
    simp only [Core.main, hpc] at hs
    cases hs
    exact h.callStop hrun hne
  | stopping todo =>
    obtain ⟨done, hd, hall⟩ := h.stopping todo hpc
    have hne : ∀ todo, c.pc ≠ .starting todo := by
      rw [hpc]
      exact nofun
    cases todo with
    | nil =>
      simp only [Core.main, hpc] at hs
      cases hs
      refine h.goes False.elim (.inl hne) nofun nofun nofun nofun nofun ?_
      intro _ x hx
      rw [hd, List.append_nil] at hx
      exact hall x hx
    | cons x todo =>
      simp only [Core.main, hpc] at hs
      split at hs
      · rename_i hstop
        cases hs
        refine h.goes False.elim (.inl hne) nofun nofun nofun nofun ?_ nofun
        intro rest hrest
        cases hrest
        refine ⟨done ++ [x], by simp [hd], ?_⟩
        intro y hy
        rcases List.mem_append.1 hy with hy | hy
        · exact hall y hy
        · cases List.mem_singleton.1 hy
          exact hstop
      · rename_i hstop
        obtain ⟨u, hu, rfl⟩ := Option.map_eq_some_iff.1 hs
        have hx : x ∈ cfg.stopped := by
          rw [hd]
          exact List.mem_append_right done List.mem_cons_self
        have hlife := h.started hne x (cfg.stopped_started hx)
        rcases UnitLife.stopStep_cases (h.unit x) hlife hstop with ⟨u', hu', hinv, hl, hp⟩ | ⟨hn, -⟩
        · cases hu'.symm.trans hu
          refine h.update hinv ?_ (by rw [hl]) (by rw [hp]; exact id) fun hret => absurd hret hstop
          rw [hpc]
          exact False.elim
        · cases hn.symm.trans hu
  | closed =>
    simp only [Core.main, hpc] at hs
    cases hs
  | undefined =>
    simp only [Core.main, hpc] at hs
    cases hs

theorem Inv.step (h : Inv cfg c) {a : Act ν} (hs : c.step cfg a = some c') : Inv cfg c' := by
  cases a with
  | finish x throws =>
    obtain ⟨u, hu, rfl⟩ := Option.map_eq_some_iff.1 hs
    exact h.finish hu
  | signal =>
    cases hs
    exact ⟨h.unit, h.quiet, h.running, h.starting, h.started, h.checking, h.failed, h.undefined,
      h.stopping, h.closed⟩
  | main => exact h.main hs

theorem inv_of_reachable (h : Reachable cfg c) : Inv cfg c :=
  Trans.Run.invariant h (.new cfg) fun _ _ _ hi _ hs => hi.step hs

/-! ## What start does -/

theorem stopStep_unit (h : Inv cfg c) {todo : List ν} (hpc : c.pc = .stopping (x :: todo)) :
    (∃ c', c.main cfg = some c') ∨
      c.main cfg = none ∧ (c.units x).life = .alive ∧ (c.units x).stopRequested = true := by
  have hx : x ∈ cfg.stopped := by
    obtain ⟨done, hd, -⟩ := h.stopping _ hpc
    rw [hd]
    exact List.mem_append_right done List.mem_cons_self
  have hlife : (c.units x).life ≠ .unstarted := by
    apply h.started ?_ x (cfg.stopped_started hx)
    rw [hpc]
    exact nofun
  by_cases hstop : (c.units x).stop = .returned
  · left
    simp [Core.main, hpc, hstop]
  · rcases UnitLife.stopStep_cases (h.unit x) hlife hstop with ⟨u, hu, -⟩ | ⟨hn, halive⟩
    · left
      simp [Core.main, hpc, hstop, hu]
    · right
      exact ⟨by simp [Core.main, hpc, hstop, hn], halive⟩

/-- No future is asked that was given up; `start` fails only if a unit it watches crashed; what is left
when `Core` is gone has ended; and the main thread is held up only by a unit that was asked to stop. -/
theorem core_sound (h : Reachable cfg c) :
    c.pc ≠ .undefined ∧
    (c.pc = .failed → ∃ x ∈ cfg.watched, (c.units x).promise = .exception) ∧
    (c.pc = .closed → ∀ x ∈ cfg.stopped, (c.units x).life = .ended) ∧
    (c.main cfg = none → c.pc = .closed ∨ ∃ x todo, c.pc = .stopping (x :: todo) ∧
      (c.units x).life = .alive ∧ (c.units x).stopRequested = true) := by
  have hinv := inv_of_reachable h
  refine ⟨hinv.undefined, hinv.failed, ?_, ?_⟩
  · intro hpc x hx
    exact (hinv.unit x).stopped (.inr (hinv.closed hpc x hx))
  · intro hn
    cases hpc : c.pc with
    | starting todo => cases todo <;> simp [Core.main, hpc] at hn
    | head =>
      simp only [Core.main, hpc] at hn
      split at hn <;> cases hn
    | checking todo =>
      cases todo with
      | nil => simp [Core.main, hpc] at hn
      | cons x todo =>
        rcases hinv.check hpc with ⟨-, hm⟩ | ⟨-, hm⟩ <;> cases hm.symm.trans hn
    | failed => simp [Core.main, hpc] at hn
    | stopping todo =>
      cases todo with
      | nil => simp [Core.main, hpc] at hn
      | cons x todo =>
        rcases stopStep_unit hinv hpc with ⟨c', hc'⟩ | ⟨-, halive, hasked⟩
        · cases hc'.symm.trans hn
        · exact .inr ⟨x, todo, rfl, halive, hasked⟩
    | closed => exact .inl rfl
    | undefined => exact absurd hpc hinv.undefined

/-- The input of the client crashes: `start` fails, and the other units are stopped. -/
theorem core_sound_run : ∃ c, Trans.exec (step Client.pipeline) (fun _ _ => True) (new Client.pipeline)
      (List.replicate 9 .main ++ [.finish .tcpInput true] ++ List.replicate 9 .main) = some c ∧
    c.pc = .failed ∧ ∃ x ∈ Client.pipeline.watched, (c.units x).promise = .exception := by
  have hrun : Trans.exec (step Client.pipeline) (fun _ _ => True) (new Client.pipeline)
      (List.replicate 9 .main ++ [.finish .tcpInput true] ++ List.replicate 9 .main) = some _ := rfl
  exact ⟨_, hrun, rfl, (core_sound (Trans.Run.of_exec .start hrun)).2.1 rfl⟩

/-! ## Who notices a crash -/

/-- The loop is over. -/
def Left (c : Core ν) : Prop := ¬ InLoop c ∧ ∀ todo, c.pc ≠ .starting todo

theorem Left.step (h : Left c) {a : Act ν} (hs : c.step cfg a = some c') : Left c' := by
  obtain ⟨hloop, hstart⟩ := h
  cases a with
  | finish x throws =>
    obtain ⟨u, -, rfl⟩ := Option.map_eq_some_iff.1 hs
    exact ⟨hloop, hstart⟩
  | signal =>
    cases hs
    exact ⟨hloop, hstart⟩
  | main =>
    simp only [Core.step, Core.main] at hs
    have hcall : Left (c.callStop cfg) := by
      unfold Core.callStop
      split <;> exact ⟨by simp [InLoop], by simp⟩
    cases hpc : c.pc with
    | starting todo => exact absurd hpc (hstart todo)
    | head => exact absurd (.inl hpc) hloop
    | checking todo => exact absurd (.inr ⟨todo, hpc⟩) hloop
    | failed =>
      simp only [hpc] at hs
      cases hs
      exact hcall
    | stopping todo =>
      cases todo with
      | nil =>
        simp only [hpc] at hs
        cases hs
        exact ⟨by simp [InLoop], by simp⟩
      | cons x todo =>
        simp only [hpc] at hs
        split at hs
        · cases hs
          exact ⟨by simp [InLoop], by simp⟩
        · obtain ⟨u, -, rfl⟩ := Option.map_eq_some_iff.1 hs
          exact ⟨by simp [InLoop, hpc], by simp [hpc]⟩
    | closed =>
      simp only [hpc] at hs
      cases hs
    | undefined =>
      simp only [hpc] at hs
      cases hs

omit [DecidableEq ν] in
theorem InLoop.not_left (h : InLoop c) : ¬ Left c := fun hl => hl.1 h

/-- What a step does from the loop. -/
inductive LoopStep (cfg : Pipeline ν) (c c' : Core ν) : Act ν → Prop
  | other {a : Act ν} (main : a.isMain = false) (pc : c'.pc = c.pc) : LoopStep cfg c c' a
  | round (pc : c.pc = .head) (pc' : c'.pc = .checking cfg.watched) : LoopStep cfg c c' .main
  | signalled (pc : c.pc = .head) (signal : c.signalRun = false) (left : Left c') : LoopStep cfg c c' .main
  | again (pc : c.pc = .checking []) (pc' : c'.pc = .head) : LoopStep cfg c c' .main
  | fine (y : ν) (todo : List ν) (pc : c.pc = .checking (y :: todo))
    (promise : (c.units y).promise = .unset) (pc' : c'.pc = .checking todo) : LoopStep cfg c c' .main
  | crashed (y : ν) (todo : List ν) (pc : c.pc = .checking (y :: todo))
    (promise : (c.units y).promise = .exception) (left : Left c') : LoopStep cfg c c' .main

theorem InLoop.step (hi : Inv cfg c) (h : InLoop c) {a : Act ν} (hs : c.step cfg a = some c') :
    LoopStep cfg c c' a := by
  cases a with
  | finish x throws =>
    obtain ⟨u, -, rfl⟩ := Option.map_eq_some_iff.1 hs
    exact .other rfl rfl
  | signal =>
    cases hs
    exact .other rfl rfl
  | main =>
    rcases h with hpc | ⟨todo, hpc⟩
    · have hrun : c.running = true := by
        apply hi.running
        rw [hpc]
        exact .inl trivial
      simp only [Core.step, Core.main, hpc, hrun, Bool.true_and] at hs
      split at hs
      · cases hs
        exact .round hpc rfl
      · rename_i hsignal
        cases hs
        refine .signalled hpc (by simpa using hsignal) ?_
        rw [Core.callStop, if_pos hrun]
        exact ⟨by simp [InLoop], by simp⟩
    · cases todo with
      | nil =>
        simp only [Core.step, Core.main, hpc] at hs
        cases hs
        exact .again hpc rfl
      | cons x todo =>
        rcases hi.check hpc with ⟨hp, hm⟩ | ⟨hp, hm⟩
        · cases hm.symm.trans hs
          exact .fine x todo hpc hp rfl
        · cases hm.symm.trans hs
          exact .crashed x todo hpc hp ⟨by simp [InLoop], by simp⟩

theorem InLoop.main_isSome (hi : Inv cfg c) (h : InLoop c) : (c.main cfg).isSome = true := by
  rcases h with hpc | ⟨todo, hpc⟩
  · simp only [Core.main, hpc]
    split <;> rfl
  · cases todo with
    | nil => simp [Core.main, hpc]
    | cons x todo => rcases hi.check hpc with ⟨-, hm⟩ | ⟨-, hm⟩ <;> rw [hm] <;> rfl

/-- The main thread sets no promise, and it raises no signal. -/
theorem main_frame (hs : c.main cfg = some c') :
    c'.signalRun = c.signalRun ∧ ∀ y, (c'.units y).promise = (c.units y).promise := by
  have hupdate : ∀ {x : ν} {u : UnitLife}, u.promise = (c.units x).promise →
      ∀ y, ((c.setUnit x u).units y).promise = (c.units y).promise := by
    intro x u hu
    exact forall_units (P := fun y u => u.promise = (c.units y).promise) (fun _ => rfl) hu
  have hcall : (c.callStop cfg).signalRun = c.signalRun ∧
      ∀ y, ((c.callStop cfg).units y).promise = (c.units y).promise := by
    unfold Core.callStop
    split <;> exact ⟨rfl, fun _ => rfl⟩
  unfold Core.main at hs
  split at hs
  · cases hs
    exact ⟨rfl, fun _ => rfl⟩
  · cases hs
    exact ⟨rfl, hupdate rfl⟩
  · split at hs <;> cases hs
    · exact ⟨rfl, fun _ => rfl⟩
    · exact hcall
  · cases hs
    exact ⟨rfl, fun _ => rfl⟩
  · rename_i x todo _
    have hstatus : (c.units x).status.2.promise = (c.units x).promise := by
      unfold UnitLife.status
      split
      · split <;> rfl
      · rfl
    dsimp only at hs
    split at hs <;> cases hs
    · exact ⟨rfl, hupdate hstatus⟩
    · exact ⟨rfl, hupdate hstatus⟩
    · exact ⟨rfl, hupdate hstatus⟩
    · exact ⟨rfl, fun _ => rfl⟩
  · cases hs
    exact hcall
  · cases hs
    exact ⟨rfl, fun _ => rfl⟩
  · rename_i x todo _
    split at hs
    · cases hs
      exact ⟨rfl, fun _ => rfl⟩
    · obtain ⟨u, hu, rfl⟩ := Option.map_eq_some_iff.1 hs
      have hstop : u.promise = (c.units x).promise := by
        unfold UnitLife.stopStep at hu
        split at hu
        · split at hu <;> cases hu <;> rfl
        · split at hu <;> cases hu
          rfl
        · split at hu <;> cases hu
          rfl
        · cases hu
      exact ⟨rfl, hupdate hstop⟩
  · cases hs
  · cases hs

/-- A unit that crashed has crashed for good. -/
theorem Inv.crash_stays (h : Inv cfg c) {a : Act ν} (hs : c.step cfg a = some c')
    (hx : (c.units x).promise = .exception) : (c'.units x).promise = .exception := by
  cases a with
  | finish y throws =>
    obtain ⟨u, hu, rfl⟩ := Option.map_eq_some_iff.1 hs
    have halive := (UnitLife.finish_cases hu).1
    by_cases hxy : x = y
    · subst hxy
      have hunset := (h.unit x).promise.2 (by rw [halive]; exact nofun)
      cases hx.symm.trans hunset
    · rw [setUnit_units, Function.update_of_ne hxy]
      exact hx
  | signal =>
    cases hs
    exact hx
  | main => exact ((main_frame hs).2 x).trans hx

/-- The main thread's steps that are left until it asks for the status of `x`. -/
def toNotice (cfg : Pipeline ν) (x : ν) (c : Core ν) : Nat :=
  match c.pc with
  | .checking todo => if x ∈ todo then todo.length else todo.length + cfg.watched.length + 2
  | _ => cfg.watched.length + 1

theorem toNotice_step (hi : Inv cfg c) (hloop : InLoop c) (hx : x ∈ cfg.watched)
    (hcrash : (c.units x).promise = .exception) {a : Act ν} (hs : c.step cfg a = some c')
    (hleft : ¬ Left c') : toNotice cfg x c' + (if a.isMain then 1 else 0) ≤ toNotice cfg x c := by
  cases hloop.step hi hs with
  | other main pc => simp [toNotice, main, pc]
  | round pc pc' => simp [toNotice, pc, pc', hx, Act.isMain]
  | signalled pc signal left => exact absurd left hleft
  | again pc pc' => simp [toNotice, pc, pc', Act.isMain]
  | fine y todo pc promise pc' =>
    have hxy : x ≠ y := by
      intro hxy
      subst hxy
      cases promise.symm.trans hcrash
    have hafter : toNotice cfg x c' =
        if x ∈ todo then todo.length else todo.length + cfg.watched.length + 2 := by
      unfold toNotice
      rw [pc']
    have hbefore : toNotice cfg x c =
        if x ∈ todo then todo.length + 1 else todo.length + 1 + cfg.watched.length + 2 := by
      unfold toNotice
      rw [pc]
      simp only [List.mem_cons, hxy, false_or, List.length_cons]
    rw [hafter, hbefore]
    show _ + 1 ≤ _
    split <;> omega
  | crashed y todo pc promise left => exact absurd left hleft

theorem toNotice_le (hi : Inv cfg c) (hx : x ∈ cfg.watched) :
    toNotice cfg x c ≤ 2 * cfg.watched.length + 1 := by
  have hpos : 0 < cfg.watched.length := List.length_pos_of_mem hx
  cases hpc : c.pc with
  | checking todo =>
    obtain ⟨done, hd⟩ := hi.checking todo hpc
    have hlen : done.length + todo.length = cfg.watched.length := by
      rw [← hd, List.length_append]
    by_cases hmem : x ∈ todo
    · simp only [toNotice, hpc, hmem, if_true]
      omega
    · have hdone : 0 < done.length := by
        rw [← hd] at hx
        exact List.length_pos_of_mem ((List.mem_append.1 hx).resolve_right hmem)
      simp only [toNotice, hpc, hmem, if_false]
      omega
  | starting _ | head | failed | stopping _ | closed | undefined =>
    simp only [toNotice, hpc]
    omega

omit [DecidableEq ν] in
theorem InLoop.of_pc (h : InLoop c) (hpc : c'.pc = c.pc) : InLoop c' := by
  unfold InLoop
  rw [hpc]
  exact h

omit [DecidableEq ν] in
theorem LoopStep.loop_or_left (hloop : InLoop c) {a : Act ν} (h : LoopStep cfg c c' a) :
    InLoop c' ∨ Left c' := by
  cases h with
  | other main pc => exact .inl (hloop.of_pc pc)
  | round pc pc' => exact .inl (.inr ⟨_, pc'⟩)
  | signalled pc signal left => exact .inr left
  | again pc pc' => exact .inl (.inl pc')
  | fine y todo pc promise pc' => exact .inl (.inr ⟨_, pc'⟩)
  | crashed y todo pc promise left => exact .inr left

/-- Whatever else happens, a crash of a unit that is watched ends the loop before the main thread has
gone through it twice, and the main thread is never held up there. -/
theorem watched_crash_noticed (h : Reachable cfg c) (hloop : InLoop c) (hx : x ∈ cfg.watched)
    (hcrash : (c.units x).promise = .exception) {as : List (Act ν)}
    (hs : Trans.Stretch (step cfg) (fun _ => True) c as c') (hin : InLoop c') :
    as.countP Act.isMain ≤ 2 * cfg.watched.length + 1 ∧ (c'.main cfg).isSome = true := by
  have hinv := inv_of_reachable h
  have hend : Inv cfg c' := hs.invariant (fun _ _ _ hi _ ht => hi.step ht) hinv
  refine ⟨?_, hin.main_isSome hend⟩
  have htotal := toNotice_le hinv hx
  suffices hle : as.countP Act.isMain + toNotice cfg x c' ≤ toNotice cfg x c by omega
  refine hs.countP_le_rank_until (G := Left)
    (I := fun c => Inv cfg c ∧ (c.units x).promise = .exception ∧ (InLoop c ∨ Left c))
    ?_ ?_ ?_ ⟨hinv, hcrash, .inl hloop⟩ hin.not_left
  · exact fun _ _ _ hl ht => hl.step ht
  · intro s a s' ⟨hi, hcr, hat⟩ _ ht
    refine ⟨hi.step ht, hi.crash_stays ht hcr, ?_⟩
    rcases hat with hin | hleft
    · exact (hin.step hi ht).loop_or_left hin
    · exact .inr (hleft.step ht)
  · intro s a s' ⟨hi, hcr, hat⟩ _ ht hnot
    rcases hat with hin | hleft
    · exact toNotice_step hi hin hx hcr ht hnot
    · exact absurd (hleft.step ht) hnot

theorem watched_crash_noticed_run : ∃ c c',
    Trans.exec (step Client.pipeline) (fun _ _ => True) (new Client.pipeline)
      (List.replicate 9 .main ++ [.finish .builder true]) = some c ∧
    Trans.Stretch (step Client.pipeline) (fun _ => True) c [.main, .finish .router true, .main] c' ∧
    [Act.main, .finish ClientUnit.router true, .main].countP Act.isMain ≤ 17 ∧
    (c'.main Client.pipeline).isSome = true := by
  have hrun : Trans.exec (step Client.pipeline) (fun _ _ => True) (new Client.pipeline)
      (List.replicate 9 .main ++ [.finish .builder true]) = some _ := rfl
  refine ⟨_, _, hrun, ⟨fun _ _ => trivial, rfl⟩, ?_⟩
  exact watched_crash_noticed (x := ClientUnit.builder) (Trans.Run.of_exec .start hrun) (.inl rfl)
    (by decide) rfl ⟨fun _ _ => trivial, rfl⟩ (.inr ⟨_, rfl⟩)

/-- No signal comes and no unit that is watched crashes. -/
def Calm (cfg : Pipeline ν) : Act ν → Prop
  | .finish x throws => x ∈ cfg.watched → throws = false
  | .signal => False
  | .main => True

/-- Nothing is known that would end the loop. -/
structure Calmed (cfg : Pipeline ν) (c : Core ν) : Prop where
  inv : Inv cfg c
  loop : InLoop c
  signal : c.signalRun = true
  watched : ∀ y ∈ cfg.watched, (c.units y).promise ≠ .exception

theorem Calmed.step (h : Calmed cfg c) {a : Act ν} (ha : Calm cfg a) (hs : c.step cfg a = some c') :
    Calmed cfg c' where
  inv := h.inv.step hs
  loop := by
    cases h.loop.step h.inv hs with
    | signalled pc signal left => cases h.signal.symm.trans signal
    | crashed y todo pc promise left =>
      have hy : y ∈ cfg.watched := (h.inv.checking _ pc).subset List.mem_cons_self
      exact absurd promise (h.watched y hy)
    | other main pc => exact h.loop.of_pc pc
    | round pc pc' => exact .inr ⟨_, pc'⟩
    | again pc pc' => exact .inl pc'
    | fine y todo pc promise pc' => exact .inr ⟨_, pc'⟩
  signal := by
    cases a with
    | finish x throws =>
      obtain ⟨u, -, rfl⟩ := Option.map_eq_some_iff.1 hs
      exact h.signal
    | signal => exact absurd ha id
    | main => rw [(main_frame hs).1, h.signal]
  watched := by
    intro y hy
    cases a with
    | finish x throws =>
      obtain ⟨u, hu, rfl⟩ := Option.map_eq_some_iff.1 hs
      by_cases hyx : y = x
      · subst hyx
        have hfine := ha hy
        subst hfine
        rw [setUnit_units, Function.update_self]
        obtain ⟨-, ⟨hthrows, -⟩ | ⟨-, rfl⟩⟩ := UnitLife.finish_cases hu
        · cases hthrows
        · exact nofun
      · rw [setUnit_units, Function.update_of_ne hyx]
        exact h.watched y hy
    | signal => exact absurd ha id
    | main =>
      rw [(main_frame hs).2]
      exact h.watched y hy

/-- The crash of a unit that is not watched changes nothing for the main thread. -/
theorem unwatched_crash_missed (h : Reachable cfg c) (hloop : InLoop c) (hsignal : c.signalRun = true)
    (hcrash : (c.units x).promise = .exception)
    (hfine : ∀ y ∈ cfg.watched, (c.units y).promise ≠ .exception) {as : List (Act ν)}
    (hs : Trans.Stretch (step cfg) (Calm cfg) c as c') :
    InLoop c' ∧ (c'.units x).promise = .exception ∧ (c'.main cfg).isSome = true := by
  have hstay := hs.invariant (I := fun c => Calmed cfg c ∧ (c.units x).promise = .exception)
    (fun _ _ _ ⟨hc, hp⟩ ha ht => ⟨hc.step ha ht, hc.inv.crash_stays ht hp⟩)
    ⟨⟨inv_of_reachable h, hloop, hsignal, hfine⟩, hcrash⟩
  exact ⟨hstay.1.loop, hstay.2, hstay.1.loop.main_isSome hstay.1.inv⟩


/-- The server does not notice that its header validation is gone. -/
theorem unwatched_crash_missed_run : ∃ c c',
    Trans.exec (step (Server.pipeline [] .nil)) (fun _ _ => True) (new (Server.pipeline [] .nil))
      (List.replicate 9 .main ++ [.finish .headerValidation true]) = some c ∧
    Trans.Stretch (step (Server.pipeline [] .nil)) (Calm (Server.pipeline [] .nil)) c
      (List.replicate 30 .main) c' ∧
    InLoop c' ∧ (c'.units .headerValidation).promise = .exception ∧
      (c'.main (Server.pipeline [] .nil)).isSome = true := by
  have hrun : Trans.exec (step (Server.pipeline [] .nil)) (fun _ _ => True) (new (Server.pipeline [] .nil))
      (List.replicate 9 .main ++ [.finish .headerValidation true]) = some _ := rfl
  have hcalm : ∀ a ∈ List.replicate 30 Act.main, Calm (Server.pipeline [] .nil) a := by
    intro a ha
    rw [List.eq_of_mem_replicate ha]
    trivial
  refine ⟨_, _, hrun, ⟨hcalm, rfl⟩, ?_⟩
  exact unwatched_crash_missed (x := ServerUnit.headerValidation) (Trans.Run.of_exec .start hrun)
    (.inl rfl) rfl rfl (by decide) ⟨hcalm, rfl⟩

end Core

end Fix42
