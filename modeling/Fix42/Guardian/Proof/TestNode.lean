import Fix42.Guardian.TestTree

/-!
# Nodes that are entered

`Runs` is what a row of nodes does that are entered one after the other, and what holds of any of them is
proved by induction on it. Only suites are run for which all that is required passes, and no two of them
require the same unless one requires the other (`Runs.adds`). Where nothing below is required twice or was
entered before, none is left out (`Runs.walked`).
-/

namespace Fix42

namespace Guardian

open Dependency

variable {Input : Type} {groups : List (TestGroup Input)} {tree : TestTree groups}
  {runTest : Node groups → Outcome Input} {pass : Node groups → Bool} {i j x y z : Node groups}
  {is : List (Node groups)} {s s' t u : State groups} {ok all : Bool}

/-! ## Entering nodes -/

/-- Nodes entered one after the other, up to the first that fails. -/
inductive Runs (tree : TestTree groups) (pass : Node groups → Bool) :
    List (Node groups) → State groups → State groups → Bool → Prop
  | nil {s : State groups} : Runs tree pass [] s s true
  /-- A node is entered again. -/
  | again {i : Node groups} {is : List (Node groups)} {s : State groups}
    (entered : s.asBeenRun i = true) : Runs tree pass (i :: is) s s false
  /-- Something it requires fails. -/
  | failed {i : Node groups} {is : List (Node groups)} {s t : State groups}
    (fresh : s.asBeenRun i = false)
    (required : Runs tree pass (tree.dependOn i) (s.start i) t false) :
    Runs tree pass (i :: is) s t false
  /-- It fails. -/
  | refused {i : Node groups} {is : List (Node groups)} {s t : State groups}
    (fresh : s.asBeenRun i = false)
    (required : Runs tree pass (tree.dependOn i) (s.start i) t true) (refuse : pass i = false) :
    Runs tree pass (i :: is) s (t.done i) false
  | passed {i : Node groups} {is : List (Node groups)} {s t s' : State groups} {ok : Bool}
    (fresh : s.asBeenRun i = false)
    (required : Runs tree pass (tree.dependOn i) (s.start i) t true) (accept : pass i = true)
    (rest : Runs tree pass is (t.done i) s' ok) : Runs tree pass (i :: is) s s' ok

theorem Runs.cons (h : Runs tree pass [i] s t true) (hrest : Runs tree pass is t s' ok) :
    Runs tree pass (i :: is) s s' ok := by
  cases h with
  | passed fresh required hpass hnil =>
    cases hnil
    exact .passed fresh required hpass hrest

theorem Runs.cons_false (h : Runs tree pass [i] s t false) : Runs tree pass (i :: is) s t false := by
  cases h with
  | again entered => exact .again entered
  | failed fresh required => exact .failed fresh required
  | refused fresh required refuse => exact .refused fresh required refuse
  | passed _ _ _ hnil => cases hnil

theorem runRequired_runs {run : Node groups → State groups → Option (State groups × Bool)}
    {r : State groups × Bool} (hrun : ∀ i s r, run i s = some r → Runs tree pass [i] s r.1 r.2)
    (h : runRequired run is s = some r) : Runs tree pass is s r.1 r.2 := by
  induction is generalizing s with
  | nil =>
    cases h
    exact .nil
  | cons i is ih =>
    rw [runRequired, Option.bind_eq_some_iff] at h
    obtain ⟨⟨t, ok⟩, ht, h⟩ := h
    have hhead := hrun i s _ ht
    cases ok with
    | true => exact hhead.cons (ih h)
    | false =>
      cases h
      exact hhead.cons_false

/-- The outcomes of the suites. -/
abbrev outcomes (runTest : Node groups → Outcome Input) (i : Node groups) : Bool :=
  (groups.get i).run (runTest i)

/-- What the code does is a run. -/
theorem runNode_runs {fuel : Nat} {r : State groups × Bool} (h : tree.runNode runTest fuel i s = some r) :
    Runs tree (outcomes runTest) [i] s r.1 r.2 := by
  induction fuel generalizing i s r with
  | zero => cases h
  | succ fuel ih =>
    rw [TestTree.runNode] at h
    split at h
    case isTrue hentered =>
      cases h
      exact .again hentered
    case isFalse hfresh =>
      rw [Bool.not_eq_true] at hfresh
      rw [Option.map_eq_some_iff] at h
      obtain ⟨⟨t, all⟩, ht, rfl⟩ := h
      have hrequired := runRequired_runs (fun i s r => ih) ht
      cases all with
      | false => exact .failed hfresh hrequired
      | true =>
        change Runs tree (outcomes runTest) [i] s (t.done i) (outcomes runTest i)
        cases hpass : outcomes runTest i with
        | false => exact .refused hfresh hrequired hpass
        | true => exact .passed hfresh hrequired hpass .nil

@[simp] theorem asBeenRun_start_self (s : State groups) (i : Node groups) :
    (s.start i).asBeenRun i = true := Function.update_self ..

theorem asBeenRun_start_of_ne (h : j ≠ i) : (s.start i).asBeenRun j = s.asBeenRun j :=
  Function.update_of_ne h ..

theorem start_eq_false (h : j ≠ i) (hj : s.asBeenRun j = false) : (s.start i).asBeenRun j = false :=
  (asBeenRun_start_of_ne h).trans hj

theorem asBeenRun_start_iff : (s.start i).asBeenRun j = true ↔ j = i ∨ s.asBeenRun j = true := by
  by_cases h : j = i
  · simp [h]
  · simp [asBeenRun_start_of_ne h, h]

theorem mem_ran_done : j ∈ (s.done i).ran ↔ j ∈ s.ran ∨ j = i := by
  simp [State.done]

/-! ## What is entered -/

theorem Runs.grows (h : Runs tree pass is s s' ok) (hi : s.asBeenRun i = true) :
    s'.asBeenRun i = true := by
  induction h with
  | nil => exact hi
  | again => exact hi
  | failed _ _ ih => exact ih (asBeenRun_start_iff.2 (.inr hi))
  | refused _ _ _ ih => exact ih (asBeenRun_start_iff.2 (.inr hi))
  | passed _ _ _ _ ih ihrest => exact ihrest (ih (asBeenRun_start_iff.2 (.inr hi)))

theorem Runs.ran_subset (h : Runs tree pass is s s' ok) (hi : i ∈ s.ran) : i ∈ s'.ran := by
  induction h with
  | nil => exact hi
  | again => exact hi
  | failed _ _ ih => exact ih hi
  | refused _ _ _ ih => exact mem_ran_done.2 (.inl (ih hi))
  | passed _ _ _ _ ih ihrest => exact ihrest (mem_ran_done.2 (.inl (ih hi)))

/-- A node that is entered has been run. -/
theorem Runs.asBeenRun_self (h : Runs tree pass [i] s t ok) : t.asBeenRun i = true := by
  cases h with
  | again entered => exact entered
  | failed _ required => exact required.grows (asBeenRun_start_self s i)
  | refused _ required _ => exact required.grows (asBeenRun_start_self s i)
  | passed _ required _ rest =>
    cases rest
    exact required.grows (asBeenRun_start_self s i)

/-- What is entered is required, directly or transitively. -/
theorem Runs.within (h : Runs tree pass is s s' ok) (hi : s'.asBeenRun i = true) :
    s.asBeenRun i = true ∨ ∃ j ∈ is, Reaches tree.dependOn j i := by
  have hnode {j : Node groups} {s : State groups} (h : (s.start j).asBeenRun i = true ∨
      ∃ k ∈ tree.dependOn j, Reaches tree.dependOn k i) :
      s.asBeenRun i = true ∨ Reaches tree.dependOn j i := by
    rcases h with h | ⟨k, hk, hki⟩
    · rcases asBeenRun_start_iff.1 h with rfl | h
      · exact .inr .refl
      · exact .inl h
    · exact .inr (.of_mem hk hki)
  induction h with
  | nil => exact .inl hi
  | again => exact .inl hi
  | failed _ _ ih =>
    exact (hnode (ih hi)).imp id fun h => ⟨_, List.mem_cons_self, h⟩
  | refused _ _ _ ih =>
    exact (hnode (ih hi)).imp id fun h => ⟨_, List.mem_cons_self, h⟩
  | passed _ _ _ _ ih ihrest =>
    rcases ihrest hi with h | ⟨j, hj, hji⟩
    · exact (hnode (ih h)).imp id fun h => ⟨_, List.mem_cons_self, h⟩
    · exact .inr ⟨j, List.mem_cons_of_mem _ hj, hji⟩

/-! ## What is run -/

/-- A suite passes and so does everything it requires. -/
def AllPass (tree : TestTree groups) (pass : Node groups → Bool) (i : Node groups) : Prop :=
  ∀ j, Reaches tree.dependOn i j → pass j = true

theorem AllPass.of_required (h : ∀ j ∈ tree.dependOn i, AllPass tree pass j) (hi : pass i = true) :
    AllPass tree pass i := by
  intro j hj
  rcases hj.cases with rfl | ⟨k, hk, hkj⟩
  · exact hi
  · exact h k hk j hkj

theorem AllPass.required (h : AllPass tree pass i) (hj : j ∈ tree.dependOn i) : AllPass tree pass j :=
  fun k hk => h k (.of_mem hj hk)

/-- Nothing that a suite requires has been entered. -/
def Fresh (tree : TestTree groups) (s : State groups) (i : Node groups) : Prop :=
  ∀ j, Reaches tree.dependOn i j → s.asBeenRun j = false

theorem Fresh.not_entered (h : Fresh tree s i) (hij : Reaches tree.dependOn i j) :
    ¬ s.asBeenRun j = true := by
  rw [h j hij]
  exact Bool.false_ne_true

theorem Fresh.of_start (hi : s.asBeenRun i = false)
    (h : ∀ j ∈ tree.dependOn i, Fresh tree (s.start i) j) : Fresh tree s i := by
  intro j hj
  rcases hj.cases with rfl | ⟨k, hk, hkj⟩
  · exact hi
  · refine Bool.eq_false_iff.2 fun hentered => ?_
    exact (h k hk).not_entered hkj (asBeenRun_start_iff.2 (.inr hentered))

theorem Fresh.of_grows (h : Fresh tree t i) (hgrows : ∀ j, s.asBeenRun j = true → t.asBeenRun j = true) :
    Fresh tree s i := by
  intro j hj
  refine Bool.eq_false_iff.2 fun hentered => ?_
  exact h.not_entered hj (hgrows j hentered)

/-- What holds of the suites whose tests were run. -/
structure Sound (tree : TestTree groups) (pass : Node groups → Bool) (s : State groups) : Prop where
  entered : ∀ i ∈ s.ran, s.asBeenRun i = true
  closed : ∀ i ∈ s.ran, ∀ j, Reaches tree.dependOn i j → j ∈ s.ran
  required : ∀ i ∈ s.ran, ∀ j ∈ tree.dependOn i, AllPass tree pass j
  treelike : ∀ i ∈ s.ran, Treelike tree.dependOn i
  laminar : ∀ i ∈ s.ran, ∀ j ∈ s.ran, Reaches tree.dependOn i j ∨ Reaches tree.dependOn j i ∨
    Apart tree.dependOn i j
  once : s.ran.Nodup

theorem Sound.new : Sound tree pass .new := ⟨nofun, nofun, nofun, nofun, nofun, List.nodup_nil⟩

theorem Sound.start (h : Sound tree pass s) : Sound tree pass (s.start i) where
  entered j hj := asBeenRun_start_iff.2 (.inr (h.entered j hj))
  closed := h.closed
  required := h.required
  treelike := h.treelike
  laminar := h.laminar
  once := h.once

/-- What a row of nodes does to the suites that are run: those that are new require nothing that was
entered before; and if no node fails, all they require is run. -/
structure Adds (tree : TestTree groups) (pass : Node groups → Bool) (is : List (Node groups))
    (s s' : State groups) (ok : Bool) : Prop where
  sound : Sound tree pass s'
  fresh : ∀ i ∈ s'.ran, i ∈ s.ran ∨ Fresh tree s i
  apart : ok = true → is.Pairwise (Apart tree.dependOn)
  passed : ok = true → ∀ i ∈ is, AllPass tree pass i ∧ Fresh tree s i ∧
    ∀ j, Reaches tree.dependOn i j → j ∈ s'.ran

/-- All that a node requires was run, and so is it. -/
theorem Adds.done (hs : Sound tree pass s) (hi : s.asBeenRun i = false)
    (hruns : Runs tree pass (tree.dependOn i) (s.start i) t true)
    (h : Adds tree pass (tree.dependOn i) (s.start i) t true) :
    Sound tree pass (t.done i) ∧ Fresh tree s i := by
  have hfresh : Fresh tree s i := .of_start hi fun j hj => (h.passed rfl j hj).2.1
  have hbelow : ∀ j ∈ t.ran, j ∈ s.ran ∨ Reaches tree.dependOn i j := by
    intro j hj
    refine (h.fresh j hj).imp id fun hfreshj => ?_
    rcases hruns.within (h.sound.entered j hj) with hentered | ⟨k, hk, hkj⟩
    · exact absurd hentered (hfreshj.not_entered .refl)
    · exact .of_mem hk hkj
  have hapart : ∀ j ∈ s.ran, Apart tree.dependOn i j := by
    intro j hj k hik hjk
    exact hfresh.not_entered hik (hs.entered k (hs.closed j hj k hjk))
  have hnot : i ∉ t.ran := by
    intro hmem
    rcases h.fresh i hmem with hmem | hfreshi
    · exact absurd (hs.entered i hmem) (by simp [hi])
    · exact absurd (hfreshi i .refl) (by simp)
  refine ⟨⟨fun j hj => ?_, fun j hj k hjk => ?_, fun j hj => ?_, fun j hj => ?_, fun j hj k hk => ?_,
    ?_⟩, hfresh⟩
  · rcases mem_ran_done.1 hj with hj | rfl
    · exact h.sound.entered j hj
    · exact hruns.grows (asBeenRun_start_self s j)
  · rcases mem_ran_done.1 hj with hj | rfl
    · exact mem_ran_done.2 (.inl (h.sound.closed j hj k hjk))
    · rcases hjk.cases with rfl | ⟨l, hl, hlk⟩
      · exact mem_ran_done.2 (.inr rfl)
      · exact mem_ran_done.2 (.inl ((h.passed rfl l hl).2.2 k hlk))
  · rcases mem_ran_done.1 hj with hj | rfl
    · exact h.sound.required j hj
    · exact fun k hk => (h.passed rfl k hk).1
  · rcases mem_ran_done.1 hj with hj | rfl
    · exact h.sound.treelike j hj
    · exact .of_next (h.apart rfl) fun k hk => h.sound.treelike k ((h.passed rfl k hk).2.2 k .refl)
  · rw [mem_ran_done] at hj hk
    rcases hj with hj | rfl <;> rcases hk with hk | rfl
    · exact h.sound.laminar j hj k hk
    · rcases hbelow j hj with hj | hkj
      · exact .inr (.inr (hapart j hj).symm)
      · exact .inr (.inl hkj)
    · rcases hbelow k hk with hk | hjk
      · exact .inr (.inr (hapart k hk))
      · exact .inl hjk
    · exact .inl .refl
  · exact List.nodup_append.2 ⟨h.sound.once, List.nodup_singleton i, fun j hj k hk =>
      List.mem_singleton.1 hk ▸ ne_of_mem_of_not_mem hj hnot⟩

theorem Runs.adds (h : Runs tree pass is s s' ok) (hs : Sound tree pass s) :
    Adds tree pass is s s' ok := by
  induction h with
  | nil => exact ⟨hs, fun i hi => .inl hi, fun _ => .nil, fun _ => nofun⟩
  | again => exact ⟨hs, fun i hi => .inl hi, nofun, nofun⟩
  | failed fresh required ih =>
    have h := ih hs.start
    refine ⟨h.sound, fun j hj => ?_, nofun, nofun⟩
    exact (h.fresh j hj).imp id fun hj => hj.of_grows fun k hk => asBeenRun_start_iff.2 (.inr hk)
  | refused fresh required _ ih =>
    have h := ih hs.start
    obtain ⟨hsound, hfresh⟩ := h.done hs fresh required
    refine ⟨hsound, fun j hj => ?_, nofun, nofun⟩
    rcases mem_ran_done.1 hj with hj | rfl
    · exact (h.fresh j hj).imp id fun hj => hj.of_grows fun k hk => asBeenRun_start_iff.2 (.inr hk)
    · exact .inr hfresh
  | passed fresh required accept rest ih ihrest =>
    rename_i i is s t s' ok
    have h := ih hs.start
    obtain ⟨hsound, hfresh⟩ := h.done hs fresh required
    have hrest := ihrest hsound
    have hgrows : ∀ j, s.asBeenRun j = true → (t.done i).asBeenRun j = true :=
      fun j hj => required.grows (asBeenRun_start_iff.2 (.inr hj))
    have hran : ∀ j, Reaches tree.dependOn i j → j ∈ (t.done i).ran :=
      hsound.closed i (mem_ran_done.2 (.inr rfl))
    refine ⟨hrest.sound, fun j hj => ?_, fun hok => ?_, fun hok j hj => ?_⟩
    · rcases hrest.fresh j hj with hj | hj
      · rcases mem_ran_done.1 hj with hj | rfl
        · exact (h.fresh j hj).imp id fun hj =>
            hj.of_grows fun k hk => asBeenRun_start_iff.2 (.inr hk)
        · exact .inr hfresh
      · exact .inr (hj.of_grows hgrows)
    · refine List.pairwise_cons.2 ⟨fun j hj k hik hjk => ?_, hrest.apart hok⟩
      exact (hrest.passed hok j hj).2.1.not_entered hjk (hsound.entered k (hran k hik))
    · rcases List.mem_cons.1 hj with rfl | hj
      · exact ⟨.of_required (fun k hk => (h.passed rfl k hk).1) accept, hfresh,
          fun k hk => rest.ran_subset (hran k hk)⟩
      · obtain ⟨hpass, hfreshj, hranj⟩ := hrest.passed hok j hj
        exact ⟨hpass, hfreshj.of_grows hgrows, hranj⟩

/-! ## Where nothing is entered twice -/

/-- Nodes entered from a node if what comes before them passes. -/
def Enters (tree : TestTree groups) (pass : Node groups → Bool) : Node groups → Node groups → Prop :=
  Relation.ReflTransGen (Past tree.dependOn (AllPass tree pass))

/-- How a node that is new was entered. -/
theorem Runs.entered (h : Runs tree pass is s s' ok) (hs : Sound tree pass s)
    (hx : s'.asBeenRun x = true) (hnew : s.asBeenRun x = false) :
    ∃ before y behind, is = before ++ y :: behind ∧ (∀ z ∈ before, AllPass tree pass z) ∧
      Enters tree pass y x := by
  have hnode {i : Node groups} {s t : State groups} {all : Bool} (hs : Sound tree pass s)
      (hruns : Runs tree pass (tree.dependOn i) (s.start i) t all) (hx : t.asBeenRun x = true)
      (hnew : s.asBeenRun x = false) (ih : t.asBeenRun x = true → (s.start i).asBeenRun x = false →
        ∃ before y behind, tree.dependOn i = before ++ y :: behind ∧
          (∀ z ∈ before, AllPass tree pass z) ∧ Enters tree pass y x) : Enters tree pass i x := by
    by_cases hxi : x = i
    · exact hxi ▸ .refl
    · obtain ⟨before, y, behind, hrequired, hbefore, hyx⟩ :=
        ih hx (start_eq_false hxi hnew)
      exact .head ⟨before, behind, hrequired, hbefore⟩ hyx
  induction h with
  | nil =>
    rw [hnew] at hx
    cases hx
  | again =>
    rw [hnew] at hx
    cases hx
  | failed fresh required ih =>
    exact ⟨[], _, _, rfl, nofun, hnode hs required hx hnew (ih hs.start)⟩
  | refused fresh required _ ih =>
    exact ⟨[], _, _, rfl, nofun, hnode hs required hx hnew (ih hs.start)⟩
  | passed fresh required accept rest ih ihrest =>
    rename_i i is s t s' ok
    cases ht : (t.done i).asBeenRun x with
    | true => exact ⟨[], _, _, rfl, nofun, hnode hs required ht hnew (ih hs.start)⟩
    | false =>
      have hadds := required.adds hs.start
      obtain ⟨before, y, behind, rfl, hbefore, hyx⟩ :=
        ihrest (hadds.done hs fresh required).1 hx ht
      refine ⟨i :: before, y, behind, rfl, List.forall_mem_cons.2 ⟨?_, hbefore⟩, hyx⟩
      exact .of_required (fun j hj => (hadds.passed rfl j hj).1) accept

/-- A row of nodes below which nothing was entered before. -/
structure Walked (tree : TestTree groups) (pass : Node groups → Bool) (is : List (Node groups))
    (s s' : State groups) (ok : Bool) : Prop where
  run : ∀ x, s'.asBeenRun x = true → s.asBeenRun x = false →
    (∀ y ∈ tree.dependOn x, AllPass tree pass y) → x ∈ s'.ran
  enters : ∀ x, s'.asBeenRun x = true → s.asBeenRun x = false →
    ∀ y, Enters tree pass x y → s'.asBeenRun y = true
  path : ∀ x, s'.asBeenRun x = true → s.asBeenRun x = false → ∃ i ∈ is, s'.asBeenRun i = true ∧
    Path tree.dependOn (fun y => s'.asBeenRun y = true) i x
  reaches : ∀ before x behind, is = before ++ x :: behind → (∀ y ∈ before, AllPass tree pass y) →
    s'.asBeenRun x = true
  passes : (∀ i ∈ is, AllPass tree pass i) → ok = true

theorem Walked.node (hacyclic : Acyclic tree.dependOn) (hfresh : Fresh tree s i)
    (hruns : Runs tree pass (tree.dependOn i) (s.start i) t all)
    (h : Walked tree pass (tree.dependOn i) (s.start i) t all)
    (hu : ∀ x, u.asBeenRun x = t.asBeenRun x) (hran : ∀ x ∈ t.ran, x ∈ u.ran)
    (hi : all = true → i ∈ u.ran) (hok : AllPass tree pass i → all = true → ok = true) :
    Walked tree pass [i] s u ok := by
  have hself : t.asBeenRun i = true := hruns.grows (asBeenRun_start_self s i)
  refine ⟨fun x hx hnew hpass => ?_, fun x hx hnew y hxy => ?_, fun x hx hnew => ?_,
    fun before x behind his _ => ?_, fun hpass => ?_⟩
  · rw [hu] at hx
    by_cases hxi : x = i
    · subst hxi
      exact hi (h.passes hpass)
    · exact hran x (h.run x hx (start_eq_false hxi hnew) hpass)
  · rw [hu] at hx ⊢
    by_cases hxi : x = i
    · subst hxi
      rcases Relation.ReflTransGen.cases_head hxy with rfl | ⟨z, hz, hzy⟩
      · exact hself
      · have hzx : z ≠ x := by
          rintro rfl
          exact hacyclic z z hz.mem .refl
        have hznew : (s.start x).asBeenRun z = false :=
          start_eq_false hzx (hfresh z (.single hz.mem))
        obtain ⟨before, behind, hrequired, hbefore⟩ := hz
        exact h.enters z (h.reaches before z behind hrequired hbefore) hznew y hzy
    · exact h.enters x hx (start_eq_false hxi hnew) y hxy
  · simp only [hu] at hx ⊢
    refine ⟨i, List.mem_singleton_self i, hself, ?_⟩
    by_cases hxi : x = i
    · exact hxi ▸ .refl
    · obtain ⟨j, hj, hjrun, hpath⟩ := h.path x hx (start_eq_false hxi hnew)
      exact .head ⟨hj, hjrun⟩ hpath
  · obtain ⟨rfl, rfl, -⟩ : before = [] ∧ i = x ∧ behind = [] := by
      cases before with
      | nil => simpa using his
      | cons => simp at his
    rw [hu, hself]
  · have hpassi := hpass i (List.mem_singleton_self i)
    exact hok hpassi (h.passes fun j hj => hpassi.required hj)

/-- A node that is done, after all that it requires. -/
theorem Walked.done (hacyclic : Acyclic tree.dependOn) (hfresh : Fresh tree s i)
    (hruns : Runs tree pass (tree.dependOn i) (s.start i) t true)
    (h : Walked tree pass (tree.dependOn i) (s.start i) t true) (hok : AllPass tree pass i → ok = true) :
    Walked tree pass [i] s (t.done i) ok :=
  .node hacyclic hfresh hruns h (fun _ => rfl) (fun _ hx => mem_ran_done.2 (.inl hx))
    (fun _ => mem_ran_done.2 (.inr rfl)) fun hpass _ => hok hpass

theorem Walked.cons_false (h : Walked tree pass [i] s u false) :
    Walked tree pass (i :: is) s u false := by
  have hnot : ¬ AllPass tree pass i := fun hi =>
    absurd (h.passes fun j hj => List.mem_singleton.1 hj ▸ hi) (by decide)
  refine ⟨h.run, h.enters, fun x hx hnew => ?_, fun before x behind his hbefore => ?_, fun hpass => ?_⟩
  · obtain ⟨j, hj, hpath⟩ := h.path x hx hnew
    exact ⟨j, List.mem_singleton.1 hj ▸ List.mem_cons_self, hpath⟩
  · cases before with
    | nil =>
      obtain ⟨rfl, -⟩ := List.cons.inj his
      exact h.reaches [] i [] rfl nofun
    | cons y before =>
      obtain ⟨rfl, -⟩ := List.cons.inj his
      exact absurd (hbefore i List.mem_cons_self) hnot
  · exact absurd (hpass i List.mem_cons_self) hnot

theorem Walked.cons (h : Walked tree pass [i] s u true) (hruns : Runs tree pass is u s' ok)
    (hrest : Walked tree pass is u s' ok) : Walked tree pass (i :: is) s s' ok := by
  have hcases {x : Node groups} {P : Prop} (hx : s'.asBeenRun x = true)
      (hold : u.asBeenRun x = true → P)
      (hnew : s'.asBeenRun x = true → u.asBeenRun x = false → P) : P := by
    cases hux : u.asBeenRun x with
    | true => exact hold hux
    | false => exact hnew hx hux
  refine ⟨fun x hx hnew hpass => ?_, fun x hx hnew y hxy => ?_, fun x hx hnew => ?_,
    fun before x behind his hbefore => ?_, fun hpass => ?_⟩
  · exact hcases hx (fun hux => hruns.ran_subset (h.run x hux hnew hpass))
      fun hx hux => hrest.run x hx hux hpass
  · exact hcases hx (fun hux => hruns.grows (h.enters x hux hnew y hxy))
      fun hx hux => hrest.enters x hx hux y hxy
  · refine hcases hx (fun hux => ?_) fun hx hux => ?_
    · obtain ⟨j, hj, hjrun, hpath⟩ := h.path x hux hnew
      exact ⟨j, List.mem_singleton.1 hj ▸ List.mem_cons_self, hruns.grows hjrun,
        hpath.mono fun y hy => hruns.grows hy⟩
    · obtain ⟨j, hj, hpath⟩ := hrest.path x hx hux
      exact ⟨j, List.mem_cons_of_mem i hj, hpath⟩
  · cases before with
    | nil =>
      obtain ⟨rfl, -⟩ := List.cons.inj his
      exact hruns.grows (h.reaches [] i [] rfl nofun)
    | cons y before =>
      exact hrest.reaches before x behind (List.cons.inj his).2 fun z hz =>
        hbefore z (List.mem_cons_of_mem y hz)
  · exact hrest.passes fun j hj => hpass j (List.mem_cons_of_mem i hj)

theorem Runs.walked (hacyclic : Acyclic tree.dependOn) (h : Runs tree pass is s s' ok)
    (hpair : is.Pairwise (Apart tree.dependOn))
    (his : ∀ i ∈ is, Treelike tree.dependOn i ∧ Fresh tree s i) : Walked tree pass is s s' ok := by
  have hstart {i : Node groups} {s : State groups} (htree : Treelike tree.dependOn i)
      (hfresh : Fresh tree s i) : ∀ j ∈ tree.dependOn i, Treelike tree.dependOn j ∧
        Fresh tree (s.start i) j := by
    refine fun j hj => ⟨htree.below (.single hj), fun k hk => ?_⟩
    have hki : k ≠ i := by
      rintro rfl
      exact hacyclic k j hj hk
    exact start_eq_false hki (hfresh k (.of_mem hj hk))
  induction h with
  | nil =>
    refine ⟨fun x hx hnew => ?_, fun x hx hnew => ?_, fun x hx hnew => ?_, fun before x behind h => ?_,
      fun _ => rfl⟩
    · exact absurd hx (Bool.eq_false_iff.1 hnew)
    · exact absurd hx (Bool.eq_false_iff.1 hnew)
    · exact absurd hx (Bool.eq_false_iff.1 hnew)
    · exact absurd h.symm (List.append_ne_nil_of_right_ne_nil before (List.cons_ne_nil x behind))
  | again entered =>
    obtain ⟨-, hfresh⟩ := his _ List.mem_cons_self
    exact absurd entered (hfresh.not_entered .refl)
  | failed fresh required ih =>
    obtain ⟨htree, hfresh⟩ := his _ List.mem_cons_self
    exact (Walked.node hacyclic hfresh required (ih (htree _ .refl) (hstart htree hfresh))
      (fun _ => rfl) (fun _ hx => hx) nofun fun _ h => h).cons_false
  | refused fresh required refuse ih =>
    obtain ⟨htree, hfresh⟩ := his _ List.mem_cons_self
    refine (Walked.done hacyclic hfresh required (ih (htree _ .refl) (hstart htree hfresh))
      fun hpass => ?_).cons_false
    rw [hpass _ .refl] at refuse
    cases refuse
  | passed fresh required accept rest ih ihrest =>
    obtain ⟨htree, hfresh⟩ := his _ List.mem_cons_self
    obtain ⟨hapart, hpair⟩ := List.pairwise_cons.1 hpair
    have hdone := Walked.done hacyclic hfresh required (ih (htree _ .refl) (hstart htree hfresh))
      fun _ => rfl
    refine hdone.cons rest (ihrest hpair fun j hj => ?_)
    obtain ⟨htreej, hfreshj⟩ := his j (List.mem_cons_of_mem _ hj)
    refine ⟨htreej, fun k hk => Bool.eq_false_iff.2 fun hentered => ?_⟩
    rcases required.within hentered with hentered | ⟨l, hl, hlk⟩
    · rcases asBeenRun_start_iff.1 hentered with rfl | hentered
      · exact hapart j hj _ .refl hk
      · exact hfreshj.not_entered hk hentered
    · exact hapart j hj k (.of_mem hl hlk) hk

end Guardian

end Fix42
