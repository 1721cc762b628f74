import Fix42.Guardian.Proof.TestLoop
import Fix42.Lib.Fallible

/-!
# When every suite is run that should be

In an undisturbed tree every selected suite is run for which all that is required passes (`Loop.meets`).
That a tree is undisturbed shows where all tests pass, where only those pass that a suite requires, and
where all but those of one suite pass (`undisturbed_of_meets`).
-/

namespace Fix42

namespace Guardian

open Dependency

open Fallible (find?_key mapM_getD mem_mapM)

variable {Input : Type} {groups : List (TestGroup Input)} {tree : TestTree groups}
  {config : TestConfiguration} {runTest : Node groups → Outcome Input} {i j x y : Node groups}
  {s : State groups}

/-! ## The constructor -/

theorem findSuite_iff (hnames : (groups.map TestGroup.testSuiteName).Nodup) {name : String} :
    findSuite i name = .ok j ↔ suiteName j = name := by
  have hnodup : ((List.finRange groups.length).map suiteName).Nodup := by
    rw [← List.map_get_finRange groups, List.map_map] at hnames
    exact hnames
  constructor
  · intro h
    rw [findSuite] at h
    split at h
    case h_1 k hk =>
      cases h
      simpa using List.find?_some hk
    case h_2 => cases h
  · rintro rfl
    rw [findSuite, find?_key hnodup (List.mem_finRange j)]

/-- The constructor looks up what each suite requires and selects the first level. -/
theorem new_spec (hnew : TestTree.new groups config = .ok tree) :
    (∀ i, requires config i = .ok (tree.dependOn i)) ∧ tree.firstLevelTest.Nodup ∧
    ∀ i, i ∈ tree.firstLevelTest ↔
      if config.suiteToRun = [] then ∀ j, i ∉ tree.dependOn j else suiteName i ∈ config.suiteToRun := by
  rw [TestTree.new] at hnew
  cases hlists : (List.finRange groups.length).mapM (requires config) with
  | error e =>
    rw [hlists] at hnew
    cases hnew
  | ok lists =>
    rw [hlists] at hnew
    cases hnew
    obtain ⟨hlen, hget⟩ := mapM_getD (d := []) hlists
    have hdependOn : ∀ i : Node groups, requires config i = .ok (lists.getD i []) := by
      intro i
      have hi : (i : Nat) < (List.finRange groups.length).length := by simp
      simpa using hget i hi
    refine ⟨hdependOn, ?_, fun i => ?_⟩
    · rw [TestTree.ofRequires]
      dsimp only
      split <;> exact (List.nodup_finRange _).filter _
    · have hflatten : i ∉ lists.flatten ↔ ∀ j : Node groups, i ∉ lists.getD j [] := by
        rw [List.mem_flatten, not_exists]
        constructor
        · intro h j hj
          have hlt : (j : Nat) < lists.length := by simp [hlen]
          rw [List.getD_eq_getElem _ _ hlt] at hj
          exact h _ ⟨List.getElem_mem hlt, hj⟩
        · rintro h l ⟨hl, hi⟩
          obtain ⟨n, hn, rfl⟩ := List.mem_iff_getElem.1 hl
          refine h ⟨n, by simpa [hlen] using hn⟩ ?_
          rwa [List.getD_eq_getElem _ _ hn]
      rw [TestTree.ofRequires]
      dsimp only
      by_cases hempty : config.suiteToRun = []
      · rw [if_pos (List.length_eq_zero_iff.2 hempty), if_pos hempty, ← hflatten, List.mem_filter,
          decide_eq_true_iff, List.count_eq_zero, and_iff_right (List.mem_finRange i)]
      · rw [if_neg (mt List.length_eq_zero_iff.1 hempty), if_neg hempty, List.mem_filter,
          List.contains_iff_mem, and_iff_right (List.mem_finRange i)]

theorem mem_dependOn (hnew : TestTree.new groups config = .ok tree)
    (hrequired : config.runRequired = true) (hnames : (groups.map TestGroup.testSuiteName).Nodup) :
    j ∈ tree.dependOn i ↔ Requires i j := by
  have hmap := (new_spec hnew).1 i
  rw [requires, if_pos hrequired] at hmap
  rw [mem_mapM hmap, Requires]
  constructor
  · rintro ⟨name, hname, hfind⟩
    exact (findSuite_iff hnames).1 hfind ▸ hname
  · exact fun h => ⟨_, h, (findSuite_iff hnames).2 rfl⟩

/-! ## The outcomes -/

theorem foldl_and {α : Type} (f : α → Bool) (l : List α) (b : Bool) :
    l.foldl (fun result x => result && f x) b = (b && l.all f) := by
  induction l generalizing b with
  | nil => exact (Bool.and_true b).symm
  | cons x l ih => rw [List.foldl_cons, ih, List.all_cons, Bool.and_assoc]

theorem run_iff {runTest : Outcome Input} {g : TestGroup Input} :
    g.run runTest = true ↔ g.Passes runTest := by
  have hmethod : ∀ m : TestMethod Input, m.run runTest = true ↔
      ∀ input ∈ if m.inputs.isEmpty then [none] else m.inputs.map some, runTest m input = true := by
    intro m
    rw [TestMethod.run]
    split
    · simp
    · rw [foldl_and, Bool.true_and, List.all_eq_true]
      simp
  rw [TestGroup.run, foldl_and, Bool.true_and, List.all_eq_true]
  exact forall₂_congr fun m _ => hmethod m

/-- The tests of the suites with a property pass, and no others. -/
theorem run_decide {p : Prop} [Decidable p] {g : TestGroup Input} :
    g.run (fun _ _ => decide p) = true ↔ p ∨ g.testCase = [] := by
  rw [run_iff]
  constructor
  · intro h
    by_cases hg : g.testCase = []
    · exact .inr hg
    · obtain ⟨m, hm⟩ := List.exists_mem_of_ne_nil _ hg
      have hinput : ∃ input, input ∈ if m.inputs.isEmpty then [none] else m.inputs.map some := by
        cases m.inputs with
        | nil => exact ⟨none, List.mem_singleton_self _⟩
        | cons input inputs => exact ⟨some input, List.mem_cons_self⟩
      obtain ⟨input, hmem⟩ := hinput
      exact .inl (of_decide_eq_true (h m hm input hmem))
  · rintro (hp | hg)
    · exact fun _ _ _ _ => decide_eq_true hp
    · rw [TestGroup.Passes, hg]
      exact nofun

/-! ## The whole run -/

section

variable (hnew : TestTree.new groups config = .ok tree) (hrequired : config.runRequired = true)
  (hnames : (groups.map TestGroup.testSuiteName).Nodup)
include hnew hrequired hnames

theorem requires_eq : Requires = fun i j : Node groups => j ∈ tree.dependOn i := by
  funext i j
  exact propext (mem_dependOn hnew hrequired hnames).symm

theorem requiredPass_iff :
    RequiredPass runTest i ↔ ∀ j ∈ tree.dependOn i, AllPass tree (outcomes runTest) j := by
  rw [RequiredPass, requires_eq hnew hrequired hnames]
  constructor
  · exact fun h j hj k hk => run_iff.2 (h k (.head' hj hk))
  · intro h k hk
    obtain ⟨j, hj, hjk⟩ := Relation.TransGen.head'_iff.1 hk
    exact run_iff.1 (h j hj k hjk)

omit hrequired hnames in
theorem selected_of_mem (hi : i ∈ tree.firstLevelTest) : Selected config i := by
  have hfirst := ((new_spec hnew).2.2 i).1 hi
  split at hfirst
  · rename_i hempty
    exact .inl hempty
  · exact .inr hfirst

/-- Whatever the tree is, no suite is run that should not be. -/
theorem Loop.bounded (h : Loop tree (outcomes runTest) tree.firstLevelTest .new s) :
    Bounded config s.ran ∧ ∀ i ∈ s.ran, RequiredPass runTest i := by
  have hsound := (h.sound .new).1
  refine ⟨⟨hsound.once, fun i hi => ?_⟩, fun i hi => ?_⟩
  · rcases h.within (hsound.entered i hi) with hfalse | ⟨r, hr, hri⟩
    · cases hfalse
    · rw [requires_eq hnew hrequired hnames]
      exact ⟨r, selected_of_mem hnew hr, hri⟩
  · exact (requiredPass_iff hnew hrequired hnames).2 (hsound.required i hi)

theorem Loop.meets (hacyclic : Acyclic tree.dependOn) (htree : Undisturbed config tree)
    (h : Loop tree (outcomes runTest) tree.firstLevelTest .new s) : Meets config runTest s.ran := by
  obtain ⟨hbounded, hpass⟩ := h.bounded hnew hrequired hnames
  have hcertain : ∀ i, Certain tree i → AllPass tree (outcomes runTest) i := by
    intro i hi j hj
    rw [run_iff, TestGroup.Passes, hi j hj]
    exact nofun
  have hvisited := h.visited hacyclic htree hcertain rfl .new
  refine ⟨hbounded, fun i hi => ⟨hpass i, fun hrun => ?_⟩⟩
  refine hvisited.run i ?_ ((requiredPass_iff hnew hrequired hnames).1 hrun)
  have hfirst := fun i => (new_spec hnew).2.2 i
  by_cases hempty : config.suiteToRun = []
  · -- the suite is required by one of the first level, and nothing before it may fail
    obtain ⟨r, hr, hri⟩ := hacyclic.exists_top i
    have hsurely : Surely tree r i :=
      Relation.ReflTransGen.mono (fun j k hk => htree.all hempty j k hk) _ _ hri
    have hmem : r ∈ tree.firstLevelTest := by
      rw [hfirst, if_pos hempty]
      exact hr
    exact hvisited.enters r (hvisited.roots r hmem) i (hsurely.enters hcertain)
  · refine hvisited.roots i ((hfirst i).2 ?_)
    rw [if_neg hempty]
    exact hi.resolve_left hempty

section

variable (hmeets : ∀ runTest, ∃ s, tree.run runTest = some s ∧ Meets config runTest s.ran)
include hmeets

omit hnew hrequired hnames in
theorem loop_of_meets (runTest : Node groups → Outcome Input) :
    ∃ s, Loop tree (outcomes runTest) tree.firstLevelTest .new s ∧ Meets config runTest s.ran := by
  obtain ⟨s, hs, h⟩ := hmeets runTest
  obtain ⟨s', hs', hloop⟩ := run_loop tree runTest
  obtain rfl := Option.some.inj (hs.symm.trans hs')
  exact ⟨s, hloop, h⟩

omit hnew hrequired hnames in
/-- All selected suites are run if all tests pass. -/
theorem all_run :
    ∃ s, Sound tree (outcomes fun _ _ _ => true) s ∧ ∀ i, Selected config i → i ∈ s.ran := by
  obtain ⟨s, hloop, h⟩ := loop_of_meets hmeets fun _ _ _ => true
  exact ⟨s, (hloop.sound .new).1, fun i hi => (h.selected i hi).2 fun _ _ _ _ _ _ => rfl⟩

/-- A suite that requires one that was entered first is not run, so it has to be entered before. -/
theorem entered_before (hacyclic : Acyclic tree.dependOn) {before between behind : List (Node groups)}
    (hfirst : tree.firstLevelTest = before ++ x :: (between ++ y :: behind))
    (hyx : Reaches tree.dependOn y x) : ∃ t ∈ before, Surely tree t y := by
  classical
  obtain ⟨u, hu, huran⟩ := all_run hmeets
  have htree : ∀ r ∈ tree.firstLevelTest, Treelike tree.dependOn r := fun r hr =>
    hu.treelike r (huran r (selected_of_mem hnew hr))
  have hxy : x ≠ y := by
    have hnodup := (new_spec hnew).2.1
    rw [hfirst, List.nodup_append] at hnodup
    exact fun h => (List.nodup_cons.1 hnodup.2.1).1 (by simp [h])
  obtain ⟨s, hloop, h⟩ := loop_of_meets hmeets fun i _ _ => decide (Reaches tree.dependOn y i)
  have hrun : y ∈ s.ran := by
    refine (h.selected y (selected_of_mem hnew (by simp [hfirst]))).2 fun j hj => ?_
    rw [requires_eq hnew hrequired hnames] at hj
    exact fun _ _ _ _ => decide_eq_true hj.to_reflTransGen
  rw [hfirst] at hloop
  obtain ⟨s₀, hbefore, hbehind⟩ := hloop.split
  cases hbehind with
  | cons first rest =>
    rename_i s₁ ok
    have hs₀ := (hbefore.sound .new).1
    cases hy : s₀.asBeenRun y with
    | true =>
      obtain ⟨t, ht, hty⟩ := hbefore.entered .new hy rfl
      exact ⟨t, ht, hty.surely (htree t (by simp [hfirst, ht])) fun z hz => run_decide.1 hz⟩
    | false =>
      have hs₁ := (first.adds hs₀).sound
      rcases (rest.sound hs₁).2 y hrun with hmem | hfresh
      · rcases first.within (hs₁.entered y hmem) with hy' | ⟨j, hj, hjy⟩
        · rw [hy] at hy'
          cases hy'
        · rw [List.mem_singleton.1 hj] at hjy
          exact absurd (hacyclic.antisymm hjy hyx) hxy
      · exact absurd first.asBeenRun_self (hfresh.not_entered hyx)

/-- If all suites are selected, what stands before a required suite must not fail. -/
theorem certain_before (hacyclic : Acyclic tree.dependOn) (hempty : config.suiteToRun = [])
    (hj : j ∈ tree.dependOn i) : Past tree.dependOn (Certain tree) i j := by
  classical
  obtain ⟨u, hu, huran⟩ := all_run hmeets
  have hran : ∀ k, k ∈ u.ran := fun k => huran k (.inl hempty)
  obtain ⟨before, behind, hrequires⟩ := List.append_of_mem hj
  refine ⟨before, behind, hrequires, fun y hy w hyw => ?_⟩
  by_contra htest
  obtain ⟨s, hloop, h⟩ := loop_of_meets hmeets fun k _ _ => decide (k ≠ w)
  have hrun : j ∈ s.ran := by
    refine (h.selected j (.inl hempty)).2 fun k hk => ?_
    rw [requires_eq hnew hrequired hnames] at hk
    have hkw : k ≠ w := by
      rintro rfl
      exact (hu.treelike i (hran i)).apart hrequires hy k hyw hk.to_reflTransGen
    exact fun _ _ _ _ => decide_eq_true hkw
  obtain ⟨r, hr, hrj⟩ := hloop.entered .new ((hloop.sound .new).1.entered j hrun) rfl
  rcases Relation.ReflTransGen.cases_tail hrj with rfl | ⟨k, -, hkj⟩
  · have hnot := ((new_spec hnew).2.2 j).1 hr
    rw [if_pos hempty] at hnot
    exact hnot i hj
  · -- there is one suite only that requires `j`
    obtain rfl : i = k := by
      rcases hu.laminar i (hran i) k (hran k) with hik | hki | hapart
      · exact (hu.treelike i (hran i)).eq_of_mem hacyclic hik hj hkj.mem
      · exact ((hu.treelike k (hran k)).eq_of_mem hacyclic hki hkj.mem hj).symm
      · exact absurd (Reaches.of_mem hkj.mem .refl) (hapart j (.single hj))
    obtain ⟨before', behind', hrequires', hbefore'⟩ := hkj
    obtain rfl := (hu.treelike i (hran i)).split_unique hrequires hrequires'
    rcases run_decide.1 (hbefore' y hy w hyw) with hne | hnone
    · exact hne rfl
    · exact htest hnone

theorem undisturbed_of_meets (hacyclic : Acyclic tree.dependOn) : Undisturbed config tree := by
  obtain ⟨u, hu, huran⟩ := all_run hmeets
  have hran : ∀ r ∈ tree.firstLevelTest, r ∈ u.ran := fun r hr => huran r (selected_of_mem hnew hr)
  refine ⟨fun r hr => hu.treelike r (hran r hr), fun before r between y behind hfirst => ?_,
    fun hempty i j hj => certain_before hnew hrequired hnames hmeets hacyclic hempty hj⟩
  rcases hu.laminar r (hran r (by simp [hfirst])) y (hran y (by simp [hfirst])) with hry | hyr | hapart
  · exact .inl hry
  · exact .inr (.inr ⟨hyr, entered_before hnew hrequired hnames hmeets hacyclic hfirst hyr⟩)
  · exact .inr (.inl hapart)

end

end

/-- **What runs**: on every acyclic graph of suites, whatever the outcomes are, no suite is run twice, nor
one that is neither selected nor required, nor one for which something it requires fails. That the others
are run, whatever the outcomes are, is a matter of the tree. -/
theorem test_tree_iff (config : TestConfiguration) (tree : TestTree groups)
    (hnew : TestTree.new groups config = .ok tree) (hrequired : config.runRequired = true)
    (hnames : (groups.map TestGroup.testSuiteName).Nodup)
    (hacyclic : ∀ i : Node groups, ¬ Relation.TransGen Requires i i) :
    (∀ runTest, ∃ s, tree.run runTest = some s ∧ Bounded config s.ran ∧
      ∀ i ∈ s.ran, RequiredPass runTest i) ∧
    ((∀ runTest, ∃ s, tree.run runTest = some s ∧ Meets config runTest s.ran) ↔
      Undisturbed config tree) := by
  rw [requires_eq hnew hrequired hnames] at hacyclic
  have hacyclic := acyclic_of_irrefl hacyclic
  refine ⟨fun runTest => ?_, fun hmeets => ?_, fun htree runTest => ?_⟩
  · obtain ⟨s, hs, hloop⟩ := run_loop tree runTest
    exact ⟨s, hs, hloop.bounded hnew hrequired hnames⟩
  · exact undisturbed_of_meets hnew hrequired hnames hmeets hacyclic
  · obtain ⟨s, hs, hloop⟩ := run_loop tree runTest
    exact ⟨s, hs, hloop.meets hnew hrequired hnames hacyclic htree⟩

/-! ## Two trees -/

theorem irrefl_of_lt (h : ∀ i j : Node groups, Requires i j → i < j) (i : Node groups) :
    ¬ Relation.TransGen Requires i i := by
  have hlt : ∀ j, Relation.TransGen Requires i j → i < j := by
    intro j hj
    induction hj with
    | single hj => exact h i _ hj
    | tail _ hj ih => exact lt_trans ih (h _ _ hj)
  exact fun hi => lt_irrefl i (hlt i hi)

/-- A row of suites is undisturbed. -/
theorem undisturbed_of_le_one (hone : ∀ i, (tree.dependOn i).length ≤ 1)
    (hfirst : tree.firstLevelTest.length ≤ 1) : Undisturbed config tree := by
  refine ⟨fun _ _ i _ => ?_, fun before r between y behind h => ?_, fun _ i j hj => ?_⟩
  · cases hi : tree.dependOn i with
    | nil => exact .nil
    | cons j js =>
      have hlen := hone i
      rw [hi, List.length_cons] at hlen
      rw [List.length_eq_zero_iff.1 (by omega : js.length = 0)]
      exact List.pairwise_singleton _ j
  · simp only [h, List.length_append, List.length_cons] at hfirst
    omega
  · obtain ⟨before, behind, hi⟩ := List.append_of_mem hj
    have hlen := hone i
    rw [hi, List.length_append, List.length_cons] at hlen
    have hnil : before = [] := List.length_eq_zero_iff.1 (by omega)
    exact ⟨before, behind, hi, hnil ▸ nofun⟩

/-- Suites of one test. -/
def suite (name : String) (requires : List String) : TestGroup Unit := ⟨name, requires, [⟨"Valid", []⟩]⟩

/-- Logout, which requires logon, which requires the header. -/
def logoutSuites : List (TestGroup Unit) :=
  [suite "Logout validation" ["Logon validation"], suite "Logon validation" ["Header validation"],
    suite "Header validation" []]

instance : NeZero logoutSuites.length := ⟨by decide⟩

theorem logout_runs : ∃ tree, TestTree.new logoutSuites {} = .ok tree ∧
    ∀ runTest, ∃ s, tree.run runTest = some s ∧ Meets {} runTest s.ran := by
  have hrequires : (List.finRange _).mapM (requires {} : Node logoutSuites → _) =
      .ok [[1], [2], []] := by
    decide +kernel
  have hnew : TestTree.new logoutSuites {} = .ok (.ofRequires {} [[1], [2], []]) := by
    rw [TestTree.new, hrequires]
    rfl
  refine ⟨_, hnew, (test_tree_iff {} _ hnew rfl (by decide +kernel)
    (irrefl_of_lt (by decide +kernel))).2.2 (undisturbed_of_le_one ?_ ?_)⟩
  · decide +kernel
  · decide +kernel

/-- The suites for new orders and cancels: two of those that the first requires require the same. -/
def orderSuites : List (TestGroup Unit) :=
  [suite "NewOrderSingle - Double user - Partial" ["NewOrderSingle - Double user", "Cancel validation"],
    suite "NewOrderSingle - Double user" ["NewOrderSingle - Single user"],
    suite "Cancel validation" ["NewOrderSingle - Single user"],
    suite "NewOrderSingle - Single user" ["NewOrderSingle - Conditional invalid"],
    suite "NewOrderSingle - Conditional invalid" []]

instance : NeZero orderSuites.length := ⟨by decide⟩

/-- All tests pass, but two of the suites are not run. -/
theorem partial_not_run : ∃ tree, TestTree.new orderSuites {} = .ok tree ∧
    (∀ i : Node orderSuites, ¬ Relation.TransGen Requires i i) ∧
    (orderSuites.map TestGroup.testSuiteName).Nodup ∧
    ∃ s, tree.run (fun _ _ _ => true) = some s ∧ s.ran = [4, 3, 1] ∧
      ¬ Meets {} (fun _ _ _ => true) s.ran := by
  have hrequires : (List.finRange _).mapM (requires {} : Node orderSuites → _) =
      .ok [[1, 2], [3], [3], [4], []] := by
    decide +kernel
  have hnew : TestTree.new orderSuites {} = .ok (.ofRequires {} [[1, 2], [3], [3], [4], []]) := by
    rw [TestTree.new, hrequires]
    rfl
  have hran : ((TestTree.ofRequires {} [[1, 2], [3], [3], [4], []] : TestTree orderSuites).run
      fun _ _ _ => true).map State.ran = some [4, 3, 1] := by
    decide +kernel
  obtain ⟨s, hs, hran⟩ := Option.map_eq_some_iff.1 hran
  refine ⟨_, hnew, irrefl_of_lt (by decide +kernel), by decide +kernel, s, hs, hran, fun h => ?_⟩
  have hmem := (h.selected 0 (.inl rfl)).2 fun _ _ _ _ _ _ => rfl
  rw [hran] at hmem
  exact absurd hmem (by decide)

end Guardian

end Fix42
