import Fix42.Guardian.Proof.TestNode

/-!
# The nodes of the first level

The run comes to an end and is a `Loop` over the first level (`run_loop`). In an undisturbed tree what the
next of the first level requires has not been entered before it (`Visited.fresh`), so what is entered and
was to be run has been run (`Loop.visited`).
-/

namespace Fix42

namespace Guardian

open Dependency

variable {Input : Type} {groups : List (TestGroup Input)} {tree : TestTree groups}
  {runTest : Node groups → Outcome Input} {pass : Node groups → Bool} {i j x y z : Node groups}
  {is js : List (Node groups)} {s s' t : State groups} {ok : Bool}

/-! ## The first level -/

/-- The nodes of the first level entered one after the other, also behind one that fails. -/
inductive Loop (tree : TestTree groups) (pass : Node groups → Bool) :
    List (Node groups) → State groups → State groups → Prop
  | nil {s : State groups} : Loop tree pass [] s s
  | cons {i : Node groups} {is : List (Node groups)} {s t s' : State groups} {ok : Bool}
    (first : Runs tree pass [i] s t ok) (rest : Loop tree pass is t s') : Loop tree pass (i :: is) s s'

theorem Loop.split (h : Loop tree pass (is ++ js) s s') :
    ∃ t, Loop tree pass is s t ∧ Loop tree pass js t s' := by
  induction is generalizing s with
  | nil => exact ⟨s, .nil, h⟩
  | cons i is ih =>
    rw [List.cons_append] at h
    cases h with
    | cons first rest =>
      obtain ⟨t, his, hjs⟩ := ih rest
      exact ⟨t, .cons first his, hjs⟩

theorem Loop.grows (h : Loop tree pass is s s') (hi : s.asBeenRun i = true) : s'.asBeenRun i = true := by
  induction h with
  | nil => exact hi
  | cons first _ ih => exact ih (first.grows hi)

theorem Loop.within (h : Loop tree pass is s s') (hi : s'.asBeenRun i = true) :
    s.asBeenRun i = true ∨ ∃ j ∈ is, Reaches tree.dependOn j i := by
  induction h with
  | nil => exact .inl hi
  | cons first _ ih =>
    rcases ih hi with hi | ⟨j, hj, hji⟩
    · rcases first.within hi with hi | ⟨j, hj, hji⟩
      · exact .inl hi
      · exact .inr ⟨j, List.mem_singleton.1 hj ▸ List.mem_cons_self, hji⟩
    · exact .inr ⟨j, List.mem_cons_of_mem _ hj, hji⟩

theorem Loop.sound (h : Loop tree pass is s s') (hs : Sound tree pass s) :
    Sound tree pass s' ∧ ∀ i ∈ s'.ran, i ∈ s.ran ∨ Fresh tree s i := by
  induction h with
  | nil => exact ⟨hs, fun i hi => .inl hi⟩
  | cons first _ ih =>
    have hadds := first.adds hs
    obtain ⟨hsound, hfresh⟩ := ih hadds.sound
    refine ⟨hsound, fun i hi => ?_⟩
    rcases hfresh i hi with hi | hi
    · exact hadds.fresh i hi
    · exact .inr (hi.of_grows fun j hj => first.grows hj)

theorem Loop.entered (h : Loop tree pass is s s') (hs : Sound tree pass s)
    (hx : s'.asBeenRun x = true) (hnew : s.asBeenRun x = false) :
    ∃ i ∈ is, Enters tree pass i x := by
  induction h with
  | nil =>
    rw [hnew] at hx
    cases hx
  | cons first rest ih =>
    rename_i i is s t s' ok
    cases ht : t.asBeenRun x with
    | true =>
      obtain ⟨before, y, behind, hi, -, hyx⟩ := first.entered hs ht hnew
      have hyi : y ∈ [i] := hi ▸ List.mem_append_right before List.mem_cons_self
      exact ⟨i, List.mem_cons_self, List.mem_singleton.1 hyi ▸ hyx⟩
    | false =>
      obtain ⟨j, hj, hjx⟩ := ih (first.adds hs).sound hx ht
      exact ⟨j, List.mem_cons_of_mem i hj, hjx⟩

/-! ## The run comes to an end -/

/-- How many nodes have not been run. -/
def State.left (s : State groups) : Nat :=
  (Finset.univ.filter fun i => s.asBeenRun i = false).card

theorem left_mono (h : ∀ i, s.asBeenRun i = true → t.asBeenRun i = true) : t.left ≤ s.left := by
  refine Finset.card_le_card fun i hi => ?_
  rw [Finset.mem_filter] at hi ⊢
  refine ⟨hi.1, Bool.eq_false_iff.2 fun hs => ?_⟩
  rw [h i hs] at hi
  cases hi.2

theorem left_start (h : s.asBeenRun i = false) : (s.start i).left < s.left := by
  refine Finset.card_lt_card (Finset.ssubset_iff_of_subset (fun j hj => ?_) |>.2 ⟨i, ?_, ?_⟩)
  · rw [Finset.mem_filter] at hj ⊢
    refine ⟨hj.1, Bool.eq_false_iff.2 fun hs => ?_⟩
    rw [asBeenRun_start_iff.2 (.inr hs)] at hj
    cases hj.2
  · simpa using h
  · simp

theorem runRequired_total {run : Node groups → State groups → Option (State groups × Bool)} {n : Nat}
    (hrun : ∀ i s, s.left < n → ∃ r, run i s = some r ∧ r.1.left ≤ s.left) (h : s.left < n) :
    ∃ r, runRequired run is s = some r := by
  induction is generalizing s with
  | nil => exact ⟨_, rfl⟩
  | cons i is ih =>
    obtain ⟨⟨t, ok⟩, ht, hle⟩ := hrun i s h
    obtain ⟨r, hr⟩ := ih (Nat.lt_of_le_of_lt hle h)
    cases ok with
    | true => exact ⟨r, by rw [runRequired, ht]; exact hr⟩
    | false => exact ⟨(t, false), by rw [runRequired, ht]; rfl⟩

theorem runNode_total {fuel : Nat} (h : s.left < fuel) :
    ∃ r, tree.runNode runTest fuel i s = some r ∧ r.1.left ≤ s.left := by
  suffices hsome : ∃ r, tree.runNode runTest fuel i s = some r by
    obtain ⟨r, hr⟩ := hsome
    exact ⟨r, hr, left_mono fun j hj => (runNode_runs hr).grows hj⟩
  induction fuel generalizing i s with
  | zero => exact absurd h (Nat.not_lt_zero _)
  | succ fuel ih =>
    rw [TestTree.runNode]
    split
    case isTrue => exact ⟨_, rfl⟩
    case isFalse hfresh =>
      have hlt := left_start (Bool.not_eq_true _ ▸ hfresh : s.asBeenRun i = false)
      have hrun : ∀ (j : Node groups) (u : State groups), u.left < fuel →
          ∃ r, tree.runNode runTest fuel j u = some r ∧ r.1.left ≤ u.left := by
        intro j u hu
        obtain ⟨r, hr⟩ := @ih j u hu
        exact ⟨r, hr, left_mono fun k hk => (runNode_runs hr).grows hk⟩
      obtain ⟨r, hr⟩ : ∃ r, runRequired (tree.runNode runTest fuel) (tree.dependOn i) (s.start i) =
          some r := runRequired_total hrun (by omega)
      rw [hr]
      exact ⟨_, rfl⟩

theorem left_le (s : State groups) : s.left ≤ groups.length := by
  have hcard := Finset.card_le_univ (Finset.univ.filter fun i => s.asBeenRun i = false)
  rwa [Fintype.card_fin] at hcard

theorem run_loop (tree : TestTree groups) (runTest : Node groups → Outcome Input) :
    ∃ s, tree.run runTest = some s ∧
      Loop tree (outcomes runTest) tree.firstLevelTest .new s := by
  suffices hloop : ∀ is (s : State groups), ∃ s',
      is.foldlM (fun s i => (tree.runNode runTest (groups.length + 1) i s).map Prod.fst) s = some s' ∧
      Loop tree (outcomes runTest) is s s' from hloop _ _
  intro is
  induction is with
  | nil => exact fun s => ⟨s, rfl, .nil⟩
  | cons i is ih =>
    intro s
    obtain ⟨r, hr, -⟩ : ∃ r, tree.runNode runTest (groups.length + 1) i s = some r ∧
        r.1.left ≤ s.left := runNode_total (Nat.lt_succ_of_le (left_le s))
    obtain ⟨s', hs', hloop⟩ := ih r.1
    refine ⟨s', ?_, .cons (runNode_runs hr) hloop⟩
    rw [List.foldlM_cons, hr]
    exact hs'

/-! ## An undisturbed tree -/

theorem Surely.enters (hcertain : ∀ i, Certain tree i → AllPass tree pass i) (h : Surely tree x y) :
    Enters tree pass x y := by
  refine Relation.ReflTransGen.mono (fun a b hab => ?_) _ _ h
  obtain ⟨before, behind, hrequired, hbefore⟩ := hab
  exact ⟨before, behind, hrequired, fun z hz => hcertain z (hbefore z hz)⟩

/-- The nodes that have been run after some of the first level: what was to be run of them was. -/
structure Visited (tree : TestTree groups) (pass : Node groups → Bool) (before : List (Node groups))
    (s : State groups) : Prop where
  roots : ∀ r ∈ before, s.asBeenRun r = true
  path : ∀ x, s.asBeenRun x = true →
    ∃ r ∈ before, Path tree.dependOn (fun y => s.asBeenRun y = true) r x
  enters : ∀ x, s.asBeenRun x = true → ∀ y, Enters tree pass x y → s.asBeenRun y = true
  run : ∀ x, s.asBeenRun x = true → (∀ y ∈ tree.dependOn x, AllPass tree pass y) → x ∈ s.ran

theorem Visited.new : Visited tree pass [] .new := ⟨nofun, nofun, nofun, nofun⟩

variable {config : TestConfiguration}

/-- What the next of the first level requires has not been entered, or it has been itself. -/
theorem Visited.fresh (hacyclic : Acyclic tree.dependOn) (htree : Undisturbed config tree)
    (hcertain : ∀ i, Certain tree i → AllPass tree pass i) {before behind : List (Node groups)}
    (hfirst : tree.firstLevelTest = before ++ i :: behind) (h : Visited tree pass before s)
    (hi : s.asBeenRun i = false) : Fresh tree s i := by
  intro j hij
  refine Bool.eq_false_iff.2 fun hj => ?_
  obtain ⟨r, hr, hpath⟩ := h.path j hj
  obtain ⟨front, between, rfl⟩ := List.append_of_mem hr
  rw [List.append_assoc, List.cons_append] at hfirst
  have hrtree : Treelike tree.dependOn r := htree.treelike r (by simp [hfirst])
  rcases htree.order front r between i behind hfirst with hri | hapart | ⟨-, t, ht, hti⟩
  · have hentered := hrtree.on_path hacyclic (h.roots r hr) hpath hri hij
    rw [hi] at hentered
    cases hentered
  · exact hapart j hpath.reaches hij
  · have hentered := h.enters t (h.roots t (List.mem_append_left _ ht)) i (hti.enters hcertain)
    rw [hi] at hentered
    cases hentered

theorem Visited.step (hacyclic : Acyclic tree.dependOn) (htree : Undisturbed config tree)
    (hcertain : ∀ i, Certain tree i → AllPass tree pass i) {before behind : List (Node groups)}
    (hfirst : tree.firstLevelTest = before ++ i :: behind) (h : Visited tree pass before s)
    (hruns : Runs tree pass [i] s s' ok) : Visited tree pass (before ++ [i]) s' := by
  cases hi : s.asBeenRun i with
  | true =>
    have hsame : s' = s := by
      cases hruns with
      | again => rfl
      | failed fresh => simp [hi] at fresh
      | refused fresh => simp [hi] at fresh
      | passed fresh => simp [hi] at fresh
    subst hsame
    refine ⟨fun r hr => ?_, fun x hx => ?_, h.enters, h.run⟩
    · rcases List.mem_append.1 hr with hr | hr
      · exact h.roots r hr
      · exact List.mem_singleton.1 hr ▸ hi
    · obtain ⟨r, hr, hpath⟩ := h.path x hx
      exact ⟨r, List.mem_append_left _ hr, hpath⟩
  | false =>
    have hwalked : Walked tree pass [i] s s' ok :=
      hruns.walked hacyclic (List.pairwise_singleton _ i) fun j hj => by
        rw [List.mem_singleton.1 hj]
        exact ⟨htree.treelike i (by simp [hfirst]), h.fresh hacyclic htree hcertain hfirst hi⟩
    refine ⟨fun r hr => ?_, fun x hx => ?_, fun x hx y hxy => ?_, fun x hx hpass => ?_⟩
    · rcases List.mem_append.1 hr with hr | hr
      · exact hruns.grows (h.roots r hr)
      · exact List.mem_singleton.1 hr ▸ hruns.asBeenRun_self
    · cases hold : s.asBeenRun x with
      | true =>
        obtain ⟨r, hr, hpath⟩ := h.path x hold
        exact ⟨r, List.mem_append_left _ hr, hpath.mono fun y hy => hruns.grows hy⟩
      | false =>
        obtain ⟨j, hj, -, hpath⟩ := hwalked.path x hx hold
        exact ⟨j, List.mem_append_right _ hj, hpath⟩
    · cases hold : s.asBeenRun x with
      | true => exact hruns.grows (h.enters x hold y hxy)
      | false => exact hwalked.enters x hx hold y hxy
    · cases hold : s.asBeenRun x with
      | true => exact hruns.ran_subset (h.run x hold hpass)
      | false => exact hwalked.run x hx hold hpass

theorem Loop.visited (hacyclic : Acyclic tree.dependOn) (htree : Undisturbed config tree)
    (hcertain : ∀ i, Certain tree i → AllPass tree pass i) {before : List (Node groups)}
    (hfirst : tree.firstLevelTest = before ++ is) (h : Visited tree pass before s)
    (hloop : Loop tree pass is s s') : Visited tree pass tree.firstLevelTest s' := by
  induction hloop generalizing before with
  | nil => rwa [hfirst, List.append_nil]
  | cons first _ ih =>
    refine ih ?_ (h.step hacyclic htree hcertain hfirst first)
    rw [hfirst, List.append_assoc, List.singleton_append]

/-! ## A tree without disturbance is undisturbed -/

/-- What is entered from a treelike node, where only that passes which is below `y`, is surely entered
if it leads to `y`. -/
theorem Enters.surely (htree : Treelike tree.dependOn x) (h : Enters tree pass x y)
    (hpass : ∀ z, pass z = true → Reaches tree.dependOn y z ∨ (groups.get z).testCase = []) :
    Surely tree x y := by
  induction h using Relation.ReflTransGen.head_induction_on with
  | refl => exact .refl
  | head hstep hpath ih =>
    rename_i a b
    have hb := hstep.mem
    obtain ⟨before, behind, hrequired, hbefore⟩ := hstep
    refine .head ⟨before, behind, hrequired, fun z hz w hzw => ?_⟩ (ih (htree.below (.single hb)))
    refine (hpass w (hbefore z hz w hzw)).resolve_left fun hyw => ?_
    exact htree.apart hrequired hz w hzw ((Past.reaches hpath).trans hyw)

end Guardian

end Fix42
