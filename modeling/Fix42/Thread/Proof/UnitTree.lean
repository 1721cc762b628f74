import Mathlib.Algebra.BigOperators.Group.Finset.Piecewise
import Mathlib.Algebra.Order.Group.Multiset
import Fix42.Thread.Proof.ProcessUnit
import Fix42.Thread.UnitTree

/-!
# Messages on their way through the units

`Inv` holds of every reachable tree. By it a unit gets messages of the unit before it in their order, each
at most once (`pushed_sublist`); and every message that entered is at exactly one unit (`entered_eq`).
-/

namespace Fix42

namespace ProcessUnit

variable {μ : Type*} {u u' : ProcessUnit μ} {a : Act μ}

/-- What a step that is no push does to the messages of a unit. -/
inductive Moves (u u' : ProcessUnit μ) (a : Act μ) : Prop
  /-- the message in hand is done with -/
  | ends (m : μ) (throws : Bool) (act : a = .run throws) (pc : u.pc = .input m) (hand : u'.hand = [])
    (handled : u'.handled = u.handled ++ [m]) (queue : u'.queue = u.queue)
    (pushed : u'.pushed = u.pushed)
  | goes (not_ends : ∀ throws m, a = .run throws → u.pc ≠ .input m)
    (content : u'.hand ++ u'.queue = u.hand ++ u.queue) (handled : u'.handled = u.handled)
    (pushed : u'.pushed = u.pushed) (keeps : ∀ m, u.pc = .input m → u'.pc = u.pc)

theorem hand_of_input {m : μ} (h : u.pc = .input m) : u.hand = [m] := by
  unfold hand
  rw [h]

theorem Goes.moves {throws : Bool} (h : Goes u throws u') : Moves u u' (.run throws) := by
  cases h with
  | done m pc => exact .ends m false rfl pc rfl rfl rfl rfl
  | thrown m pc => exact .ends m true rfl pc rfl rfl rfl rfl
  | take m rest pc queue =>
    refine .goes ?_ ?_ rfl rfl ?_
    · intro t m' _ hpc
      cases pc.symm.trans hpc
    · simp [hand, pc, queue]
    · intro m' hpc
      cases pc.symm.trans hpc
  | leave pc | sleep pc | wake pc | empty pc | more pc | kept pc | broken pc =>
    refine .goes ?_ ?_ rfl rfl ?_
    · intro t m' _ hpc
      cases pc.symm.trans hpc
    · simp [hand, pc]
    · intro m' hpc
      cases pc.symm.trans hpc

theorem Frame.moves (hf : Frame u u') (hpushed : u'.pushed = u.pushed)
    (ha : ∀ throws, a ≠ .run throws) : Moves u u' a := by
  refine .goes (fun t m hrun _ => ha t hrun) ?_ hf.handled hpushed (fun m _ => hf.pc)
  rw [hf.queue, hand, hand, hf.pc]

theorem step_moves (h : Inv u) (ha : ∀ m, a ≠ .push m) (hs : u.step a = some u') : Moves u u' a := by
  have h' := h.step hs
  cases a with
  | push m => exact absurd rfl (ha m)
  | start =>
    simp only [step] at hs
    split at hs
    · rename_i pc
      cases hs
      refine .goes ?_ ?_ rfl rfl ?_
      · intro t m hrun
        cases hrun
      · simp [hand, pc]
      · intro m hpc
        cases pc.symm.trans hpc
    · cases hs
  | run throws => exact (run_sound hs).moves
  | status =>
    cases hs
    refine u.status_frame.moves ?_ fun t hrun => ?_
    · rcases u.status_cases with he | ⟨he, -⟩ <;> rw [he]
    · cases hrun
  | stop =>
    have hf := stopStep_frame hs
    refine hf.moves ?_ fun t hrun => ?_
    · rw [h'.pushed, h.pushed, hf.handled, hf.queue, hand, hand, hf.pc]
    · cases hrun

end ProcessUnit

namespace UnitTree

variable {ν μ : Type*} [DecidableEq ν] {r : Routes ν μ} {s s' : UnitTree ν μ} {x y : ν} {m : μ}

/-- The message in hand if it was passed on. -/
def sentHand (s : UnitTree ν μ) (x : ν) : List μ := if s.sent x then (s.units x).hand else []

structure Inv (r : Routes ν μ) (s : UnitTree ν μ) : Prop where
  unit : ∀ x, (s.units x).Inv
  input : ∀ x y, r.source y = some x →
    (s.units y).pushed = (s.passed x).filter fun m => r.next x m = some y
  passed : ∀ x, (s.passed x).Sublist ((s.units x).handled ++ s.sentHand x)
  sent : ∀ x, s.sent x = true → ∃ m, (s.units x).pc = .input m

theorem Inv.new : Inv r (UnitTree.new : UnitTree ν μ) where
  unit _ := .new
  input _ _ _ := rfl
  passed _ := .slnil
  sent _ h := by cases h

/-! ## Steps -/

/-- What a step does. -/
inductive Steps (r : Routes ν μ) (s s' : UnitTree ν μ) : Prop
  | enter (x : ν) (m : μ) (root : r.source x = none)
    (eq : s' = { s.push x m with entered := s.entered ++ [m] })
  | pass (x y : ν) (m : μ) (pc : (s.units x).pc = .input m) (unsent : s.sent x = false)
    (next : r.next x m = some y)
    (eq : s' = { s.push y m with
      sent := Function.update s.sent x true
      passed := Function.update s.passed x (s.passed x ++ [m]) })
  | ends (x : ν) (m : μ) (throws : Bool) (u : ProcessUnit μ) (pc : (s.units x).pc = .input m)
    (unit : (s.units x).step (.run throws) = some u)
    (eq : s' = { s.setUnit x u with
      sent := Function.update s.sent x false
      kept := if s.sent x then s.kept else Function.update s.kept x (s.kept x ++ [m]) })
  | goes (x : ν) (a : ProcessUnit.Act μ) (u : ProcessUnit μ) (no_push : ∀ m, a ≠ .push m)
    (not_ends : ∀ throws m, a = .run throws → (s.units x).pc ≠ .input m)
    (unit : (s.units x).step a = some u) (eq : s' = s.setUnit x u)

theorem step_sound {a : Act ν μ} (hs : s.step r a = some s') : Steps r s s' := by
  cases a with
  | enter x m =>
    simp only [step] at hs
    split at hs
    · rename_i root
      cases hs
      exact .enter x m root rfl
    · cases hs
  | pass x =>
    simp only [step] at hs
    split at hs
    · rename_i m pc
      split at hs
      · rename_i y unsent next
        cases hs
        exact .pass x y m pc unsent next rfl
      · cases hs
    · cases hs
  | unit x a =>
    cases a with
    | push m =>
      simp only [step] at hs
      cases hs
    | start =>
      obtain ⟨u, hu, rfl⟩ := Option.map_eq_some_iff.1 hs
      exact .goes x .start u nofun nofun hu rfl
    | run throws =>
      obtain ⟨u, hu, rfl⟩ := Option.map_eq_some_iff.1 hs
      by_cases hin : ∃ m, (s.units x).pc = .input m
      · obtain ⟨m, pc⟩ := hin
        exact .ends x m throws u pc hu (by simp only [goOn, pc])
      · have hne : ∀ m, (s.units x).pc ≠ .input m := fun m pc => hin ⟨m, pc⟩
        refine .goes x (.run throws) u nofun (fun _ m _ => hne m) hu ?_
        unfold goOn
        split
        · rename_i m _ pc
          exact absurd pc (hne m)
        · rfl
    | status =>
      have hgo : ((s.units x).step .status).map (s.goOn x .status) = some s' := hs
      obtain ⟨u, hu, rfl⟩ := Option.map_eq_some_iff.1 hgo
      exact .goes x .status u nofun nofun hu rfl
    | stop =>
      obtain ⟨u, hu, rfl⟩ := Option.map_eq_some_iff.1 hs
      exact .goes x .stop u nofun nofun hu rfl

theorem units_setUnit_of_ne {u : ProcessUnit μ} (h : y ≠ x) : (s.setUnit x u).units y = s.units y := by
  unfold setUnit
  exact Function.update_of_ne h _ _

theorem units_setUnit {u : ProcessUnit μ} : (s.setUnit x u).units x = u := by
  unfold setUnit
  exact Function.update_self ..

/-- A push to one unit changes no thread. -/
theorem push_frame (s : UnitTree ν μ) (x : ν) (m : μ) (y : ν) :
    ((s.push x m).units y).pc = (s.units y).pc ∧
    ((s.push x m).units y).hand = (s.units y).hand ∧
    ((s.push x m).units y).handled = (s.units y).handled := by
  by_cases h : y = x
  · subst h
    rw [push, units_setUnit]
    exact ⟨rfl, rfl, rfl⟩
  · rw [push, units_setUnit_of_ne h]
    exact ⟨rfl, rfl, rfl⟩

theorem Inv.push_unit (h : Inv r s) (x : ν) (m : μ) (y : ν) : ((s.push x m).units y).Inv := by
  by_cases hy : y = x
  · subst hy
    rw [push, units_setUnit]
    exact (h.unit y).push m
  · rw [push, units_setUnit_of_ne hy]
    exact h.unit y

theorem Inv.enter (h : Inv r s) (root : r.source x = none) :
    Inv r { s.push x m with entered := s.entered ++ [m] } where
  unit y := h.push_unit x m y
  input z y hz := by
    have hne : y ≠ x := by
      rintro rfl
      cases root.symm.trans hz
    show ((s.push x m).units y).pushed = _
    rw [push, units_setUnit_of_ne hne]
    exact h.input z y hz
  passed y := by
    obtain ⟨-, hhand, hhandled⟩ := push_frame s x m y
    have hp := h.passed y
    unfold sentHand at hp ⊢
    rw [← hhand, ← hhandled] at hp
    exact hp
  sent y hy := by
    obtain ⟨m', hpc⟩ := h.sent y hy
    exact ⟨m', (push_frame s x m y).1.trans hpc⟩

theorem Inv.pass (h : Inv r s) (pc : (s.units x).pc = .input m) (unsent : s.sent x = false)
    (next : r.next x m = some y) :
    Inv r { s.push y m with
      sent := Function.update s.sent x true
      passed := Function.update s.passed x (s.passed x ++ [m]) } where
  unit z := h.push_unit y m z
  input x' y' hsource := by
    show ((s.push y m).units y').pushed = (Function.update s.passed x (s.passed x ++ [m]) x').filter _
    by_cases hx : x' = x
    · subst hx
      rw [Function.update_self, List.filter_append]
      by_cases hy : y' = y
      · subst hy
        rw [push, units_setUnit, ← h.input x' y' hsource]
        simp [ProcessUnit.push, next]
      · have hne : r.next x' m ≠ some y' := by
          intro he
          exact hy (Option.some.inj (he.symm.trans next))
        rw [push, units_setUnit_of_ne hy, h.input x' y' hsource]
        simp [hne]
    · have hne : y' ≠ y := by
        rintro rfl
        exact hx (Option.some.inj (hsource.symm.trans (r.tree x m y' next)))
      rw [Function.update_of_ne hx, push, units_setUnit_of_ne hne]
      exact h.input x' y' hsource
  passed z := by
    obtain ⟨-, hhand, hhandled⟩ := push_frame s y m z
    have hp := h.passed z
    by_cases hz : z = x
    · subst hz
      simp only [sentHand, unsent, Bool.false_eq_true, if_false, List.append_nil] at hp
      simp only [sentHand, Function.update_self, if_true]
      rw [hhand, hhandled, ProcessUnit.hand_of_input pc]
      exact hp.append_right [m]
    · simp only [sentHand] at hp ⊢
      rw [Function.update_of_ne hz, Function.update_of_ne hz, hhand, hhandled]
      exact hp
  sent z hz := by
    have hpc := (push_frame s y m z).1
    by_cases hzx : z = x
    · subst hzx
      exact ⟨m, hpc.trans pc⟩
    · have hsent : Function.update s.sent x true z = true := hz
      rw [Function.update_of_ne hzx] at hsent
      obtain ⟨m', hm⟩ := h.sent z hsent
      exact ⟨m', hpc.trans hm⟩

/-- A unit goes on without a push, and what it has done covers what it has passed on. -/
theorem Inv.goOn (h : Inv r s) (sent : ν → Bool) (kept : ν → List μ) {u : ProcessUnit μ} (unit : u.Inv)
    (pushed : u.pushed = (s.units x).pushed)
    (other : ∀ y, y ≠ x → sent y = s.sent y)
    (passed : (s.passed x).Sublist (u.handled ++ if sent x then u.hand else []))
    (input : sent x = true → ∃ m, u.pc = .input m) : Inv r { s.setUnit x u with sent, kept } where
  unit y := by
    by_cases hy : y = x
    · subst hy
      rw [units_setUnit]
      exact unit
    · rw [units_setUnit_of_ne hy]
      exact h.unit y
  input z y hsource := by
    by_cases hy : y = x
    · subst hy
      rw [units_setUnit, pushed]
      exact h.input z y hsource
    · rw [units_setUnit_of_ne hy]
      exact h.input z y hsource
  passed y := by
    by_cases hy : y = x
    · subst hy
      simp only [sentHand]
      rw [units_setUnit]
      exact passed
    · have hp := h.passed y
      simp only [sentHand] at hp ⊢
      rw [units_setUnit_of_ne hy, other y hy]
      exact hp
  sent y hy := by
    by_cases hyx : y = x
    · subst hyx
      rw [units_setUnit]
      exact input hy
    · rw [units_setUnit_of_ne hyx]
      exact h.sent y ((other y hyx).symm.trans hy)

theorem Inv.step (h : Inv r s) {a : Act ν μ} (hs : s.step r a = some s') : Inv r s' := by
  cases step_sound hs with
  | enter x m root eq =>
    subst eq
    exact h.enter root
  | pass x y m pc unsent next eq =>
    subst eq
    exact h.pass pc unsent next
  | ends x m throws u pc unit eq =>
    subst eq
    have hp := h.passed x
    have hno : ∀ m' : μ, (.run throws : ProcessUnit.Act μ) ≠ .push m' := nofun
    cases ProcessUnit.step_moves (h.unit x) hno unit with
    | goes not_ends => exact absurd pc (not_ends throws m rfl)
    | ends m' t act pc' hand handled queue pushed =>
      cases pc.symm.trans pc'
      refine h.goOn _ _ ((h.unit x).step unit) pushed (fun y hy => Function.update_of_ne hy _ _) ?_ ?_
      · rw [Function.update_self, handled]
        simp only [Bool.false_eq_true, if_false, List.append_nil]
        simp only [sentHand] at hp
        split at hp
        · rw [ProcessUnit.hand_of_input pc] at hp
          exact hp
        · rw [List.append_nil] at hp
          exact hp.trans (List.sublist_append_left _ _)
      · rw [Function.update_self]
        exact nofun
  | goes x a u no_push not_ends unit eq =>
    subst eq
    have hp := h.passed x
    cases ProcessUnit.step_moves (h.unit x) no_push unit with
    | ends m t act pc => exact absurd pc (not_ends t m act)
    | goes _ content handled pushed keeps =>
      refine h.goOn s.sent s.kept ((h.unit x).step unit) pushed (fun _ _ => rfl) ?_ ?_
      · rw [handled]
        simp only [sentHand] at hp
        split
        · rename_i hsent
          obtain ⟨m, pc⟩ := h.sent x hsent
          rw [if_pos hsent, ProcessUnit.hand_of_input pc] at hp
          rw [ProcessUnit.hand_of_input ((keeps m pc).trans pc)]
          exact hp
        · rename_i hsent
          rw [if_neg hsent] at hp
          exact hp
      · intro hsent
        obtain ⟨m, pc⟩ := h.sent x hsent
        exact ⟨m, (keeps m pc).trans pc⟩

abbrev Reachable (r : Routes ν μ) (s : UnitTree ν μ) : Prop := Trans.Reach (step r) new s

theorem inv_of_reachable (h : Reachable r s) : Inv r s :=
  Trans.Run.invariant h .new fun _ _ _ hi _ hs => hi.step hs

/-! ## Order -/

/-- A unit has got messages of the unit before it, in their order. -/
theorem Inv.pushed_sublist (h : Inv r s) (hsource : r.source y = some x) :
    (s.units y).pushed.Sublist (s.units x).pushed := by
  have hsent : (s.sentHand x).Sublist ((s.units x).hand ++ (s.units x).queue) := by
    unfold sentHand
    split
    · exact List.sublist_append_left _ _
    · exact List.nil_sublist _
  rw [h.input x y hsource, (h.unit x).pushed, List.append_assoc]
  exact List.filter_sublist.trans ((h.passed x).trans (hsent.append_left _))

/-- And so of every unit before that. -/
theorem Inv.pushed_sublist_of_before (h : Inv r s)
    (hb : Relation.ReflTransGen (fun y x => r.source y = some x) y x) :
    (s.units y).pushed.Sublist (s.units x).pushed := by
  induction hb with
  | refl => exact List.Sublist.refl _
  | tail _ hsource ih => exact ih.trans (h.pushed_sublist hsource)

/-- A unit has got only messages that are meant for it. -/
theorem Inv.meant (h : Inv r s) (hsource : r.source y = some x) (hm : m ∈ (s.units y).pushed) :
    r.next x m = some y := by
  rw [h.input x y hsource] at hm
  simpa using (List.mem_filter.1 hm).2

/-! ## Conservation -/

section

variable [Fintype ν]

/-- The messages that are somewhere. -/
def all (s : UnitTree ν μ) : Multiset μ := ∑ x, (s.here x : Multiset μ)

omit [DecidableEq ν] in
theorem all_congr (h : ∀ x, s'.here x = s.here x) : s'.all = s.all :=
  Finset.sum_congr rfl fun x _ => by rw [h x]

/-- One unit has one message more. -/
theorem all_add (x : ν) (h : ∀ y, (s'.here y : Multiset μ) = s.here y + if y = x then {m} else 0) :
    s'.all = s.all + {m} := by
  calc s'.all = ∑ y, ((s.here y : Multiset μ) + if y = x then {m} else 0) :=
        Finset.sum_congr rfl fun y _ => h y
    _ = s.all + {m} := by
        rw [Finset.sum_add_distrib, Finset.sum_ite_eq', if_pos (Finset.mem_univ x)]
        rfl

theorem all_push (s : UnitTree ν μ) (x : ν) (m : μ) : (s.push x m).all = s.all + {m} := by
  refine all_add x fun y => ?_
  by_cases hy : y = x
  · subst hy
    rw [if_pos rfl, here, push, units_setUnit]
    show (↑(s.kept y ++ (if s.sent y then [] else (s.units y).hand) ++ ((s.units y).queue ++ [m])) :
      Multiset μ) = _
    rw [← List.append_assoc, ← Multiset.coe_add]
    rfl
  · rw [if_neg hy, here, push, units_setUnit_of_ne hy, Multiset.add_zero]
    rfl

theorem all_step (h : Inv r s) (hall : (s.entered : Multiset μ) = s.all) {a : Act ν μ}
    (hs : s.step r a = some s') : (s'.entered : Multiset μ) = s'.all := by
  cases step_sound hs with
  | enter x m root eq =>
    subst eq
    show (↑(s.entered ++ [m]) : Multiset μ) = (s.push x m).all
    rw [all_push, ← hall, ← Multiset.coe_add]
    rfl
  | pass x y m pc unsent next eq =>
    subst eq
    let s1 : UnitTree ν μ := { s with
      sent := Function.update s.sent x true
      passed := Function.update s.passed x (s.passed x ++ [m]) }
    have hmark : s.all = s1.all + {m} := by
      refine all_add x fun z => ?_
      by_cases hz : z = x
      · subst hz
        rw [if_pos rfl]
        simp only [here, s1, unsent, Function.update_self, ProcessUnit.hand_of_input pc, if_true,
          Bool.false_eq_true, if_false]
        rw [← Multiset.coe_singleton, Multiset.coe_add, Multiset.coe_eq_coe, List.append_nil,
          List.append_assoc, List.append_assoc]
        exact List.perm_append_comm.append_left _
      · rw [if_neg hz, Multiset.add_zero]
        simp only [here, s1, Function.update_of_ne hz]
    show (s.entered : Multiset μ) = (s1.push y m).all
    rw [all_push, ← hmark, hall]
  | ends x m throws u pc unit eq =>
    subst eq
    show (s.entered : Multiset μ) = _
    rw [hall]
    refine (all_congr fun y => ?_).symm
    have hno : ∀ m' : μ, (.run throws : ProcessUnit.Act μ) ≠ .push m' := nofun
    cases ProcessUnit.step_moves (h.unit x) hno unit with
    | goes not_ends => exact absurd pc (not_ends throws m rfl)
    | ends m' t act pc' hand handled queue pushed =>
      by_cases hy : y = x
      · subst hy
        simp only [here]
        rw [units_setUnit, Function.update_self, hand, queue, ProcessUnit.hand_of_input pc]
        cases hsent : s.sent y <;> simp
      · simp only [here]
        rw [units_setUnit_of_ne hy, Function.update_of_ne hy]
        cases hsent : s.sent x <;> simp [Function.update_of_ne hy]
  | goes x a u no_push not_ends unit eq =>
    subst eq
    show (s.entered : Multiset μ) = _
    rw [hall]
    refine (all_congr fun y => ?_).symm
    cases ProcessUnit.step_moves (h.unit x) no_push unit with
    | ends m t act pc => exact absurd pc (not_ends t m act)
    | goes _ content handled pushed keeps =>
      by_cases hy : y = x
      · subst hy
        simp only [here]
        rw [units_setUnit]
        show s.kept y ++ (if s.sent y then [] else u.hand) ++ u.queue = _
        cases hsent : s.sent y with
        | false => simp only [Bool.false_eq_true, if_false, List.append_assoc, content]
        | true =>
          obtain ⟨m, pc⟩ := h.sent y hsent
          rw [ProcessUnit.hand_of_input pc, ProcessUnit.hand_of_input ((keeps m pc).trans pc)] at content
          rw [List.append_cancel_left content]
          simp only [if_true]
      · simp only [here]
        rw [units_setUnit_of_ne hy]
        rfl

/-- **Conservation**: every message that entered is at one unit, as often as it entered. -/
theorem entered_eq (h : Reachable r s) : (s.entered : Multiset μ) = s.all := by
  refine Trans.Run.invariant_with (I := fun s => (s.entered : Multiset μ) = s.all) (J := Inv r) h ?_
    (fun _ hr => inv_of_reachable hr) fun _ _ _ hall hinv _ hs => all_step hinv hall hs
  exact (Finset.sum_eq_zero fun _ _ => rfl).symm

end

/-! ## One way in -/

/-- Where messages enter at one unit only, it was given all that entered. -/
theorem root_pushed {root : ν} (hroot : ∀ x, r.source x = none ↔ x = root) (h : Reachable r s) :
    (s.units root).pushed = s.entered := by
  refine Trans.Run.invariant_with (I := fun s => (s.units root).pushed = s.entered) (J := Inv r) h rfl
    (fun _ hr => inv_of_reachable hr) fun s _ s' hin hinv _ hs => ?_
  have keep : ∀ x u, u.pushed = (s.units x).pushed →
      ((s.setUnit x u).units root).pushed = s.entered := by
    intro x u hpushed
    by_cases hx : root = x
    · subst hx
      rw [units_setUnit, hpushed]
      exact hin
    · rw [units_setUnit_of_ne hx]
      exact hin
  cases step_sound hs with
  | enter x m hx eq =>
    subst eq
    obtain rfl := (hroot x).1 hx
    show ((s.push x m).units x).pushed = s.entered ++ [m]
    rw [push, units_setUnit, ← hin]
    rfl
  | pass x y m pc unsent next eq =>
    subst eq
    have hne : root ≠ y := by
      rintro rfl
      cases ((hroot root).2 rfl).symm.trans (r.tree x m root next)
    show ((s.push y m).units root).pushed = s.entered
    rw [push, units_setUnit_of_ne hne]
    exact hin
  | ends x m throws u pc unit eq =>
    subst eq
    have hno : ∀ m' : μ, (.run throws : ProcessUnit.Act μ) ≠ .push m' := nofun
    apply keep x u
    cases ProcessUnit.step_moves (hinv.unit x) hno unit <;> assumption
  | goes x a u no_push not_ends unit eq =>
    subst eq
    apply keep x u
    cases ProcessUnit.step_moves (hinv.unit x) no_push unit <;> assumption

end UnitTree

/-! ## The server -/

namespace ServerStage

variable {n : Nat} {markets : Fin n → String} {s : UnitTree (ServerStage n) ServerInput}

theorem source_eq_none (x : ServerStage n) : source x = none ↔ x = .headerValidation := by
  cases x <;> simp [source]

/-- Every unit comes after the header validation. -/
theorem before (x : ServerStage n) :
    Relation.ReflTransGen (fun y x => (Server.routes markets).source y = some x) x .headerValidation := by
  have hrouter : Relation.ReflTransGen (fun y x => (Server.routes markets).source y = some x)
      router headerValidation := .single rfl
  have hmarket : Relation.ReflTransGen (fun y x => (Server.routes markets).source y = some x)
      marketRouter headerValidation := .head rfl hrouter
  cases x with
  | headerValidation => exact .refl
  | router => exact hrouter
  | logon | logout | heartbeat => exact .head rfl hrouter
  | marketRouter => exact hmarket
  | newOrder i | cancel i => exact .head rfl hmarket

theorem redirect_newOrder {m : ServerInput} {i : Fin n} (h : redirect markets m = some (.newOrder i)) :
    m.msgType = 'D' ∧ m.symbol = markets i := by
  unfold redirect at h
  split at h
  · rename_i htype
    obtain ⟨j, hj, he⟩ := Option.map_eq_some_iff.1 h
    cases he
    exact ⟨htype, (by simpa using List.find?_some hj : markets i = m.symbol).symm⟩
  · obtain ⟨j, -, he⟩ := Option.map_eq_some_iff.1 h
    cases he
  · cases h

theorem redirect_cancel {m : ServerInput} {i : Fin n} (h : redirect markets m = some (.cancel i)) :
    m.msgType = 'F' ∧ m.symbol = markets i := by
  unfold redirect at h
  split at h
  · obtain ⟨j, -, he⟩ := Option.map_eq_some_iff.1 h
    cases he
  · rename_i htype
    obtain ⟨j, hj, he⟩ := Option.map_eq_some_iff.1 h
    cases he
    exact ⟨htype, (by simpa using List.find?_some hj : markets i = m.symbol).symm⟩
  · cases h

/-- **The server's way of a message**: in every interleaving of its units, each unit gets messages in the
order in which they were received, each at most once; the two units of a market get orders, and cancel
requests, for its symbol only; and every message received is at exactly one unit, where it waits, is in
hand, or ended, as often as it was received. -/
theorem server_pipeline (h : UnitTree.Reachable (Server.routes markets) s) :
    (∀ x, (s.units x).pushed.Sublist s.entered) ∧
    (∀ i, ∀ m ∈ (s.units (.newOrder i)).pushed, m.msgType = 'D' ∧ m.symbol = markets i) ∧
    (∀ i, ∀ m ∈ (s.units (.cancel i)).pushed, m.msgType = 'F' ∧ m.symbol = markets i) ∧
    (s.entered : Multiset ServerInput) = ∑ x, (s.here x : Multiset ServerInput) := by
  have hinv := UnitTree.inv_of_reachable h
  refine ⟨?_, ?_, ?_, UnitTree.entered_eq h⟩
  · intro x
    rw [← UnitTree.root_pushed source_eq_none h]
    exact hinv.pushed_sublist_of_before (before x)
  · intro i m hm
    have hnext : (Server.routes markets).next .marketRouter m = some (.newOrder i) := hinv.meant rfl hm
    exact redirect_newOrder hnext
  · intro i m hm
    have hnext : (Server.routes markets).next .marketRouter m = some (.cancel i) := hinv.meant rfl hm
    exact redirect_cancel hnext

/-- An order on its way to the market, and a message of an unknown type that ends at the router. -/
def twoMessages : List (UnitTree.Act (ServerStage 1) ServerInput) :=
  let takes (x : ServerStage 1) : List (UnitTree.Act (ServerStage 1) ServerInput) :=
    [.unit x .start] ++ List.replicate 4 (.unit x (.run false))
  let next (x : ServerStage 1) : List (UnitTree.Act (ServerStage 1) ServerInput) :=
    List.replicate 3 (.unit x (.run false))
  [.enter .headerValidation ⟨1, 'D', "EURUSD"⟩, .enter .headerValidation ⟨2, '8', ""⟩] ++
    takes .headerValidation ++ [.pass .headerValidation] ++ next .headerValidation ++
    [.pass .headerValidation] ++ takes .router ++ [.pass .router] ++ takes .marketRouter ++
    [.pass .marketRouter] ++ next .router ++ [.unit .router (.run false)]

theorem server_pipeline_run : ∃ s : UnitTree (ServerStage 1) ServerInput,
    Trans.exec (UnitTree.step (Server.routes fun _ => "EURUSD")) (fun _ _ => True) UnitTree.new
      twoMessages = some s ∧
    s.here (.newOrder 0) = [⟨1, 'D', "EURUSD"⟩] ∧ s.here .router = [⟨2, '8', ""⟩] ∧
    (s.entered : Multiset ServerInput) = ∑ x, (s.here x : Multiset ServerInput) := by
  have hrun : Trans.exec (UnitTree.step (Server.routes fun _ => "EURUSD")) (fun _ _ => True)
      UnitTree.new twoMessages = some _ := rfl
  exact ⟨_, hrun, rfl, rfl, (server_pipeline (Trans.Run.of_exec .start hrun)).2.2.2⟩

end ServerStage

end Fix42
