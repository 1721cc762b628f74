import Mathlib.Logic.Relation
import Mathlib.Order.WellFounded
import Mathlib.Data.Fintype.Card
import Mathlib.Data.List.Basic
import Mathlib.Data.List.Pairwise
import Mathlib.Tactic.ByContra

/-!
# Dependencies

`next x` is what `x` depends on, in order. `Apart x y` says that nothing is below both, `Treelike x` that
nothing is below `x` twice, and `Past` that one gets to a dependency past others of a kind.

Below something treelike there is one way to everything: `Treelike.on_path`.
-/

namespace Dependency

variable {α : Type*}

/-- What is below an element, which is below itself. -/
abbrev Reaches (next : α → List α) : α → α → Prop := Relation.ReflTransGen fun x y => y ∈ next x

def Acyclic (next : α → List α) : Prop := ∀ x y, y ∈ next x → ¬ Reaches next y x

def Apart (next : α → List α) (x y : α) : Prop := ∀ z, Reaches next x z → ¬ Reaches next y z

/-- No two dependencies of something below lead to the same. -/
def Treelike (next : α → List α) (x : α) : Prop :=
  ∀ y, Reaches next x y → (next y).Pairwise (Apart next)

/-- A dependency behind such with a property. -/
def Past (next : α → List α) (p : α → Prop) (x y : α) : Prop :=
  ∃ before behind, next x = before ++ y :: behind ∧ ∀ z ∈ before, p z

/-- The dependencies of a path are in a set. -/
def Path (next : α → List α) (v : α → Prop) : α → α → Prop :=
  Relation.ReflTransGen fun x y => y ∈ next x ∧ v y

variable {next : α → List α} {p q v w : α → Prop} {x y z : α}

theorem Reaches.of_mem (h : y ∈ next x) (hz : Reaches next y z) : Reaches next x z :=
  Relation.ReflTransGen.head h hz

theorem Reaches.cases (h : Reaches next x z) : z = x ∨ ∃ y ∈ next x, Reaches next y z := by
  rcases Relation.ReflTransGen.cases_head h with h | ⟨y, hy, h⟩
  · exact .inl h.symm
  · exact .inr ⟨y, hy, h⟩

theorem Acyclic.antisymm (h : Acyclic next) (hxy : Reaches next x y) (hyx : Reaches next y x) : x = y := by
  rcases Reaches.cases hxy with rfl | ⟨z, hz, hzy⟩
  · rfl
  · exact absurd (hzy.trans hyx) (h x z hz)

theorem acyclic_of_irrefl (h : ∀ x, ¬ Relation.TransGen (fun x y => y ∈ next x) x x) : Acyclic next :=
  fun x _ hy hyx => h x (.head' hy hyx)

/-- What is below something is below something that nothing depends on. -/
theorem Acyclic.exists_top [Finite α] (h : Acyclic next) (x : α) :
    ∃ r, (∀ y, r ∉ next y) ∧ Reaches next r x := by
  have hirrefl : ∀ x, ¬ Relation.TransGen (fun x y => y ∈ next x) x x := by
    intro x hx
    obtain ⟨y, hy, hyx⟩ := Relation.TransGen.head'_iff.1 hx
    exact h x y hy hyx
  have : Std.Irrefl (Relation.TransGen fun x y => y ∈ next x) := ⟨hirrefl⟩
  have hwf := Finite.wellFounded_of_trans_of_irrefl (Relation.TransGen fun x y => y ∈ next x)
  obtain ⟨r, hr, hmin⟩ := hwf.has_min {r | Reaches next r x} ⟨x, .refl⟩
  exact ⟨r, fun y hy => hmin y (.of_mem hy hr) (.single hy), hr⟩

theorem Apart.symm (h : Apart next x y) : Apart next y x := fun z hy hx => h z hx hy

instance : Std.Symm (Apart next) := ⟨fun _ _ => Apart.symm⟩

theorem Treelike.below (h : Treelike next x) (hy : Reaches next x y) : Treelike next y :=
  fun z hz => h z (hy.trans hz)

/-- Something is treelike if its dependencies are, and are apart. -/
theorem Treelike.of_next (h : (next x).Pairwise (Apart next)) (hnext : ∀ y ∈ next x, Treelike next y) :
    Treelike next x := by
  intro z hz
  rcases hz.cases with rfl | ⟨y, hy, hyz⟩
  · exact h
  · exact hnext y hy z hyz

theorem Treelike.apart (h : Treelike next x) {before behind : List α}
    (hnext : next x = before ++ y :: behind) (hz : z ∈ before) : Apart next z y := by
  have hpair := h x .refl
  rw [hnext, List.pairwise_append] at hpair
  exact hpair.2.2 z hz y List.mem_cons_self

theorem Treelike.unique (h : Treelike next x) (hy : y ∈ next x) (hz : z ∈ next x)
    {a : α} (hya : Reaches next y a) (hza : Reaches next z a) : y = z := by
  by_contra hne
  exact (h x .refl).forall hy hz hne a hya hza

/-- Below something treelike a dependency is one of one thing only. -/
theorem Treelike.eq_of_mem (h : Treelike next x) (hacyclic : Acyclic next) (hxz : Reaches next x z)
    (hy : y ∈ next x) (hy' : y ∈ next z) : x = z := by
  rcases hxz.cases with rfl | ⟨w, hw, hwz⟩
  · rfl
  · obtain rfl := h.unique hw hy (hwz.trans (.single hy')) .refl
    exact absurd hwz (hacyclic z w hy')

/-- A dependency stands at one place only. -/
theorem Treelike.split_unique (h : Treelike next x) {before behind before' behind' : List α}
    (hnext : next x = before ++ y :: behind) (hnext' : next x = before' ++ y :: behind') :
    before = before' := by
  have hnot : y ∉ before := fun hy => h.apart hnext hy y .refl .refl
  have hnot' : y ∉ behind := by
    have hpair := h x .refl
    rw [hnext, List.pairwise_append, List.pairwise_cons] at hpair
    exact fun hy => hpair.2.1.1 y hy y .refl .refl
  exact ((List.append_cons_inj_of_notMem hnot hnot').1 (hnext ▸ hnext')).1

theorem Past.mem (h : Past next p x y) : y ∈ next x := by
  obtain ⟨before, behind, hnext, -⟩ := h
  rw [hnext]
  exact List.mem_append_right _ List.mem_cons_self

theorem Past.reaches (h : Relation.ReflTransGen (Past next p) x y) : Reaches next x y :=
  Relation.ReflTransGen.mono (fun _ _ hab => hab.mem) _ _ h

theorem Path.mono (hvw : ∀ x, v x → w x) (h : Path next v x y) : Path next w x y :=
  Relation.ReflTransGen.mono (fun _ _ hab => ⟨hab.1, hvw _ hab.2⟩) _ _ h

theorem Path.reaches (h : Path next v x y) : Reaches next x y :=
  Relation.ReflTransGen.mono (fun _ _ hab => hab.1) _ _ h

/-- What is between two elements is on the path from one to the other. -/
theorem Treelike.on_path (hacyclic : Acyclic next) (htree : Treelike next x) (hx : v x)
    (hpath : Path next v x z) (hxy : Reaches next x y) (hyz : Reaches next y z) : v y := by
  induction hpath using Relation.ReflTransGen.head_induction_on with
  | refl => exact hacyclic.antisymm hxy hyz ▸ hx
  | head hstep hpath ih =>
    rename_i a b
    obtain ⟨hb, hvb⟩ := hstep
    rcases hxy.cases with rfl | ⟨c, hc, hcy⟩
    · exact hx
    · obtain rfl := htree.unique hb hc (Path.reaches hpath) (hcy.trans hyz)
      exact ih (htree.below (.single hb)) hvb hcy

end Dependency
