import Mathlib.Data.List.Basic
import Mathlib.Data.List.Perm.Basic
import Mathlib.Order.Basic
import Mathlib.Order.RelClasses

/-!
# Maps with sorted keys

`SortedMap κ ν lt`: an association list whose keys increase along `lt`, the shape of a
`std::map<κ, ν, lt>`; the field `sorted` carries the order, so iteration is always in key order.
`upsert` is `operator[]` followed by an update of the slot, `adjust` updates an existing slot,
`revalue` puts new values under unchanged keys.

For maps to lists, `flat` lists every element with its key. `flat_upsert` and `flat_adjust` say what
the two updates do to it, `mem_flat_iff` relates it to lookup. `compact` drops the keys with an empty
list; `compact_eq_of_flat` says that `flat` determines what is left.
-/

structure SortedMap (κ ν : Type*) (lt : κ → κ → Prop) where
  entries : List (κ × ν)
  sorted : (entries.map Prod.fst).Pairwise lt

namespace SortedMap

variable {κ ν : Type*} {lt : κ → κ → Prop}

@[ext] theorem ext {m m' : SortedMap κ ν lt} (h : m.entries = m'.entries) : m = m' := by
  cases m; cases m'; cases h; rfl

/-! ## Operations -/

def empty : SortedMap κ ν lt := ⟨[], List.Pairwise.nil⟩

/-- The slot of `k`, created holding `d` if there is none, becomes `f` of what it held. -/
def upsertList (lt : κ → κ → Prop) [DecidableRel lt] (k : κ) (d : ν) (f : ν → ν) :
    List (κ × ν) → List (κ × ν)
  | [] => [(k, f d)]
  | (k', v) :: es =>
    if lt k k' then (k, f d) :: (k', v) :: es
    else if lt k' k then (k', v) :: upsertList lt k d f es
    else (k', f v) :: es

theorem fst_mem_upsertList [DecidableRel lt] {k x : κ} {d : ν} {f : ν → ν} :
    ∀ {es : List (κ × ν)}, x ∈ (upsertList lt k d f es).map Prod.fst →
      x = k ∨ x ∈ es.map Prod.fst
  | [], h => by simpa [upsertList] using h
  | (k', v) :: es, h => by
    unfold upsertList at h
    split at h
    · simpa using h
    · split at h
      · simp only [List.map_cons, List.mem_cons] at h ⊢
        rcases h with rfl | h
        · exact .inr (.inl rfl)
        · exact (fst_mem_upsertList h).imp_right .inr
      · exact .inr (by simpa using h)

theorem sorted_upsertList [DecidableRel lt] [IsTrans κ lt] {k : κ} {d : ν} {f : ν → ν} :
    ∀ {es : List (κ × ν)}, (es.map Prod.fst).Pairwise lt →
      ((upsertList lt k d f es).map Prod.fst).Pairwise lt
  | [], _ => by simp [upsertList]
  | (k', v) :: es, h => by
    rw [List.map_cons, List.pairwise_cons] at h
    unfold upsertList
    split
    · rename_i hlt
      simp only [List.map_cons, List.pairwise_cons, List.mem_cons]
      refine ⟨fun x hx => ?_, h⟩
      rcases hx with rfl | hx
      · exact hlt
      · exact IsTrans.trans _ _ _ hlt (h.1 x hx)
    · split
      · rename_i hlt
        simp only [List.map_cons, List.pairwise_cons]
        refine ⟨fun x hx => ?_, sorted_upsertList h.2⟩
        rcases fst_mem_upsertList hx with rfl | hx
        · exact hlt
        · exact h.1 x hx
      · simpa using h

/-- A key before all others goes to the front. -/
theorem upsertList_head [DecidableRel lt] {k : κ} {d : ν} {f : ν → ν} {es : List (κ × ν)}
    (h : ∀ x ∈ es.map Prod.fst, lt k x) : upsertList lt k d f es = (k, f d) :: es := by
  cases es with
  | nil => rfl
  | cons e es => exact if_pos (h e.1 (by simp))

def upsert [DecidableRel lt] [IsTrans κ lt] (m : SortedMap κ ν lt) (k : κ) (d : ν) (f : ν → ν) :
    SortedMap κ ν lt := ⟨upsertList lt k d f m.entries, sorted_upsertList m.sorted⟩

/-- New values under the same keys. -/
def revalue (m : SortedMap κ ν lt) (es : List (κ × ν))
    (h : es.map Prod.fst = m.entries.map Prod.fst) : SortedMap κ ν lt := ⟨es, h ▸ m.sorted⟩

section
variable [DecidableEq κ]

def get? (m : SortedMap κ ν lt) (k : κ) : Option ν :=
  (m.entries.find? fun e => e.1 = k).map Prod.snd

def adjustList (k : κ) (f : ν → ν) (es : List (κ × ν)) : List (κ × ν) :=
  es.map fun e => if e.1 = k then (e.1, f e.2) else e

theorem fst_adjustList (k : κ) (f : ν → ν) (es : List (κ × ν)) :
    (adjustList k f es).map Prod.fst = es.map Prod.fst := by
  rw [adjustList, List.map_map]
  refine List.map_congr_left fun e _ => ?_
  simp only [Function.comp_apply]
  split <;> rfl

def adjust (m : SortedMap κ ν lt) (k : κ) (f : ν → ν) : SortedMap κ ν lt :=
  m.revalue (adjustList k f m.entries) (fst_adjustList k f m.entries)

end

/-! ## Maps to lists -/

section
variable {β : Type*}

/-- Every element with its key, in key order and then in list order. -/
def flat (es : List (κ × List β)) : List (κ × β) := es.flatMap fun e => e.2.map (Prod.mk e.1)

@[simp] theorem flat_nil : flat ([] : List (κ × List β)) = [] := rfl

@[simp] theorem flat_cons (k : κ) (l : List β) (es : List (κ × List β)) :
    flat ((k, l) :: es) = l.map (Prod.mk k) ++ flat es := rfl

theorem mem_flat {es : List (κ × List β)} {k : κ} {b : β} :
    (k, b) ∈ flat es ↔ ∃ l, (k, l) ∈ es ∧ b ∈ l := by
  simp only [flat, List.mem_flatMap, List.mem_map, Prod.mk.injEq]
  constructor
  · rintro ⟨⟨k', l⟩, hm, b', hb, rfl, rfl⟩
    exact ⟨l, hm, hb⟩
  · rintro ⟨l, hm, hb⟩
    exact ⟨(k, l), hm, b, hb, rfl, rfl⟩

/-- Appending at the tail of the list of `k` adds one element. -/
theorem flat_upsert [DecidableRel lt] (htri : ∀ a b : κ, ¬ lt a b → ¬ lt b a → a = b) {k : κ}
    {b : β} : ∀ {es : List (κ × List β)},
      (flat (upsertList lt k [] (· ++ [b]) es)).Perm ((k, b) :: flat es)
  | [] => by simp [upsertList]
  | (k', l) :: es => by
    unfold upsertList
    split
    · simp
    · split
      · rw [flat_cons, flat_cons]
        exact ((flat_upsert htri).append_left _).trans List.perm_middle
      · rename_i h1 h2
        rw [htri k k' h1 h2, flat_cons, flat_cons, List.map_append, List.append_assoc]
        exact List.perm_middle

/-- Filtering the list of `k` filters the pairs of key `k`. -/
theorem flat_adjust [DecidableEq κ] (k : κ) (p : β → Bool) :
    ∀ es : List (κ × List β),
      flat (adjustList k (List.filter p) es) = (flat es).filter fun x => x.1 ≠ k || p x.2
  | [] => rfl
  | (k', l) :: es => by
    have ih := flat_adjust k p es
    simp only [adjustList] at ih
    rw [adjustList, List.map_cons]
    split
    · rename_i hk
      cases hk
      rw [flat_cons, flat_cons, List.filter_append, ih, List.filter_map]
      simp [Function.comp_def]
    · rename_i hk
      rw [flat_cons, flat_cons, List.filter_append, ih, List.filter_map]
      simp [Function.comp_def, show ¬ k' = k from hk]

theorem get?_eq_some [DecidableEq κ] [Std.Irrefl lt] {m : SortedMap κ ν lt} {k : κ} {v : ν} :
    m.get? k = some v ↔ (k, v) ∈ m.entries := by
  obtain ⟨es, hs⟩ := m
  simp only [get?]
  induction es with
  | nil => simp
  | cons e es ih =>
    rw [List.map_cons, List.pairwise_cons] at hs
    obtain ⟨k', v'⟩ := e
    rw [List.find?_cons]
    by_cases hk : k' = k
    · cases hk
      have hno : (k, v) ∉ es := fun h =>
        Std.Irrefl.irrefl k (hs.1 k (List.mem_map.2 ⟨_, h, rfl⟩))
      simp [hno, eq_comm]
    · simp only [hk, decide_false]
      rw [ih hs.2]
      simp [Ne.symm hk]

/-- The elements listed with `k` are those of its slot. -/
theorem mem_flat_iff [DecidableEq κ] [Std.Irrefl lt] {m : SortedMap κ (List β) lt} {k : κ} {b : β} :
    (k, b) ∈ flat m.entries ↔ ∃ l, m.get? k = some l ∧ b ∈ l := by
  simp only [get?_eq_some, mem_flat]

/-! ## Empty lists -/

/-- The keys that have an element, with their lists. -/
def compact : List (κ × List β) → List (κ × List β)
  | [] => []
  | (_, []) :: es => compact es
  | (k, b :: l) :: es => (k, b :: l) :: compact es

theorem flat_compact : ∀ es : List (κ × List β), flat (compact es) = flat es
  | [] => rfl
  | (_, []) :: es => flat_compact es
  | (k, b :: l) :: es => by rw [compact, flat_cons, flat_cons, flat_compact es]

theorem compact_sublist : ∀ es : List (κ × List β), (compact es).Sublist es
  | [] => .slnil
  | (_, []) :: es => (compact_sublist es).cons _
  | (_, _ :: _) :: es => (compact_sublist es).cons_cons _

theorem compact_map {γ : Type*} (f : β → γ) : ∀ es : List (κ × List β),
    compact (es.map fun e => (e.1, e.2.map f)) = (compact es).map fun e => (e.1, e.2.map f)
  | [] => rfl
  | (_, []) :: es => compact_map f es
  | (k, b :: l) :: es => by
    have ih := compact_map f es
    simp only [List.map_cons, compact, ih]

theorem flat_map {γ : Type*} (f : β → γ) (es : List (κ × List β)) :
    flat (es.map fun e => (e.1, e.2.map f)) = (flat es).map fun x => (x.1, f x.2) := by
  simp [flat, List.flatMap_map, List.map_flatMap, Function.comp_def]

theorem lt_of_mem_flat {es : List (κ × List β)} {k : κ} (h : ∀ x ∈ es.map Prod.fst, lt k x)
    {x : κ × β} (hx : x ∈ flat es) : lt k x.1 := by
  obtain ⟨l, hl, -⟩ := mem_flat.1 hx
  exact h _ (List.mem_map.2 ⟨_, hl, rfl⟩)

/-- Appending at the tail of the list of `k` goes behind every element with a key up to `k`. -/
theorem flat_upsert_eq [DecidableRel lt] [IsTrans κ lt] [Std.Irrefl lt]
    (htri : ∀ a b : κ, ¬ lt a b → ¬ lt b a → a = b) {k : κ} {b : β} {es : List (κ × List β)}
    (hs : (es.map Prod.fst).Pairwise lt) : flat (upsertList lt k [] (· ++ [b]) es) =
      ((flat es).takeWhile fun x => ¬ lt k x.1) ++ (k, b) :: (flat es).dropWhile fun x => ¬ lt k x.1 := by
  have hpass : ∀ (k' : κ) (l : List β), ¬ lt k k' →
      ∀ x ∈ l.map (Prod.mk k'), decide (¬ lt k x.1) = true := by
    intro k' l hn x hx
    obtain ⟨y, -, rfl⟩ := List.mem_map.1 hx
    simpa using hn
  have hstop : ∀ {l : List (κ × β)}, (∀ x ∈ l, lt k x.1) →
      (l.takeWhile fun x => ¬ lt k x.1) = [] ∧ (l.dropWhile fun x => ¬ lt k x.1) = l := by
    intro l hl
    cases l with
    | nil => exact ⟨rfl, rfl⟩
    | cons x l =>
      have hx := hl x List.mem_cons_self
      simp [hx]
  induction es with
  | nil => rfl
  | cons e es ih =>
    obtain ⟨k', l⟩ := e
    rw [List.map_cons, List.pairwise_cons] at hs
    rw [upsertList]
    split
    · rename_i hlt
      have hall : ∀ x ∈ flat ((k', l) :: es), lt k x.1 := by
        have hkeys : ∀ x ∈ ((k', l) :: es).map Prod.fst, lt k x := by
          intro x hx
          rcases List.mem_cons.1 hx with rfl | hx
          · exact hlt
          · exact IsTrans.trans _ _ _ hlt (hs.1 x hx)
        exact fun x hx => lt_of_mem_flat hkeys hx
      rw [(hstop hall).1, (hstop hall).2]
      rfl
    · rename_i hnlt
      rw [flat_cons, List.takeWhile_append_of_pos (hpass k' l hnlt),
        List.dropWhile_append_of_pos (hpass k' l hnlt)]
      split
      · rw [flat_cons, ih hs.2, List.append_assoc]
      · rename_i hngt
        cases htri _ _ hnlt hngt
        have hall : ∀ x ∈ flat es, lt k x.1 := fun x hx => lt_of_mem_flat hs.1 hx
        rw [(hstop hall).1, (hstop hall).2, flat_cons]
        simp

/-- The elements with their keys determine the non-empty lists. -/
theorem compact_eq_of_flat [Std.Irrefl lt] {es es' : List (κ × List β)}
    (hs : (es.map Prod.fst).Pairwise lt) (hs' : (es'.map Prod.fst).Pairwise lt)
    (h : flat es = flat es') : compact es = compact es' := by
  classical
  -- one level at a time; an empty one on either side is passed over
  induction es generalizing es' with
  | nil =>
    induction es' with
    | nil => rfl
    | cons e es' ih' =>
      obtain ⟨k', _ | ⟨b', l'⟩⟩ := e
      · exact ih' (List.pairwise_cons.1 hs').2 h
      · cases h
  | cons e es ih =>
    rw [List.map_cons, List.pairwise_cons] at hs
    obtain ⟨k, _ | ⟨b, l⟩⟩ := e
    · exact ih hs.2 hs' h
    · induction es' with
      | nil => cases h
      | cons e' es' ih' =>
        rw [List.map_cons, List.pairwise_cons] at hs'
        obtain ⟨k', _ | ⟨b', l'⟩⟩ := e'
        · exact ih' hs'.2 h
        · rw [flat_cons, flat_cons, List.map_cons, List.map_cons, List.cons_append, List.cons_append,
            List.cons.injEq] at h
          obtain ⟨hhead, htail⟩ := h
          cases hhead
          have hkeep : ∀ (l : List β), (l.map (Prod.mk k)).filter (fun x => x.1 = k) =
              l.map (Prod.mk k) := fun l => List.filter_eq_self.2 (by simp)
          have hdrop : ∀ {es : List (κ × List β)}, (∀ x ∈ es.map Prod.fst, lt k x) →
              (flat es).filter (fun x => x.1 = k) = [] := by
            intro es hlt
            refine List.filter_eq_nil_iff.2 fun x hx => ?_
            have hne : x.1 ≠ k := fun he =>
              Std.Irrefl.irrefl (r := lt) k (by simpa [he] using lt_of_mem_flat hlt hx)
            simpa using hne
          have hl := congrArg (List.filter fun x : κ × β => x.1 = k) htail
          rw [List.filter_append, List.filter_append, hkeep, hkeep, hdrop hs.1, hdrop hs'.1,
            List.append_nil, List.append_nil] at hl
          have hl' : l = l' := List.map_injective_iff.2 (fun _ _ he => (Prod.mk.inj he).2) hl
          subst hl'
          rw [compact, compact, ih hs.2 hs'.2 (List.append_cancel_left htail)]

end

end SortedMap
