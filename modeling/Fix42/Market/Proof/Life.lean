import Mathlib.Algebra.Order.Field.Basic
import Fix42.Book.Proof.Reports
import Fix42.Market.Reports

/-!
# The life of an order

`Life c fills snaps cancels`: the resting orders `c` with what has been told of them, in the order it
was told: fills, snapshots of a resting order, cancels. Fills add up, a resting order is at least as
far as anything told of it, and a cancelled order is not at rest again. `Life.add`, `Life.cancel` and
`Life.snap` are what the book's operations do to it.
-/

namespace Fix42

variable {α : Type*} [Field α] [LinearOrder α]

/-- The later of two fills of one order finds something left, and is not behind. -/
def Follows (a b : Mark α) : Prop := a.about = b.about → 0 < a.leavesQty ∧ a.cumQty ≤ b.cumQty

structure Life (c : List (α × Node α)) (fills snaps cancels : List (Mark α)) : Prop where
  positive : ∀ x ∈ c, 0 < x.2.order.remainQty
  nodup : (submissions c).Nodup
  chain : fills.Pairwise Follows
  nonneg : (∀ x ∈ c, 0 ≤ x.2.order.cumQty) ∧ ∀ a ∈ fills ++ snaps ++ cancels, 0 ≤ a.cumQty
  resting : ∀ x ∈ c, ∀ a ∈ fills ++ snaps, Follows a x.2.order.mark
  gone : ∀ k ∈ cancels, k.about ∉ submissions c
  canceled : ∀ k ∈ cancels, ∀ a ∈ fills ++ snaps, Follows a k
  once : (cancels.map Mark.about).Nodup

/-- The submissions something is known of. -/
def touched (c : List (α × Node α)) (fills snaps cancels : List (Mark α)) : List ExecId :=
  submissions c ++ (fills ++ snaps ++ cancels).map Mark.about

namespace Life

variable {c c' : List (α × Node α)} {fills fills' snaps snaps' cancels : List (Mark α)}

theorem empty : Life ([] : List (α × Node α)) [] [] [] := by
  refine ⟨?_, List.nodup_nil, .nil, ⟨?_, ?_⟩, ?_, ?_, ?_, List.nodup_nil⟩ <;> simp

theorem perm (h : Life c fills snaps cancels) (hp : c.Perm c') : Life c' fills snaps cancels where
  positive x hx := h.positive x (hp.mem_iff.2 hx)
  nodup := (hp.map _).nodup_iff.1 h.nodup
  chain := h.chain
  nonneg := ⟨fun x hx => h.nonneg.1 x (hp.mem_iff.2 hx), h.nonneg.2⟩
  resting x hx := h.resting x (hp.mem_iff.2 hx)
  gone k hk hm := h.gone k hk ((hp.map _).mem_iff.2 hm)
  canceled := h.canceled
  once := h.once

/-- What is forgotten is no matter. -/
theorem sublist (h : Life c fills snaps cancels) (hf : fills'.Sublist fills) (hs : snaps' ⊆ snaps) :
    Life c fills' snaps' cancels := by
  have hsub : fills' ++ snaps' ⊆ fills ++ snaps := fun a ha => by
    rcases List.mem_append.1 ha with ha | ha
    · exact List.mem_append_left _ (hf.subset ha)
    · exact List.mem_append_right _ (hs ha)
  refine { h with
    chain := h.chain.sublist hf
    nonneg := ⟨h.nonneg.1, fun a ha => h.nonneg.2 a ?_⟩
    resting := fun x hx a ha => h.resting x hx a (hsub ha)
    canceled := fun k hk a ha => h.canceled k hk a (hsub ha) }
  rcases List.mem_append.1 ha with ha | ha
  · exact List.mem_append_left _ (hsub ha)
  · exact List.mem_append_right _ ha

/-- A snapshot of a resting order. -/
theorem snap (h : Life c fills snaps cancels) {x : α × Node α} (hx : x ∈ c) :
    Life c fills (snaps ++ [x.2.order.mark]) cancels := by
  have hmem : ∀ a ∈ fills ++ (snaps ++ [x.2.order.mark]), a ∈ fills ++ snaps ∨ a = x.2.order.mark :=
    fun a ha => by
      rw [← List.append_assoc] at ha
      exact (List.mem_append.1 ha).imp_right List.mem_singleton.1
  refine { h with nonneg := ⟨h.nonneg.1, fun a ha => ?_⟩, resting := ?_, canceled := ?_ }
  · rcases List.mem_append.1 ha with ha | ha
    · rcases hmem a ha with ha | rfl
      · exact h.nonneg.2 a (List.mem_append_left _ ha)
      · exact h.nonneg.1 x hx
    · exact h.nonneg.2 a (List.mem_append_right _ ha)
  · intro y hy a ha
    rcases hmem a ha with ha | rfl
    · exact h.resting y hy a ha
    · intro he
      obtain rfl : x = y := List.inj_on_of_nodup_map h.nodup hx hy he
      exact ⟨h.positive x hx, le_refl _⟩
  · intro k hk a ha
    rcases hmem a ha with ha | rfl
    · exact h.canceled k hk a ha
    · exact fun he => absurd (List.mem_map.2 ⟨x, hx, he⟩) (h.gone k hk)

/-- A cancel takes an order from the resting ones. -/
theorem cancel {l r : List (α × Node α)} {x : α × Node α}
    (h : Life (l ++ x :: r) fills snaps cancels) :
    Life (l ++ r) fills snaps (cancels ++ [⟨x.2.order.submission, x.2.order.cumQty, 0⟩]) := by
  have hsub : (l ++ r).Sublist (l ++ x :: r) := by simp
  have hx : x ∈ l ++ x :: r := by simp
  have hnd := h.nodup
  simp only [submissions, List.map_append, List.map_cons] at hnd
  rw [List.nodup_middle, ← List.map_append] at hnd
  obtain ⟨hno, -⟩ := List.nodup_cons.1 hnd
  refine ⟨fun y hy => h.positive y (hsub.subset hy), h.nodup.sublist (hsub.map _), h.chain,
    ⟨fun y hy => h.nonneg.1 y (hsub.subset hy), fun a ha => ?_⟩,
    fun y hy => h.resting y (hsub.subset hy), fun k hk hm => ?_, fun k hk a ha => ?_, ?_⟩
  · rw [← List.append_assoc] at ha
    rcases List.mem_append.1 ha with ha | ha
    · exact h.nonneg.2 a ha
    · rw [List.mem_singleton.1 ha]
      exact h.nonneg.1 x hx
  · rcases List.mem_append.1 hk with hk | hk
    · exact h.gone k hk ((hsub.map _).subset hm)
    · rw [List.mem_singleton.1 hk] at hm
      exact hno hm
  · rcases List.mem_append.1 hk with hk | hk
    · exact h.canceled k hk a ha
    · rw [List.mem_singleton.1 hk]
      exact h.resting x hx a ha
  · rw [List.map_append, List.nodup_append]
    refine ⟨h.once, List.nodup_singleton _, fun a ha b hb hab => ?_⟩
    obtain ⟨k, hk, rfl⟩ := List.mem_map.1 ha
    rw [List.map_cons, List.map_nil, List.mem_singleton] at hb
    refine h.gone k hk ?_
    rw [hab, hb]
    exact List.mem_map.2 ⟨x, hx, rfl⟩

/-! ## Fills -/

/-- A further fill of a resting order, which stays with what is left or goes. -/
theorem fill {l r kept : List (α × Node α)} {x : α × Node α} {o : Order α}
    (h : Life (l ++ x :: r) fills snaps cancels) (hs : o.submission = x.2.order.submission)
    (hc : x.2.order.cumQty ≤ o.cumQty)
    (hkept : kept = [] ∨ 0 < o.remainQty ∧ ∃ y : α × Node α, kept = [y] ∧ y.2.order.mark = o.mark) :
    Life (l ++ (kept ++ r)) (fills ++ [o.mark]) snaps cancels := by
  have hx : x ∈ l ++ x :: r := by simp
  have hsub : (l ++ r).Sublist (l ++ x :: r) := by simp
  have hnd := h.nodup
  simp only [submissions, List.map_append, List.map_cons] at hnd
  rw [List.nodup_middle, ← List.map_append] at hnd
  obtain ⟨hno, hnd'⟩ := List.nodup_cons.1 hnd
  have hmem : ∀ y ∈ l ++ (kept ++ r), y ∈ l ++ r ∨ 0 < o.remainQty ∧ y.2.order.mark = o.mark := by
    intro y hy
    rcases hkept with rfl | ⟨hpos, y', rfl, hy'⟩
    · exact .inl hy
    · simp only [List.mem_append, List.mem_singleton] at hy ⊢
      rcases hy with hy | rfl | hy
      · exact .inl (.inl hy)
      · exact .inr ⟨hpos, hy'⟩
      · exact .inl (.inr hy)
  have hmark : ∀ y : α × Node α, y.2.order.mark = o.mark →
      y.2.order.submission = x.2.order.submission ∧ y.2.order.cumQty = o.cumQty ∧
        y.2.order.remainQty = o.remainQty := fun y hy =>
    ⟨(congrArg Mark.about hy).trans hs, congrArg Mark.cumQty hy, congrArg Mark.leavesQty hy⟩
  have hcum : 0 ≤ o.cumQty := (h.nonneg.1 x hx).trans hc
  have hfills : ∀ a ∈ fills ++ [o.mark] ++ snaps, a ∈ fills ++ snaps ∨ a = o.mark := fun a ha => by
    simp only [List.mem_append, List.mem_singleton] at ha ⊢
    tauto
  -- what was told of the order before is not ahead of this fill
  have hbefore : ∀ a ∈ fills ++ snaps, Follows a o.mark := fun a ha he => by
    obtain ⟨h1, h2⟩ := h.resting x hx a ha (he.trans hs)
    exact ⟨h1, h2.trans hc⟩
  refine ⟨fun y hy => ?_, ?_, ?_, ⟨fun y hy => ?_, fun a ha => ?_⟩, fun y hy a ha => ?_,
    fun k hk hm => ?_, fun k hk a ha => ?_, h.once⟩
  · rcases hmem y hy with hy | ⟨hpos, hy⟩
    · exact h.positive y (hsub.subset hy)
    · rw [(hmark y hy).2.2]
      exact hpos
  · rcases hkept with rfl | ⟨-, y, rfl, hy⟩
    · exact hnd'
    · simp only [submissions, List.map_append, List.map_cons, List.singleton_append]
      rw [List.nodup_middle, ← List.map_append, (hmark y hy).1]
      exact hnd
  · rw [List.pairwise_append]
    refine ⟨h.chain, List.pairwise_singleton _ _, fun a ha b hb => ?_⟩
    rw [List.mem_singleton.1 hb]
    exact hbefore a (List.mem_append_left _ ha)
  · rcases hmem y hy with hy | ⟨-, hy⟩
    · exact h.nonneg.1 y (hsub.subset hy)
    · rw [(hmark y hy).2.1]
      exact hcum
  · rcases List.mem_append.1 ha with ha | ha
    · rcases hfills a ha with ha | rfl
      · exact h.nonneg.2 a (List.mem_append_left _ ha)
      · exact hcum
    · exact h.nonneg.2 a (List.mem_append_right _ ha)
  · rcases hmem y hy with hy | ⟨hpos, hy⟩
    · rcases hfills a ha with ha | rfl
      · exact h.resting y (hsub.subset hy) a ha
      · exact fun he => absurd (List.mem_map.2 ⟨y, hy, (hs.symm.trans he).symm⟩) hno
    · rw [hy]
      rcases hfills a ha with ha | rfl
      · exact hbefore a ha
      · exact fun _ => ⟨hpos, le_refl _⟩
  · refine h.gone k hk ?_
    obtain ⟨y, hy, he⟩ := List.mem_map.1 hm
    rcases hmem y hy with hy | ⟨-, hy⟩
    · exact List.mem_map.2 ⟨y, hsub.subset hy, he⟩
    · exact List.mem_map.2 ⟨x, hx, (hmark y hy).1.symm.trans he⟩
  · rcases hfills a ha with ha | rfl
    · exact h.canceled k hk a ha
    · exact fun he => absurd (List.mem_map.2 ⟨x, hx, hs.symm.trans he⟩) (h.gone k hk)

/-- A first report about an order that is not at rest. -/
theorem report (h : Life c fills snaps cancels) {a : Mark α}
    (hnew : a.about ∉ touched c fills snaps cancels) (h0 : 0 ≤ a.cumQty) :
    Life c (fills ++ [a]) snaps cancels := by
  simp only [touched, List.mem_append, List.mem_map, not_or] at hnew
  have hc : ∀ x ∈ c, a.about ≠ x.2.order.submission := fun x hx he =>
    hnew.1 (List.mem_map.2 ⟨x, hx, he.symm⟩)
  have hother : ∀ b ∈ fills ++ snaps ++ cancels, b.about ≠ a.about := fun b hb he => by
    refine hnew.2 ⟨b, ?_, he⟩
    simpa only [List.mem_append] using hb
  have hmem : ∀ b ∈ fills ++ [a] ++ snaps, b ∈ fills ++ snaps ∨ b = a := fun b hb => by
    simp only [List.mem_append, List.mem_singleton] at hb ⊢
    tauto
  refine { h with chain := ?_, nonneg := ⟨h.nonneg.1, fun b hb => ?_⟩, resting := ?_, canceled := ?_ }
  · rw [List.pairwise_append]
    refine ⟨h.chain, List.pairwise_singleton _ _, fun b hb b' hb' he => ?_⟩
    rw [List.mem_singleton.1 hb'] at he
    exact absurd he (hother b (by simp [hb]))
  · rcases List.mem_append.1 hb with hb | hb
    · rcases hmem b hb with hb | rfl
      · exact h.nonneg.2 b (List.mem_append_left _ hb)
      · exact h0
    · exact h.nonneg.2 b (List.mem_append_right _ hb)
  · intro x hx b hb
    rcases hmem b hb with hb | rfl
    · exact h.resting x hx b hb
    · exact fun he => absurd he (hc x hx)
  · intro k hk b hb
    rcases hmem b hb with hb | rfl
    · exact h.canceled k hk b hb
    · exact fun he => absurd he.symm (hother k (by simp [hk]))

/-- An order comes to rest that has not been at rest before. -/
theorem rest (h : Life c fills snaps cancels) {x : α × Node α} (hpos : 0 < x.2.order.remainQty)
    (hcum : 0 ≤ x.2.order.cumQty) (hc : x.2.order.submission ∉ submissions c)
    (hk : x.2.order.submission ∉ cancels.map Mark.about)
    (hmarks : ∀ a ∈ fills ++ snaps, Follows a x.2.order.mark) :
    Life (x :: c) fills snaps cancels := by
  refine { h with positive := ?_, nodup := ?_, nonneg := ⟨?_, h.nonneg.2⟩, resting := ?_, gone := ?_ }
  · exact List.forall_mem_cons.2 ⟨hpos, h.positive⟩
  · exact List.nodup_cons.2 ⟨hc, h.nodup⟩
  · exact List.forall_mem_cons.2 ⟨hcum, h.nonneg.1⟩
  · exact List.forall_mem_cons.2 ⟨hmarks, h.resting⟩
  · intro k hk' hm
    rcases List.mem_cons.1 hm with he | hm
    · exact hk (List.mem_map.2 ⟨k, hk', he⟩)
    · exact h.gone k hk' hm

end Life

/-- The numbers of a fill. -/
theorem fillOrder_marks {main : Event α} (price : α) {o : Order α}
    (h : o.userId ≠ main.order.userId) :
    let r := fillOrder main price o
    let q := min o.remainQty main.order.remainQty
    ∃ e, r.pushed = [e] ∧ e.order.mark = r.order.mark ∧ e.execStatus.isFill = true ∧
      r.order.cumQty = o.cumQty + q ∧ r.order.remainQty = o.remainQty - q ∧
      (r.status = .filled ↔ r.order.remainQty = 0) ∧
      r.main.order.cumQty = main.order.cumQty + q ∧
      r.main.order.remainQty = main.order.remainQty - q := by
  unfold fillOrder
  rw [if_neg h]
  refine ⟨_, rfl, rfl, ?_, ?_, rfl, ?_, ?_, rfl⟩
  · split <;> rfl
  · exact (sub_add _ _ _).symm
  · simp
  · exact (sub_add _ _ _).symm

variable [IsStrictOrderedRing α]

/-- What the loop keeps while it matches an order that is not yet known: the life of all others, and
that nothing is executed beyond its quantity. -/
structure LifeLoop (pre snaps cancels : List (Mark α)) (es : List (Event α)) (T : List ExecId)
    (o : Order α) (c : List (α × Node α)) (st : FillState α) : Prop where
  life : Life c (pre ++ st.events.map fun e => e.order.mark) snaps cancels
  known : touched c (pre ++ st.events.map fun e => e.order.mark) snaps cancels ⊆ T
  main : st.main.order.submission = o.submission ∧ st.main.order.originalQty = o.originalQty
  left : 0 ≤ st.main.order.remainQty
  executed : 0 ≤ st.main.order.cumQty
  kinds : ∀ e ∈ st.events, e ∈ es ∨ e.execStatus.isFill = true

theorem LifeLoop.step {pre snaps cancels : List (Mark α)} {es : List (Event α)} {T : List ExecId}
    {o : Order α} {c c' : List (α × Node α)} {st st' : FillState α}
    (h : LifeLoop pre snaps cancels es T o c st) (hs : FillStep (c, st) (c', st')) :
    LifeLoop pre snaps cancels es T o c' st' := by
  cases hs with
  | tick | note => exact ⟨h.life, h.known, h.main, h.left, h.executed, h.kinds⟩
  | @fill l r price n st other active =>
    obtain ⟨e, hpush, hmark, hkind, hcum, hremain, hfilled, hmcum, hmremain⟩ :=
      fillOrder_marks price other
    have hpos : 0 < n.order.remainQty := h.life.positive (price, n) (by simp)
    have hq : 0 ≤ min n.order.remainQty st.main.order.remainQty := le_min hpos.le h.left
    have hev : (st.fill price n).events = st.events ++ [e] := by
      rw [FillState.fill, hpush]
    have hfills : (pre ++ (st.fill price n).events.map fun e => e.order.mark) =
        (pre ++ st.events.map fun e => e.order.mark) ++
          [(fillOrder st.main price n.order).order.mark] := by
      rw [hev, ← hmark]
      simp
    refine ⟨?_, ?_, ?_, ?_, ?_, ?_⟩
    · rw [hfills]
      refine h.life.fill (by simp) ?_ ?_
      · rw [hcum]
        exact le_add_of_nonneg_right hq
      · unfold FillState.kept
        dsimp only
        split
        · exact .inl rfl
        · rename_i hs
          refine .inr ⟨?_, _, rfl, rfl⟩
          have hne : (fillOrder st.main price n.order).order.remainQty ≠ 0 := fun hz =>
            hs (hfilled.2 hz)
          refine lt_of_le_of_ne ?_ (Ne.symm hne)
          rw [hremain]
          exact sub_nonneg.2 (min_le_left _ _)
    · rw [hfills]
      intro s hs
      refine h.known ?_
      have hn : n.order.submission ∈ submissions (l ++ (price, n) :: r) := by simp [submissions]
      simp only [touched, List.mem_append] at hs ⊢
      rcases hs with hs | hs
      · left
        simp only [FillState.kept] at hs
        split at hs
        · exact ((List.Sublist.map _ (by simp)).subset hs)
        · simpa [submissions] using hs
      · simp only [List.map_append, List.map_cons, List.map_nil, List.mem_append,
          List.mem_singleton] at hs ⊢
        rcases hs with ((hs | hs) | hs) | hs
        · exact .inr (.inl (.inl hs))
        · refine .inl ?_
          rw [hs]
          simpa [Order.mark] using hn
        · exact .inr (.inl (.inr hs))
        · exact .inr (.inr hs)
    · exact ⟨(fillOrder_submission _ _ _).trans h.main.1,
        (fillOrder_originalQty _ _ _).trans h.main.2⟩
    · show 0 ≤ (fillOrder st.main price n.order).main.order.remainQty
      rw [hmremain]
      exact sub_nonneg.2 (min_le_right _ _)
    · show 0 ≤ (fillOrder st.main price n.order).main.order.cumQty
      rw [hmcum]
      exact add_nonneg h.executed hq
    · intro e' he'
      rw [hev] at he'
      rcases List.mem_append.1 he' with he' | he'
      · exact h.kinds e' he'
      · rw [List.mem_singleton.1 he']
        exact .inr hkind

omit [IsStrictOrderedRing α] in
/-- What the loop of `add` says of the incoming order, and how it comes to rest. -/
theorem LifeLoop.finish {pre snaps cancels : List (Mark α)} {es : List (Event α)} {T : List ExecId}
    {info : OrderInfo α} {c : List (α × Node α)} {st : FillState α} {reports : List (Event α)}
    {left : α × α} {exit : Exit} (addr : Nat)
    (h : LifeLoop pre snaps cancels es T info.order c st) (hnew : info.order.submission ∉ T)
    (hout : Outcome info st reports left exit) :
    Life (if left.1 ≠ 0 then (info.price, ⟨addr, OrderBook.restingOrder info left⟩) :: c else c)
        (pre ++ (st.events ++ reports).map fun e => e.order.mark) snaps cancels ∧
      (∀ e ∈ reports, e.order.submission = info.order.submission) ∧
      ∀ e ∈ reports, e.execStatus.isFill = true := by
  obtain ⟨hsub, horig⟩ := h.main
  have hreports : reports = [] ∨ ∃ e, reports = [e] ∧ e.order = st.main.order ∧
      e.execStatus.isFill = true := by
    cases exit with
    | filled => exact .inr ⟨_, (hout.filled rfl).2, rfl, rfl⟩
    | tickRefused => exact .inl (hout.silent rfl)
    | priceLimit | exhausted =>
      have := hout.partly (by simp)
      split at this
      · exact .inr ⟨_, this, rfl, rfl⟩
      · exact .inl this
  have htouched : info.order.submission ∉
      touched c (pre ++ st.events.map fun e => e.order.mark) snaps cancels := fun hm =>
    hnew (h.known hm)
  have hfresh := htouched
  simp only [touched, List.mem_append, List.map_append, not_or] at hfresh
  obtain ⟨hc, ⟨⟨hpre, hev⟩, hsnaps⟩, hcan⟩ := hfresh
  have hcum : (OrderBook.restingOrder info left).cumQty = st.main.order.cumQty := by
    simp only [Order.cumQty, OrderBook.restingOrder, hout.left_eq, horig]
  have hold : ∀ a ∈ (pre ++ st.events.map fun e => e.order.mark) ++ snaps,
      a.about ≠ info.order.submission := fun a ha he => by
    refine htouched (List.mem_append_right _ (List.mem_map.2 ⟨a, ?_, he⟩))
    exact List.mem_append_left _ ha
  -- the life of the others with what is reported of this one
  have hlife : Life c (pre ++ (st.events ++ reports).map fun e => e.order.mark) snaps cancels ∧
      ∀ a ∈ (pre ++ (st.events ++ reports).map fun e => e.order.mark) ++ snaps,
        a.about = info.order.submission → a = st.main.order.mark := by
    rcases hreports with rfl | ⟨e, rfl, he, -⟩
    · rw [List.append_nil]
      exact ⟨h.life, fun a ha hab => absurd hab (hold a ha)⟩
    · have hmark : e.order.mark = st.main.order.mark := by rw [he]
      have hmap : (pre ++ (st.events ++ [e]).map fun e => e.order.mark) =
          (pre ++ st.events.map fun e => e.order.mark) ++ [st.main.order.mark] := by
        simp [hmark]
      rw [hmap]
      refine ⟨h.life.report ?_ h.executed, fun a ha hab => ?_⟩
      · exact fun hm => htouched (hsub ▸ hm)
      · simp only [List.mem_append, List.mem_singleton] at ha
        by_contra hne
        refine hold a ?_ hab
        simp only [List.mem_append]
        tauto
  refine ⟨?_, fun e he => ?_, fun e he => ?_⟩
  · split
    · rename_i hz
      have hpos : 0 < left.1 := lt_of_le_of_ne (hout.left_eq ▸ h.left) (Ne.symm hz)
      refine hlife.1.rest hpos (hcum ▸ h.executed) hc hcan fun a ha hab => ?_
      rw [hlife.2 a ha hab]
      rw [hout.left_eq] at hpos
      exact ⟨hpos, hcum.ge⟩
    · exact hlife.1
  · rcases hreports with rfl | ⟨e', rfl, he', -⟩
    · cases he
    · rw [List.mem_singleton.1 he, he']
      exact hsub
  · rcases hreports with rfl | ⟨e', rfl, -, hk⟩
    · cases he
    · rw [List.mem_singleton.1 he]
      exact hk

/-- `add` of an order nothing is known of. -/
theorem Life.add {ob ob' : OrderBook α} {info : OrderInfo α} {pre snaps cancels : List (Mark α)}
    (h : Life ob.resting (pre ++ ob.eventOutput.map fun e => e.order.mark) snaps cancels)
    (hs : info.order.side.supported = true) (hq : info.order.remainQty = info.order.originalQty)
    (h0 : 0 ≤ info.order.originalQty)
    (hnew : info.order.submission ∉
      touched ob.resting (pre ++ ob.eventOutput.map fun e => e.order.mark) snaps cancels)
    (hadd : ob.add info = .ok ob') :
    Life ob'.resting (pre ++ ob'.eventOutput.map fun e => e.order.mark) snaps cancels ∧
      touched ob'.resting (pre ++ ob'.eventOutput.map fun e => e.order.mark) snaps cancels ⊆
        info.order.submission ::
          touched ob.resting (pre ++ ob.eventOutput.map fun e => e.order.mark) snaps cancels ∧
      ∀ e ∈ ob'.eventOutput, e ∈ ob.eventOutput ∨ e.execStatus.isFill = true := by
  obtain ⟨idmap, c, st, reports, left, hsteps, hev, hout, -, hperm⟩ := add_spec hs hq hadd
  have hstart : LifeLoop pre snaps cancels ob.eventOutput
      (touched ob.resting (pre ++ ob.eventOutput.map fun e => e.order.mark) snaps cancels)
      info.order ob.resting (ob.fillState idmap info) :=
    ⟨h, List.Subset.refl _, ⟨rfl, rfl⟩, by simpa [OrderBook.fillState, mainEvent, hq] using h0,
      by simp [OrderBook.fillState, mainEvent, Order.cumQty, hq], fun e he => .inl he⟩
  have hloop := hsteps.invariant hstart fun _ _ _ _ hI hs => hI.step hs
  obtain ⟨hlife, hsubs, hkinds⟩ := hloop.finish ob.nextNode hnew hout
  refine ⟨?_, fun s hs => ?_, fun e he => ?_⟩
  · rw [hev]
    exact hlife.perm hperm.symm
  · rw [hev] at hs
    by_cases hid : s = info.order.submission
    · exact List.mem_cons.2 (.inl hid)
    · refine List.mem_cons_of_mem _ (hloop.known ?_)
      simp only [touched, List.map_append, List.mem_append] at hs ⊢
      rcases hs with hs | ((hs | hs | hs) | hs) | hs
      · left
        have := (hperm.map _).mem_iff.1 hs
        split at this
        · exact (List.mem_cons.1 this).resolve_left hid
        · exact this
      · exact .inr (.inl (.inl (.inl hs)))
      · exact .inr (.inl (.inl (.inr hs)))
      · simp only [List.mem_map] at hs
        obtain ⟨_, ⟨e, he, rfl⟩, rfl⟩ := hs
        exact absurd (hsubs e he) hid
      · exact .inr (.inl (.inr hs))
      · exact .inr (.inr hs)
  · rw [hev] at he
    rcases List.mem_append.1 he with he | he
    · exact hloop.kinds e he
    · exact .inr (hkinds e he)

end Fix42
