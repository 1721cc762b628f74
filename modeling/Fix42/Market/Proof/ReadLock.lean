import Fix42.Market.ReadLock
import Fix42.Book.Proof.Midway

/-!
# A looked-up order stays when no request takes it off the book

`LockedBook.lookup_protected`: in every run in which no request that fills or cancels the looked-up
order overlaps the lookup (`Undisturbed`), the order stays on the book and in the id map from the
moment `has` reports it up to `unlockReadOrder`, and `getOrder` returns it. Without that condition
it does not (`not_protected`): `lockReadOrder` takes the mutex of the opposite side, a removal that
of the order's own side.
-/

namespace Fix42

open Access

variable {α : Type*}

@[simp] theorem Side.bundle_of_isBid {side : Side} (h : side.isBid = true) : side.bundle = .bid :=
  if_pos h

@[simp] theorem Side.bundle_of_isAsk {side : Side} (h : side.isAsk = true) : side.bundle = .ask :=
  if_neg (by simp [Side.isBid_of_isAsk h])

section
variable [LinearOrder α]

theorem hasSide_eq {side : Side} (h : side.supported = true) (ob : OrderBook α) (id : OrderId) :
    ob.hasSide id side = (ob.ids side.bundle id).isSome := by
  rcases Bool.or_eq_true_iff.1 h with hb | ha
  · simp [OrderBook.hasSide, hb, OrderBook.ids]
  · simp [OrderBook.hasSide, ha, OrderBook.ids]

end

variable [Field α] [LinearOrder α]

namespace Midway

variable {ob : OrderBook α} {as : List (Access α)} {b : Bundle} {id : OrderId}
  {info : OrderIdInfo α}

/-- What the request in hand leaves in the map it has not still to erase. -/
theorem not_erased (h : Midway ob as) (hi : ob.ids b id = some info)
    (hafter : ((runAll as ob).ids b id).isSome = true) : .eraseId b id ∉ as := fun hm => by
  rw [ids_erased hm (h.not_inserted hi)] at hafter
  cases hafter

/-- `getOrder` of an id that the request in hand leaves in its map. -/
theorem getOrder (h : Midway ob as) (hi : ob.ids b id = some info) (he : .eraseId b id ∉ as) :
    ∃ order, ob.getOrder id = .ok order ∧ order.orderId = id := by
  obtain ⟨list, order, hl, hd, hid⟩ := h.listed hi he
  refine ⟨order, ?_, hid⟩
  cases b with
  | bid =>
    have hb : ob.bidId id = some info := hi
    have hl' : ob.bidBook.get? info.price = some list := hl
    simp [OrderBook.getOrder, OrderBook.derefInfo, hb, hl', hd]
  | ask =>
    have hb : ob.bidId id = none := (h.disjoint id).resolve_right fun hn => by
      rw [hi] at hn
      cases hn
    have ha : ob.askId id = some info := hi
    have hl' : ob.askBook.get? info.price = some list := hl
    simp [OrderBook.getOrder, OrderBook.derefInfo, hb, ha, hl', hd]

end Midway

namespace LockedBook

/-! ## The invariant -/

/-- What the unit's place in `verifyOrderState` says about the book it found. -/
def Ok (s : LockedBook α) : Prop :=
  match s.verify with
  | .idle => True
  | .failed _ => s.side.supported = false
  | .bidRead found => s.side.supported = true ∧ (found = true ↔ s.side.bundle = .bid)
  | .bidDone | .askLocked => s.side.supported = true ∧ s.side.bundle = .ask
  | .entry b info => s.side.supported = true ∧ s.side.bundle = b ∧ s.ob.ids b s.id = some info
  | .copied _ order | .got order => s.side.supported = true ∧ order.orderId = s.id
  | _ => s.side.supported = true

/-- The looked-up order, once reported, is in the map of its side, and the worker does not erase
it. -/
structure Inv (s : LockedBook α) : Prop where
  midway : Midway s.ob s.work
  kept : s.verify.present = true →
    (∃ info, s.ob.ids s.side.bundle s.id = some info) ∧ .eraseId s.side.bundle s.id ∉ s.work
  ok : s.Ok

theorem inv_init (name : String) : (init name : LockedBook α).Inv :=
  ⟨.inl ⟨rfl, .new name⟩, (fun h => by cases h), trivial⟩

omit [Field α] in
theorem Ok.supported {s : LockedBook α} (h : s.Ok) (hp : s.verify.present = true) :
    s.side.supported = true := by
  unfold Ok at h
  cases hv : s.verify <;> simp_all [Verify.present]

theorem inv_begin {s s' : LockedBook α} {op : Worker.Op α} (h : s.Inv)
    (hc : s.Undisturbed (.begin op)) (hs : step s (.begin op) = some s') : s'.Inv := by
  simp only [step] at hs
  split at hs
  · rename_i hw
    cases hs
    have hmid : Midway s.ob [] := List.isEmpty_iff.1 hw ▸ h.midway
    refine ⟨hmid.start op, fun hp => ⟨(h.kept hp).1, ?_⟩, h.ok⟩
    obtain ⟨info, hi⟩ := (h.kept hp).1
    obtain ⟨ob', hstep, -⟩ := hmid.after.step op
    refine (hmid.start op).not_erased hi ?_
    have hleft := hc hp
    rw [runAll_nil] at hstep
    rw [hstep] at hleft
    rw [Worker.run_accesses hstep, ← hasSide_eq (h.ok.supported hp)]
    simpa using hleft
  · cases hs

theorem inv_worker {s s' : LockedBook α} (h : s.Inv) (hs : step s .worker = some s') :
    s'.Inv := by
  simp only [step, worker] at hs
  split at hs
  · cases hs
  · rename_i a work hw
    obtain ⟨mutexes, -, rfl⟩ := Option.map_eq_some_iff.1 hs
    have hmid := h.midway
    rw [hw] at hmid
    have hids : s.verify.present = true →
        (run s.ob a).ids s.side.bundle s.id = s.ob.ids s.side.bundle s.id := fun hp => by
      obtain ⟨⟨info, hi⟩, he⟩ := h.kept hp
      rw [hw, List.mem_cons, not_or] at he
      refine ids_run (Ne.symm he.1) fun info' ha => ?_
      exact hmid.not_inserted hi info' (ha ▸ List.mem_cons_self)
    refine ⟨hmid.step, fun hp => ⟨?_, fun hm => (h.kept hp).2 (hw ▸ List.mem_cons_of_mem a hm)⟩, ?_⟩
    · obtain ⟨info, hi⟩ := (h.kept hp).1
      exact ⟨info, (hids hp).trans hi⟩
    · have hok := h.ok
      unfold Ok at hok ⊢
      dsimp only
      cases hv : s.verify with
      | entry b info =>
        rw [hv] at hok
        obtain ⟨hside, rfl, hi⟩ := hok
        exact ⟨hside, rfl, (hids (by rw [hv]; rfl)).trans hi⟩
      | _ => rwa [hv] at hok

theorem inv_call {s s' : LockedBook α} {id : OrderId} {side : Side} (h : s.Inv)
    (hs : step s (.call id side) = some s') : s'.Inv := by
  have hcall : s.call id side = some s' := by
    simp only [step] at hs
    split at hs
    · exact hs
    · exact hs
    · cases hs
  unfold call lockReadOrder at hcall
  split at hcall
  · rename_i heq
    cases hcall
    refine ⟨h.midway, (fun hp => by cases hp), ?_⟩
    split at heq
    · cases heq
    · rename_i hside
      exact Bool.eq_false_of_not_eq_true hside
  · rename_i heq
    obtain ⟨mutexes, -, rfl⟩ := Option.map_eq_some_iff.1 hcall
    refine ⟨h.midway, (fun hp => by cases hp), ?_⟩
    split at heq
    · assumption
    · cases heq

/-- `at` finds the reported id in the map of its side. -/
theorem Inv.lookup {s : LockedBook α} {b : Bundle} (h : s.Inv) (hside : s.side.supported = true)
    (hb : s.side.bundle = b) (hkept : (∃ info, s.ob.ids s.side.bundle s.id = some info) ∧
      .eraseId s.side.bundle s.id ∉ s.work) : (s.lookup b).Inv := by
  subst hb
  obtain ⟨⟨info, hi⟩, he⟩ := hkept
  simp only [LockedBook.lookup, hi]
  exact ⟨h.midway, fun _ => ⟨⟨info, hi⟩, he⟩, hside, rfl, hi⟩

theorem inv_unit {s s' : LockedBook α} (h : s.Inv) (hc : s.Undisturbed .unit)
    (hs : step s .unit = some s') : s'.Inv := by
  have hok := h.ok
  have hkept := h.kept
  simp only [step, unit] at hs
  unfold Ok at hok
  cases hv : s.verify with
  | idle | done _ | failed _ => simp [hv] at hs
  | locked =>
    simp only [hv] at hs hok
    obtain ⟨mutexes, -, rfl⟩ := Option.map_eq_some_iff.1 hs
    exact ⟨h.midway, (fun hp => by cases hp), hok⟩
  | hasLocked =>
    simp only [hv, Option.some.injEq] at hs hok
    subst hs
    refine ⟨h.midway, fun hp => ?_, hok⟩
    obtain ⟨info, hi⟩ := Option.isSome_iff_exists.1 hp
    have hleft := hc hv
    rw [hasSide_eq hok, hasSide_eq hok] at hleft
    exact ⟨⟨info, hi⟩, h.midway.not_erased hi (hleft hp)⟩
  | hasRead found =>
    simp only [hv, Option.some.injEq] at hs hok hkept
    subst hs
    exact ⟨h.midway, hkept, hok⟩
  | hasDone found =>
    cases found with
    | false =>
      simp only [hv, Option.some.injEq] at hs hok
      subst hs
      exact ⟨h.midway, (fun hp => by cases hp), hok⟩
    | true =>
      simp only [hv] at hs hok hkept
      obtain ⟨mutexes, -, rfl⟩ := Option.map_eq_some_iff.1 hs
      exact ⟨h.midway, fun _ => hkept rfl, hok⟩
  | bidLocked =>
    simp only [hv, Option.some.injEq] at hs hok hkept
    subst hs
    refine ⟨h.midway, fun _ => hkept rfl, hok, fun hb => ?_, fun hb => ?_⟩
    · obtain ⟨info, hi⟩ := (hkept rfl).1
      cases hbundle : s.side.bundle with
      | bid => rfl
      | ask =>
        have hnone := (h.midway.disjoint s.id).resolve_right (by simp [← hbundle, hi])
        simp [hnone] at hb
    · obtain ⟨info, hi⟩ := (hkept rfl).1
      rw [hb] at hi
      simp [hi]
  | bidRead found =>
    cases found with
    | false =>
      simp only [hv, Option.some.injEq] at hs hok hkept
      subst hs
      refine ⟨h.midway, fun _ => hkept rfl, hok.1, ?_⟩
      cases hbundle : s.side.bundle with
      | bid => exact absurd (hok.2.2 hbundle) (by simp)
      | ask => rfl
    | true =>
      simp only [hv, Option.some.injEq] at hs hok hkept
      subst hs
      exact h.lookup hok.1 (hok.2.1 trivial) (hkept rfl)
  | bidDone =>
    simp only [hv] at hs hok hkept
    obtain ⟨mutexes, -, rfl⟩ := Option.map_eq_some_iff.1 hs
    exact ⟨h.midway, fun _ => hkept rfl, hok⟩
  | askLocked =>
    simp only [hv, Option.some.injEq] at hs hok hkept
    subst hs
    exact h.lookup hok.1 hok.2 (hkept rfl)
  | entry b info =>
    simp only [hv] at hs hok hkept
    obtain ⟨hside, rfl, hi⟩ := hok
    obtain ⟨list, order, hl, hd, hid⟩ := h.midway.listed hi (hkept rfl).2
    have horder : orderAt s.ob s.side.bundle info = some order := by simp [orderAt, hl, hd]
    simp only [horder, Option.some.injEq] at hs
    subst hs
    exact ⟨h.midway, fun _ => hkept rfl, hside, hid⟩
  | copied b order =>
    simp only [hv, Option.some.injEq] at hs hok hkept
    subst hs
    exact ⟨h.midway, fun _ => hkept rfl, hok⟩
  | got order =>
    simp only [hv, Option.some.injEq] at hs hok
    subst hs
    exact ⟨h.midway, (fun hp => by cases hp), hok.1⟩

/-! ## The lookup -/

theorem Inv.protected_of {s : LockedBook α} (h : s.Inv) : s.Protected where
  present hp := by
    obtain ⟨⟨info, hi⟩, he⟩ := h.kept hp
    refine ⟨?_, h.midway.getOrder hi he⟩
    rw [hasSide_eq (h.ok.supported hp), hi]
    rfl
  got order hv := by
    have hok := h.ok
    simp only [Ok, hv] at hok
    exact hok.2
  failed f hv := by
    have hok := h.ok
    simpa only [Ok, hv] using hok

/-- **The looked-up order stays**: in every run in which no request that takes it off the book
overlaps the lookup, a reported order is in its id map and on the book until `unlockReadOrder`, and
`getOrder` returns it. -/
theorem lookup_protected {name : String} {s : LockedBook α}
    (h : Trans.Run step Undisturbed (init name) s) : s.Protected := by
  refine Inv.protected_of (h.invariant (inv_init name) fun s act s' hI hc hs => ?_)
  cases act with
  | begin op => exact inv_begin hI hc hs
  | worker => exact inv_worker hI hs
  | call id side => exact inv_call hI hs
  | unit => exact inv_unit hI hc hs

/-- A sell of 10 is looked up while a buy of 4 trades with it: `getOrder` gives the order with 6
left. -/
theorem lookup_protected_run :
    let acts : List (Act ℚ) :=
      .begin (.newOrder ⟨"A", "e1", "s1", 5, 10, .sell, rfl⟩) :: List.replicate 11 .worker ++
        [.call "s1" .sell, .unit, .unit, .unit,
          .begin (.newOrder ⟨"B", "e2", "b1", 5, 4, .buy, rfl⟩)] ++
        List.replicate 11 .worker ++ List.replicate 7 .unit
    ∃ s, Trans.exec step Undisturbed (init "AAPL") acts = some s ∧
      s.verify = .got ⟨"A", "s1", 10, 6, 5, .sell, .partiallyFilled, "e1"⟩ ∧ s.Protected := by
  intro acts
  have hrun : (Trans.exec step Undisturbed (init "AAPL") acts).map
      (fun s => decide (s.verify = .got ⟨"A", "s1", 10, 6, 5, .sell, .partiallyFilled, "e1"⟩)) =
      some true := by decide +kernel
  obtain ⟨s, hs, hv⟩ := Option.map_eq_some_iff.1 hrun
  exact ⟨s, hs, of_decide_eq_true hv, lookup_protected (.of_exec .start hs)⟩

/-- The same lookup while a buy of 10 fills the sell: the erasure needs only the ask mutex, the unit
holds the bid one, and `getOrder` throws. -/
theorem not_protected :
    ¬ ∀ (name : String) (s : LockedBook ℚ), Trans.Reach step (init name) s → s.Protected := by
  intro hall
  let acts : List (Act ℚ) :=
    .begin (.newOrder ⟨"A", "e1", "s1", 5, 10, .sell, rfl⟩) :: List.replicate 11 .worker ++
      [.call "s1" .sell, .unit, .unit, .unit,
        .begin (.newOrder ⟨"B", "e2", "b1", 5, 10, .buy, rfl⟩)] ++
      List.replicate 19 .worker ++ List.replicate 5 .unit
  have hrun : (Trans.exec step (fun _ _ => True) (init "AAPL") acts).map
      (fun s => decide (s.verify = .failed .outOfRange ∧ s.side = .sell)) = some true := by
    decide +kernel
  obtain ⟨s, hs, hv⟩ := Option.map_eq_some_iff.1 hrun
  obtain ⟨hfailed, hside⟩ := of_decide_eq_true hv
  have := (hall "AAPL" s (.of_exec .start hs)).failed _ hfailed
  rw [hside] at this
  cases this

end LockedBook

end Fix42
