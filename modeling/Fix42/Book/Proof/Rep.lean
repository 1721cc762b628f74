import Mathlib.Data.List.Nodup
import Fix42.Book.Proof.Fill
import Fix42.Book.Worker
import Fix42.Lib.Fallible

/-!
# The representation invariant of the order book

`RepInv ob`: on each side the id map is the index of the listed orders, ids and node addresses are
unique, and every order is on the book of its side. `RepInv.add` and `RepInv.cancel` keep it, the
latter removing exactly the order the id map names (`Removes`); `repInv_of_reachable` is the run
lemma, `reachable_indexes` what it says side by side. `settled_of_reachable`: between requests the
tick record is up to date.
-/

namespace Fix42

open SortedMap Relation

open Fallible (bind_eq_ok)

variable {α : Type*}

/-! ## Cells and their index -/

/-- The id-map entry that belongs to a priced node. -/
def entry (x : α × Node α) : OrderId × OrderIdInfo α := (x.2.order.orderId, ⟨x.2.addr, x.1⟩)

/-- The id map indexes the cells of one side. -/
structure CellsInv (c : List (α × Node α)) (idmap : OrderIdMap α) (next : Nat)
    (onSide : Side → Bool) : Prop where
  index : ∀ id info, idmap id = some info ↔ (id, info) ∈ c.map entry
  ids : (c.map fun x => x.2.order.orderId).Nodup
  addrs : (c.map fun x => x.2.addr).Nodup
  fresh : ∀ x ∈ c, x.2.addr < next
  sides : ∀ x ∈ c, onSide x.2.order.side = true

namespace CellsInv

variable {c c' l r : List (α × Node α)} {idmap : OrderIdMap α} {next : Nat} {onSide : Side → Bool}
  {x : α × Node α}

theorem empty : CellsInv ([] : List (α × Node α)) (fun _ => none) next onSide :=
  ⟨by simp, by simp, by simp, by simp, by simp⟩

theorem perm (h : CellsInv c idmap next onSide) (hp : c.Perm c') : CellsInv c' idmap next onSide where
  index id info := (h.index id info).trans (hp.map entry).mem_iff
  ids := (hp.map _).nodup_iff.1 h.ids
  addrs := (hp.map _).nodup_iff.1 h.addrs
  fresh y hy := h.fresh y (hp.mem_iff.2 hy)
  sides y hy := h.sides y (hp.mem_iff.2 hy)

theorem next_le (h : CellsInv c idmap next onSide) {next' : Nat} (hn : next ≤ next') :
    CellsInv c idmap next' onSide :=
  { h with fresh := fun y hy => (h.fresh y hy).trans_le hn }

/-- A listed order is indexed. -/
theorem indexed (h : CellsInv c idmap next onSide) (hx : x ∈ c) :
    idmap x.2.order.orderId = some ⟨x.2.addr, x.1⟩ :=
  (h.index _ _).2 (List.mem_map.2 ⟨x, hx, rfl⟩)

/-- An index entry has its node, and the node's neighbours have other addresses. -/
theorem located (h : CellsInv c idmap next onSide) {id : OrderId} {info : OrderIdInfo α}
    (hi : idmap id = some info) : ∃ l r n, c = l ++ (info.price, n) :: r ∧ n.order.orderId = id ∧
      n.addr = info.order ∧ ∀ y ∈ l ++ r, y.2.addr ≠ info.order := by
  obtain ⟨⟨price, n⟩, hm, he⟩ := List.mem_map.1 ((h.index id info).1 hi)
  cases he
  obtain ⟨l, r, rfl⟩ := List.append_of_mem hm
  refine ⟨l, r, n, rfl, rfl, rfl, fun y hy ha => ?_⟩
  have hnd := h.addrs
  rw [List.map_append, List.map_cons, List.nodup_middle, ← List.map_append] at hnd
  exact (List.nodup_cons.1 hnd).1 (List.mem_map.2 ⟨y, hy, ha⟩)

/-- Replacing an order by one with the same id, address and side. -/
theorem replace (h : CellsInv (l ++ x :: r) idmap next onSide) {y : α × Node α}
    (he : entry y = entry x) (hs : y.2.order.side = x.2.order.side) :
    CellsInv (l ++ y :: r) idmap next onSide := by
  simp only [entry, Prod.mk.injEq, OrderIdInfo.mk.injEq] at he
  obtain ⟨hid, haddr, hprice⟩ := he
  refine ⟨fun id info => ?_, ?_, ?_, fun z hz => ?_, fun z hz => ?_⟩
  · rw [h.index]
    simp [entry, hid, haddr, hprice]
  · simpa [hid] using h.ids
  · simpa [haddr] using h.addrs
  · rcases List.mem_append.1 hz with hz | hz
    · exact h.fresh z (List.mem_append_left _ hz)
    · rcases List.mem_cons.1 hz with rfl | hz
      · rw [haddr]
        exact h.fresh x (by simp)
      · exact h.fresh z (by simp [hz])
  · rcases List.mem_append.1 hz with hz | hz
    · exact h.sides z (List.mem_append_left _ hz)
    · rcases List.mem_cons.1 hz with rfl | hz
      · rw [hs]
        exact h.sides x (by simp)
      · exact h.sides z (by simp [hz])

/-- Erasing an order together with its id. -/
theorem remove (h : CellsInv (l ++ x :: r) idmap next onSide) :
    CellsInv (l ++ r) (removeFromIdMap idmap x.2.order.orderId) next onSide := by
  have hsub : (l ++ r).Sublist (l ++ x :: r) := by simp
  have hnd := h.ids
  rw [List.map_append, List.map_cons, List.nodup_middle, ← List.map_append] at hnd
  have hno : ∀ y ∈ l ++ r, y.2.order.orderId ≠ x.2.order.orderId := fun y hy he =>
    (List.nodup_cons.1 hnd).1 (List.mem_map.2 ⟨y, hy, he⟩)
  refine ⟨fun id info => ?_, h.ids.sublist (hsub.map _), h.addrs.sublist (hsub.map _),
    fun y hy => h.fresh y (hsub.subset hy), fun y hy => h.sides y (hsub.subset hy)⟩
  unfold removeFromIdMap
  by_cases hid : id = x.2.order.orderId
  · subst hid
    simp only [Function.update_self, reduceCtorEq, false_iff]
    intro hm
    obtain ⟨y, hy, he⟩ := List.mem_map.1 hm
    exact hno y hy (congrArg Prod.fst he)
  · rw [Function.update_of_ne hid, h.index]
    simp only [List.map_append, List.map_cons, List.mem_append, List.mem_cons]
    constructor
    · rintro (hl | he | hr)
      · exact .inl hl
      · exact absurd (congrArg Prod.fst he) hid
      · exact .inr hr
    · rintro (hl | hr)
      · exact .inl hl
      · exact .inr (.inr hr)

/-- Listing a new order under an unused id and the next address. -/
theorem insert (h : CellsInv c idmap next onSide) {price : α} {o : Order α}
    (hid : idmap o.orderId = none) (hs : onSide o.side = true) :
    CellsInv ((price, ⟨next, o⟩) :: c)
      (Function.update idmap o.orderId (some ⟨next, price⟩)) (next + 1) onSide := by
  have hno : ∀ info, (o.orderId, info) ∉ c.map entry := fun info hm => by
    rw [(h.index _ _).2 hm] at hid
    cases hid
  refine ⟨fun id info => ?_, ?_, ?_, fun y hy => ?_, fun y hy => ?_⟩
  · rw [List.map_cons, List.mem_cons]
    by_cases he : id = o.orderId
    · subst he
      simp [hno, entry, eq_comm]
    · rw [Function.update_of_ne he, h.index]
      simp [entry, he]
  · rw [List.map_cons, List.nodup_cons]
    refine ⟨fun hm => ?_, h.ids⟩
    obtain ⟨y, hy, he⟩ := List.mem_map.1 hm
    have := h.indexed hy
    simp_all
  · rw [List.map_cons, List.nodup_cons]
    refine ⟨fun hm => ?_, h.addrs⟩
    obtain ⟨y, hy, he⟩ := List.mem_map.1 hm
    exact absurd he (h.fresh y hy).ne
  · rcases List.mem_cons.1 hy with rfl | hy
    · exact Nat.lt_succ_self _
    · exact (h.fresh y hy).trans (Nat.lt_succ_self _)
  · rcases List.mem_cons.1 hy with rfl | hy
    · exact hs
    · exact h.sides y hy

end CellsInv

/-! ## Matching -/

section
variable [Field α] [LinearOrder α]

@[simp] theorem fillOrder_order_orderId (main : Event α) (price : α) (o : Order α) :
    (fillOrder main price o).order.orderId = o.orderId := by
  unfold fillOrder; split <;> rfl

@[simp] theorem fillOrder_order_side (main : Event α) (price : α) (o : Order α) :
    (fillOrder main price o).order.side = o.side := by
  unfold fillOrder; split <;> rfl

/-- The cells of the side stay indexed while the loop fills them, and no id is added. -/
theorem FillStep.cellsInv {c c' : List (α × Node α)} {st st' : FillState α} {next : Nat}
    {onSide : Side → Bool} (h : FillStep (c, st) (c', st')) (hc : CellsInv c st.idmap next onSide) :
    CellsInv c' st'.idmap next onSide ∧ ∀ id, st.idmap id = none → st'.idmap id = none := by
  cases h with
  | tick | note => exact ⟨hc, fun _ hn => hn⟩
  | fill other active =>
    simp only [FillState.fill, FillState.kept]
    split
    · refine ⟨hc.remove, fun id hn => ?_⟩
      unfold removeFromIdMap
      rw [Function.update_apply]
      split
      · rfl
      · exact hn
    · exact ⟨hc.replace (by simp [entry]) (by simp), fun _ hn => hn⟩

theorem FillSteps.cellsInv {c c' : List (α × Node α)} {st st' : FillState α} {next : Nat}
    {onSide : Side → Bool} (h : FillSteps (c, st) (c', st'))
    (hc : CellsInv c st.idmap next onSide) :
    CellsInv c' st'.idmap next onSide ∧ ∀ id, st.idmap id = none → st'.idmap id = none := by
  refine h.invariant (I := fun c' st' => CellsInv c' st'.idmap next onSide ∧
    ∀ id, st.idmap id = none → st'.idmap id = none) ⟨hc, fun _ hn => hn⟩ ?_
  intro c1 st1 c2 st2 hI hs
  obtain ⟨h1, h2⟩ := hs.cellsInv hI.1
  exact ⟨h1, fun id hn => h2 id (hI.2 id hn)⟩

theorem fillOnBook_cellsInv {lt : α → α → Prop} (cmp : α → α → Bool)
    {book : SortedMap α (OrderList α) lt} (info : OrderInfo α) (st : FillState α) {next : Nat}
    {onSide : Side → Bool} (hact : st.Active) (hc : CellsInv (flat book.entries) st.idmap next onSide) :
    CellsInv (flat (fillOnBook cmp book info st).book.entries)
        (fillOnBook cmp book info st).st.idmap next onSide ∧
      ∀ id, st.idmap id = none → (fillOnBook cmp book info st).st.idmap id = none := by
  obtain ⟨st', reports, hsteps, hst, -⟩ := fillOnBook_spec cmp book info st hact
  rw [hst]
  exact hsteps.cellsInv hc

end

/-! ## The book -/

theorem addToBook_cellsInv {lt : α → α → Prop} [DecidableRel lt] [IsTrans α lt]
    (htri : ∀ a b : α, ¬ lt a b → ¬ lt b a → a = b) {book : SortedMap α (OrderList α) lt}
    {idmap : OrderIdMap α} {price : α} {next : Nat} {o : Order α} {onSide : Side → Bool}
    (hc : CellsInv (flat book.entries) idmap next onSide) (hid : idmap o.orderId = none)
    (hs : onSide o.side = true) :
    CellsInv (flat (addToBook book idmap price ⟨next, o⟩).1.entries)
      (addToBook book idmap price ⟨next, o⟩).2 (next + 1) onSide :=
  (hc.insert hid hs).perm (flat_upsert htri).symm

theorem deref_eq_some {list : OrderList α} {n : Node α} (hm : n ∈ list)
    (hu : ∀ n' ∈ list, n'.addr = n.addr → n' = n) : deref list n.addr = some n.order := by
  unfold deref
  cases hf : list.find? fun n' => n'.addr = n.addr with
  | none => exact absurd (List.find?_eq_none.1 hf n hm) (by simp)
  | some n' =>
    rw [Option.map_some, hu n' (List.mem_of_find?_eq_some hf) (by simpa using List.find?_some hf)]

section
variable [LinearOrder α]

/-- The node an index entry names is found in its level, alone under its address. -/
theorem CellsInv.deref {lt : α → α → Prop} [Std.Irrefl lt] {book : SortedMap α (OrderList α) lt}
    {idmap : OrderIdMap α} {next : Nat} {onSide : Side → Bool}
    (hc : CellsInv (flat book.entries) idmap next onSide) {id : OrderId} {info : OrderIdInfo α}
    (hi : idmap id = some info) : ∃ l r n list, flat book.entries = l ++ (info.price, n) :: r ∧
      n.order.orderId = id ∧ n.addr = info.order ∧ (∀ y ∈ l ++ r, y.2.addr ≠ info.order) ∧
      book.get? info.price = some list ∧ deref list info.order = some n.order := by
  obtain ⟨l, r, n, hflat, hid, haddr, hother⟩ := hc.located hi
  obtain ⟨list, hget, hn⟩ := mem_flat_iff.1
    (hflat ▸ (by simp : (info.price, n) ∈ l ++ (info.price, n) :: r))
  refine ⟨l, r, n, list, hflat, hid, haddr, hother, hget, ?_⟩
  rw [← haddr]
  refine deref_eq_some hn fun n' hn' ha => ?_
  have hm : (info.price, n') ∈ flat book.entries := mem_flat_iff.2 ⟨list, hget, hn'⟩
  rw [hflat, List.mem_append, List.mem_cons] at hm
  rcases hm with hm | hm | hm
  · exact absurd (ha.trans haddr) (hother _ (List.mem_append_left _ hm))
  · exact (Prod.mk.inj hm).2
  · exact absurd (ha.trans haddr) (hother _ (List.mem_append_right _ hm))

/-- `cancelOrder` on an indexed entry removes the node it names and nothing else. -/
theorem cancelOrder_spec {lt : α → α → Prop} [Std.Irrefl lt]
    {book : SortedMap α (OrderList α) lt} {idmap : OrderIdMap α} {next : Nat}
    {onSide : Side → Bool} (hc : CellsInv (flat book.entries) idmap next onSide) {id : OrderId}
    {info : OrderIdInfo α} (hi : idmap id = some info) :
    ∃ book' l r n, cancelOrder book info = .ok book' ∧
      OrderBook.derefInfo book info = .ok n.order ∧ n.order.orderId = id ∧
      flat book.entries = l ++ (info.price, n) :: r ∧ flat book'.entries = l ++ r := by
  obtain ⟨l, r, n, list, hflat, hid, haddr, hother, hget, hderef⟩ := hc.deref hi
  refine ⟨book.adjust info.price (List.filter fun n => n.addr ≠ info.order), l, r, n, ?_, ?_, hid,
    hflat, ?_⟩
  · simp [cancelOrder, hget, hderef]
  · simp [OrderBook.derefInfo, hget, hderef]
  · have hkeep : ∀ z : List (α × Node α), (∀ y ∈ z, y.2.addr ≠ info.order) →
        (z.filter fun y => y.1 ≠ info.price || y.2.addr ≠ info.order) = z := fun z hz =>
      List.filter_eq_self.2 fun y hy => by simp [hz y hy]
    have hl := hkeep l fun y hy => hother y (List.mem_append_left _ hy)
    have hr := hkeep r fun y hy => hother y (List.mem_append_right _ hy)
    simp only [adjust, revalue, flat_adjust, hflat, List.filter_append, List.filter_cons]
    rw [hl, hr]
    simp [haddr]

/-- The representation invariant. -/
structure RepInv (ob : OrderBook α) : Prop where
  ask : CellsInv (flat ob.askBook.entries) ob.askId ob.nextNode Side.isAsk
  bid : CellsInv (flat ob.bidBook.entries) ob.bidId ob.nextNode Side.isBid
  disjoint : ∀ id, ob.askId id = none ∨ ob.bidId id = none

theorem RepInv.new [Zero α] (name : String) : RepInv (OrderBook.new name : OrderBook α) :=
  ⟨.empty, .empty, fun _ => .inl rfl⟩

/-! ## Adding -/

/-- Any two prices in neither order are equal. -/
theorem eq_of_not_lt_of_not_gt (a b : α) (h : ¬ a < b) (h' : ¬ b < a) : a = b :=
  le_antisymm (not_lt.1 h') (not_lt.1 h)

omit [LinearOrder α] in
/-- An id that the one map does not have may be set in the other. -/
theorem disjoint_set {f g g' : OrderIdMap α} {id₀ : OrderId} (hf : f id₀ = none)
    (hg : ∀ id, id ≠ id₀ → g' id = g id) (hdis : ∀ id, f id = none ∨ g id = none) (id : OrderId) :
    f id = none ∨ g' id = none := by
  by_cases he : id = id₀
  · exact .inl (he ▸ hf)
  · exact (hdis id).imp_right fun hn => (hg id he).trans hn

/-- A supported order whose id is in neither map is added, and the invariant holds again. -/
theorem RepInv.add [Field α] {ob : OrderBook α} (h : RepInv ob) {info : OrderInfo α}
    (hid : ob.has info.order.orderId = false) (hs : info.order.side.supported = true)
    (hq : info.order.remainQty = info.order.originalQty) :
    ∃ ob', ob.add info = .ok ob' ∧ RepInv ob' := by
  simp only [OrderBook.has, Bool.or_eq_false_iff, Option.isSome_eq_false_iff,
    Option.isNone_iff_eq_none] at hid
  rcases Bool.or_eq_true_iff.1 hs with hb | ha
  · obtain ⟨hopp, hnone⟩ := fillOnBook_cellsInv (fun a b => a ≤ b) info
      (ob.fillState ob.askId info) (fun h0 => hq ▸ h0) h.ask
    have hdis : ∀ id, (fillOnBook (fun a b => a ≤ b) ob.askBook info
        (ob.fillState ob.askId info)).st.idmap id = none ∨ ob.bidId id = none :=
      fun id => (h.disjoint id).imp_left (hnone id)
    simp only [OrderBook.add, hb, if_true]
    split
    · refine ⟨_, rfl, hopp.next_le (Nat.le_succ _), ?_, fun id => ?_⟩
      · exact addToBook_cellsInv (fun a b h1 h2 => eq_of_not_lt_of_not_gt a b h2 h1) h.bid hid.2 hb
      · refine disjoint_set (hnone _ hid.1) (fun id he => ?_) hdis id
        simp [addToBook, OrderBook.restingOrder, Function.update_of_ne he]
    · exact ⟨_, rfl, hopp, h.bid, hdis⟩
  · obtain ⟨hopp, hnone⟩ := fillOnBook_cellsInv (fun a b => a ≥ b) info
      (ob.fillState ob.bidId info) (fun h0 => hq ▸ h0) h.bid
    have hdis : ∀ id, ob.askId id = none ∨ (fillOnBook (fun a b => a ≥ b) ob.bidBook info
        (ob.fillState ob.bidId info)).st.idmap id = none :=
      fun id => (h.disjoint id).imp_right (hnone id)
    simp only [OrderBook.add, Side.isBid_of_isAsk ha, ha, if_true, Bool.false_eq_true, if_false]
    split
    · refine ⟨_, rfl, ?_, hopp.next_le (Nat.le_succ _), fun id => ?_⟩
      · exact addToBook_cellsInv eq_of_not_lt_of_not_gt h.ask hid.1 ha
      · refine (disjoint_set (hnone _ hid.2) (fun id he => ?_) (fun id => (hdis id).symm) id).symm
        simp [addToBook, OrderBook.restingOrder, Function.update_of_ne he]
    · exact ⟨_, rfl, h.ask, hopp, hdis⟩

/-! ## Cancelling -/

theorem cancelOrder_ok {lt : α → α → Prop} {book book' : SortedMap α (OrderList α) lt}
    {info : OrderIdInfo α} (h : cancelOrder book info = .ok book') :
    book' = book.adjust info.price (List.filter fun n => n.addr ≠ info.order) := by
  unfold cancelOrder at h
  split at h
  · cases h
  · split at h <;> cases h
    rfl

/-- Nothing but the entry of the id and its order is taken, from the side that is asked. -/
theorem cancel_cases {ob ob' : OrderBook α} {id : OrderId} {side : Side}
    (h : ob.cancel id side = .ok ob') : ∃ info, ob.getOrderIdInfo id side = .ok info ∧
      ((side.isAsk = true ∧ ∃ askBook, cancelOrder ob.askBook info = .ok askBook ∧
        ob' = { ob.note .cancelInfo (removeFromIdMap ob.askId id id).isSome with
          askId := removeFromIdMap ob.askId id, askBook }) ∨
      (side.isBid = true ∧ ∃ bidBook, cancelOrder ob.bidBook info = .ok bidBook ∧
        ob' = { ob.note .cancelInfo (removeFromIdMap ob.bidId id id).isSome with
          bidId := removeFromIdMap ob.bidId id, bidBook })) := by
  unfold OrderBook.cancel at h
  obtain ⟨info, hinfo, h⟩ := bind_eq_ok.1 h
  refine ⟨info, hinfo, ?_⟩
  split at h
  case isTrue hask =>
    obtain ⟨askBook, hok, h⟩ := bind_eq_ok.1 h
    cases h
    exact .inl ⟨hask, askBook, hok, rfl⟩
  case isFalse =>
    split at h
    case isTrue hbid =>
      obtain ⟨bidBook, hok, h⟩ := bind_eq_ok.1 h
      cases h
      exact .inr ⟨hbid, bidBook, hok, rfl⟩
    case isFalse => cases h

/-- `ob'` is `ob` without one order `o`: that order and its id are gone from the side it was on,
and nothing else has changed. -/
inductive Removes (ob ob' : OrderBook α) (o : Order α) : Prop
  | ask (l r : List (α × Node α)) (price : α) (n : Node α)
      (order : n.order = o)
      (before : flat ob.askBook.entries = l ++ (price, n) :: r)
      (after : flat ob'.askBook.entries = l ++ r)
      (ids : ob'.askId = removeFromIdMap ob.askId o.orderId)
      (rest : ob'.bidBook = ob.bidBook ∧ ob'.bidId = ob.bidId ∧ ob'.tick = ob.tick ∧
        ob'.eventOutput = ob.eventOutput ∧ ob'.nextNode = ob.nextNode)
  | bid (l r : List (α × Node α)) (price : α) (n : Node α)
      (order : n.order = o)
      (before : flat ob.bidBook.entries = l ++ (price, n) :: r)
      (after : flat ob'.bidBook.entries = l ++ r)
      (ids : ob'.bidId = removeFromIdMap ob.bidId o.orderId)
      (rest : ob'.askBook = ob.askBook ∧ ob'.askId = ob.askId ∧ ob'.tick = ob.tick ∧
        ob'.eventOutput = ob.eventOutput ∧ ob'.nextNode = ob.nextNode)

/-- A cancel takes one order from the resting ones and pushes no event. -/
theorem Removes.resting {ob ob' : OrderBook α} {o : Order α} (h : Removes ob ob' o) :
    ∃ l r x, ob.resting = l ++ x :: r ∧ ob'.resting = l ++ r ∧ x.2.order = o ∧
      ob'.eventOutput = ob.eventOutput := by
  cases h with
  | ask l r price n order before after ids rest =>
    refine ⟨l, r ++ flat ob.bidBook.entries, (price, n), ?_, ?_, order, rest.2.2.2.1⟩
    · simp [OrderBook.resting, before]
    · simp [OrderBook.resting, after, rest.1]
  | bid l r price n order before after ids rest =>
    refine ⟨flat ob.askBook.entries ++ l, r, (price, n), ?_, ?_, order, rest.2.2.2.1⟩
    · simp [OrderBook.resting, before]
    · simp [OrderBook.resting, after, rest.1]

theorem Removes.subset {ob ob' : OrderBook α} {o : Order α} (h : Removes ob ob' o) :
    ob'.resting ⊆ ob.resting := by
  obtain ⟨l, r, x, hbefore, hafter, -⟩ := h.resting
  rw [hbefore, hafter]
  exact ((List.sublist_cons_self x r).append_left l).subset

theorem RepInv.removes {ob ob' : OrderBook α} {o : Order α} (h : RepInv ob)
    (hr : Removes ob ob' o) : RepInv ob' := by
  have hdrop : ∀ (m : OrderIdMap α) (i j : OrderId), m j = none → removeFromIdMap m i j = none :=
    fun m i j hn => by
      unfold removeFromIdMap
      rw [Function.update_apply]
      split
      · rfl
      · exact hn
  cases hr with
  | ask l r price n order before after ids rest =>
    subst order
    obtain ⟨hbook, hid, -, -, hnext⟩ := rest
    have hask := h.ask
    rw [before] at hask
    refine ⟨?_, ?_, fun id => ?_⟩
    · rw [after, ids, hnext]
      exact hask.remove
    · rw [hbook, hid, hnext]
      exact h.bid
    · rw [ids, hid]
      exact (h.disjoint id).imp_left (hdrop _ _ _)
  | bid l r price n order before after ids rest =>
    subst order
    obtain ⟨hbook, hid, -, -, hnext⟩ := rest
    have hbid := h.bid
    rw [before] at hbid
    refine ⟨?_, ?_, fun id => ?_⟩
    · rw [hbook, hid, hnext]
      exact h.ask
    · rw [after, ids, hnext]
      exact hbid.remove
    · rw [ids, hid]
      exact (h.disjoint id).imp_right (hdrop _ _ _)

/-- `getOrder` reads the order an id names. -/
theorem RepInv.getOrder {ob : OrderBook α} (h : RepInv ob) {id : OrderId}
    (hid : ob.has id = true) : ∃ o, ob.getOrder id = .ok o ∧ o.orderId = id := by
  unfold OrderBook.getOrder
  cases hb : ob.bidId id with
  | some info =>
    obtain ⟨-, -, -, n, -, hderef, hid, -⟩ := cancelOrder_spec h.bid hb
    exact ⟨n.order, hderef, hid⟩
  | none =>
    cases ha : ob.askId id with
    | some info =>
      obtain ⟨-, -, -, n, -, hderef, hid, -⟩ := cancelOrder_spec h.ask ha
      exact ⟨n.order, hderef, hid⟩
    | none => simp [OrderBook.has, ha, hb] at hid

/-- The order `getOrder` gives is at rest. -/
theorem mem_resting_of_getOrder {ob : OrderBook α} (h : RepInv ob) {id : OrderId} {o : Order α}
    (get : ob.getOrder id = .ok o) : ∃ x ∈ ob.resting, x.2.order = o := by
  unfold OrderBook.getOrder at get
  split at get
  · rename_i info hi
    obtain ⟨-, l, r, n, -, hderef, -, hflat, -⟩ := cancelOrder_spec h.bid hi
    rw [hderef, Except.ok.injEq] at get
    exact ⟨(info.price, n), List.mem_append_right _ (hflat ▸ by simp), get⟩
  · split at get
    · rename_i info hi
      obtain ⟨-, l, r, n, -, hderef, -, hflat, -⟩ := cancelOrder_spec h.ask hi
      rw [hderef, Except.ok.injEq] at get
      exact ⟨(info.price, n), List.mem_append_left _ (hflat ▸ by simp), get⟩
    · cases get

/-- `cancel` of an id its side has removes the order `getOrder` gives. -/
theorem RepInv.cancel {ob : OrderBook α} (h : RepInv ob) {id : OrderId} {side : Side}
    (hid : ob.hasSide id side = true) : ∃ ob' o, ob.cancel id side = .ok ob' ∧
      ob.getOrder id = .ok o ∧ o.orderId = id ∧ o.side.isBid = side.isBid ∧ Removes ob ob' o ∧
      ob'.lookups = ob.lookups ++ [⟨.cancelInfo, false⟩] := by
  unfold OrderBook.hasSide at hid
  split at hid
  · rename_i hb
    obtain ⟨info, hi⟩ := Option.isSome_iff_exists.1 hid
    obtain ⟨book', l, r, n, hok, hderef, hn, hflat, hafter⟩ := cancelOrder_spec h.bid hi
    refine ⟨{ ob.note .cancelInfo (removeFromIdMap ob.bidId id id).isSome with
      bidId := removeFromIdMap ob.bidId id, bidBook := book' }, n.order, ?_, ?_, hn,
      ?_, .bid l r info.price n rfl hflat hafter ?_ ?_, ?_⟩
    · have hinfo : ob.getOrderIdInfo id side = .ok info := by
        simp [OrderBook.getOrderIdInfo, hb, hi]
      simp [OrderBook.cancel, hinfo, OrderBook.note, hb, hok, bind, Except.bind, pure, Except.pure]
    · simp [OrderBook.getOrder, hi, hderef]
    · rw [hb]
      exact h.bid.sides (info.price, n) (hflat ▸ by simp)
    · rw [hn]
    · exact ⟨rfl, rfl, rfl, rfl, rfl⟩
    · simp [OrderBook.note, removeFromIdMap]
  · split at hid
    · rename_i hb ha
      obtain ⟨info, hi⟩ := Option.isSome_iff_exists.1 hid
      have hnone : ob.bidId id = none :=
        (h.disjoint id).resolve_left fun hn => by simp [hi] at hn
      obtain ⟨book', l, r, n, hok, hderef, hn, hflat, hafter⟩ := cancelOrder_spec h.ask hi
      refine ⟨{ ob.note .cancelInfo (removeFromIdMap ob.askId id id).isSome with
        askId := removeFromIdMap ob.askId id, askBook := book' }, n.order, ?_, ?_, hn,
        ?_, .ask l r info.price n rfl hflat hafter ?_ ?_, ?_⟩
      · have hinfo : ob.getOrderIdInfo id side = .ok info := by
          simp [OrderBook.getOrderIdInfo, ha, hi]
        simp [OrderBook.cancel, hinfo, OrderBook.note, ha, hok, bind, Except.bind, pure,
          Except.pure]
      · simp [OrderBook.getOrder, hi, hnone, hderef]
      · have hside : n.order.side.isAsk = true := h.ask.sides (info.price, n) (hflat ▸ by simp)
        rw [Side.isBid_of_isAsk hside, Side.isBid_of_isAsk ha]
      · rw [hn]
      · exact ⟨rfl, rfl, rfl, rfl, rfl⟩
      · simp [OrderBook.note, removeFromIdMap]
    · cases hid

/-! ## Runs of the workers -/

theorem RepInv.allowTick {ob : OrderBook α} (h : RepInv ob) (side : Side) :
    RepInv (ob.allowTick side).2 := ⟨h.ask, h.bid, h.disjoint⟩

/-- The locked check either refuses or hands on the order `cancel` will remove. -/
theorem RepInv.verify {ob : OrderBook α} (h : RepInv ob) (id : OrderId) (qty : α) (side : Side) :
    (∃ r, Cancel.verifyOrderStateWithLock ob id qty side = .ok (.inl r)) ∨
    ∃ ob' o, Cancel.verifyOrderStateWithLock ob id qty side = .ok (.inr o) ∧ o.remainQty = qty ∧
      ob.hasSide id side = true ∧ ob.cancel id side = .ok ob' ∧ o.orderId = id ∧
      o.side.isBid = side.isBid ∧ Removes ob ob' o ∧
      ob'.lookups = ob.lookups ++ [⟨.cancelInfo, false⟩] := by
  unfold Cancel.verifyOrderStateWithLock
  cases hid : ob.hasSide id side with
  | false => exact .inl ⟨.notFound, rfl⟩
  | true =>
    obtain ⟨ob', o, hok, hget, ho, hside, hrem, hlook⟩ := h.cancel hid
    by_cases hq : o.remainQty = qty
    · exact .inr ⟨ob', o, by simp [hget, Except.map, hq], hq, rfl, hok, ho, hside, hrem, hlook⟩
    · exact .inl ⟨.quantity, by simp [hget, Except.map, hq]⟩

/-- The order the locked check handed on is the one `cancel` removes. -/
theorem RepInv.cancel_verified {ob : OrderBook α} (h : RepInv ob) {id : OrderId} {qty : α}
    {side : Side} {order : Order α}
    (hv : Cancel.verifyOrderStateWithLock ob id qty side = .ok (.inr order)) :
    ∃ ob', ob.cancel id side = .ok ob' ∧ RepInv ob' ∧ order.remainQty = qty ∧ order.orderId = id ∧
      order.side.isBid = side.isBid ∧ Removes ob ob' order := by
  rcases h.verify id qty side with ⟨r, hr⟩ | ⟨ob', o, ho, hqty, -, hok, hid, hside, hrem, -⟩
  · rw [hv] at hr
    cases hr
  · rw [hv] at ho
    cases ho
    exact ⟨ob', hok, h.removes hrem, hqty, hid, hside, hrem⟩

variable [Field α]

/-- A request in hand is worked off without a fault, and the invariant holds again. -/
theorem RepInv.step {ob : OrderBook α} (h : RepInv ob) (op : Worker.Op α) :
    ∃ ob', Worker.step ob op = some ob' ∧ RepInv ob' := by
  cases op with
  | newOrder i =>
    have h' := h.allowTick i.info.order.side
    simp only [Worker.step, NewOrder.work, NewOrder.verdict]
    cases hallow : (ob.allowTick i.info.order.side).1 with
    | false => exact ⟨_, rfl, h'⟩
    | true =>
      cases hid : (ob.allowTick i.info.order.side).2.has i.info.order.orderId with
      | false =>
        obtain ⟨ob', hadd, hrep⟩ := h'.add hid i.supported rfl
        exact ⟨ob', by simp [hadd, Except.map, Except.toOption], hrep⟩
      | true => exact ⟨_, rfl, h'⟩
  | cancel i =>
    simp only [Worker.step, Cancel.work]
    rcases h.verify i.origClOrdId i.orderQty i.side with
      ⟨r, hr⟩ | ⟨ob', o, hv, -, -, hok, -, -, hrem, -⟩
    · exact ⟨ob, by simp [hr, bind, Except.bind, pure, Except.pure, Except.toOption], h⟩
    · exact ⟨ob', by simp [hv, hok, bind, Except.bind, pure, Except.pure, Except.toOption],
        h.removes hrem⟩

theorem repInv_of_reachable {name : String} {ob : OrderBook α} (h : Worker.Reachable name ob) :
    RepInv ob := by
  refine h.invariant (RepInv.new name) fun s op s' hI _ hs => ?_
  obtain ⟨s'', hs', hI'⟩ := hI.step op
  rw [hs] at hs'
  cases hs'
  exact hI'

/-! ## The tick record -/

theorem FillSteps.settled {c c' : List (α × Node α)} {st st' : FillState α}
    (h : FillSteps (c, st) (c', st')) (hset : st.tick.Settled) : st'.tick.Settled := by
  refine h.invariant (I := fun _ st => st.tick.Settled) hset fun _ _ _ _ hI hs => ?_
  cases hs with
  | fill => exact Tick.settled_trade _ _
  | tick => exact Tick.settled_computeTick _
  | note => exact hI

theorem fillOnBook_settled {lt : α → α → Prop} (cmp : α → α → Bool)
    (book : SortedMap α (OrderList α) lt) (info : OrderInfo α) {st : FillState α}
    (hact : st.Active) (hset : st.tick.Settled) :
    (fillOnBook cmp book info st).st.tick.Settled := by
  obtain ⟨st', reports, hsteps, hst, -⟩ := fillOnBook_spec cmp book info st hact
  rw [hst]
  exact hsteps.settled hset

omit [Field α] in
theorem Removes.tick {ob ob' : OrderBook α} {o : Order α} (h : Removes ob ob' o) :
    ob'.tick = ob.tick := by
  cases h with
  | ask _ _ _ _ _ _ _ _ rest => exact rest.2.2.1
  | bid _ _ _ _ _ _ _ _ rest => exact rest.2.2.1

/-- The tick record is settled whenever no worker holds the book. -/
theorem settled_of_reachable {name : String} {ob : OrderBook α} (h : Worker.Reachable name ob) :
    ob.tick.Settled := by
  refine h.invariant_with (I := fun ob => ob.tick.Settled) (J := RepInv) ?_
    (fun _ hs => repInv_of_reachable hs) fun s op s' hI hrep _ hs => ?_
  · simp [OrderBook.new, Tick.Settled, Tick.computeTick]
  · cases op with
    | newOrder i =>
      have hset : (s.allowTick i.side).2.tick.Settled := Tick.settled_computeTick _
      rcases Worker.step_newOrder hs with ⟨-, rfl⟩ | ⟨-, -, -, hadd⟩
      · exact hset
      · rcases Bool.or_eq_true_iff.1 i.supported with hb | ha
        · rw [(add_bid hb hadd).2.2.1]
          exact fillOnBook_settled _ _ _ (fun h0 => h0) hset
        · rw [(add_ask ha hadd).2.2.1]
          exact fillOnBook_settled _ _ _ (fun h0 => h0) hset
    | cancel i =>
      rcases Worker.step_cancel hs with ⟨-, rfl⟩ | ⟨o, hv, hok⟩
      · exact hI
      · rcases hrep.verify i.origClOrdId i.orderQty i.side with
          ⟨r, hr⟩ | ⟨ob', o', -, -, -, hok', -, -, hrem, -⟩
        · rw [hv] at hr
          cases hr
        · rw [hok] at hok'
          cases hok'
          rw [hrem.tick]
          exact hI

/-! ## The index, side by side -/

/-- `n` is in the order list at `price`. -/
def Listed {lt : α → α → Prop} (book : SortedMap α (OrderList α) lt) (price : α) (n : Node α) :
    Prop := ∃ list, book.get? price = some list ∧ n ∈ list

/-- The id map of a side names, for each id, the one position and price the id is listed at. -/
def Indexes {lt : α → α → Prop} (idmap : OrderIdMap α) (book : SortedMap α (OrderList α) lt) :
    Prop := ∀ id info, idmap id = some info ↔
      ∃ n, (Listed book info.price n ∧ n.order.orderId = id ∧ n.addr = info.order) ∧
        ∀ price' n', Listed book price' n' → n'.order.orderId = id → price' = info.price ∧ n' = n

/-- The ids listed on a side, once for each order. -/
def listedIds {lt : α → α → Prop} (book : SortedMap α (OrderList α) lt) : List OrderId :=
  (flat book.entries).map fun x => x.2.order.orderId

omit [Field α] in
theorem CellsInv.indexes {lt : α → α → Prop} [Std.Irrefl lt] {book : SortedMap α (OrderList α) lt}
    {idmap : OrderIdMap α} {next : Nat} {onSide : Side → Bool}
    (h : CellsInv (flat book.entries) idmap next onSide) : Indexes idmap book := by
  intro id info
  constructor
  · intro hi
    obtain ⟨⟨price, n⟩, hm, he⟩ := List.mem_map.1 ((h.index id info).1 hi)
    cases he
    refine ⟨n, ⟨mem_flat_iff.1 hm, rfl, rfl⟩, fun price' n' hl' hid' => ?_⟩
    have := List.inj_on_of_nodup_map h.ids (mem_flat_iff.2 hl') hm hid'
    exact ⟨congrArg Prod.fst this, congrArg Prod.snd this⟩
  · rintro ⟨n, ⟨hl, rfl, ha⟩, -⟩
    have := h.indexed (mem_flat_iff.2 hl)
    rw [this, ha]

end

end Fix42
