import Fix42.Book.Accesses
import Fix42.Book.Proof.Rep

/-!
# What the accesses of a request add up to

`Worker.run_accesses`: carried out in order, the accesses of a request leave the book
`Worker.step` gives. `Filling` relates a book in the middle of the matching loop to the loop's state;
there is one lemma for each kind of access (`Filling.visit`, `Filling.write` …).
-/

namespace Fix42

open SortedMap Access

variable {α : Type*} [LinearOrder α] {ob ob' ob₀ : OrderBook α} {b : Bundle} {id : OrderId}

/-! ## The book by side -/

namespace OrderBook

/-- The book but for one side and the records the matching loop writes. -/
def Frame (b : Bundle) (ob ob' : OrderBook α) : Prop :=
  ob'.name = ob.name ∧ ob'.nextNode = ob.nextNode ∧
    ∀ b', b' ≠ b → ob'.entries b' = ob.entries b' ∧ ob'.ids b' = ob.ids b'

theorem Frame.refl (b : Bundle) (ob : OrderBook α) : Frame b ob ob :=
  ⟨rfl, rfl, fun _ _ => ⟨rfl, rfl⟩⟩

theorem frame_setIds (ob : OrderBook α) (b : Bundle) (idmap : OrderIdMap α) :
    Frame b ob (ob.setIds idmap b) := by
  cases b <;> refine ⟨rfl, rfl, fun b' hb => ?_⟩ <;> cases b' <;> first
    | exact ⟨rfl, rfl⟩
    | exact absurd rfl hb

theorem frame_adjust (ob : OrderBook α) (b : Bundle) (price : α) (f : OrderList α → OrderList α) :
    Frame b ob (ob.adjust price f b) := by
  cases b <;> refine ⟨rfl, rfl, fun b' hb => ?_⟩ <;> cases b' <;> first
    | exact ⟨rfl, rfl⟩
    | exact absurd rfl hb

theorem Frame.trans {ob'' : OrderBook α} (h : Frame b ob ob') (h' : Frame b ob' ob'') :
    Frame b ob ob'' :=
  ⟨h'.1.trans h.1, h'.2.1.trans h.2.1, fun b' hb =>
    ⟨(h'.2.2 b' hb).1.trans (h.2.2 b' hb).1, (h'.2.2 b' hb).2.trans (h.2.2 b' hb).2⟩⟩

@[simp] theorem entries_adjust (ob : OrderBook α) (b : Bundle) (price : α)
    (f : OrderList α → OrderList α) :
    (ob.adjust price f b).entries b = adjustList price f (ob.entries b) := by
  cases b <;> rfl

@[simp] theorem ids_adjust (ob : OrderBook α) (b b' : Bundle) (price : α)
    (f : OrderList α → OrderList α) : (ob.adjust price f b).ids b' = ob.ids b' := by
  cases b <;> cases b' <;> rfl

@[simp] theorem entries_setIds (ob : OrderBook α) (b b' : Bundle) (idmap : OrderIdMap α) :
    (ob.setIds idmap b).entries b' = ob.entries b' := by
  cases b <;> cases b' <;> rfl

@[simp] theorem ids_setIds (ob : OrderBook α) (b : Bundle) (idmap : OrderIdMap α) :
    (ob.setIds idmap b).ids b = idmap := by
  cases b <;> rfl

theorem entries_nodup (ob : OrderBook α) (b : Bundle) : ((ob.entries b).map Prod.fst).Nodup := by
  cases b
  · exact ob.bidBook.sorted.imp fun h => h.ne'
  · exact ob.askBook.sorted.imp fun h => h.ne

theorem level_eq_some {price : α} {list : OrderList α} :
    ob.level price b = some list ↔ (price, list) ∈ ob.entries b := by
  cases b <;> exact get?_eq_some

end OrderBook

/-- Among different keys only the slot of `k` is touched. -/
theorem adjustList_split {κ ν : Type*} [DecidableEq κ] {k : κ} {v : ν} {f : ν → ν}
    {es es' : List (κ × ν)} (h : ((es ++ (k, v) :: es').map Prod.fst).Nodup) :
    adjustList k f (es ++ (k, v) :: es') = es ++ (k, f v) :: es' := by
  rw [List.map_append, List.map_cons, List.nodup_middle, List.nodup_cons, ← List.map_append] at h
  have hkeep : ∀ e ∈ es ++ es', (if e.1 = k then (e.1, f e.2) else e) = e := fun e he =>
    if_neg fun hk => h.1 (List.mem_map.2 ⟨e, he, hk⟩)
  simp only [List.mem_append] at hkeep
  simp only [adjustList, List.map_append, List.map_cons, if_true]
  rw [List.map_congr_left fun e he => hkeep e (.inl he), List.map_id',
    List.map_congr_left fun e he => hkeep e (.inr he), List.map_id']

theorem modify_middle {β : Type*} {f : β → β} {n : β} {rest : List β} :
    ∀ kept : List β, (kept ++ n :: rest).modify kept.length f = kept ++ f n :: rest
  | [] => rfl
  | m :: kept => by simp [modify_middle kept]

/-! ## The matching loop -/

@[simp] theorem FillState.note_main {α : Type*} (st : FillState α) (site : LookupSite)
    (live : Bool) : (st.note site live).main = st.main := rfl

/-- The book `ob` while the loop that started on `ob₀` is at `st`, its side holding `es`. -/
structure Filling (b : Bundle) (ob₀ : OrderBook α) (es : List (α × OrderList α))
    (st : FillState α) (ob : OrderBook α) : Prop where
  entries : ob.entries b = es
  ids : ob.ids b = st.idmap
  tick : ob.tick = st.tick
  events : ob.eventOutput = st.events
  lookups : ob.lookups = st.lookups
  frame : OrderBook.Frame b ob₀ ob

namespace Filling

variable {es done more : List (α × OrderList α)} {st : FillState α} {price : α}
  {list : OrderList α}

theorem visit (h : Filling b ob₀ (done ++ (price, list) :: more) st ob) (site : LookupSite)
    (addr : Nat) :
    Filling b ob₀ (done ++ (price, list) :: more) (st.note site (deref list addr).isSome)
      (run ob (.visit site b ⟨addr, price⟩)) := by
  have hl : ob.level price b = some list := OrderBook.level_eq_some.2 (by simp [h.entries])
  refine { h with lookups := ?_ }
  simp [run, hl, OrderBook.note, FillState.note, h.lookups]

/-- An operation on the list of one level. -/
theorem adjust {f : OrderList α → OrderList α}
    (h : Filling b ob₀ (done ++ (price, list) :: more) st ob) :
    Filling b ob₀ (done ++ (price, f list) :: more) st (ob.adjust price f b) := by
  have hnd := ob.entries_nodup b
  rw [h.entries] at hnd
  refine ⟨?_, (ob.ids_adjust b b price f).trans h.ids, ?_, ?_, ?_,
    h.frame.trans (ob.frame_adjust b price f)⟩
  · rw [OrderBook.entries_adjust, h.entries, adjustList_split hnd]
  · rw [← h.tick]; cases b <;> rfl
  · rw [← h.events]; cases b <;> rfl
  · rw [← h.lookups]; cases b <;> rfl

theorem write {kept rest : OrderList α} {n : Node α} {order : Order α}
    (h : Filling b ob₀ (done ++ (price, kept ++ n :: rest) :: more) st ob)
    (ho : writeOrder order.remainQty order.avgPrice order.status n = { n with order }) :
    Filling b ob₀ (done ++ (price, kept ++ { n with order } :: rest) :: more) st
      (run ob (.write b price kept.length order.remainQty order.avgPrice order.status)) := by
  have := h.adjust (f := fun list =>
    list.modify kept.length (writeOrder order.remainQty order.avgPrice order.status))
  rwa [modify_middle, ho] at this

theorem erase {kept rest : OrderList α} {n : Node α}
    (h : Filling b ob₀ (done ++ (price, kept ++ n :: rest) :: more) st ob) :
    Filling b ob₀ (done ++ (price, kept ++ rest) :: more) st
      (run ob (.erase b price kept.length)) := by
  have := h.adjust (f := fun list => list.eraseIdx kept.length)
  rwa [List.eraseIdx_append_of_length_le le_rfl, Nat.sub_self, List.eraseIdx_cons_zero] at this

theorem remove (h : Filling b ob₀ es st ob) (id : OrderId) :
    Filling b ob₀ es { st with idmap := removeFromIdMap st.idmap id }
      (runAll (removeAccesses b id) ob) := by
  have hf := h.frame.trans (ob.frame_setIds b (removeFromIdMap (ob.ids b) id))
  refine ⟨?_, ?_, ?_, ?_, ?_, hf⟩
  · exact (ob.entries_setIds b b _).trans h.entries
  · exact (ob.ids_setIds b _).trans (congrArg (removeFromIdMap · id) h.ids)
  · rw [← h.tick]; cases b <;> rfl
  · rw [← h.events]; cases b <;> rfl
  · rw [← h.lookups]; cases b <;> rfl

theorem setTick (h : Filling b ob₀ es st ob) (tick : Tick α) :
    Filling b ob₀ es { st with tick } (run ob (.setTick tick)) :=
  ⟨(by cases b <;> exact h.entries), (by cases b <;> exact h.ids), rfl, h.events, h.lookups,
    h.frame.1, h.frame.2.1, fun b' hb => by cases b' <;> exact h.frame.2.2 _ hb⟩

theorem pushEvent (h : Filling b ob₀ es st ob) (event : Event α) :
    Filling b ob₀ es (st.push [event]) (run ob (.pushEvent event)) :=
  ⟨(by cases b <;> exact h.entries), (by cases b <;> exact h.ids), h.tick,
    congrArg (· ++ [event]) h.events, h.lookups, h.frame.1, h.frame.2.1,
    fun b' hb => by cases b' <;> exact h.frame.2.2 _ hb⟩

theorem setMain (h : Filling b ob₀ es st ob) (main : Event α) :
    Filling b ob₀ es { st with main } ob :=
  ⟨h.entries, h.ids, h.tick, h.events, h.lookups, h.frame⟩

theorem pushEvents : ∀ (events : List (Event α)) {st : FillState α} {ob : OrderBook α},
    Filling b ob₀ es st ob →
      Filling b ob₀ es (st.push events) (runAll (events.map .pushEvent) ob)
  | [], st, ob, h => by simpa [FillState.push] using h
  | e :: events, st, ob, h => by
    have := pushEvents events (h.pushEvent e)
    simpa [FillState.push] using this

end Filling

/-- A book the loop has reached is told by the loop's state. -/
theorem Filling.eq {es : List (α × OrderList α)} {st : FillState α}
    (h : Filling b ob₀ es st ob) (ob' : OrderBook α) (h' : Filling b ob₀ es st ob') :
    ob = ob' := by
  obtain ⟨hes, hids, htick, hev, hlook, hname, hnext, hframe⟩ := h
  obtain ⟨hes', hids', htick', hev', hlook', hname', hnext', hframe'⟩ := h'
  have hside : ∀ b', ob.entries b' = ob'.entries b' ∧ ob.ids b' = ob'.ids b' := fun b' => by
    by_cases hb : b' = b
    · subst hb
      exact ⟨hes.trans hes'.symm, hids.trans hids'.symm⟩
    · exact ⟨(hframe b' hb).1.trans (hframe' b' hb).1.symm,
        (hframe b' hb).2.trans (hframe' b' hb).2.symm⟩
  obtain ⟨hbid, hbidId⟩ := hside .bid
  obtain ⟨hask, haskId⟩ := hside .ask
  cases ob
  cases ob'
  simp only [OrderBook.entries, OrderBook.ids] at *
  simp only [OrderBook.mk.injEq]
  exact ⟨hname.trans hname'.symm, htick.trans htick'.symm, hev.trans hev'.symm, hbidId, haskId,
    SortedMap.ext hask, SortedMap.ext hbid, hnext.trans hnext'.symm, hlook.trans hlook'.symm⟩

/-! ## The other functions -/

/-- The accesses of `addToBook` leave what `addToBook` returns. -/
theorem run_addToBook (ob : OrderBook α) (price : α) (order : Order α) :
    (runAll (addToBookAccesses .bid price order ob.nextNode) ob =
      let r := addToBook ob.bidBook ob.bidId price ⟨ob.nextNode, order⟩
      { ob with bidBook := r.1, bidId := r.2, nextNode := ob.nextNode + 1 }) ∧
    (runAll (addToBookAccesses .ask price order ob.nextNode) ob =
      let r := addToBook ob.askBook ob.askId price ⟨ob.nextNode, order⟩
      { ob with askBook := r.1, askId := r.2, nextNode := ob.nextNode + 1 }) := ⟨rfl, rfl⟩

theorem run_has (ob₀ ob : OrderBook α) (id : OrderId) : runAll (hasAccesses ob₀ id) ob = ob := by
  unfold hasAccesses
  split <;> rfl

theorem run_getOrder (ob₀ ob : OrderBook α) (id : OrderId) :
    runAll (getOrderAccesses ob₀ id) ob = ob := by
  unfold getOrderAccesses
  cases ob₀.bidId id with
  | some info => rfl
  | none => cases ob₀.askId id <;> rfl

/-- The entry that is read is the one of the bundle. -/
theorem ids_of_getOrderIdInfo {side : Side} {info : OrderIdInfo α}
    (h : ob.getOrderIdInfo id side = .ok info) : ob.ids side.bundle id = some info := by
  have hsome : ∀ {entry : Option (OrderIdInfo α)}, entry.elim (.error .undefined) .ok =
      (.ok info : Except Fault (OrderIdInfo α)) → entry = some info := by
    intro entry hentry
    cases entry with
    | none => cases hentry
    | some info' => exact congrArg some (Except.ok.inj hentry)
  unfold OrderBook.getOrderIdInfo at h
  unfold Side.bundle
  split at h
  case isTrue hb =>
    rw [if_pos hb]
    exact hsome h
  case isFalse hb =>
    rw [if_neg hb]
    split at h
    · exact hsome h
    · cases h

/-- The accesses of `cancel` leave what `cancel` returns. -/
theorem run_cancel {side : Side} (h : ob.cancel id side = .ok ob') :
    runAll (cancelAccesses ob id side.bundle) ob = ob' := by
  obtain ⟨info, hinfo, hcases⟩ := cancel_cases h
  have hids := ids_of_getOrderIdInfo hinfo
  rcases hcases with ⟨ha, askBook, hok, rfl⟩ | ⟨hb, bidBook, hok, rfl⟩
  · have hbundle : side.bundle = .ask := if_neg (by simp [Side.isBid_of_isAsk ha])
    rw [cancelOrder_ok hok, cancelAccesses, hids, hbundle]
    rfl
  · have hbundle : side.bundle = .bid := if_pos hb
    rw [cancelOrder_ok hok, cancelAccesses, hids, hbundle]
    rfl

section
variable [Field α]

theorem fillOrder_write (main : Event α) (price : α) (n : Node α) :
    let o := (fillOrder main price n.order).order
    writeOrder o.remainQty o.avgPrice o.status n = { n with order := o } := by
  unfold fillOrder
  split <;> rfl

theorem Filling.settle {es : List (α × OrderList α)} {st : FillState α}
    (h : Filling b ob₀ es st ob) (price : α) :
    Filling b ob₀ es (settle price st).1 (runAll (settleAccesses price st) ob) := by
  unfold settleAccesses Fix42.settle
  dsimp only
  split
  · exact (h.setTick _).pushEvent _
  · exact h.setTick _

theorem Filling.fillList {price : α} {done more : List (α × OrderList α)} :
    ∀ (rest kept : OrderList α) {st : FillState α} {ob : OrderBook α},
      Filling b ob₀ (done ++ (price, kept ++ rest) :: more) st ob →
      let r := fillList price kept rest st
      Filling b ob₀ (done ++ (price, r.1) :: more) r.2.1
        (runAll (fillListAccesses b price kept rest st) ob)
  | [], kept, st, ob, h => by simpa [Fix42.fillList, fillListAccesses] using h
  | n :: rest, kept, st, ob, h => by
    have hseen := h.visit .fillOrder n.addr
    by_cases hu : n.order.userId = st.main.order.userId
    · simp only [Fix42.fillList, fillListAccesses, runAll_cons, FillState.note_main,
        fillOrder_skipped hu, FillState.push, List.append_nil]
      refine Filling.fillList rest (kept ++ [n]) ?_
      rw [List.append_assoc]
      exact hseen
    · -- the fill itself: the fields of the order, then the event
      have hfill := ((hseen.write (fillOrder_write st.main price n)).setMain
        (fillOrder st.main price n.order).main).pushEvents (fillOrder st.main price n.order).pushed
      simp only [Fix42.fillList, fillListAccesses, runAll_cons, FillState.note_main]
      cases hst : (fillOrder st.main price n.order).status with
      | skipped =>
        rw [fillOrder_status price hu] at hst
        split at hst <;> cases hst
      | partialyFilled =>
        have hend := hfill.settle price
        dsimp only
        generalize Fix42.settle price _ = e at hend ⊢
        obtain ⟨st', _ | _⟩ := e
        · simpa using Filling.fillList rest (kept ++ [{ n with order := _ }]) (by simpa using hend)
        · simpa using hend
      | filled =>
        have hend := ((hfill.erase.visit .removeFromIdMap n.addr).remove n.order.orderId).settle price
        simp only [FillState.note_main] at hend
        dsimp only
        generalize Fix42.settle price _ = e at hend ⊢
        obtain ⟨st', _ | _⟩ := e
        · simpa using Filling.fillList rest kept hend
        · simpa using hend

theorem Filling.fillLevels (cmp : α → α → Bool) (info : OrderInfo α) :
    ∀ (levels done : List (α × OrderList α)) {st : FillState α} {ob : OrderBook α},
      Filling b ob₀ (done ++ levels) st ob →
      let r := fillLevels cmp info levels st
      Filling b ob₀ (done ++ r.1) r.2.1 (runAll (fillLevelsAccesses b cmp info levels st) ob)
  | [], _, _, _, h => h
  | (price, list) :: levels, done, st, ob, h => by
    unfold Fix42.fillLevels fillLevelsAccesses
    split
    · exact h
    · have htick := h.setTick (st.tick.allowTick info.order.side).2
      dsimp only
      split
      · exact htick
      · have hlist := Filling.fillList list [] htick
        rw [runAll_cons, runAll_append]
        rcases hr : Fix42.fillList price [] list _ with ⟨list', st', _ | _⟩
        all_goals rw [hr] at hlist
        · have := Filling.fillLevels cmp info levels (done ++ [(price, list')]) (by simpa using hlist)
          simpa using this
        · exact hlist

theorem Filling.fillOnBook {lt : α → α → Prop} (cmp : α → α → Bool)
    {book : SortedMap α (OrderList α) lt} (info : OrderInfo α) {st : FillState α}
    (h : Filling b ob₀ book.entries st ob) :
    let r := fillOnBook cmp book info st
    Filling b ob₀ r.book.entries r.st
      (runAll (fillOnBookAccesses b cmp book.entries info st) ob) := by
  have hlevels := Filling.fillLevels cmp info book.entries [] h
  simp only [Fix42.fillOnBook, fillOnBookAccesses, SortedMap.revalue, runAll_append]
  generalize Fix42.fillLevels cmp info book.entries st = r at hlevels ⊢
  obtain ⟨levels, st', exit⟩ := r
  cases exit with
  | filled | tickRefused => exact hlevels
  | priceLimit | exhausted =>
    simp only [fillEnd, fillEndAccesses]
    split
    · exact hlevels.pushEvent _
    · exact hlevels

/-! ## Requests -/

/-- The accesses of `add` leave what `add` returns. -/
theorem run_add {info : OrderInfo α} (h : ob.add info = .ok ob') :
    runAll (addAccesses ob info) ob = ob' := by
  unfold OrderBook.add at h
  unfold addAccesses
  dsimp only at h ⊢
  split at h
  · rename_i hb
    have hfill : Filling .ask ob ob.askBook.entries (ob.fillState ob.askId info) ob :=
      ⟨rfl, rfl, rfl, rfl, rfl, .refl _ _⟩
    have hrun := (hfill.fillOnBook (fun a b => a ≤ b) info).eq { ob with
      askBook := _, askId := _, tick := _, eventOutput := _, lookups := _ }
      ⟨rfl, rfl, rfl, rfl, rfl, rfl, rfl, fun b' hb' => by
        cases b' <;> first | exact ⟨rfl, rfl⟩ | exact absurd rfl hb'⟩
    rw [if_pos hb, runAll_append, hrun]
    split at h <;> cases h
    · rename_i hl
      rw [if_pos hl]
      exact (run_addToBook _ _ _).1
    · rename_i hl
      rw [if_neg hl]
      rfl
  · rename_i hb
    split at h
    · have hfill : Filling .bid ob ob.bidBook.entries (ob.fillState ob.bidId info) ob :=
        ⟨rfl, rfl, rfl, rfl, rfl, .refl _ _⟩
      have hrun := (hfill.fillOnBook (fun a b => a ≥ b) info).eq { ob with
        bidBook := _, bidId := _, tick := _, eventOutput := _, lookups := _ }
        ⟨rfl, rfl, rfl, rfl, rfl, rfl, rfl, fun b' hb' => by
          cases b' <;> first | exact ⟨rfl, rfl⟩ | exact absurd rfl hb'⟩
      rw [if_neg hb, runAll_append, hrun]
      split at h <;> cases h
      · rename_i hl
        rw [if_pos hl]
        exact (run_addToBook _ _ _).2
      · rename_i hl
        rw [if_neg hl]
        rfl
    · cases h

/-- The accesses of a request, carried out in order, leave what the worker leaves. -/
theorem Worker.run_accesses {op : Op α} (h : step ob op = some ob') :
    runAll (accesses ob op) ob = ob' := by
  cases op with
  | newOrder i =>
    have hallow : (runAll [.setTick ob.tick.computeTick] ob) = (ob.allowTick i.side).2 := rfl
    rw [accesses, ← List.singleton_append, runAll_append, hallow]
    rcases step_newOrder h with ⟨hv, rfl⟩ | ⟨hv, -, -, hadd⟩
    · cases hverdict : (NewOrder.verdict ob i.info).1 with
      | tickRefused => rfl
      | duplicate => exact run_has _ _ _
      | accepted => exact absurd hverdict hv
    · rw [hv, runAll_append, run_has, run_add hadd]
  | cancel i =>
    have hfind : runAll (findAccesses i.side.bundle i.origClOrdId) ob = ob := rfl
    rw [accesses, runAll_append, hfind]
    rcases step_cancel h with ⟨⟨r, hv⟩, rfl⟩ | ⟨o, hv, hok⟩
    · rw [hv]
      cases r with
      | notFound => rfl
      | quantity => exact run_getOrder _ _ _
    · rw [hv, runAll_append, run_getOrder, run_cancel hok]

end

end Fix42
