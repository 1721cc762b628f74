import Fix42.Market.Proof.Base

/-!
# Who can cancel an order

`book_changes`: the orders and id maps of a book change only when the NewOrder worker adds an order,
and when the Cancel worker carries out a request that names a resting order by id, side of the book
and remaining quantity; then exactly that order goes. `cancel_names`: the request's sender has no part in
it. `cancel_by_other` is a run in which one user cancels another's order.
-/

namespace Fix42

open SortedMap

variable {α : Type*}

/-- What the Cancel worker compares before it cancels. -/
structure Cancel.Names (i : Context (OrderCancelRequest α)) (order : Order α) : Prop where
  id : order.orderId = i.message.origClOrdId
  side : order.side.isBid = i.message.side.isBid
  quantity : i.message.orderQty = some order.remainQty

/-- Both sides and both id maps are the same. -/
structure OrderBook.SameOrders [LinearOrder α] (ob ob' : OrderBook α) : Prop where
  askBook : ob'.askBook = ob.askBook
  bidBook : ob'.bidBook = ob.bidBook
  askId : ob'.askId = ob.askId
  bidId : ob'.bidId = ob.bidId

theorem OrderBook.SameOrders.refl [LinearOrder α] (ob : OrderBook α) : ob.SameOrders ob :=
  ⟨rfl, rfl, rfl, rfl⟩

section
variable [LinearOrder α]

/-- Dereferencing the entry of a listed order gives that order. -/
theorem CellsInv.derefInfo {lt : α → α → Prop} [Std.Irrefl lt] {book : SortedMap α (OrderList α) lt}
    {idmap : OrderIdMap α} {next : Nat} {onSide : Side → Bool}
    (h : CellsInv (flat book.entries) idmap next onSide) {x : α × Node α}
    (hx : x ∈ flat book.entries) : OrderBook.derefInfo book ⟨x.2.addr, x.1⟩ = .ok x.2.order := by
  obtain ⟨-, l, r, n, -, hderef, hid, hflat, -⟩ := cancelOrder_spec h (h.indexed hx)
  have hn : (x.1, n) ∈ flat book.entries := hflat ▸ by simp
  have hxn := List.inj_on_of_nodup_map h.ids hx hn hid.symm
  rw [hderef, congrArg (fun y => y.2.order) hxn]

/-- A resting order is found on its side under its id. -/
theorem RepInv.getOrder_resting {ob : OrderBook α} (h : RepInv ob) {x : α × Node α}
    (hx : x ∈ ob.resting) : ob.getOrder x.2.order.orderId = .ok x.2.order ∧
      ∀ side : Side, side.supported = true → x.2.order.side.isBid = side.isBid →
        ob.hasSide x.2.order.orderId side = true := by
  rcases List.mem_append.1 hx with hx | hx
  · have hi := h.ask.indexed hx
    have hb := (h.disjoint x.2.order.orderId).resolve_left (by simp [hi])
    have hside : x.2.order.side.isAsk = true := h.ask.sides x hx
    refine ⟨by simp only [OrderBook.getOrder, hb, hi, h.ask.derefInfo hx], fun side hs he => ?_⟩
    rw [Side.isBid_of_isAsk hside] at he
    have ha : side.isAsk = true := by simpa [Side.supported, ← he] using hs
    simp [OrderBook.hasSide, ha, hi]
  · have hi := h.bid.indexed hx
    have hside : x.2.order.side.isBid = true := h.bid.sides x hx
    refine ⟨by simp only [OrderBook.getOrder, hi, h.bid.derefInfo hx], fun side hs he => ?_⟩
    simp [OrderBook.hasSide, ← he, hside, hi]

/-- The locked check finds a resting order that the request names. -/
theorem RepInv.verify_names {ob : OrderBook α} (h : RepInv ob) {i : Context (OrderCancelRequest α)}
    {qty : α} (hqty : i.message.orderQty = some qty) (hs : i.message.side.supported = true)
    {x : α × Node α} (hx : x ∈ ob.resting) (hn : Cancel.Names i x.2.order) :
    Cancel.verifyOrderStateWithLock ob i.message.origClOrdId qty i.message.side =
      .ok (.inr x.2.order) := by
  obtain ⟨hid, hside, hq⟩ := hn
  rw [hqty, Option.some.injEq] at hq
  obtain ⟨hget, hhas⟩ := h.getOrder_resting hx
  rw [hid] at hget hhas
  simp [Cancel.verifyOrderStateWithLock, hhas i.message.side hs hside, hget, Except.map, hq]

theorem Removes.mem_resting {ob ob' : OrderBook α} {o : Order α} (h : Removes ob ob' o) :
    ∃ x ∈ ob.resting, x.2.order = o := by
  obtain ⟨l, r, x, hbefore, -, horder, -⟩ := h.resting
  exact ⟨x, by simp [hbefore], horder⟩

end

namespace Market

variable [Field α] [LinearOrder α]

/-- The book changes by an `add` of the NewOrder worker, or by a `cancel` of the Cancel worker. -/
theorem Base.book_changes {m m' : Market α} {a : Action α} (h : Base m) (hs : Step m a m') :
    m.ob.SameOrders m'.ob ∨
    (∃ info es, m.newWorker = .running (.add info :: es) ∧ m'.newWorker = .running es ∧
      m.ob.add info = .ok m'.ob) ∨
    ∃ i es order, m.cancelWorker = .running (.cancel i :: es) ∧ m'.cancelWorker = .running es ∧
      Cancel.Names i order ∧ Removes m.ob m'.ob order := by
  cases hs
  case newUnitEffect e es m1 pc done =>
    have he := h.newUnit e (by simp [pc])
    obtain ⟨hob, -⟩ := exec_ofUnit he done
    exact .inl (by simp only [hob]; exact .refl _)
  case cancelUnitEffect e es m1 pc done =>
    have hes : (CancelUnitPc.running (e :: es)).Ok := pc ▸ h.cancelUnit
    obtain ⟨hob, -⟩ := exec_ofUnit (hes e (by simp)).1 done
    exact .inl (by simp only [hob]; exact .refl _)
  case newWorkerEffect e es m1 pc done =>
    cases exec_sound done with
    | add info ob added => exact .inr (.inl ⟨info, es, pc, rfl, added⟩)
    | cancel => exact (h.newWorker_effect pc).elim
    | _ => exact .inl (.refl _)
  case cancelWorkerEffect e es m1 pc done =>
    cases exec_sound done with
    | add => exact (h.cancelWorker_effect pc).elim
    | cancel i ob cancelled =>
      obtain ⟨ob', order, hok, hqty, hid, hside, hrem⟩ := h.next_cancel pc
      cases cancelled.symm.trans hok
      exact .inr (.inr ⟨i, es, order, pc, rfl, ⟨hid, hside, hqty⟩, hrem⟩)
    | _ => exact .inl (.refl _)
  all_goals exact .inl ⟨rfl, rfl, rfl, rfl⟩

/-- What the Cancel worker does under the lock depends on whether the request names a resting order,
and not on who sent it. -/
theorem Base.cancel_decides {m : Market α} (h : Base m) {i : Context (OrderCancelRequest α)}
    (pc : m.cancelWorker = .checking i) : ∃ m1 es, m.cancelWorkerStep = some m1 ∧
      m1.cancelWorker = .running es ∧ m1.ob = m.ob ∧
      (((∃ x ∈ m.ob.resting, Cancel.Names i x.2.order) ∧ .cancel i ∈ es ∧ ∃ m2,
          m1.cancelWorkerStep = some m2 ∧ ∃ order, Cancel.Names i order ∧
            Removes m.ob m2.ob order) ∨
        ((¬ ∃ x ∈ m.ob.resting, Cancel.Names i x.2.order) ∧ ∀ j, .cancel j ∉ es)) := by
  have hok : Cancel.Queueable i := by
    have := h.cancelWorker
    rwa [pc] at this
  obtain ⟨qty, hqty⟩ := Option.isSome_iff_exists.1 hok.orderQty
  rcases h.rep.verify i.message.origClOrdId qty i.message.side with ⟨r, hr⟩ |
    ⟨ob', order, ho, hq, -, hcan, hid, hside, hrem, -⟩
  · refine ⟨{ m with cancelWorker := .running (Cancel.orderProcessing m.ob.name i (.inl r)) }, _,
      by simp [cancelWorkerStep, pc, hqty, hr], rfl, rfl, .inr ⟨?_, fun j hj => ?_⟩⟩
    · rintro ⟨x, hx, hn⟩
      rw [h.rep.verify_names hqty hok.side hx hn] at hr
      cases hr
    · cases r <;> simp [Cancel.orderProcessing, Cancel.reject] at hj
  · have hn : Cancel.Names i order := ⟨hid, hside, hq ▸ hqty⟩
    obtain ⟨x, hx, rfl⟩ := hrem.mem_resting
    refine ⟨{ m with cancelWorker := .running (Cancel.orderProcessing m.ob.name i (.inr x.2.order)) },
      _, by simp [cancelWorkerStep, pc, hqty, ho], rfl, rfl, .inl ⟨⟨x, hx, hn⟩, ?_, ?_⟩⟩
    · simp [Cancel.orderProcessing]
    · refine ⟨{ m with
        ob := ob'
        cancelWorker := .running [.unlock i.executionId,
          .append (Cancel.canceled m.ob.name i x.2.order)] }, ?_, x.2.order, hn, hrem⟩
      simp [cancelWorkerStep, Cancel.orderProcessing, exec, hcan, Except.map]

/-- **Cancels go by name.** In every reachable market the orders and id maps change only by an `add`
of the NewOrder worker, or by a `cancel` of the Cancel worker for a request that names the one order
it removes; and a request in the Cancel worker's critical section has its way exactly if it names a
resting order, whoever sent it. -/
theorem cancel_names {name : String} {m : Market α} (h : Reachable name m) :
    (∀ a m', m.step a = some m' → m.ob.SameOrders m'.ob ∨
      (∃ info es, m.newWorker = .running (.add info :: es) ∧ m'.newWorker = .running es ∧
        m.ob.add info = .ok m'.ob) ∨
      ∃ i es order, m.cancelWorker = .running (.cancel i :: es) ∧ m'.cancelWorker = .running es ∧
        Cancel.Names i order ∧ Removes m.ob m'.ob order) ∧
    ∀ i, m.cancelWorker = .checking i → ∃ m1 es, m.cancelWorkerStep = some m1 ∧
      m1.cancelWorker = .running es ∧ m1.ob = m.ob ∧
      (((∃ x ∈ m.ob.resting, Cancel.Names i x.2.order) ∧ .cancel i ∈ es ∧ ∃ m2,
          m1.cancelWorkerStep = some m2 ∧ ∃ order, Cancel.Names i order ∧
            Removes m.ob m2.ob order) ∨
        ((¬ ∃ x ∈ m.ob.resting, Cancel.Names i x.2.order) ∧ ∀ j, .cancel j ∉ es)) :=
  ⟨fun _ _ hs => (base_of_run h).book_changes (step_sound hs),
    fun _ pc => (base_of_run h).cancel_decides pc⟩

/-! ## A run -/

/-- Client 0 is logged in as `A`, client 1 as `B`; a sell of `A` rests, and a cancel of it by the
given client gets as far as the Cancel worker's critical section. -/
def cancelRun (client : Client) : List (Action ℚ) :=
  [.session [0, 1] fun c => if c = 0 then "A" else "B",
    .route (.newOrder ⟨0, 0, "n1", ⟨1, 'D'⟩, ⟨"s1", .sell, some 10, .limit, some 5⟩⟩)] ++
  runs .router 2 ++ runs .newUnit 2 ++ runs .newWorker 6 ++
  [.route (.cancel ⟨client, 0, "c1", ⟨1, 'F'⟩, ⟨"s1", "x1", .sell, some 10⟩⟩)] ++
  runs .router 2 ++ runs .cancelUnit 4 ++ runs .cancelWorker 2

/-- The request whose order the Cancel worker removes next. -/
def cancelling (m : Market α) : Option (Context (OrderCancelRequest α)) :=
  match m.cancelWorker with
  | .running (.cancel i :: _) => some i
  | _ => none

/-- The order of one user leaves the book through the cancel of another. -/
theorem cancel_by_other : ∃ m m' : Market ℚ, Reachable "AAPL" m ∧
    m.step (.run .cancelWorker "" 0) = some m' ∧
    m.cancelling.map (fun i => m.userId i.client) = some "B" ∧
    m.ob.resting.map (fun x => (x.2.order.orderId, x.2.order.userId)) = [("s1", "A")] ∧
    m'.ob.resting = [] := by
  have h : ((Trans.exec step (fun _ _ => True) (Market.new "AAPL")
      (cancelRun 1 ++ runs .cancelWorker 1)).bind fun m =>
        (m.step (.run .cancelWorker "" 0)).map fun m' =>
          (m.cancelling.map fun i => m.userId i.client,
            m.ob.resting.map fun x => (x.2.order.orderId, x.2.order.userId), m'.ob.resting)) =
      some (some "B", [("s1", "A")], []) := by decide +kernel
  obtain ⟨m, hm, h⟩ := Option.bind_eq_some_iff.1 h
  obtain ⟨m', hs, h⟩ := Option.map_eq_some_iff.1 h
  simp only [Prod.mk.injEq] at h
  exact ⟨m, m', .of_exec .start hm, hs, h⟩

/-- The worker holds the lock for the cancel of `B`, and removes the order of `A`. -/
theorem cancel_names_run : ∃ m m1 m2 : Market ℚ, ∃ order, Reachable "AAPL" m ∧
    m.cancelWorkerStep = some m1 ∧ m1.cancelWorkerStep = some m2 ∧ Removes m.ob m2.ob order := by
  obtain ⟨m, hm⟩ : ∃ m, Trans.exec step (fun _ _ => True) (Market.new "AAPL" : Market ℚ)
    (cancelRun 1) = some m := Option.isSome_iff_exists.1 (by decide +kernel)
  let i : Context (OrderCancelRequest ℚ) := ⟨1, 0, "c1", ⟨1, 'F'⟩, ⟨"s1", "x1", .sell, some 10⟩⟩
  have hpc : (Trans.exec step (fun _ _ => True) (Market.new "AAPL") (cancelRun 1)).bind (fun m =>
      match m.cancelWorker with
      | .checking j => if j = i then some (m.ob.resting.map fun x => x.2.order) else none
      | _ => none) = some [⟨"A", "s1", 10, 10, 0, .sell, .newOrder, "n1"⟩] := by decide +kernel
  rw [hm, Option.bind_some] at hpc
  split at hpc
  · rename_i j pc
    split at hpc
    · rename_i hj
      subst hj
      have hr : Reachable "AAPL" m := .of_exec .start hm
      obtain ⟨m1, es, h1, -, -, ⟨-, -, m2, h2, order, -, hrem⟩ | ⟨hno, -⟩⟩ :=
        (cancel_names hr).2 _ pc
      · exact ⟨m, m1, m2, order, hr, h1, h2, hrem⟩
      · refine absurd ?_ hno
        obtain ⟨x, hx, ho⟩ := List.map_eq_singleton_iff.1 (Option.some.inj hpc)
        exact ⟨x, by simp [hx], by rw [ho]; exact ⟨rfl, rfl, rfl⟩⟩
    · cases hpc
  · cases hpc

end Market

end Fix42
