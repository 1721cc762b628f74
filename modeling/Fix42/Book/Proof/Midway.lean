import Fix42.Book.Proof.Accesses

/-!
# The book in the middle of a request

`Midway ob as`: some request has brought the book to `ob` and has the accesses `as` still to make. Of
such a book: an id it lists is not added again (`Midway.not_added`), no id is on both sides
(`Midway.disjoint`), and an id that the remaining accesses do not erase names an order of the book
(`Midway.listed`).
-/

namespace Fix42

open SortedMap Access

variable {α : Type*} [LinearOrder α] {ob ob' ob₀ : OrderBook α} {b : Bundle} {id : OrderId}

/-! ## Lists -/

/-- The index entries of one side's orders. -/
def OrderBook.keys (ob : OrderBook α) (b : Bundle) : List (OrderId × OrderIdInfo α) :=
  (flat (ob.entries b)).map entry

/-- Node addresses are unique on a side and below the next one. -/
def OrderBook.AddrsInv (ob : OrderBook α) : Prop :=
  ∀ b, ((ob.keys b).map fun k => k.2.order).Nodup ∧ ∀ k ∈ ob.keys b, k.2.order < ob.nextNode

/-- What keeps ids and addresses of a list, in order, keeps those of its side. -/
theorem flat_adjust_sublist (price : α) {f : OrderList α → OrderList α}
    (hf : ∀ list, ((f list).map fun n => (n.order.orderId, n.addr)).Sublist
      (list.map fun n => (n.order.orderId, n.addr))) :
    ∀ es : List (α × OrderList α),
      ((flat (adjustList price f es)).map entry).Sublist ((flat es).map entry)
  | [] => List.Sublist.refl _
  | (p, list) :: es => by
    have hcell : ∀ list : OrderList α, (list.map (Prod.mk p)).map entry =
        (list.map fun n => (n.order.orderId, n.addr)).map fun k => (k.1, ⟨k.2, p⟩) := fun list => by
      simp [entry, Function.comp_def]
    have ih := flat_adjust_sublist price hf es
    rw [adjustList] at ih ⊢
    rw [List.map_cons]
    split
    · simp only [flat_cons, List.map_append, hcell]
      exact ((hf list).map _).append ih
    · simp only [flat_cons, List.map_append]
      exact (List.Sublist.refl _).append ih

theorem keys_adjust {f : OrderList α → OrderList α} {price : α}
    (hf : ∀ list, ((f list).map fun n => (n.order.orderId, n.addr)).Sublist
      (list.map fun n => (n.order.orderId, n.addr))) (b b' : Bundle) :
    ((ob.adjust price f b).keys b').Sublist (ob.keys b') := by
  by_cases hb : b' = b
  · subst hb
    rw [OrderBook.keys, OrderBook.entries_adjust]
    exact flat_adjust_sublist price hf _
  · rw [OrderBook.keys, ((ob.frame_adjust b price f).2.2 b' hb).1]
    exact List.Sublist.refl _

theorem map_modify_same {β γ : Type*} {f : β → β} {g : β → γ} (hf : ∀ x, g (f x) = g x) :
    ∀ (l : List β) (i : Nat), (l.modify i f).map g = l.map g
  | [], _ => by simp
  | x :: l, 0 => by simp [hf]
  | x :: l, i + 1 => by simp [map_modify_same hf l i]

/-- Only `push_back` adds to a list. -/
theorem keys_run (ob : OrderBook α) (a : Access α) :
    (∃ b price order, a = .pushBack b price order) ∨
      (run ob a).nextNode = ob.nextNode ∧ ∀ b, ((run ob a).keys b).Sublist (ob.keys b) := by
  cases a with
  | pushBack b price order => exact .inl ⟨b, price, order, rfl⟩
  | write b price idx remainQty avgPrice status =>
    refine .inr ⟨(ob.frame_adjust b price _).2.1, keys_adjust (fun list => ?_) b⟩
    rw [map_modify_same (f := writeOrder remainQty avgPrice status) fun _ => rfl]
  | erase b price idx =>
    exact .inr ⟨(ob.frame_adjust b price _).2.1,
      keys_adjust (fun list => (List.eraseIdx_sublist list idx).map _) b⟩
  | eraseOrder b info =>
    exact .inr ⟨(ob.frame_adjust b info.price _).2.1,
      keys_adjust (fun list => List.filter_sublist.map _) b⟩
  | eraseId b id | insertId b id info =>
    refine .inr ⟨(ob.frame_setIds b _).2.1, fun b' => ?_⟩
    rw [run, OrderBook.keys, OrderBook.entries_setIds]
    exact List.Sublist.refl _
  | _ => exact .inr ⟨rfl, fun b => by cases b <;> exact List.Sublist.refl _⟩

theorem keys_pushBack (ob : OrderBook α) (b : Bundle) (price : α) (order : Order α) :
    (run ob (.pushBack b price order)).nextNode = ob.nextNode + 1 ∧
    ((run ob (.pushBack b price order)).keys b).Perm
      ((order.orderId, ⟨ob.nextNode, price⟩) :: ob.keys b) ∧
    ∀ b', b' ≠ b → (run ob (.pushBack b price order)).keys b' = ob.keys b' := by
  cases b with
  | bid =>
    refine ⟨rfl, ?_, fun b' hb => ?_⟩
    · exact (flat_upsert fun a b h1 h2 => le_antisymm (not_lt.1 h1) (not_lt.1 h2)).map entry
    · cases b' <;> first | exact absurd rfl hb | rfl
  | ask =>
    refine ⟨rfl, ?_, fun b' hb => ?_⟩
    · exact (flat_upsert fun a b h1 h2 => le_antisymm (not_lt.1 h2) (not_lt.1 h1)).map entry
    · cases b' <;> first | exact absurd rfl hb | rfl

theorem OrderBook.AddrsInv.run (h : ob.AddrsInv) (a : Access α) : (run ob a).AddrsInv := by
  rcases keys_run ob a with ⟨b, price, order, rfl⟩ | ⟨hnext, hsub⟩
  · obtain ⟨hnext, hperm, hother⟩ := keys_pushBack ob b price order
    intro b'
    rw [hnext]
    by_cases hb : b' = b
    · subst hb
      rw [(hperm.map _).nodup_iff]
      refine ⟨?_, fun k hk => ?_⟩
      · refine List.nodup_cons.2 ⟨fun hm => ?_, (h b').1⟩
        obtain ⟨k, hk, he⟩ := List.mem_map.1 hm
        exact absurd he ((h b').2 k hk).ne
      · rcases List.mem_cons.1 (hperm.mem_iff.1 hk) with rfl | hk
        · exact Nat.lt_succ_self _
        · exact ((h b').2 k hk).trans (Nat.lt_succ_self _)
    · rw [hother b' hb]
      exact ⟨(h b').1, fun k hk => ((h b').2 k hk).trans (Nat.lt_succ_self _)⟩
  · intro b
    rw [hnext]
    exact ⟨(h b).1.sublist ((hsub b).map _), fun k hk => (h b).2 k ((hsub b).subset hk)⟩

theorem OrderBook.AddrsInv.runAll : ∀ (as : List (Access α)) {ob : OrderBook α}, ob.AddrsInv →
    (runAll as ob).AddrsInv
  | [], _, h => h
  | a :: as, _, h => AddrsInv.runAll as (h.run a)

/-! ## Id maps -/

/-- An access that neither erases nor inserts the id leaves its entry. -/
theorem ids_run {a : Access α} (he : a ≠ .eraseId b id) (hi : ∀ info, a ≠ .insertId b id info) :
    (run ob a).ids b id = ob.ids b id := by
  cases a with
  | eraseId b' id' =>
    cases b <;> cases b' <;> first
      | rfl
      | exact Function.update_of_ne (fun h => he (by rw [h])) _ _
  | insertId b' id' info =>
    cases b <;> cases b' <;> first
      | rfl
      | exact Function.update_of_ne (fun h => hi info (by rw [h])) _ _
  | pushBack b' | write b' | erase b' | eraseOrder b' => cases b <;> cases b' <;> rfl
  | _ => cases b <;> rfl

theorem ids_runAll : ∀ {as : List (Access α)} {ob : OrderBook α}, .eraseId b id ∉ as →
    (∀ info, .insertId b id info ∉ as) → (runAll as ob).ids b id = ob.ids b id
  | [], _, _, _ => rfl
  | a :: as, ob, he, hi => by
    simp only [List.mem_cons, not_or] at he hi
    rw [runAll_cons, ids_runAll he.2 fun info => (hi info).2,
      ids_run (Ne.symm he.1) fun info => Ne.symm (hi info).1]

/-- An entry left by accesses that do not insert the id was there before. -/
theorem ids_of_runAll {info : OrderIdInfo α} : ∀ {as : List (Access α)} {ob : OrderBook α},
    (∀ info, .insertId b id info ∉ as) → (runAll as ob).ids b id = some info →
      ob.ids b id = some info
  | [], _, _, h => h
  | a :: as, ob, hi, h => by
    simp only [List.mem_cons, not_or] at hi
    have hrun : (run ob a).ids b id = some info := ids_of_runAll (fun info => (hi info).2) h
    by_cases he : a = .eraseId b id
    · subst he
      rw [run, OrderBook.ids_setIds, removeFromIdMap, Function.update_self] at hrun
      cases hrun
    · rwa [ids_run he fun info => Ne.symm (hi info).1] at hrun

/-- Once its id is erased and not inserted again, an order has no entry. -/
theorem ids_erased : ∀ {as : List (Access α)} {ob : OrderBook α}, .eraseId b id ∈ as →
    (∀ info, .insertId b id info ∉ as) → (runAll as ob).ids b id = none
  | a :: as, ob, he, hi => by
    simp only [List.mem_cons, not_or] at hi
    by_cases hm : .eraseId b id ∈ as
    · rw [runAll_cons]
      exact ids_erased hm fun info => (hi info).2
    · have ha : a = .eraseId b id := ((List.mem_cons.1 he).resolve_right hm).symm
      rw [runAll_cons, ids_runAll hm fun info => (hi info).2, ha, run, OrderBook.ids_setIds,
        removeFromIdMap, Function.update_self]

/-- An order listed after accesses that add no order of its id was listed before. -/
theorem keys_of_runAll {info : OrderIdInfo α} : ∀ {as : List (Access α)} {ob : OrderBook α},
    (∀ a ∈ as, a.added ≠ some id) → (id, info) ∈ (runAll as ob).keys b → (id, info) ∈ ob.keys b
  | [], _, _, h => h
  | a :: as, ob, hi, h => by
    rw [List.forall_mem_cons] at hi
    have hrun := keys_of_runAll hi.2 h
    rcases keys_run ob a with ⟨b', price, order, rfl⟩ | ⟨-, hsub⟩
    · obtain ⟨-, hperm, hother⟩ := keys_pushBack ob b' price order
      by_cases hb : b = b'
      · subst hb
        rcases List.mem_cons.1 (hperm.mem_iff.1 hrun) with he | hm
        · exact absurd (congrArg some (congrArg Prod.fst he).symm) hi.1
        · exact hm
      · rwa [hother b hb] at hrun
    · exact (hsub b).subset hrun

/-! ## What a request adds -/

/-- Accesses that add no id. -/
def Trims (as : List (Access α)) : Prop := ∀ a ∈ as, a.added = none

omit [LinearOrder α] in
@[simp] theorem trims_nil : Trims ([] : List (Access α)) := fun _ h => by cases h

omit [LinearOrder α] in
@[simp] theorem trims_cons {a : Access α} {as : List (Access α)} :
    Trims (a :: as) ↔ a.added = none ∧ Trims as := List.forall_mem_cons

omit [LinearOrder α] in
@[simp] theorem trims_append {as bs : List (Access α)} :
    Trims (as ++ bs) ↔ Trims as ∧ Trims bs := List.forall_mem_append

omit [LinearOrder α] in
@[simp] theorem trims_pushEvents (events : List (Event α)) :
    Trims (events.map Access.pushEvent) := fun a h => by
  obtain ⟨e, -, rfl⟩ := List.mem_map.1 h
  rfl

omit [LinearOrder α] in
@[simp] theorem trims_remove (b : Bundle) (id : OrderId) :
    Trims (removeAccesses b id : List (Access α)) := by simp [removeAccesses, added]

omit [LinearOrder α] in
@[simp] theorem trims_find (b : Bundle) (id : OrderId) :
    Trims (findAccesses b id : List (Access α)) := by simp [findAccesses, added]

@[simp] theorem trims_has (ob : OrderBook α) (id : OrderId) : Trims (hasAccesses ob id) := by
  unfold hasAccesses
  split <;> simp [added]

@[simp] theorem trims_getOrder (ob : OrderBook α) (id : OrderId) :
    Trims (getOrderAccesses ob id) := by
  unfold getOrderAccesses
  cases ob.bidId id with
  | some info => simp [added]
  | none => cases ob.askId id <;> simp [added]

@[simp] theorem trims_cancel (ob : OrderBook α) (id : OrderId) (b : Bundle) :
    Trims (cancelAccesses ob id b) := by
  unfold cancelAccesses
  cases ob.ids b id <;> simp [added]

/-- Accesses that add nothing, then perhaps those of `addToBook` for an order of a new id. -/
def AddsLast (ob : OrderBook α) (as : List (Access α)) : Prop :=
  ∃ trims rest, as = trims ++ rest ∧ Trims trims ∧
    (rest = [] ∨ ∃ b price order addr, rest = addToBookAccesses b price order addr ∧
      ob.has order.orderId = false)

theorem AddsLast.of_trims {as : List (Access α)} (h : Trims as) : AddsLast ob as :=
  ⟨as, [], by simp, h, .inl rfl⟩

theorem AddsLast.append {as bs : List (Access α)} (h : AddsLast ob bs) (ha : Trims as) :
    AddsLast ob (as ++ bs) := by
  obtain ⟨trims, rest, rfl, ht, hr⟩ := h
  exact ⟨as ++ trims, rest, by rw [List.append_assoc], trims_append.2 ⟨ha, ht⟩, hr⟩

omit [LinearOrder α] in
/-- Up to the insertion of the id nothing has been inserted, afterwards only the mutex is held. -/
theorem addToBook_cut {pre as trims : List (Access α)} {price : α} {order : Order α} {addr : Nat}
    (ht : Trims trims) (h : pre ++ as = trims ++ addToBookAccesses b price order addr) :
    (as = [] ∨ as = [.unlock b]) ∨ ∀ b' id info, .insertId b' id info ∉ pre := by
  have hno : ∀ {b' id info}, (.insertId b' id info : Access α) ∉ trims := fun hm => by
    cases ht _ hm
  rcases List.append_eq_append_iff.1 h with ⟨c, rfl, -⟩ | ⟨c, rfl, hr⟩
  · exact .inr fun b' id info hm => hno (List.mem_append_left _ hm)
  · rcases c with _ | ⟨x, _ | ⟨y, _ | ⟨z, _ | ⟨w, c⟩⟩⟩⟩
    all_goals
      simp only [addToBookAccesses, List.cons_append, List.nil_append, List.cons.injEq] at hr
    · exact .inr fun b' id info hm => hno (by simpa using hm)
    · obtain ⟨rfl, -⟩ := hr
      exact .inr fun b' id info hm => hno (by simpa using hm)
    · obtain ⟨rfl, rfl, -⟩ := hr
      exact .inr fun b' id info hm => hno (by simpa using hm)
    · exact .inl (.inr hr.2.2.2.symm)
    · exact .inl (.inl (List.append_eq_nil_iff.1 hr.2.2.2.2.symm).2)

theorem RepInv.addrs (h : RepInv ob) : ob.AddrsInv := by
  have hside : ∀ {c : List (α × Node α)} {idmap : OrderIdMap α} {onSide : Side → Bool},
      CellsInv c idmap ob.nextNode onSide → ((c.map entry).map fun k => k.2.order).Nodup ∧
        ∀ k ∈ c.map entry, k.2.order < ob.nextNode := fun hc => by
    refine ⟨by simpa [entry, Function.comp_def] using hc.addrs, fun k hk => ?_⟩
    obtain ⟨x, hx, rfl⟩ := List.mem_map.1 hk
    exact hc.fresh x hx
  rintro (_ | _)
  · exact hside h.bid
  · exact hside h.ask

theorem RepInv.keys (h : RepInv ob) {info : OrderIdInfo α} :
    ob.ids b id = some info ↔ (id, info) ∈ ob.keys b := by
  cases b
  · exact h.bid.index id info
  · exact h.ask.index id info

theorem ids_none_of_has (h : ob.has id = false) (b : Bundle) : ob.ids b id = none := by
  simp only [OrderBook.has, Bool.or_eq_false_iff, Option.isSome_eq_false_iff,
    Option.isNone_iff_eq_none] at h
  cases b
  · exact h.2
  · exact h.1

section
variable [Field α]

@[simp] theorem trims_settle (price : α) (st : FillState α) : Trims (settleAccesses price st) := by
  unfold settleAccesses
  split <;> simp [added]

theorem trims_fillList {price : α} : ∀ {rest kept : OrderList α} {st : FillState α},
    Trims (fillListAccesses b price kept rest st)
  | [], _, _ => by simp [fillListAccesses]
  | n :: rest, kept, st => by
    simp only [fillListAccesses, trims_cons]
    refine ⟨rfl, ?_⟩
    split
    · exact trims_fillList
    all_goals
      simp only [trims_append, trims_cons, trims_settle, trims_pushEvents, trims_remove, trims_nil,
        added, and_true, true_and]
      split
      · exact trims_nil
      · exact trims_fillList

theorem trims_fillLevels {cmp : α → α → Bool} {info : OrderInfo α} :
    ∀ {levels : List (α × OrderList α)} {st : FillState α},
      Trims (fillLevelsAccesses b cmp info levels st)
  | [], _ => by simp [fillLevelsAccesses]
  | (price, list) :: levels, st => by
    unfold fillLevelsAccesses
    split
    · exact trims_nil
    · dsimp only
      refine trims_cons.2 ⟨rfl, ?_⟩
      split
      · exact trims_nil
      · refine trims_append.2 ⟨trims_fillList, ?_⟩
        split
        · exact trims_nil
        · exact trims_fillLevels

theorem trims_fillOnBook {cmp : α → α → Bool} {info : OrderInfo α}
    {levels : List (α × OrderList α)} {st : FillState α} :
    Trims (fillOnBookAccesses b cmp levels info st) := by
  refine trims_append.2 ⟨trims_fillLevels, ?_⟩
  cases (fillLevels cmp info levels st).2.2 with
  | filled | tickRefused => exact trims_nil
  | priceLimit | exhausted =>
    simp only [fillEndAccesses]
    split <;> simp [added]

theorem addsLast_add {info : OrderInfo α} (h : ob.has info.order.orderId = false) :
    AddsLast ob (addAccesses ob info) := by
  unfold addAccesses
  split
  all_goals
    refine ⟨_, _, rfl, trims_fillOnBook, ?_⟩
    split
    · exact .inr ⟨_, _, _, _, rfl, h⟩
    · exact .inl rfl

theorem Worker.addsLast (ob : OrderBook α) (op : Op α) : AddsLast ob (accesses ob op) := by
  cases op with
  | newOrder i =>
    rw [accesses, ← List.singleton_append]
    refine AddsLast.append ?_ (by simp [added])
    cases hv : (NewOrder.verdict ob i.info).1 with
    | tickRefused => exact .of_trims trims_nil
    | duplicate => exact .of_trims (trims_has _ _)
    | accepted =>
      have hid : ob.has i.info.order.orderId = false := by
        simp only [NewOrder.verdict] at hv
        split at hv
        · cases hv
        · split at hv
          · rename_i hid
            exact Bool.not_eq_true' _ ▸ hid
          · cases hv
      have hadd : AddsLast (ob.allowTick i.side).2 (addAccesses (ob.allowTick i.side).2 i.info) :=
        addsLast_add hid
      exact AddsLast.append hadd (trims_has _ _)
  | cancel i =>
    refine AddsLast.append (.of_trims ?_) (trims_find _ _)
    split <;> simp

/-! ## The remaining accesses -/

/-- Between requests with none in hand, or in the middle of one: `as` is what is left of it. -/
def Midway (ob : OrderBook α) (as : List (Access α)) : Prop :=
  (as = [] ∧ RepInv ob) ∨ ∃ ob₀ op pre, RepInv ob₀ ∧ Worker.accesses ob₀ op = pre ++ as ∧
    runAll pre ob₀ = ob

namespace Midway

variable {as : List (Access α)} {info : OrderIdInfo α}

theorem step {a : Access α} (h : Midway ob (a :: as)) : Midway (run ob a) as := by
  obtain ⟨h, -⟩ | ⟨ob₀, op, pre, hrep, hacc, rfl⟩ := h
  · cases h
  · exact .inr ⟨ob₀, op, pre ++ [a], hrep, by rw [hacc, List.append_assoc]; rfl, by simp⟩

/-- What the request in hand will leave. -/
theorem after (h : Midway ob as) : RepInv (runAll as ob) := by
  obtain ⟨rfl, h⟩ | ⟨ob₀, op, pre, hrep, hacc, rfl⟩ := h
  · exact h
  · obtain ⟨ob', hstep, hrep'⟩ := hrep.step op
    have := Worker.run_accesses hstep
    rw [hacc, runAll_append] at this
    rwa [this]

theorem start (h : Midway ob []) (op : Worker.Op α) : Midway ob (Worker.accesses ob op) :=
  .inr ⟨ob, op, [], h.after, rfl, rfl⟩

theorem addrs (h : Midway ob as) : ob.AddrsInv := by
  obtain ⟨-, h⟩ | ⟨ob₀, op, pre, hrep, -, rfl⟩ := h
  · exact h.addrs
  · exact hrep.addrs.runAll pre

/-- Before the id of a new order is inserted the maps list what they listed when the request began,
afterwards nothing is added. -/
theorem origin (h : Midway ob as) : (Trims as ∧ RepInv ob) ∨ ∃ ob₀, RepInv ob₀ ∧
    ∀ b id info, ob.ids b id = some info →
      ob₀.ids b id = some info ∧ ∀ a ∈ as, a.added ≠ some id := by
  have hafter := h.after
  obtain ⟨rfl, h⟩ | ⟨ob₀, op, pre, hrep, hacc, rfl⟩ := h
  · exact .inl ⟨trims_nil, h⟩
  obtain ⟨trims, rest, hsplit, ht, hrest⟩ := Worker.addsLast ob₀ op
  rw [hacc] at hsplit
  rcases hrest with rfl | ⟨b₀, price, order, addr, rfl, hnew⟩
  · rw [List.append_nil] at hsplit
    rw [← hsplit, trims_append] at ht
    refine .inr ⟨ob₀, hrep, fun b id info hi => ⟨ids_of_runAll (fun info' hm => ?_) hi, ?_⟩⟩
    · cases ht.1 _ hm
    · intro a ha hadd
      rw [ht.2 a ha] at hadd
      cases hadd
  · -- all that is added has the id of `order`, which was new
    have hadds : ∀ a ∈ pre ++ as, ∀ id, a.added = some id → id = order.orderId := by
      intro a ha id hid
      rw [hsplit, List.mem_append] at ha
      rcases ha with ha | ha
      · rw [ht a ha] at hid
        cases hid
      · simp only [addToBookAccesses, List.mem_cons, List.not_mem_nil, or_false] at ha
        rcases ha with rfl | rfl | rfl | rfl <;> simp_all [added]
    rcases addToBook_cut ht hsplit with hend | hno
    · refine .inl ?_
      rcases hend with rfl | rfl
      · exact ⟨trims_nil, hafter⟩
      · exact ⟨by simp [added], hafter⟩
    · refine .inr ⟨ob₀, hrep, fun b id info hi => ?_⟩
      have hi₀ := ids_of_runAll (fun info' => hno b id info') hi
      refine ⟨hi₀, fun a ha hadd => ?_⟩
      rw [hadds a (List.mem_append_right _ ha) id hadd, ids_none_of_has hnew b] at hi₀
      cases hi₀

/-- No id is on both sides. -/
theorem disjoint (h : Midway ob as) (id : OrderId) :
    ob.ids .bid id = none ∨ ob.ids .ask id = none := by
  rcases h.origin with ⟨-, hrep⟩ | ⟨ob₀, hrep, horigin⟩
  · exact (hrep.disjoint id).symm
  · cases hb : ob.ids .bid id with
    | none => exact .inl rfl
    | some info =>
      cases ha : ob.ids .ask id with
      | none => exact .inr rfl
      | some info' =>
        have hb₀ : ob₀.bidId id = some info := (horigin _ _ _ hb).1
        have ha₀ : ob₀.askId id = some info' := (horigin _ _ _ ha).1
        rcases hrep.disjoint id with hn | hn
        · rw [ha₀] at hn
          cases hn
        · rw [hb₀] at hn
          cases hn

/-- An id in a map is not added again. -/
theorem not_added (h : Midway ob as) (hi : ob.ids b id = some info) :
    ∀ a ∈ as, a.added ≠ some id := by
  rcases h.origin with ⟨ht, -⟩ | ⟨ob₀, -, horigin⟩
  · intro a ha hadd
    rw [ht a ha] at hadd
    cases hadd
  · exact (horigin b id info hi).2

theorem not_inserted (h : Midway ob as) (hi : ob.ids b id = some info) (info' : OrderIdInfo α) :
    .insertId b id info' ∉ as := fun hm => h.not_added hi _ hm rfl

/-- An order that the request in hand leaves in the id map is on the book: its node is where the
entry says. -/
theorem listed (h : Midway ob as) (hi : ob.ids b id = some info) (he : .eraseId b id ∉ as) :
    ∃ list order, ob.level info.price b = some list ∧ deref list info.order = some order ∧
      order.orderId = id := by
  have hafter : (runAll as ob).ids b id = some info :=
    (ids_runAll he (h.not_inserted hi)).trans hi
  have hkey := keys_of_runAll (h.not_added hi) (h.after.keys.1 hafter)
  obtain ⟨⟨price, n⟩, hm, hn⟩ := List.mem_map.1 hkey
  cases hn
  obtain ⟨list, hl, hn⟩ := mem_flat.1 hm
  have hfind : (list.find? fun m => m.addr = n.addr).isSome := by
    rw [List.find?_isSome]
    exact ⟨n, hn, by simp⟩
  obtain ⟨m, hm'⟩ := Option.isSome_iff_exists.1 hfind
  refine ⟨list, m.order, OrderBook.level_eq_some.2 hl, by simp [deref, hm'], ?_⟩
  -- addresses are unique, so the node found is the one of this id
  have hmem : (price, m) ∈ flat (ob.entries b) := mem_flat.2 ⟨list, hl, List.mem_of_find?_eq_some hm'⟩
  have haddr : m.addr = n.addr := by simpa using List.find?_some hm'
  have hnd := (h.addrs b).1
  have := List.inj_on_of_nodup_map hnd (List.mem_map_of_mem hmem) hkey haddr
  exact congrArg Prod.fst this

end Midway

end

end Fix42
