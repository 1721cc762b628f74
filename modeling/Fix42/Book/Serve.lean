import Fix42.Book.Reference

/-!
# The reference exchange

`Reference.serve` answers one request on a reference book: an order that may trade under the tick rule
and has an unused id is matched and rests, an order at rest with the quantity a withdrawal names is
taken out. `Reference.run` serves a list of requests, one after the other.

The definitions after it say which request and which answer a worker's own data stand for.
-/

namespace Fix42

variable {α : Type*}

namespace Reference

inductive Op (α : Type*)
  | enter (o : Incoming α)
  | withdraw (orderId : OrderId) (quantity : α) (side : Side)

inductive Outcome (α : Type*)
  | tickRefused
  | duplicate
  | accepted (fills : List (Fill α))
  | notFound
  | quantity
  | withdrawn (o : Resting α)
  deriving DecidableEq

/-- The orders at rest on one side, best price first. -/
def orders (ls : List (Level α)) : List (Resting α) := ls.flatMap Prod.snd

namespace Book

def orders (b : Book α) : List (Resting α) := Reference.orders b.asks ++ Reference.orders b.bids

def side (b : Book α) (s : Side) : List (Level α) := if s.isBid then b.bids else b.asks

def setSide (b : Book α) (s : Side) (ls : List (Level α)) : Book α :=
  if s.isBid then { b with bids := ls } else { b with asks := ls }

end Book

/-- The levels without the order of an id. -/
def without (id : OrderId) : List (Level α) → List (Level α)
  | [] => []
  | (price, os) :: ls => consLevel price (os.filter fun o => o.orderId ≠ id) (without id ls)

def empty [Zero α] : Book α := ⟨[], [], ⟨0, true⟩⟩

section
variable [Field α] [LinearOrder α]

def serve (b : Book α) : Op α → Book α × Outcome α
  | .enter o =>
    if b.tick.allows o.side = false then (b, .tickRefused)
    else if o.orderId ∈ b.orders.map Resting.orderId then (b, .duplicate)
    else
      let r := add b o
      (r.1, .accepted r.2.1)
  | .withdraw id qty side =>
    match (orders (b.side side)).find? fun o => o.orderId = id with
    | none => (b, .notFound)
    | some o =>
      if o.remaining ≠ qty then (b, .quantity)
      else (b.setSide side (without id (b.side side)), .withdrawn o)

/-- Serves requests in order. -/
def run (b : Book α) : List (Op α) → Book α × List (Outcome α)
  | [] => (b, [])
  | op :: ops =>
    let r := serve b op
    let r' := run r.1 ops
    (r'.1, r.2 :: r'.2)

theorem run_append (b : Book α) (ops ops' : List (Op α)) :
    run b (ops ++ ops') =
      ((run (run b ops).1 ops').1, (run b ops).2 ++ (run (run b ops).1 ops').2) := by
  induction ops generalizing b with
  | nil => rfl
  | cons op ops ih => simp only [List.cons_append, run, ih]

end

end Reference

/-! ## What the workers' data stand for -/

def OrderInfo.incoming (info : OrderInfo α) : Reference.Incoming α :=
  ⟨info.order.userId, info.order.orderId, info.order.originalQty, info.price, info.order.side⟩

def Verdict.outcome (fills : List (Reference.Fill α)) : Verdict → Reference.Outcome α
  | .tickRefused => .tickRefused
  | .accepted => .accepted fills
  | .duplicate => .duplicate

def Cancel.outcome : Cancel.Refusal ⊕ Order α → Reference.Outcome α
  | .inl .notFound => .notFound
  | .inl .quantity => .quantity
  | .inr o => .withdrawn o.view

end Fix42
