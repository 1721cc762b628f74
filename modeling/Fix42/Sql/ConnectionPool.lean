import Mathlib.Data.Fin.Basic
import Mathlib.Data.Fintype.Card
import Mathlib.Logic.Function.Basic
import Fix42.Lib.Progress

/-!
# The connection pool

`sql::ConnectionPool` after `Init`: `n` connections, each with its own mutex, and any number of callers
that get a connection, run a transaction on it and give it back with `done`. Every step is an access
under a mutex, or an attempt to lock one. A transaction that throws leaves its caller without a call of
`done`.

`lost` (the connections whose transaction threw) and `given` (how many connections
`GetAvailableConnection` has returned) are not in the source.
-/

namespace Fix42

/-- Where a caller is. -/
inductive PoolPc (n : Nat)
  | idle
  /-- in `GetAvailableConnection`, before the connection of this index -/
  | scan (i : Nat)
  /-- in `GetAvailableConnection`, with the mutex of the connection -/
  | test (i : Fin n)
  /-- in its transaction -/
  | holds (i : Fin n)
  /-- in `done`, with the mutex -/
  | release (i : Fin n)
  deriving DecidableEq

structure ConnectionPool (n : Nat) (κ : Type*) where
  /-- the owner of `m_mutex` -/
  mutex : Fin n → Option κ
  inUse : Fin n → Bool
  pc : κ → PoolPc n
  lost : List (Fin n)
  given : Nat

namespace ConnectionPool

variable {n : Nat} {κ : Type*} [DecidableEq κ]

/-- `Init`. -/
def init : ConnectionPool n κ where
  mutex := fun _ => none
  inUse := fun _ => false
  pc := fun _ => .idle
  lost := []
  given := 0

inductive Act (κ : Type*)
  /-- `GetAvailableConnection` is called -/
  | get (c : κ)
  | run (c : κ)
  /-- the transaction throws -/
  | throws (c : κ)
  deriving DecidableEq

def goTo (s : ConnectionPool n κ) (c : κ) (pc : PoolPc n) : ConnectionPool n κ :=
  { s with pc := Function.update s.pc c pc }

/-- A `lock_guard`, if the mutex is free. -/
def lock (s : ConnectionPool n κ) (c : κ) (i : Fin n) (pc : PoolPc n) : Option (ConnectionPool n κ) :=
  match s.mutex i with
  | none => some { s.goTo c pc with mutex := Function.update s.mutex i (some c) }
  | some _ => none

/-- The end of a `lock_guard`. -/
def unlock (s : ConnectionPool n κ) (c : κ) (i : Fin n) (pc : PoolPc n) : ConnectionPool n κ :=
  { s.goTo c pc with mutex := Function.update s.mutex i none }

/-- A caller goes one step further. -/
def run (s : ConnectionPool n κ) (c : κ) : Option (ConnectionPool n κ) :=
  match s.pc c with
  | .idle => none
  | .scan i => if h : i < n then s.lock c ⟨i, h⟩ (.test ⟨i, h⟩) else some (s.goTo c (.scan 0))
  | .test i =>
    if s.inUse i then some (s.unlock c i (.scan (i + 1)))
    else some { s.unlock c i (.holds i) with
      inUse := Function.update s.inUse i true
      given := s.given + 1 }
  | .holds i => s.lock c i (.release i)
  | .release i => some { s.unlock c i .idle with inUse := Function.update s.inUse i false }

def step (s : ConnectionPool n κ) : Act κ → Option (ConnectionPool n κ)
  | .get c => if s.pc c = .idle then some (s.goTo c (.scan 0)) else none
  | .run c => s.run c
  | .throws c =>
    match s.pc c with
    | .holds i => some { s.goTo c .idle with lost := i :: s.lost }
    | _ => none

abbrev Reachable (s : ConnectionPool n κ) : Prop := Trans.Reach step init s

/-- The caller has the connection. -/
def Has (s : ConnectionPool n κ) (c : κ) (i : Fin n) : Prop := s.pc c = .holds i ∨ s.pc c = .release i

/-- The caller waits for a connection. -/
def Waits (s : ConnectionPool n κ) (c : κ) : Prop := (∃ i, s.pc c = .scan i) ∨ ∃ i, s.pc c = .test i

/-- The caller has the mutex of the connection. -/
def Locks (s : ConnectionPool n κ) (c : κ) (i : Fin n) : Prop := s.pc c = .test i ∨ s.pc c = .release i

end ConnectionPool

end Fix42
