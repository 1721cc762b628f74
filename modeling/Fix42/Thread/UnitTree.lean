import Mathlib.Data.Fintype.Sum
import Mathlib.Logic.Function.Basic
import Mathlib.Tactic.DeriveFintype
import Fix42.Thread.ProcessUnit

/-!
# Units that pass messages on

Process units of which each has its input from one other unit, as the units of the server have. The unit
that handles a message may push it on to the one unit that is meant to get it, once, or not: it is then
consumed there, or refused. Which of the two happens is left open here.

`entered`, `passed` and `kept` (the messages whose handling ended at a unit) are not in the source.
-/

namespace Fix42

/-- Where a message goes if it is passed on. -/
structure Routes (ν μ : Type*) where
  next : ν → μ → Option ν
  /-- the unit that has this input -/
  source : ν → Option ν
  tree : ∀ x m y, next x m = some y → source y = some x

structure UnitTree (ν μ : Type*) where
  units : ν → ProcessUnit μ
  /-- the message in hand has been passed on -/
  sent : ν → Bool
  entered : List μ
  passed : ν → List μ
  kept : ν → List μ

namespace UnitTree

variable {ν μ : Type*} [DecidableEq ν]

def new : UnitTree ν μ where
  units := fun _ => .new
  sent := fun _ => false
  entered := []
  passed := fun _ => []
  kept := fun _ => []

inductive Act (ν μ : Type*)
  /-- a message from outside -/
  | enter (x : ν) (m : μ)
  /-- the message in hand goes to the next unit -/
  | pass (x : ν)
  | unit (x : ν) (a : ProcessUnit.Act μ)

def setUnit (s : UnitTree ν μ) (x : ν) (u : ProcessUnit μ) : UnitTree ν μ :=
  { s with units := Function.update s.units x u }

def push (s : UnitTree ν μ) (x : ν) (m : μ) : UnitTree ν μ := s.setUnit x ((s.units x).push m)

/-- The thread of a unit, or a caller of its `start`, `status` or `stop`, goes on. -/
def goOn (s : UnitTree ν μ) (x : ν) (a : ProcessUnit.Act μ) (u : ProcessUnit μ) : UnitTree ν μ :=
  match a, (s.units x).pc with
  | .run _, .input m =>
    { s.setUnit x u with
      sent := Function.update s.sent x false
      kept := if s.sent x then s.kept else Function.update s.kept x (s.kept x ++ [m]) }
  | _, _ => s.setUnit x u

def step (r : Routes ν μ) (s : UnitTree ν μ) : Act ν μ → Option (UnitTree ν μ)
  | .enter x m =>
    if r.source x = none then some { s.push x m with entered := s.entered ++ [m] } else none
  | .pass x =>
    match (s.units x).pc with
    | .input m =>
      match s.sent x, r.next x m with
      | false, some y => some { s.push y m with
          sent := Function.update s.sent x true
          passed := Function.update s.passed x (s.passed x ++ [m]) }
      | _, _ => none
    | _ => none
  | .unit x a =>
    match a with
    | .push _ => none
    | a => ((s.units x).step a).map (s.goOn x a)

/-- The messages that are at a unit: those that ended there, the one in hand, and the queue. -/
def here (s : UnitTree ν μ) (x : ν) : List μ :=
  s.kept x ++ (if s.sent x then [] else (s.units x).hand) ++ (s.units x).queue

end UnitTree

/-! ## The server -/

/-- The units of the server with its `n` markets, from the header validation on. -/
inductive ServerStage (n : Nat)
  | headerValidation | router | logon | logout | heartbeat | marketRouter
  | newOrder (market : Fin n) | cancel (market : Fin n)
  deriving DecidableEq, Fintype

/-- A message the input unit has taken apart; `receive` tells the receives apart. -/
structure ServerInput where
  receive : Nat
  msgType : Char
  symbol : String
  deriving DecidableEq

namespace ServerStage

variable {n : Nat}

/-- `Router::onInput`. -/
def route (msgType : Char) : Option (ServerStage n) :=
  match msgType with
  | 'A' => some .logon
  | '1' | '0' => some .heartbeat
  | '5' => some .logout
  | 'D' | 'F' => some .marketRouter
  | _ => none

/-- `MarketRouter::onInput` and `redirectToMarket`. -/
def redirect (markets : Fin n → String) (m : ServerInput) : Option (ServerStage n) :=
  match m.msgType with
  | 'D' => ((List.finRange n).find? fun i => markets i = m.symbol).map .newOrder
  | 'F' => ((List.finRange n).find? fun i => markets i = m.symbol).map .cancel
  | _ => none

def next (markets : Fin n → String) (x : ServerStage n) (m : ServerInput) : Option (ServerStage n) :=
  match x with
  | headerValidation => some .router
  | router => route m.msgType
  | marketRouter => redirect markets m
  | logon | logout | heartbeat | newOrder _ | cancel _ => none

def source : ServerStage n → Option (ServerStage n)
  | headerValidation => none
  | router => some .headerValidation
  | logon | logout | heartbeat | marketRouter => some .router
  | newOrder _ | cancel _ => some .marketRouter

theorem source_of_route {c : Char} {y : ServerStage n} (h : route c = some y) : source y = some .router := by
  unfold route at h
  split at h <;> cases h <;> rfl

theorem source_of_redirect {markets : Fin n → String} {m : ServerInput} {y : ServerStage n}
    (h : redirect markets m = some y) : source y = some .marketRouter := by
  unfold redirect at h
  split at h
  · obtain ⟨i, -, rfl⟩ := Option.map_eq_some_iff.1 h
    rfl
  · obtain ⟨i, -, rfl⟩ := Option.map_eq_some_iff.1 h
    rfl
  · cases h

end ServerStage

def Server.routes {n : Nat} (markets : Fin n → String) : Routes (ServerStage n) ServerInput where
  next := ServerStage.next markets
  source := ServerStage.source
  tree x m y h := by
    unfold ServerStage.next at h
    cases x with
    | headerValidation =>
      cases h
      rfl
    | router => exact ServerStage.source_of_route h
    | marketRouter => exact ServerStage.source_of_redirect h
    | logon | logout | heartbeat | newOrder | cancel => cases h

end Fix42
