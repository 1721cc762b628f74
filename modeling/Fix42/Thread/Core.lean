import Mathlib.Data.List.Nodup
import Mathlib.Logic.Function.Basic
import Mathlib.Tactic.Tauto
import Fix42.Thread.ProcessUnit

/-!
# Starting, watching and stopping the units

`Core` of the server and of the client backend: it starts its units, asks for their status one after the
other while nothing has gone wrong, and stops them. `UnitLife` is what it sees of a unit: every `runtime`
of the repository is a loop on the stop token, so it returns only when the unit was asked to stop, and it
may throw at any time. Thread.Proof.Core connects it with `ProcessUnit`.

`Core` ends in `closed` after its destructor. `undefined` is a call of `status` on a future that was given
up before.
-/

namespace Fix42

/-! ## What is seen of a unit -/

inductive ThreadLife
  | unstarted | alive | ended
  deriving DecidableEq

structure UnitLife where
  life : ThreadLife
  stopRequested : Bool
  promise : UnitPromise
  valid : Bool
  stop : UnitStop
  deriving DecidableEq

namespace UnitLife

def new : UnitLife := ⟨.unstarted, false, .unset, true, .notCalled⟩

def start (u : UnitLife) : UnitLife := { u with life := .alive }

/-- `process` ends. -/
def finish (u : UnitLife) (throws : Bool) : Option UnitLife :=
  if u.life ≠ .alive then none
  else if throws then some { u with life := .ended, promise := .exception }
  else if u.stopRequested then some { u with life := .ended, promise := .value }
  else none

def status (u : UnitLife) : UnitStatus × UnitLife :=
  if u.valid then
    match u.promise with
    | .unset => (.running, u)
    | .value => (.stop, { u with valid := false })
    | .exception => (.rethrown, { u with valid := false })
  else (.undefined, u)

def stopStep (u : UnitLife) : Option UnitLife :=
  match u.stop with
  | .notCalled =>
    if u.life = .unstarted then some { u with stop := .wait }
    else some { u with stopRequested := true, stop := .join }
  | .join => if u.life = .ended then some { u with stop := .wait } else none
  | .wait => if u.valid && u.promise = .unset then none else some { u with stop := .returned }
  | .returned => none

end UnitLife

/-- What `Core` sees of a process unit. -/
def ProcessUnit.view {μ : Type*} (u : ProcessUnit μ) : UnitLife where
  life :=
    match u.pc with
    | .unstarted => .unstarted
    | .ended => .ended
    | _ => .alive
  stopRequested := u.stopRequested
  promise := u.promise
  valid := u.valid
  stop := u.stop

/-! ## Core -/

/-- The units `Core` starts, watches and stops, each in this order. -/
structure Pipeline (ν : Type*) where
  started : List ν
  watched : List ν
  stopped : List ν
  once : started.Nodup
  watched_started : watched ⊆ started
  stopped_started : stopped ⊆ started

/-- Where `start`, and then the destructor, is. -/
inductive CorePc (ν : Type*)
  | starting (todo : List ν)
  /-- before `while (m_running && signal_run)` -/
  | head
  | checking (todo : List ν)
  /-- an exception was caught: `start` returns false -/
  | failed
  | stopping (todo : List ν)
  | closed
  | undefined
  deriving DecidableEq

structure Core (ν : Type*) where
  units : ν → UnitLife
  pc : CorePc ν
  running : Bool
  signalRun : Bool

namespace Core

variable {ν : Type*} [DecidableEq ν]

def new (cfg : Pipeline ν) : Core ν where
  units := fun _ => .new
  pc := .starting cfg.started
  running := true
  signalRun := true

inductive Act (ν : Type*)
  /-- the thread of a unit ends -/
  | finish (x : ν) (throws : Bool)
  | signal
  /-- the next step of the main thread -/
  | main

def setUnit (c : Core ν) (x : ν) (u : UnitLife) : Core ν :=
  { c with units := Function.update c.units x u }

/-- `Core::stop` up to its first unit. -/
def callStop (cfg : Pipeline ν) (c : Core ν) : Core ν :=
  if c.running then { c with running := false, pc := .stopping cfg.stopped }
  else { c with pc := .closed }

def main (cfg : Pipeline ν) (c : Core ν) : Option (Core ν) :=
  match c.pc with
  | .starting [] => some { c with pc := .head }
  | .starting (x :: todo) => some { c.setUnit x (c.units x).start with pc := .starting todo }
  | .head =>
    if c.running && c.signalRun then some { c with pc := .checking cfg.watched }
    else some (c.callStop cfg)
  | .checking [] => some { c with pc := .head }
  | .checking (x :: todo) =>
    let (r, u) := (c.units x).status
    match r with
    | .running | .stop => some { c.setUnit x u with pc := .checking todo }
    | .rethrown => some { c.setUnit x u with pc := .failed }
    | .undefined => some { c with pc := .undefined }
  | .failed => some (c.callStop cfg)
  | .stopping [] => some { c with pc := .closed }
  | .stopping (x :: todo) =>
    if (c.units x).stop = .returned then some { c with pc := .stopping todo }
    else (c.units x).stopStep.map (c.setUnit x)
  | .closed | .undefined => none

def step (cfg : Pipeline ν) (c : Core ν) : Act ν → Option (Core ν)
  | .finish x throws => ((c.units x).finish throws).map (c.setUnit x)
  | .signal => some { c with signalRun := false }
  | .main => c.main cfg

abbrev Reachable (cfg : Pipeline ν) (c : Core ν) : Prop := Trans.Reach (step cfg) (new cfg) c

/-- `start` is in its loop. -/
def InLoop (c : Core ν) : Prop := c.pc = .head ∨ ∃ todo, c.pc = .checking todo

def Act.isMain : Act ν → Bool
  | .main => true
  | .finish _ _ | .signal => false

end Core

/-! ## The two pipelines -/

inductive ServerUnit
  | tcpInput | headerValidation | router | marketRouter | logon | logout | heartbeat
  | market (symbol : String)
  | tcpOutput
  deriving DecidableEq

/-- `m_markets` is a map, so no symbol is there twice. -/
def Server.pipeline (markets : List String) (once : markets.Nodup) : Pipeline ServerUnit where
  started := [.tcpOutput, .logon, .logout, .heartbeat, .marketRouter] ++ markets.map .market ++
    [.router, .headerValidation, .tcpInput]
  watched := [.logon, .logout, .heartbeat, .marketRouter] ++ markets.map .market ++
    [.router, .tcpInput]
  stopped := [.tcpInput, .headerValidation, .router, .marketRouter, .logon, .logout, .heartbeat] ++
    markets.map .market ++ [.tcpOutput]
  once := by
    have hmap : (markets.map ServerUnit.market).Nodup := once.map fun _ _ h => by cases h; rfl
    simp [List.nodup_append, hmap]
  watched_started := by
    intro x hx
    simp only [List.mem_append, List.mem_cons, List.not_mem_nil, or_false] at hx ⊢
    tauto
  stopped_started := by
    intro x hx
    simp only [List.mem_append, List.mem_cons, List.not_mem_nil, or_false] at hx ⊢
    tauto

inductive ClientUnit
  | tcpInput | headerValidation | builder | router | execution | auth | heartbeat | tcpOutput
  deriving DecidableEq

def Client.pipeline : Pipeline ClientUnit where
  started := [.tcpOutput, .builder, .execution, .heartbeat, .auth, .router, .headerValidation, .tcpInput]
  watched := [.tcpOutput, .builder, .heartbeat, .auth, .execution, .router, .headerValidation, .tcpInput]
  stopped := [.tcpInput, .headerValidation, .builder, .router, .execution, .auth, .heartbeat, .tcpOutput]
  once := by decide
  watched_started := by decide
  stopped_started := by decide

end Fix42
