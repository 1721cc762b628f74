import Fix42.Guardian.Text
import Fix42.Lib.Dependency

/-!
# `TestTree`

The suites of the test tool and the suites they require. `TestTree.run` runs the suites of the first
level, each after what it requires. What it is supposed to do is `Meets`; whether it does, whatever the
outcomes of the tests are, depends on the tree: `Undisturbed`.
-/

namespace Fix42

namespace Guardian

open Dependency (Reaches Apart Treelike Past)

variable {Input : Type}

/-! ## Suites -/

/-- A test case with its `TestInput` attributes. -/
structure TestMethod (Input : Type) where
  name : String
  inputs : List Input

/-- A test suite with its `RequireSuite` attributes. -/
structure TestGroup (Input : Type) where
  testSuiteName : String
  requireSuites : List String
  testCase : List (TestMethod Input)

structure TestConfiguration where
  runRequired : Bool := true
  suiteToRun : List String := []

/-- The outcomes of `RunTest`. -/
abbrev Outcome (Input : Type) := TestMethod Input → Option Input → Bool

def TestMethod.run (runTest : Outcome Input) (m : TestMethod Input) : Bool :=
  if m.inputs.isEmpty then runTest m none
  else m.inputs.foldl (fun result input => result && runTest m (some input)) true

/-- The tests of a suite; all are run, also behind one that fails. -/
def TestGroup.run (runTest : Outcome Input) (g : TestGroup Input) : Bool :=
  g.testCase.foldl (fun result m => result && m.run runTest) true

/-! ## The tree -/

abbrev Node (groups : List (TestGroup Input)) := Fin groups.length

/-- The nodes with their `DependOn`, and those that are run. -/
structure TestTree (groups : List (TestGroup Input)) where
  dependOn : Node groups → List (Node groups)
  firstLevelTest : List (Node groups)

variable {groups : List (TestGroup Input)}

def suiteName (i : Node groups) : String := (groups.get i).testSuiteName

/-- The node of a required suite. -/
def findSuite (i : Node groups) (name : String) : Except Exn (Node groups) :=
  match (List.finRange _).find? fun j : Node groups => suiteName j = name with
  | some j => .ok j
  | none => .error (.other
      s!"Unable to find required test suite: '{name}' for test suite: '{suiteName i}'")

def requires (config : TestConfiguration) (i : Node groups) : Except Exn (List (Node groups)) :=
  if config.runRequired then (groups.get i).requireSuites.mapM (findSuite i) else .ok []

/-- The tree, with what each node depends on; how often a node occurs there is its `ReferenceCount`. -/
def TestTree.ofRequires (config : TestConfiguration) (dependOn : List (List (Node groups))) :
    TestTree groups where
  dependOn i := dependOn.getD i []
  firstLevelTest :=
    if config.suiteToRun.length = 0 then
      (List.finRange _).filter fun i => dependOn.flatten.count i = 0
    else (List.finRange _).filter fun i => config.suiteToRun.contains (suiteName i)

/-- The constructor of `TestTree`. -/
def TestTree.new (groups : List (TestGroup Input)) (config : TestConfiguration) :
    Except Exn (TestTree groups) :=
  ((List.finRange _).mapM (requires config)).map (TestTree.ofRequires config)

/-! ## Running -/

/-- Which nodes have been run (`AsBeenRun`), and whose tests were, in order. -/
structure State (groups : List (TestGroup Input)) where
  asBeenRun : Node groups → Bool
  ran : List (Node groups)

/-- No node has been run. -/
def State.new : State groups := { asBeenRun := fun _ => false, ran := [] }

def State.start (s : State groups) (i : Node groups) : State groups :=
  { s with asBeenRun := Function.update s.asBeenRun i true }

def State.done (s : State groups) (i : Node groups) : State groups := { s with ran := s.ran ++ [i] }

/-- `RunResult` of a node: what it is at first, as it is never set. -/
def runResult : Bool := false

/-- The loop over `DependOn`, which ends at the first node that fails. -/
def runRequired (run : Node groups → State groups → Option (State groups × Bool)) :
    List (Node groups) → State groups → Option (State groups × Bool)
  | [], s => some (s, true)
  | node :: dependOn, s =>
    (run node s).bind fun r => if r.2 then runRequired run dependOn r.1 else some (r.1, false)

namespace TestTree

variable (tree : TestTree groups) (runTest : Node groups → Outcome Input)

/-- `TestNode.Run`, to a depth. -/
def runNode : Nat → Node groups → State groups → Option (State groups × Bool)
  | 0, _, _ => none
  | fuel + 1, i, s =>
    if s.asBeenRun i then some (s, runResult)
    else
      (runRequired (runNode fuel) (tree.dependOn i) (s.start i)).map fun r =>
        if r.2 then (r.1.done i, (groups.get i).run (runTest i)) else (r.1, false)

/-- `TestTree.Run`. A node is entered once, so a depth of one more than there are nodes is enough. -/
def run : Option (State groups) :=
  tree.firstLevelTest.foldlM
    (fun s i => (tree.runNode runTest (groups.length + 1) i s).map Prod.fst) State.new

end TestTree

/-! ## What it is for -/

/-- A suite requires another. -/
def Requires (i j : Node groups) : Prop := suiteName j ∈ (groups.get i).requireSuites

instance (i j : Node groups) : Decidable (Requires i j) := inferInstanceAs (Decidable (_ ∈ _))

def Selected (config : TestConfiguration) (i : Node groups) : Prop :=
  config.suiteToRun = [] ∨ suiteName i ∈ config.suiteToRun

/-- All tests of a suite pass. -/
def TestGroup.Passes (runTest : Outcome Input) (g : TestGroup Input) : Prop :=
  ∀ m ∈ g.testCase, ∀ input ∈ if m.inputs.isEmpty then [none] else m.inputs.map some,
    runTest m input = true

/-- No suite's tests are run twice, and none that are neither selected nor required. -/
structure Bounded (config : TestConfiguration) (ran : List (Node groups)) : Prop where
  once : ran.Nodup
  only : ∀ i ∈ ran, ∃ r, Selected config r ∧ Relation.ReflTransGen Requires r i

/-- All that a suite requires passes. -/
def RequiredPass (runTest : Node groups → Outcome Input) (i : Node groups) : Prop :=
  ∀ j, Relation.TransGen Requires i j → (groups.get j).Passes (runTest j)

/-- The selected suites whose tests are run are those for which all that they require passes. -/
structure Meets (config : TestConfiguration) (runTest : Node groups → Outcome Input)
    (ran : List (Node groups)) : Prop extends Bounded config ran where
  selected : ∀ i, Selected config i → (i ∈ ran ↔ RequiredPass runTest i)

/-! ## When it does so -/

/-- A node that does not fail: neither it nor anything it depends on has a test. -/
def Certain (tree : TestTree groups) (i : Node groups) : Prop :=
  ∀ j, Reaches tree.dependOn i j → (groups.get j).testCase = []

/-- A node that is entered whenever another is: there are only certain nodes before it. -/
def Surely (tree : TestTree groups) : Node groups → Node groups → Prop :=
  Relation.ReflTransGen (Past tree.dependOn (Certain tree))

/-- A second visit, which counts as a failure, is never made for a suite that passes, and no selected
suite is left out. -/
structure Undisturbed (config : TestConfiguration) (tree : TestTree groups) : Prop where
  /-- Nothing is required twice below a suite of the first level. -/
  treelike : ∀ r ∈ tree.firstLevelTest, Treelike tree.dependOn r
  /-- Of two suites of the first level the first requires the second, or they require nothing in common,
  or the second requires the first and was entered from a suite before. -/
  order : ∀ before r between s behind, tree.firstLevelTest = before ++ r :: (between ++ s :: behind) →
    Reaches tree.dependOn r s ∨ Apart tree.dependOn r s ∨
      Reaches tree.dependOn s r ∧ ∃ t ∈ before, Surely tree t s
  /-- If all suites are selected, they require nothing behind something that may fail. -/
  all : config.suiteToRun = [] → ∀ i, ∀ j ∈ tree.dependOn i, Past tree.dependOn (Certain tree) i j

end Guardian

end Fix42
