import CompileCommands.Aggregation
import CompileCommands.Closure
import CompileCommands.Synthesis

set_option autoImplicit false

/- Collecting the entries of a dependency closure: the closure is walked, every eligible label is
given its place, and then the entries of each are computed once. -/
namespace CompileCommands

/-- A root is named by a label in any spelling, or by a target. -/
inductive Root where
  | spelled (label : String)
  | described (target : Target)

def Root.spelling : Root → String
  | .spelled label => label
  | .described target => target.label

structure Collection where
  visit : Visit
  aggregation : Aggregation
  deriving DecidableEq, Repr

/-- The order in which several workers get to do their share. It is not up to the program; all that
can be told of it is that everything has its turn once. -/
structure Schedule where
  order : List String → List String
  complete : ∀ labels, (order labels).Perm labels

def Schedule.inTurn : Schedule := ⟨id, fun _ => .refl _⟩

namespace Graph

/-- The labels of the roots, each once, after those `kept` already. -/
def rootLabelsFrom (graph : Graph) (kept : List String) : List Root → Except Failure (List String)
  | [] => .ok kept
  | root :: rest =>
      match graph.target root.spelling with
      | .error failure => .error failure
      | .ok target => rootLabelsFrom graph (appendNew kept target.label) rest

def rootLabels (graph : Graph) (roots : List Root) : Except Failure (List String) :=
  graph.rootLabelsFrom [] roots

end Graph

namespace Collection

/-- The entries of the target with a label. -/
def entriesOf (graph : Graph) (toolchain : Toolchain) (label : String) :
    Except Failure (List Entry) :=
  match graph.target label with
  | .error failure => .error failure
  | .ok target => Synthesis.targetEntries toolchain target

def computeAll (graph : Graph) (toolchain : Toolchain) (aggregation : Aggregation) :
    List String → Except Failure Aggregation
  | [] => .ok aggregation
  | label :: rest =>
      match aggregation.getOrCompute label id (entriesOf graph toolchain label) with
      | (_, .error failure) => .error failure
      | (after, .ok _) => computeAll graph toolchain after rest

/-- The aggregation after the entries of some labels are asked for, one after the other. Computing
those of one label may fail, which does not keep the others from being asked for. -/
def askAll (graph : Graph) (toolchain : Toolchain) (aggregation : Aggregation)
    (labels : List String) : Aggregation :=
  labels.foldl
    (fun known label => (known.getOrCompute label id (entriesOf graph toolchain label)).1)
    aggregation

/-- Several workers go through all of the labels in the order of `turns`. If computations fail, then
the failure that is told is that of the first label, and not the first in time. -/
def computeShared (graph : Graph) (toolchain : Toolchain) (aggregation : Aggregation)
    (labels turns : List String) : Except Failure Aggregation :=
  match labels.mapM (entriesOf graph toolchain) with
  | .error failure => .error failure
  | .ok _ => .ok (askAll graph toolchain aggregation turns)

/-- Whether the work for some labels is shared among workers. -/
def isShared (workers : Option Int) (labels : List String) : Bool :=
  workers != some 1 && 2 ≤ labels.length

def computeBy (schedule : Schedule) (workers : Option Int) (graph : Graph) (toolchain : Toolchain)
    (aggregation : Aggregation) (labels : List String) : Except Failure Aggregation :=
  if isShared workers labels then
    computeShared graph toolchain aggregation labels (schedule.order labels)
  else computeAll graph toolchain aggregation labels

/-- Work for several labels is shared among workers, of which there has to be one at least. The
usual number of workers is taken if none is given. -/
def lacksWorkers (workers : Option Int) (labels : List String) : Bool :=
  match workers with
  | none => false
  | some count => count ≤ 0 && 2 ≤ labels.length

/-- The places of the labels are fixed before any entries are computed. -/
def ofVisitBy (schedule : Schedule) (graph : Graph) (toolchain : Toolchain) (workers : Option Int)
    (visit : Visit) : Except Failure Collection :=
  if lacksWorkers workers visit.eligible then .error .noWorkers
  else
    match computeBy schedule workers graph toolchain
      (visit.eligible.foldl Aggregation.addOrder .empty) visit.eligible with
    | .error failure => .error failure
    | .ok aggregation => .ok ⟨visit, aggregation⟩

end Collection

/-- Collects the entries of the closure of some roots; if there are several workers, they do their
share in the order of a schedule. -/
def collectBy (schedule : Schedule) (graph : Graph) (roots : List Root) (toolchain : Toolchain)
    (workers : Option Int) : Except Failure Collection :=
  match graph.rootLabels roots with
  | .error failure => .error failure
  | .ok labels =>
      match graph.visit labels with
      | .error failure => .error failure
      | .ok visit => Collection.ofVisitBy schedule graph toolchain workers visit

/-- Collects the entries of the closure of some roots, with workers that have their turns in the order
of the labels. -/
def collect (graph : Graph) (roots : List Root) (toolchain : Toolchain) (workers : Option Int) :
    Except Failure Collection :=
  collectBy .inTurn graph roots toolchain workers

end CompileCommands
