import CompileCommands.Graph.Cycle
import CompileCommands.Graph.Generations
import CompileCommands.Target

set_option autoImplicit false

/- Build graphs: targets with distinct labels whose dependencies are all targets of the graph and
do not form a cycle. Targets keep the order in which they were declared. -/
namespace CompileCommands

open Json (Value Members)

structure Graph where
  workspace : String
  targets : List Target
  deriving DecidableEq, Repr

namespace Graph

def labels (graph : Graph) : List String := graph.targets.map (·.label)

/-- The target with a label in its canonical spelling. -/
def find? (graph : Graph) (label : String) : Option Target :=
  graph.targets.find? (·.label == label)

def contains (graph : Graph) (label : String) : Bool := graph.labels.contains label

/-- The dependencies of a label in canonical spelling; a label that is not in the graph has none. -/
def depsOf (graph : Graph) (label : String) : List String :=
  match graph.find? label with
  | some target => target.deps
  | none => []

def dependencyTable (graph : Graph) : Dependencies :=
  graph.targets.map fun target => (target.label, target.deps)

/-- The labels that some target depends on. -/
def heads (graph : Graph) : List String := graph.dependencyTable.heads

theorem mem_heads_of_mem_deps {graph : Graph} {target : Target} {dep : String}
    (declared : target ∈ graph.targets) (listed : dep ∈ target.deps) : dep ∈ graph.heads :=
  List.mem_flatMap.mpr
    ⟨(target.label, target.deps), List.mem_map.mpr ⟨target, declared, rfl⟩, listed⟩

/-- Every pair of a label and one of its dependencies, in order. -/
def edges (graph : Graph) : List Edge :=
  graph.targets.flatMap fun target => target.deps.map fun dep => ⟨target.label, dep⟩

/-- The first label that occurred before. -/
def firstRepeated (seen : List String) : List String → Option String
  | [] => none
  | label :: rest =>
      if label ∈ seen then some label else firstRepeated (label :: seen) rest

/-- The first edge that leads out of the graph. -/
def firstDangling (graph : Graph) : Option Edge :=
  graph.edges.find? fun edge => !graph.contains edge.head

/-- Makes a graph of targets: labels are checked first, then dependencies, then cycles. -/
def ofTargets (targets : List Target) (workspace : String) : Except Failure Graph :=
  let graph : Graph := ⟨workspace, targets⟩
  match firstRepeated [] graph.labels with
  | some label => .error (.graph (.duplicate label))
  | none =>
      match graph.firstDangling with
      | some edge => .error (.graph (.unknownDependency edge.tail edge.head))
      | none =>
          if graph.dependencyTable.isAcyclic then .ok graph
          else .error (.graph (.cycle ((findCycle graph.dependencyTable).getD [])))

/-- The target with a label in any spelling. -/
def target (graph : Graph) (label : String) : Except Failure Target :=
  match graph.find? label with
  | some target => .ok target
  | none =>
      match Label.canonicalize label with
      | .error failure => .error failure
      | .ok canonical =>
          match graph.find? canonical with
          | some target => .ok target
          | none => .error (.unknownTarget label)

theorem mem_targets_of_find? {graph : Graph} {label : String} {target : Target}
    (found : graph.find? label = some target) : target ∈ graph.targets :=
  List.mem_of_find?_eq_some found

theorem mem_targets_of_target {graph : Graph} {label : String} {target : Target}
    (found : graph.target label = .ok target) : target ∈ graph.targets := by
  unfold Graph.target at found
  split at found
  · next here => cases found; exact mem_targets_of_find? here
  · split at found
    · contradiction
    · split at found
      · next here => cases found; exact mem_targets_of_find? here
      · contradiction

def dependencies (graph : Graph) (label : String) : Except Failure (List String) :=
  (graph.target label).map (·.deps)

/-- External targets belong to another workspace than the main one and the graph's own. -/
def isExternal (graph : Graph) (target : Target) : Bool :=
  !(target.workspace.isEmpty || target.workspace == graph.workspace)

/-- Reads a graph. -/
def ofDescription (description : Members) : Except Failure Graph :=
  match description.find? "targets" with
  | some (.array items) => do
      let targets ← items.mapM Target.ofValue
      ofTargets targets (((description.find? "workspace").map Value.text).getD "")
  | _ => .error (.description .noTargets)

end Graph

end CompileCommands
