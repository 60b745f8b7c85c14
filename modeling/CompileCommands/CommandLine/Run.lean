import CompileCommands.Collection
import CompileCommands.CommandLine.Account
import CompileCommands.CommandLine.Machine
import CompileCommands.CommandLine.Options
import CompileCommands.CommandLine.Usage
import CompileCommands.Database
import CompileCommands.Placeholder

set_option autoImplicit false

/- A run of the program: read a description, collect the entries of the targets and write the
database. The file system after it and whether it failed depend on what is to be done and on the machine
alone; how it is told depends on the terminal as well, and on the order in which workers have their
turns. -/
namespace CompileCommands.CommandLine

open Terminal (Line)

/-- Targets are skipped because they are external or for their kind. -/
def skippedEvent (graph : Graph) (label : String) : Event :=
  match graph.find? label with
  | some target =>
      .skipped label (if graph.isExternal target then "external" else target.kind)
  | none => .skipped label ""

/-- The files of a target that have no command, up to one that fails. -/
def omittedEvents (toolchain : Toolchain) (target : Target) : List String → List Event
  | [] => []
  | source :: rest =>
      match Synthesis.commandLine toolchain target source with
      | .error _ => []
      | .ok (.error omission) =>
          .omitted target.label omission :: omittedEvents toolchain target rest
      | .ok (.ok _) => omittedEvents toolchain target rest

/-- The entries of a target. A flag that is withheld, by its place among those of the user, fails
where a command is made of them. -/
def entriesWith (toolchain : Toolchain) (withheld : Option Nat) (target : Target) :
    Except Failure (List Entry) := do
  let entries ← Synthesis.targetEntries toolchain target
  match withheld, entries with
  | some place, _ :: _ => .error (.withheld (.flag place))
  | _, _ => .ok entries

/-- A withheld flag does no harm as long as no command is made. -/
def checkFlags (toolchain : Toolchain) (withheld : Option Nat) (targets : List Target) :
    Except Failure Unit :=
  match withheld with
  | none => .ok ()
  | some _ => (targets.mapM (entriesWith toolchain withheld)).map fun _ => ()

/-- The files without commands of several targets. One worker stops at a target that fails;
several go through all of them. -/
def allOmittedEvents (toolchain : Toolchain) (withheld : Option Nat) (shared : Bool) :
    List Target → List Event
  | [] => []
  | target :: rest =>
      omittedEvents toolchain target target.sources ++
        if shared || (entriesWith toolchain withheld target).isOk then
          allOmittedEvents toolchain withheld shared rest
        else []

/-- The place of the first withheld flag when `given` flags come after described ones. -/
def withheldFlag? (toolchain : Toolchain) (cxxopts copts : List (Given String)) : Option Nat :=
  let combined (all : List String) (given : List (Given String)) : List (Given String) :=
    (all.take (all.length - given.length)).map .value ++ given
  (combined toolchain.cxxopts cxxopts ++ combined toolchain.copts copts).findIdx? Given.isWithheld

namespace Options

def roots (options : Options) : List Root := options.targets.map .spelled

/-- The number of workers, which has to be one at least. -/
def workers (options : Options) : Except Failure Int :=
  match options.jobs with
  | .withheld => .error (.withheld .jobs)
  | .value count => if count < 1 then .error (.jobs count) else .ok count

def load (options : Options) (machine : Machine) (files : FileSystem) :
    Account (Graph × Toolchain) := do
  let description ← .quiet (Description.load machine.headroom files options.graph)
  .tell [.loadedDescription options.graph]
  let graph ← .quiet (Graph.ofDescription description)
  .tell [.builtGraph graph.targets.length graph.edges.length]
  let toolchain ← .quiet (Toolchain.ofDescription description
    (options.copts.map (Given.getD "")) (options.cxxopts.map (Given.getD "")))
  .tell [.readTools toolchain.tools]
  .print machine.screen (.loadedTargets graph.targets.length options.graph)
  return (graph, toolchain)

def collected (options : Options) (schedule : Schedule) (workers : Int) (graph : Graph)
    (toolchain : Toolchain) : Account Collection := do
  let labels ← .quiet (graph.rootLabels options.roots)
  let visit ← .quiet (graph.visit labels)
  let shared := Collection.isShared (some workers) visit.eligible
  let turns := if shared then schedule.order visit.eligible else visit.eligible
  let withheld := withheldFlag? toolchain options.cxxopts options.copts
  .tell (visit.skipped.map (skippedEvent graph))
  .tell (allOmittedEvents toolchain withheld shared (turns.filterMap graph.find?))
  .quiet (checkFlags toolchain withheld (visit.eligible.filterMap graph.find?))
  let collection ← .quiet (collectBy schedule graph options.roots toolchain (some workers))
  .tell [.synthesized collection.aggregation.computed collection.visit.visited.length
    collection.visit.skipped.length]
  return collection

/-- Whether a root is named by more than an empty text. -/
def namesRoot : Option (Given String) → Bool
  | some (.value root) => !root.isEmpty
  | _ => false

def rootText : Option (Given String) → Except Failure (Option String)
  | none => .ok none
  | some .withheld => .error (.withheld .root)
  | some (.value root) => .ok (some root)

/-- Placeholders are filled if one of the roots at least is named. -/
def entriesOf (options : Options) (collection : Collection) : Except Failure (List Entry) := do
  let entries := collection.aggregation.flatten
  if namesRoot options.executionRoot || namesRoot options.workspaceRoot then
    let executionRoot ← rootText options.executionRoot
    let workspaceRoot ← rootText options.workspaceRoot
    return Placeholder.resolve executionRoot workspaceRoot entries
  else return entries

/-- What is to be written: the entries, and the number of targets that were asked for them. -/
structure Plan where
  entries : List Entry
  targets : Nat
  deriving DecidableEq, Repr

/-- Everything that happens before the database is written. -/
def prepared (options : Options) (machine : Machine) (schedule : Schedule) (files : FileSystem) :
    Account Plan := do
  let workers ← .quiet options.workers
  let (graph, toolchain) ← options.load machine files
  let collection ← options.collected schedule workers graph toolchain
  let entries ← .quiet (options.entriesOf collection)
  .tell (if entries.isEmpty then [.foundNothing] else [])
  return ⟨entries, collection.aggregation.labels.length⟩

/-- Writes the database, and then prints what was written. -/
def written (options : Options) (machine : Machine) (files : FileSystem) (plan : Plan) :
    FileSystem × Account Unit :=
  match options.output with
  | .withheld => (files, .quiet (.error (.withheld .path)))
  | .value output =>
      match Database.write machine.disk files output plan.entries with
      | (files, .error failure) => (files, .quiet (.error failure))
      | (files, .ok count) =>
          (files, do
            .tell [.wroteEntries count output]
            .print machine.screen (.wroteCommands count plan.targets output))

/-- Does what the options ask for; files are changed only if all goes well up to the database. -/
def perform (options : Options) (machine : Machine) (schedule : Schedule) (files : FileSystem) :
    FileSystem × Account Unit :=
  let prepared := options.prepared machine schedule files
  match prepared.result with
  | .error failure => (files, ⟨prepared.events, .error failure⟩)
  | .ok plan =>
      let written := options.written machine files plan
      (written.1, ⟨prepared.events ++ written.2.events, written.2.result⟩)

end Options

/-- Where the program runs. Several workers take their turns as it pleases the machine. -/
structure Environment extends Machine where
  isTerminal : Bool
  noColour : Option String
  schedule : Schedule := .inTurn

structure Outcome where
  exitCode : Nat
  lines : List Line
  files : FileSystem

def exitCodeOf : Except Failure Unit → Nat
  | .ok () => 0
  | .error failure => failure.exitCode?.getD 2

def Account.lines (account : Account Unit) (verbose coloured : Bool) : List Line :=
  account.events.flatMap (Event.lines verbose coloured) ++
    match account.result with
    | .ok () => []
    | .error failure => failureLines coloured failure

namespace Stop

def exitCode : Stop → Nat
  | .help | .version => 0
  | .usage _ => 2

def lines : Stop → List Line
  | .help => helpLines.map .out
  | .version => [.out versionLine]
  | .usage reason => usageLines.map .err ++ [.err (usageErrorLine reason)]

end Stop

namespace Environment

def isColoured (environment : Environment) (options : Options) : Bool :=
  Terminal.usesColour environment.isTerminal false options.noColor environment.noColour

/-- Whether the package that the graph analysis stands on will do. -/
def verdict (environment : Environment) (coloured : Bool) :
    Except Version.Fault Requirement.Verdict :=
  Requirement.insist environment.versions Requirement.leastVersions environment.installed coloured
    "networkx" "build graph analysis"

/-- Runs with accepted options. -/
def runWith (environment : Environment) (options : Options) (files : FileSystem) : Outcome :=
  let coloured := environment.isColoured options
  let started := debugLines options.verbose "Verbose logging enabled"
  match environment.verdict coloured with
  | .error fault => ⟨1, started ++ [.err fault.message], files⟩
  | .ok (.refused lines) => ⟨2, started ++ lines, files⟩
  | .ok (.satisfied installed least) =>
      let performed := options.perform environment.toMachine environment.schedule files
      let satisfied := (Event.satisfied "networkx" installed least).lines options.verbose coloured
      { exitCode := exitCodeOf performed.2.result
        lines := started ++ satisfied ++ performed.2.lines options.verbose coloured
        files := performed.1 }

def run (environment : Environment) (arguments : List String) (files : FileSystem) : Outcome :=
  match Options.parse arguments with
  | .error stop => ⟨stop.exitCode, stop.lines, files⟩
  | .ok options => environment.runWith options files

end Environment

end CompileCommands.CommandLine
