import CompileCommands.CommandLine.Run
import CompileCommands.Proofs.Collection.UnresolvedRoots
import CompileCommands.Proofs.Description.FileText

set_option autoImplicit false

/- What a run has to write, however many workers there are and whatever is told of their work: the
entries that one worker collects from the description. -/
namespace CompileCommands

/-- One worker is enough. -/
theorem collect_eq_one_worker {graph : Graph} {roots : List Root} {toolchain : Toolchain}
    {count : Int} (enough : 1 ≤ count) :
    collect graph roots toolchain (some count) = collect graph roots toolchain (some 1) := by
  have several : ∀ other, some count = some other → 1 ≤ other := by
    rintro other ⟨⟩
    exact enough
  have one : ∀ other, some (1 : Int) = some other → 1 ≤ other := by
    rintro other ⟨⟩
    exact Int.le_refl 1
  simp only [collect, collectBy, Collection.ofVisitBy_inTurn,
    Collection.lacksWorkers_eq_false _ several, Collection.lacksWorkers_eq_false _ one]

theorem Collection.SameAnswer.bind {α : Type} (x : Except Failure α)
    {f g : α → Except Failure Collection} (same : ∀ a, SameAnswer (f a) (g a)) :
    SameAnswer (x >>= f) (x >>= g) := by
  cases x with
  | error failure => exact .failed failure
  | ok a => exact same a

namespace CommandLine

theorem Event.shownOn_eq_ok {screen : Terminal.Screen} (willing : screen.IsWilling)
    (event : Event) : event.shownOn screen = .ok () := by
  unfold shownOn
  cases printed : event.printed? with
  | none => rfl
  | some text => rw [Option.bind_some, willing]

theorem Account.result_tell_bind {α : Type} (events : List Event) (next : Unit → Account α) :
    (tell events >>= next).result = (next ()).result :=
  result_bind ..

namespace Options

open Collection (SameAnswer)

variable (options : Options)

/-- Whether there is a worker at least. -/
def HasWorkers : Prop := ∃ count, options.jobs = .value count ∧ 1 ≤ count

/-- The graph and the toolchain of the description. -/
def described (headroom : Json.Headroom) (files : FileSystem) :
    Except Failure (Graph × Toolchain) := do
  let description ← Description.load headroom files options.graph
  let graph ← Graph.ofDescription description
  let toolchain ← Toolchain.ofDescription description
    (options.copts.map (Given.getD "")) (options.cxxopts.map (Given.getD ""))
  return (graph, toolchain)

/-- The graph and the toolchain, if it can be shown that they are there. -/
def shown (machine : Machine) (files : FileSystem) : Except Failure (Graph × Toolchain) := do
  let (graph, toolchain) ← options.described machine.headroom files
  (Event.loadedTargets graph.targets.length options.graph).shownOn machine.screen
  return (graph, toolchain)

/-- Collects as one worker does, after a look at the flags. -/
def gathered (graph : Graph) (toolchain : Toolchain) : Except Failure Collection := do
  let labels ← graph.rootLabels options.roots
  let visit ← graph.visit labels
  checkFlags toolchain (withheldFlag? toolchain options.cxxopts options.copts)
    (visit.eligible.filterMap graph.find?)
  collect graph options.roots toolchain (some 1)

def planOf (collection : Collection) : Except Failure Plan := do
  let entries ← options.entriesOf collection
  return ⟨entries, collection.aggregation.labels.length⟩

def plan (machine : Machine) (files : FileSystem) : Except Failure Plan := do
  let (graph, toolchain) ← options.shown machine files
  let collection ← options.gathered graph toolchain
  options.planOf collection

/-- Does what is to be done, and tells nothing. -/
def done (machine : Machine) (files : FileSystem) : FileSystem × Except Failure Unit :=
  match options.plan machine files with
  | .error failure => (files, .error failure)
  | .ok plan =>
      ((options.written machine files plan).1, (options.written machine files plan).2.result)

theorem workers_eq_ok_iff (count : Int) :
    options.workers = .ok count ↔ options.jobs = .value count ∧ 1 ≤ count := by
  unfold workers
  cases options.jobs with
  | withheld => simp
  | value given =>
      by_cases few : given < 1
      · simp only [if_pos few, Given.value.injEq, false_iff, reduceCtorEq]
        omega
      · simp only [if_neg few, Given.value.injEq, Except.ok.injEq]
        omega

theorem result_load (machine : Machine) (files : FileSystem) :
    (options.load machine files).result = options.shown machine files := by
  simp only [load, shown, described, Account.result_bind, Account.result_quiet,
    Account.result_print, Account.result_pure, bind_assoc]
  rfl

theorem described_eq_ok_iff (headroom : Json.Headroom) (files : FileSystem) (graph : Graph)
    (toolchain : Toolchain) :
    options.described headroom files = .ok (graph, toolchain) ↔
      ∃ description, Description.load headroom files options.graph = .ok description ∧
        Graph.ofDescription description = .ok graph ∧
        Toolchain.ofDescription description (options.copts.map (Given.getD ""))
          (options.cxxopts.map (Given.getD "")) = .ok toolchain := by
  simp only [described, bind_eq_ok_iff]
  constructor
  · rintro ⟨description, read, made, built, tools, chosen, same⟩
    cases same
    exact ⟨description, read, built, chosen⟩
  · rintro ⟨description, read, built, chosen⟩
    exact ⟨description, read, graph, built, toolchain, chosen, rfl⟩

theorem shown_eq_ok_iff (machine : Machine) (files : FileSystem) (graph : Graph)
    (toolchain : Toolchain) :
    options.shown machine files = .ok (graph, toolchain) ↔
      options.described machine.headroom files = .ok (graph, toolchain) ∧
        (Event.loadedTargets graph.targets.length options.graph).shownOn machine.screen =
          .ok () := by
  simp only [shown, bind_eq_ok_iff]
  constructor
  · rintro ⟨both, read, _, taken, same⟩
    cases same
    exact ⟨read, taken⟩
  · rintro ⟨read, taken⟩
    exact ⟨_, read, (), taken, rfl⟩

theorem built_of_shown {machine : Machine} {files : FileSystem} {graph : Graph}
    {toolchain : Toolchain} (read : options.shown machine files = .ok (graph, toolchain)) :
    graph.Built := by
  obtain ⟨described, _⟩ := (options.shown_eq_ok_iff machine files graph toolchain).mp read
  obtain ⟨_, _, made, _⟩ := (options.described_eq_ok_iff _ files graph toolchain).mp described
  exact Graph.built_of_ofTargets (Graph.ofTargets_of_ofDescription made).1

/-- Several workers gather what one does. -/
theorem sameAnswer_result_collected {graph : Graph} (built : graph.Built) (toolchain : Toolchain)
    (schedule : Schedule) {workers : Int} (enough : 1 ≤ workers) :
    SameAnswer (options.collected schedule workers graph toolchain).result
      (options.gathered graph toolchain) := by
  have same := built.sameAnswer_collectBy schedule options.roots toolchain (some workers)
  rw [collect_eq_one_worker enough] at same
  -- Without what is told in between, both go through the same steps up to the last.
  simp only [collected, gathered, ↓Account.result_tell_bind, Account.result_bind,
    Account.result_quiet, Account.result_pure]
  apply SameAnswer.bind _ fun labels => ?_
  apply SameAnswer.bind _ fun visit => ?_
  apply SameAnswer.bind _ fun _ => ?_
  change SameAnswer (_ >>= pure) _
  rw [bind_pure]
  exact same

/-- Plans look at collections from outside. -/
theorem planOf_congr {one other : Except Failure Collection} (same : SameAnswer one other) :
    one >>= options.planOf = other >>= options.planOf := by
  cases same with
  | failed failure => rfl
  | collected visit alike =>
      show options.planOf _ = options.planOf _
      unfold planOf entriesOf
      rw [alike.flatten, alike.labels]

theorem result_prepared (enough : options.HasWorkers) (machine : Machine) (schedule : Schedule)
    (files : FileSystem) :
    (options.prepared machine schedule files).result = options.plan machine files := by
  obtain ⟨count, given⟩ := enough
  simp only [prepared, Account.result_bind, Account.result_quiet, Account.result_pure, plan,
    result_load, (options.workers_eq_ok_iff count).mpr given]
  cases read : options.shown machine files with
  | error failure => rfl
  | ok both =>
      obtain ⟨graph, toolchain⟩ := both
      have built := options.built_of_shown read
      exact options.planOf_congr
        (options.sameAnswer_result_collected built toolchain schedule given.2)

theorem hasWorkers_of_result_prepared {machine : Machine} {schedule : Schedule}
    {files : FileSystem} {plan : Plan}
    (made : (options.prepared machine schedule files).result = .ok plan) : options.HasWorkers := by
  simp only [prepared, Account.result_bind, Account.result_quiet] at made
  obtain ⟨count, working, _⟩ := bind_eq_ok_iff.mp made
  exact ⟨count, (options.workers_eq_ok_iff count).mp working⟩

theorem perform_eq_done (enough : options.HasWorkers) (machine : Machine) (schedule : Schedule)
    (files : FileSystem) :
    (options.perform machine schedule files).1 = (options.done machine files).1 ∧
      (options.perform machine schedule files).2.result = (options.done machine files).2 := by
  simp only [perform, done]
  rw [options.result_prepared enough machine schedule files]
  cases options.plan machine files with
  | error failure => exact ⟨rfl, rfl⟩
  | ok plan => exact ⟨rfl, rfl⟩

end Options

/-! A description of one program, which is compiled from one file. -/

def appText : List Char :=
  "\x7b\"toolchain\": ".toList ++ "\x7b\"tools\": ".toList ++
    "\x7b\"c++-compile\":".toList ++ " \"c++\"\x7d\x7d, ".toList ++
    "\"targets\": [\x7b".toList ++ "\"label\": \"//app\", ".toList ++
    "\"kind\": \"cc_binary\", ".toList ++ "\"srcs\": [\"main.cc\"], ".toList ++
    "\"compilation_context\":".toList ++ " \x7b\x7d\x7d]\x7d".toList

def appOptions : Options :=
  { Progress.start.options with
    graph := "graph.json"
    targets := ["//app"] }

def appFolder : FileSystem := Description.folder (Text.Utf8.encode appText)

/-- A terminal on a machine that has what is needed. -/
def workstation : Environment where
  isTerminal := true
  noColour := none
  installed := [("networkx", "3.6.1")]

/-- Whether the options are these after some more arguments. -/
def Progress.Accepts (progress : Progress) (texts : List String) (options : Options) : Prop :=
  ∃ arguments, Argument.ofTexts texts = .ok arguments ∧
    progress.takeAll arguments >>= Progress.finish = .ok options

theorem Progress.Accepts.parse {texts : List String} {options : Options}
    (accepts : start.Accepts texts options) : Options.parse texts = .ok options := by
  obtain ⟨arguments, read, taken⟩ := accepts
  rw [Options.parse, read]
  exact taken

theorem accepts_app (options : Options) :
    Progress.Accepts ⟨options, false, false, []⟩ ["graph.json", "//app"]
      { options with
        graph := "graph.json"
        targets := ["//app"] } := by
  refine ⟨[.plain "graph.json", .plain "//app"], rfl, ?_⟩
  rw [Progress.takeAll]
  rfl

theorem parse_app : Options.parse ["graph.json", "//app"] = .ok appOptions :=
  (accepts_app Progress.start.options).parse

end CommandLine

end CompileCommands
