import CompileCommands.Proofs.CommandLine.Task

set_option autoImplicit false

/- How a run is told and who does the work make no difference to what it leaves behind. Terminals,
colours and verbosity decide on lines only, and one worker does what several do. -/
namespace CompileCommands

namespace Requirement

/-- Whether two verdicts are the same but for the lines that tell of a refusal. -/
inductive SameVerdict : Except Version.Fault Verdict → Except Version.Fault Verdict → Prop
  | unread (fault : Version.Fault) : SameVerdict (.error fault) (.error fault)
  | refused (lines others : List Terminal.Line) :
      SameVerdict (.ok (.refused lines)) (.ok (.refused others))
  | satisfied (installed least : String) :
      SameVerdict (.ok (.satisfied installed least)) (.ok (.satisfied installed least))

theorem sameVerdict_insist (scheme : Scheme) (required installed : Table String String)
    (package purpose : String) (coloured other : Bool) :
    SameVerdict (insist scheme required installed coloured package purpose)
      (insist scheme required installed other package purpose) := by
  unfold insist
  cases required.find? package with
  | none => exact .refused _ _
  | some least =>
      dsimp only
      cases check scheme required installed package none true with
      | ok status => exact .satisfied _ _
      | error fault =>
          cases fault with
          | version unread => exact .unread unread
          | _ => exact .refused _ _

end Requirement

namespace CommandLine

/-- Whether options ask for the same, except that it may be told in another way and done by another
number of workers. -/
def Options.SameTask (options others : Options) : Prop :=
  { options with
    jobs := others.jobs
    noColor := others.noColor
    verbose := others.verbose } = others

theorem Options.SameTask.done_eq {options others : Options} (same : options.SameTask others)
    (machine : Machine) (files : FileSystem) :
    options.done machine files = others.done machine files := by
  rw [← same]
  rfl

theorem Environment.runWith_congr {one other : Environment}
    (machine : one.toMachine = other.toMachine) {options others : Options}
    (same : options.SameTask others) (enough : options.HasWorkers) (too : others.HasWorkers)
    (files : FileSystem) :
    (one.runWith options files).exitCode = (other.runWith others files).exitCode ∧
      (one.runWith options files).files = (other.runWith others files).files := by
  have verdicts : Requirement.SameVerdict (one.verdict (one.isColoured options))
      (other.verdict (other.isColoured others)) := by
    rw [verdict, verdict, machine]
    exact Requirement.sameVerdict_insist ..
  obtain ⟨left, told⟩ := options.perform_eq_done enough one.toMachine one.schedule files
  obtain ⟨leftToo, toldToo⟩ := others.perform_eq_done too other.toMachine other.schedule files
  rw [← machine] at leftToo toldToo
  simp only [runWith]
  generalize one.verdict (one.isColoured options) = first at verdicts
  generalize other.verdict (other.isColoured others) = second at verdicts
  cases verdicts with
  | unread fault => exact ⟨rfl, rfl⟩
  | refused lines others => exact ⟨rfl, rfl⟩
  | satisfied installed least =>
      simp only [left, told, ← machine, leftToo, toldToo, same.done_eq]
      exact ⟨trivial, trivial⟩

/-- Two runs on the same files of one machine, with arguments that are accepted and differ in nothing
but in what is told, in colours and in the number of workers, end with the same exit code and leave the
same files, whatever the terminals and the order in which workers have their turns. Arguments are
compared by what they are accepted as: where an option stands may decide what the hyphens around it
mean. -/
theorem run_same_task (arguments others : List String) (one other : Options)
    (accepted : Options.parse arguments = .ok one) (acceptedToo : Options.parse others = .ok other)
    (same : one.SameTask other) (enough : one.HasWorkers) (enoughToo : other.HasWorkers)
    (here there : Environment) (machine : here.toMachine = there.toMachine) (files : FileSystem) :
    (here.run arguments files).exitCode = (there.run others files).exitCode ∧
      (here.run arguments files).files = (there.run others files).files := by
  rw [Environment.run, Environment.run, accepted, acceptedToo]
  exact Environment.runWith_congr machine same enough enoughToo files

/-- An option that does not use the argument after it. -/
theorem Progress.takeAll_option {progress next : Progress} {switch : Switch} {short : Bool}
    {attached : Option (List Char)} {later : List Argument}
    (taken : progress.takeSwitch switch short attached later.head? = .ok (next, false)) :
    progress.takeAll (.option switch short attached :: later) = next.takeAll later := by
  have reached : (Argument.option switch short attached :: later).dropWhile (!·.isOption) =
      .option switch short attached :: later := rfl
  have bare : ((Argument.option switch short attached :: later).takeWhile (!·.isOption)).isEmpty =
      true := rfl
  rw [takeAll]
  simp only [bare, if_true]
  split
  · next ended => cases reached.symm.trans ended
  · next found =>
    cases reached.symm.trans found
    rw [taken]
    rfl
  · next other found =>
    cases reached.symm.trans found
    exact absurd rfl (other _ _ _)

/-- The same task for eight workers, with more told and without colours. -/
def loudOptions : Options :=
  { appOptions with
    jobs := .value 8
    noColor := true
    verbose := true }

theorem parse_loud :
    Options.parse ["--verbose", "--no-color", "-j8", "graph.json", "//app"] = .ok loudOptions := by
  have read : Argument.ofTexts ["--verbose", "--no-color", "-j8", "graph.json", "//app"] =
      .ok [.option .verbose false none, .option .noColor false none,
        .option .jobs true (some ['8']), .plain "graph.json", .plain "//app"] := rfl
  have taken : Progress.start.takeAll [.option .verbose false none, .option .noColor false none,
      .option .jobs true (some ['8']), .plain "graph.json", .plain "//app"] =
        .ok ⟨loudOptions, true, true, []⟩ := by
    refine (Progress.takeAll_option rfl).trans ?_
    refine (Progress.takeAll_option rfl).trans ?_
    refine (Progress.takeAll_option rfl).trans ?_
    rw [Progress.takeAll]
    rfl
  rw [Options.parse, read]
  show (Progress.start.takeAll _ >>= Progress.finish) = _
  rw [taken]
  rfl

/-- The workers take their turns from the last label to the first. -/
def backwards : Schedule := ⟨List.reverse, List.reverse_perm⟩

/-- The same machine without a terminal, where colours are not wanted and the last are first. -/
def buildServer : Environment :=
  { workstation with
    isTerminal := false
    noColour := some "1"
    schedule := backwards }

theorem run_same_task_loud :
    Options.parse ["graph.json", "//app"] = .ok appOptions ∧
    Options.parse ["--verbose", "--no-color", "-j8", "graph.json", "//app"] = .ok loudOptions ∧
    appOptions.SameTask loudOptions ∧ appOptions.HasWorkers ∧ loudOptions.HasWorkers ∧
    workstation.toMachine = buildServer.toMachine ∧
    (workstation.run ["graph.json", "//app"] appFolder).exitCode =
      (buildServer.run ["--verbose", "--no-color", "-j8", "graph.json", "//app"]
        appFolder).exitCode ∧
    (workstation.run ["graph.json", "//app"] appFolder).files =
      (buildServer.run ["--verbose", "--no-color", "-j8", "graph.json", "//app"]
        appFolder).files := by
  have same : appOptions.SameTask loudOptions := rfl
  have one : appOptions.HasWorkers := ⟨1, rfl, by decide⟩
  have several : loudOptions.HasWorkers := ⟨8, rfl, by decide⟩
  exact ⟨parse_app, parse_loud, same, one, several, rfl,
    run_same_task _ _ _ _ parse_app parse_loud same one several workstation buildServer rfl
      appFolder⟩

end CommandLine

end CompileCommands
