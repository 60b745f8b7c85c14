import CompileCommands.Proofs.Collection.Origins
import CompileCommands.Proofs.CommandLine.AllOrNothing
import CompileCommands.Proofs.CommandLine.Attached
import CompileCommands.Proofs.CommandLine.Succeeds
import CompileCommands.Proofs.Placeholder.Filled

set_option autoImplicit false

/- The directories that are written when roots are given. Every entry is made for the execution root,
whose placeholder is its whole directory. That the two roots are looked at together before they are
filled in, and each for itself then, can be told from an execution root which is given as an empty
text. -/
namespace CompileCommands

namespace Placeholder

theorem trimmedRoot_prefix_or (root : List Char) :
    trimmedRoot root <+: root ∨ trimmedRoot root = ['/'] := by
  rw [trimmedRoot]
  split
  · exact .inr rfl
  · have kept := List.dropWhile_suffix (· == '/') (l := root.reverse)
    rw [← List.reverse_prefix, List.reverse_reverse] at kept
    exact .inl kept

theorem Bare.trimmedRoot {root : String} (bare : Bare root) :
    Bare (String.ofList (trimmedRoot root.toList)) := by
  intro placeholder one inside
  rw [String.toList_ofList] at inside
  rcases trimmedRoot_prefix_or root.toList with front | slash
  · exact bare placeholder one (inside.trans front.isInfix)
  · obtain ⟨_, parts, _⟩ := toList_of_mem_all one
    rw [slash] at inside
    have first : '_' ∈ placeholder.toList := by simp [parts]
    exact absurd (inside.subset first) (by decide)

/-- The execution root takes the place of its placeholder, and the workspace root finds none. -/
theorem fill_executionRootPlaceholder {root : String} (bare : Bare root)
    (workspaceRoot : Option String) :
    fill (some root) workspaceRoot executionRootPlaceholder =
      String.ofList (trimmedRoot root.toList) := by
  have settled := bare.trimmedRoot _ workspacePlaceholder_mem_all
  rw [String.toList_ofList] at settled
  rw [fill, fillOne,
    Text.replace_self (toList_ne_nil_of_mem_all executionRootPlaceholder_mem_all),
    fillOne_eq_self settled]

theorem ofList_trimmedRoot_ne {root : String} (bare : Bare root) :
    String.ofList (trimmedRoot root.toList) ≠ executionRootPlaceholder := by
  intro same
  apply bare.trimmedRoot _ executionRootPlaceholder_mem_all
  rw [same]

end Placeholder

namespace CommandLine

namespace Options

/-- What is collected for options from the files. -/
def gatheredFrom (options : Options) (machine : Machine) (files : FileSystem) :
    Except Failure Collection := do
  let (graph, toolchain) ← options.shown machine files
  options.gathered graph toolchain

theorem plan_eq_bind (options : Options) (machine : Machine) (files : FileSystem) :
    options.plan machine files = options.gatheredFrom machine files >>= options.planOf := by
  rw [gatheredFrom, bind_assoc]
  rfl

theorem directory_of_gatheredFrom {options : Options} {machine : Machine} {files : FileSystem}
    {collection : Collection} (gathered : options.gatheredFrom machine files = .ok collection)
    {entry : Entry} (member : entry ∈ collection.aggregation.flatten) :
    entry.directory = executionRootPlaceholder := by
  obtain ⟨⟨graph, toolchain⟩, _, collected⟩ := bind_eq_ok_iff.mp gathered
  obtain ⟨_, _, _, _, _, made⟩ :=
    exists_entryFor_of_collect (collect_eq_of_gathered collected) member
  obtain ⟨command, rfl⟩ := Synthesis.exists_eq_entryOf made
  rfl

/-- Whether there is something to be written, and where. -/
structure Yields (options : Options) (machine : Machine) (files : FileSystem) (output : String)
    (collection : Collection) : Prop where
  enough : options.HasWorkers
  gathered : options.gatheredFrom machine files = .ok collection
  place : options.output = .value output

theorem Yields.unique {options : Options} {machine : Machine} {files : FileSystem}
    {output place : String} {collection other : Collection}
    (yields : options.Yields machine files output collection)
    (again : options.Yields machine files place other) : output = place ∧ collection = other := by
  have place := yields.place.symm.trans again.place
  have gathered := yields.gathered.symm.trans again.gathered
  exact ⟨Given.value.inj place, Except.ok.inj gathered⟩

section

variable (options : Options) (execution workspace : Option String)

/-- The same options with these roots. -/
def withRoots : Options :=
  { options with
    executionRoot := execution.map .value
    workspaceRoot := workspace.map .value }

/-- What is written of some entries when these roots are given. If none of them has any text, then
they count for nothing. -/
def filledBy (made : List Entry) : List Entry :=
  if execution.getD "" = "" ∧ workspace.getD "" = "" then made
  else Placeholder.resolve execution workspace made

/-- The directory that is written when these roots are given. -/
def directoryBy : String :=
  if execution.getD "" = "" ∧ workspace.getD "" = "" then executionRootPlaceholder
  else Placeholder.fill execution workspace executionRootPlaceholder

theorem length_filledBy (made : List Entry) :
    (filledBy execution workspace made).length = made.length := by
  rw [filledBy]
  split
  · rfl
  · exact Placeholder.resolve_length ..

variable {execution workspace} in
theorem directory_of_mem_filledBy {made : List Entry}
    (each : ∀ entry ∈ made, entry.directory = executionRootPlaceholder) {entry : Entry}
    (member : entry ∈ filledBy execution workspace made) :
    entry.directory = directoryBy execution workspace := by
  by_cases nothing : execution.getD "" = "" ∧ workspace.getD "" = ""
  · rw [filledBy, if_pos nothing] at member
    rw [directoryBy, if_pos nothing, each entry member]
  · rw [filledBy, if_neg nothing] at member
    obtain ⟨source, listed, rfl⟩ := List.mem_map.mp member
    rw [directoryBy, if_neg nothing, ← each source listed]
    rfl

theorem namesRoot_withRoots : (options.withRoots execution workspace).NamesRoot ↔
    ¬ (execution.getD "" = "" ∧ workspace.getD "" = "") := by
  have named (given : Option String) :
      (∃ root, root ≠ "" ∧ given.map Given.value = some (.value root)) ↔ ¬ given.getD "" = "" := by
    cases given <;> simp
  rw [not_and_or, ← named, ← named, ← exists_or]
  simp only [NamesRoot, withRoots, and_or_left]

theorem entriesOf_withRoots (collection : Collection) :
    (options.withRoots execution workspace).entriesOf collection =
      .ok (filledBy execution workspace collection.aggregation.flatten) := by
  rw [entriesOf_eq_ok_iff, filledBy]
  split
  · next nothing =>
    apply Fills.unnamed
    rw [namesRoot_withRoots]
    exact not_not.mpr nothing
  · next present => exact .named ((namesRoot_withRoots ..).mpr present) rfl rfl

/-- What is collected does not depend on the roots. -/
theorem plan_withRoots_eq_ok_iff (machine : Machine) (files : FileSystem) (plan : Plan) :
    (options.withRoots execution workspace).plan machine files = .ok plan ↔ ∃ collection,
      options.gatheredFrom machine files = .ok collection ∧
        ⟨filledBy execution workspace collection.aggregation.flatten,
          collection.aggregation.labels.length⟩ = plan := by
  have gathered : (options.withRoots execution workspace).gatheredFrom machine files =
      options.gatheredFrom machine files := rfl
  have planned (collection : Collection) :
      (options.withRoots execution workspace).planOf collection =
        .ok ⟨filledBy execution workspace collection.aggregation.flatten,
          collection.aggregation.labels.length⟩ := by
    rw [planOf, entriesOf_withRoots]
    rfl
  simp only [plan_eq_bind, gathered, bind_eq_ok_iff, planned, Except.ok.injEq]

end

theorem directoryBy_some {execution : String} (bare : Placeholder.Bare execution)
    (workspace : Option String) :
    directoryBy (some execution) workspace =
      if execution = "" ∧ workspace.getD "" = "" then executionRootPlaceholder
      else String.ofList (Placeholder.trimmedRoot execution.toList) := by
  rw [directoryBy, Placeholder.fill_executionRootPlaceholder bare]
  rfl

theorem directoryBy_eq_iff {execution : String} (bare : Placeholder.Bare execution)
    (workspace : String) :
    directoryBy (some execution) (some workspace) = directoryBy (some execution) none ↔
      execution ≠ "" ∨ workspace = "" := by
  have apart := Placeholder.ofList_trimmedRoot_ne bare
  rw [directoryBy_some bare, directoryBy_some bare, Option.getD_some, Option.getD_none]
  by_cases named : execution = ""
  · subst named
    by_cases unnamed : workspace = ""
    · simp [unnamed]
    · simpa [unnamed] using apart
  · simp [named]

theorem map_directory_filledBy {made : List Entry}
    (each : ∀ entry ∈ made, entry.directory = executionRootPlaceholder)
    (execution workspace : Option String) :
    (filledBy execution workspace made).map (·.directory) =
      List.replicate made.length (directoryBy execution workspace) := by
  rw [List.eq_replicate_iff, List.length_map, length_filledBy, List.forall_mem_map]
  exact ⟨rfl, fun _ member => directory_of_mem_filledBy each member⟩

section

variable {options : Options} {machine : Machine} {files after : FileSystem} {output : String}
  {collection : Collection} {execution workspace : Option String}

/-- What is collected is written with the roots filled in. -/
theorem exists_yields_of_done (enough : options.HasWorkers)
    (done : (options.withRoots execution workspace).done machine files = (after, .ok ())) :
    ∃ output collection, options.Yields machine files output collection ∧ ∃ count,
      Database.write machine.disk files output
        (filledBy execution workspace collection.aggregation.flatten) = (after, .ok count) := by
  obtain ⟨plan, output, planned, place, stored, _⟩ := (done_eq_ok_iff ..).mp done
  obtain ⟨collection, gathered, rfl⟩ := (plan_withRoots_eq_ok_iff ..).mp planned
  exact ⟨output, collection, ⟨enough, gathered, place⟩, _, stored⟩

theorem Yields.done_eq (yields : options.Yields machine files output collection) {count : Nat}
    (stored : Database.write machine.disk files output
      (filledBy execution workspace collection.aggregation.flatten) = (after, .ok count))
    (willing : machine.screen.IsWilling) :
    (options.withRoots execution workspace).done machine files = (after, .ok ()) := by
  obtain ⟨rfl, _⟩ := Database.write_eq_ok stored
  have planned :=
    (plan_withRoots_eq_ok_iff options execution workspace machine files _).mpr
      ⟨_, yields.gathered, rfl⟩
  exact (done_eq_ok_iff ..).mpr
    ⟨_, output, planned, yields.place, stored, Event.shownOn_eq_ok willing _⟩

end

end Options

namespace Environment

variable {environment : Environment} {options : Options} {files : FileSystem} {output : String}
  {collection : Collection} {execution workspace : Option String}

/-- A run with roots that succeeds has written what is collected, with the roots filled in. -/
theorem exists_yields_of_exitCode
    (zero : (environment.runWith (options.withRoots execution workspace) files).exitCode = 0) :
    environment.Satisfies options ∧ ∃ output collection,
      options.Yields environment.toMachine files output collection ∧ ∃ count,
        Database.write environment.disk files output
          (Options.filledBy execution workspace collection.aggregation.flatten) =
            ((environment.runWith (options.withRoots execution workspace) files).files,
              .ok count) := by
  obtain ⟨satisfies, enough, done⟩ := (succeeds_iff ..).mp ⟨zero, rfl⟩
  exact ⟨satisfies, Options.exists_yields_of_done enough done⟩

theorem succeeds_of_yields (satisfies : environment.Satisfies options)
    (willing : environment.screen.IsWilling)
    (yields : options.Yields environment.toMachine files output collection)
    {after : FileSystem} {count : Nat}
    (stored : Database.write environment.disk files output
      (Options.filledBy execution workspace collection.aggregation.flatten) = (after, .ok count)) :
    (environment.runWith (options.withRoots execution workspace) files).exitCode = 0 ∧
      (environment.runWith (options.withRoots execution workspace) files).files = after :=
  (succeeds_iff environment (options.withRoots execution workspace) files after).mpr
    ⟨satisfies, yields.enough, yields.done_eq stored willing⟩

/-- On a steady machine it makes no difference to success which roots are given. -/
theorem exitCode_withRoots_eq_zero (steady : environment.IsSteady)
    (zero : (environment.runWith (options.withRoots execution workspace) files).exitCode = 0)
    (others othersToo : Option String) :
    (environment.runWith (options.withRoots others othersToo) files).exitCode = 0 := by
  obtain ⟨satisfies, output, collection, yields, _, stored⟩ := exists_yields_of_exitCode zero
  obtain ⟨_, again⟩ := Database.exists_write_eq_ok steady.sound stored
    (Options.filledBy others othersToo collection.aggregation.flatten)
  exact (succeeds_of_yields satisfies steady.willing yields again).1

end Environment

/-- Two runs that differ in nothing but a workspace root, which is given to one of them beside the
execution root, succeed both or not at all where all that is written and printed is taken. If they
succeed, they write as many entries. The directory of each is the execution root without the slashes at
its end, or its placeholder if no root that is given has any text. So both runs write the same
directories unless the execution root has no text and the workspace root has some. -/
theorem directories_by_root_options (options : Options) (execution workspace : String)
    (bare : Placeholder.Bare execution) (both alone : List String)
    (accepted : Options.parse both = .ok (options.withRoots (some execution) (some workspace)))
    (acceptedAlone : Options.parse alone = .ok (options.withRoots (some execution) none))
    (environment : Environment) (files : FileSystem) :
    (environment.IsSteady →
      ((environment.run both files).exitCode = 0 ↔ (environment.run alone files).exitCode = 0)) ∧
    ((environment.run both files).exitCode = 0 → (environment.run alone files).exitCode = 0 →
      ∃ output entries others,
      options.output = .value output ∧
      (∀ headroom,
        Database.load headroom (environment.run both files).files output = .ok entries ∧
        Database.load headroom (environment.run alone files).files output = .ok others) ∧
      entries.length = others.length ∧
      (∀ entry ∈ entries, entry.directory =
        if execution = "" ∧ workspace = "" then executionRootPlaceholder
        else String.ofList (Placeholder.trimmedRoot execution.toList)) ∧
      (∀ entry ∈ others, entry.directory =
        if execution = "" then executionRootPlaceholder
        else String.ofList (Placeholder.trimmedRoot execution.toList)) ∧
      (entries.map (·.directory) = others.map (·.directory) ↔
        execution ≠ "" ∨ workspace = "" ∨ entries = [])) := by
  rw [Environment.run_of_parse accepted, Environment.run_of_parse acceptedAlone]
  refine ⟨fun steady => ⟨?_, ?_⟩, fun zero zeroAlone => ?_⟩
  · exact fun zero => Environment.exitCode_withRoots_eq_zero steady zero _ _
  · exact fun zero => Environment.exitCode_withRoots_eq_zero steady zero _ _
  obtain ⟨_, output, collection, yields, _, stored⟩ := Environment.exists_yields_of_exitCode zero
  obtain ⟨_, _, _, again, _, storedAlone⟩ := Environment.exists_yields_of_exitCode zeroAlone
  obtain ⟨rfl, rfl⟩ := yields.unique again
  have each : ∀ entry ∈ collection.aggregation.flatten,
      entry.directory = executionRootPlaceholder :=
    fun entry member => Options.directory_of_gatheredFrom yields.gathered member
  refine ⟨output, _, _, yields.place, fun headroom => ⟨Database.load_of_write headroom stored,
    Database.load_of_write headroom storedAlone⟩, ?_, ?_, ?_, ?_⟩
  · rw [Options.length_filledBy, Options.length_filledBy]
  · intro entry member
    exact (Options.directory_of_mem_filledBy each member).trans (Options.directoryBy_some bare _)
  · intro entry member
    rw [Options.directory_of_mem_filledBy each member, Options.directoryBy_some bare]
    simp
  · rw [Options.map_directory_filledBy each, Options.map_directory_filledBy each,
      List.replicate_inj, Options.directoryBy_eq_iff bare, ← List.length_eq_zero_iff,
      Options.length_filledBy, and_iff_right rfl, or_comm, or_assoc]

theorem apply_executionRoot {root : String} (shown : root ≠ "--") (options : Options) :
    Progress.apply options ⟨.executionRoot, root⟩ =
      .ok { options with executionRoot := some (.value root) } := by
  rw [Progress.apply, Given.ofText, if_neg shown]

theorem apply_workspaceRoot {root : String} (shown : root ≠ "--") (options : Options) :
    Progress.apply options ⟨.workspaceRoot, root⟩ =
      .ok { options with workspaceRoot := some (.value root) } := by
  rw [Progress.apply, Given.ofText, if_neg shown]

theorem parse_rooted (execution : String) (shown : execution ≠ "--") :
    Options.parse [attached "--execution-root" execution, "graph.json", "//app"] =
      .ok (appOptions.withRoots (some execution) none) := by
  have listed : "--execution-root" ∈ Switch.executionRoot.spellings := List.mem_singleton_self _
  exact Progress.Accepts.parse (.attached listed rfl (apply_executionRoot shown _) (accepts_app _))

theorem parse_rootedTwice (execution workspace : String) (shown : execution ≠ "--")
    (shownToo : workspace ≠ "--") :
    Options.parse [attached "--execution-root" execution, attached "--workspace-root" workspace,
      "graph.json", "//app"] = .ok (appOptions.withRoots (some execution) (some workspace)) := by
  have listed : "--execution-root" ∈ Switch.executionRoot.spellings := List.mem_singleton_self _
  have listedToo : "--workspace-root" ∈ Switch.workspaceRoot.spellings := List.mem_singleton_self _
  exact Progress.Accepts.parse (.attached listed rfl (apply_executionRoot shown _)
    (.attached listedToo rfl (apply_workspaceRoot shownToo _) (accepts_app _)))

theorem exists_yields_appFolder : ∃ collection,
    appOptions.Yields workstation.toMachine appFolder "compile_commands.json" collection ∧
      collection.aggregation.flatten = [appEntry] := by
  obtain ⟨collection, collected, flatten⟩ := collect_appGraph
  have valued : ∀ given ∈ appOptions.copts ++ appOptions.cxxopts, given ≠ .withheld := by
    simp [appOptions, Progress.start]
  have described := (appOptions.described_eq_ok_iff .usual appFolder appGraph Toolchain.single).mpr
    ⟨appDescription, load_appFolder, graph_appDescription, toolchain_appDescription⟩
  have shown := (appOptions.shown_eq_ok_iff workstation.toMachine ..).mpr
    ⟨described, Event.shownOn_eq_ok isSteady_workstation.willing _⟩
  have gathered := Options.gathered_eq_of_collect valued collected
  refine ⟨collection, ⟨⟨1, rfl, Int.le_refl 1⟩, ?_, rfl⟩, flatten⟩
  rw [Options.gatheredFrom, shown]
  exact gathered

theorem run_app {arguments : List String} {execution workspace : Option String}
    (accepted : Options.parse arguments = .ok (appOptions.withRoots execution workspace)) :
    (workstation.run arguments appFolder).exitCode = 0 ∧ ∃ entries,
      (∀ headroom, Database.load headroom (workstation.run arguments appFolder).files
        "compile_commands.json" = .ok entries) ∧
      entries.map (·.directory) = [Options.directoryBy execution workspace] := by
  obtain ⟨collection, yields, flatten⟩ := exists_yields_appFolder
  have satisfies : workstation.Satisfies appOptions := ⟨_, _, verdict_workstation _⟩
  have stored := write_appFolder
    (Options.filledBy execution workspace collection.aggregation.flatten)
  obtain ⟨zero, left⟩ :=
    Environment.succeeds_of_yields satisfies isSteady_workstation.willing yields stored
  have directory : ∀ entry ∈ [appEntry], entry.directory = executionRootPlaceholder := by
    intro entry member
    rw [List.mem_singleton.mp member]
    rfl
  rw [Environment.run_of_parse accepted, left]
  rw [flatten] at stored ⊢
  exact ⟨zero, _, fun headroom => Database.load_of_write headroom stored,
    Options.map_directory_filledBy directory execution workspace⟩

theorem directories_by_root_options_app :
    Placeholder.Bare "/exec/" ∧
    Options.parse ["--execution-root=/exec/", "--workspace-root=/ws", "graph.json", "//app"] =
      .ok (appOptions.withRoots (some "/exec/") (some "/ws")) ∧
    Options.parse ["--execution-root=/exec/", "graph.json", "//app"] =
      .ok (appOptions.withRoots (some "/exec/") none) ∧
    workstation.IsSteady ∧
    (workstation.run ["--execution-root=/exec/", "--workspace-root=/ws", "graph.json", "//app"]
      appFolder).exitCode = 0 ∧
    (workstation.run ["--execution-root=/exec/", "graph.json", "//app"] appFolder).exitCode = 0 ∧
    ∃ entries others,
      Database.load .usual (workstation.run
        ["--execution-root=/exec/", "--workspace-root=/ws", "graph.json", "//app"]
        appFolder).files "compile_commands.json" = .ok entries ∧
      Database.load .usual (workstation.run ["--execution-root=/exec/", "graph.json", "//app"]
        appFolder).files "compile_commands.json" = .ok others ∧
      entries.map (·.directory) = ["/exec"] ∧ others.map (·.directory) = ["/exec"] := by
  have bare : Placeholder.Bare "/exec/" :=
    Placeholder.forall_mem_all_iff.mpr ⟨by decide, by decide⟩
  have accepted : Options.parse
      ["--execution-root=/exec/", "--workspace-root=/ws", "graph.json", "//app"] =
        .ok (appOptions.withRoots (some "/exec/") (some "/ws")) :=
    parse_rootedTwice "/exec/" "/ws" (by decide) (by decide)
  have acceptedAlone : Options.parse ["--execution-root=/exec/", "graph.json", "//app"] =
      .ok (appOptions.withRoots (some "/exec/") none) :=
    parse_rooted "/exec/" (by decide)
  obtain ⟨zero, found, loaded, directory⟩ := run_app accepted
  obtain ⟨same, ended⟩ := directories_by_root_options appOptions "/exec/" "/ws" bare _ _ accepted
    acceptedAlone workstation appFolder
  have zeroAlone := (same isSteady_workstation).mp zero
  obtain ⟨output, entries, others, place, written, _, _, _, alike⟩ := ended zero zeroAlone
  cases place
  cases (loaded .usual).symm.trans (written .usual).1
  have root : Options.directoryBy (some "/exec/") (some "/ws") = "/exec" :=
    Options.directoryBy_some bare _
  rw [root] at directory
  exact ⟨bare, accepted, acceptedAlone, isSteady_workstation, zero, zeroAlone, _, _,
    (written .usual).1, (written .usual).2, directory,
    (alike.mpr (.inl (by decide))).symm.trans directory⟩

/-- An execution root that is given as an empty text takes the place of its placeholder if there is a
workspace root, and does not if it is alone. -/
theorem empty_execution_root_needs_workspace_root :
    Placeholder.Bare "" ∧ Placeholder.Bare "/ws" ∧
    Options.parse ["--execution-root=", "--workspace-root=/ws", "graph.json", "//app"] =
      .ok (appOptions.withRoots (some "") (some "/ws")) ∧
    Options.parse ["--execution-root=", "graph.json", "//app"] =
      .ok (appOptions.withRoots (some "") none) ∧
    (workstation.run ["--execution-root=", "--workspace-root=/ws", "graph.json", "//app"]
      appFolder).exitCode = 0 ∧
    (workstation.run ["--execution-root=", "graph.json", "//app"] appFolder).exitCode = 0 ∧
    ∃ entries others,
      Database.load .usual (workstation.run
        ["--execution-root=", "--workspace-root=/ws", "graph.json", "//app"]
        appFolder).files "compile_commands.json" = .ok entries ∧
      Database.load .usual (workstation.run ["--execution-root=", "graph.json", "//app"]
        appFolder).files "compile_commands.json" = .ok others ∧
      entries.map (·.directory) = ["/"] ∧
      others.map (·.directory) = ["__BAZEL_EXECUTION_ROOT__"] := by
  have bare : Placeholder.Bare "" := Placeholder.forall_mem_all_iff.mpr ⟨by decide, by decide⟩
  have bareToo : Placeholder.Bare "/ws" :=
    Placeholder.forall_mem_all_iff.mpr ⟨by decide, by decide⟩
  have accepted : Options.parse
      ["--execution-root=", "--workspace-root=/ws", "graph.json", "//app"] =
        .ok (appOptions.withRoots (some "") (some "/ws")) :=
    parse_rootedTwice "" "/ws" (by decide) (by decide)
  have acceptedAlone : Options.parse ["--execution-root=", "graph.json", "//app"] =
      .ok (appOptions.withRoots (some "") none) :=
    parse_rooted "" (by decide)
  have root : Options.directoryBy (some "") (some "/ws") = "/" := Options.directoryBy_some bare _
  have rootAlone : Options.directoryBy (some "") none = executionRootPlaceholder := rfl
  obtain ⟨zero, entries, loaded, directory⟩ := run_app accepted
  obtain ⟨zeroAlone, others, loadedAlone, directoryAlone⟩ := run_app acceptedAlone
  rw [root] at directory
  rw [rootAlone] at directoryAlone
  exact ⟨bare, bareToo, accepted, acceptedAlone, zero, zeroAlone, entries, others, loaded .usual,
    loadedAlone .usual, directory, directoryAlone⟩

end CommandLine

end CompileCommands
