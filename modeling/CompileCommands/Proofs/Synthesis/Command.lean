import CompileCommands.Proofs.Graph.Built
import CompileCommands.Proofs.Synthesis.TextTemplates
import CompileCommands.Proofs.Toolchain.Configuration

set_option autoImplicit false

/- When a target is compiled, and by which tool. Only the target and the toolchain decide; whatever
the file is, there is a command for it or there is none. -/
namespace CompileCommands

namespace Toolchain

/-- Whether a target has an action enabled: usually or at its request, and not disabled. What has no
tool of its own cannot be requested. -/
def Enables (toolchain : Toolchain) (target : Target) (action : String) : Prop :=
  action ∉ target.disabledFeatures ∧ (action ∈ toolchain.defaultActions ∨
    action ∈ target.features ∧ action ∈ toolchain.tools.keys)

instance (toolchain : Toolchain) (target : Target) (action : String) :
    Decidable (toolchain.Enables target action) :=
  inferInstanceAs (Decidable (_ ∧ _))

/-- The action by which a target is compiled. -/
def actionFor (toolchain : Toolchain) (target : Target) : Option String :=
  if toolchain.Enables target cxxCompileAction then some cxxCompileAction
  else if toolchain.Enables target cCompileAction then some cCompileAction
  else none

theorem mem_actions_configurationFor (toolchain : Toolchain) (target : Target) (action : String) :
    action ∈ (Synthesis.configurationFor toolchain target).actions ↔
      toolchain.Enables target action :=
  mem_actions_configure ..

theorem compileAction?_configurationFor (toolchain : Toolchain) (target : Target) :
    Synthesis.compileAction? (Synthesis.configurationFor toolchain target) =
      toolchain.actionFor target := by
  have enabled (action : String) :
      (Synthesis.configurationFor toolchain target).actions.contains action =
        decide (toolchain.Enables target action) := by
    rw [Bool.eq_iff_iff, List.contains_iff_mem, decide_eq_true_iff, mem_actions_configurationFor]
  rw [Synthesis.compileAction?, compileActions, List.find?_cons, List.find?_cons, List.find?_nil,
    enabled, enabled, actionFor]
  by_cases cxx : toolchain.Enables target cxxCompileAction
  · simp [cxx]
  · by_cases c : toolchain.Enables target cCompileAction <;> simp [cxx, c]

theorem enables_of_actionFor {toolchain : Toolchain} {target : Target} {action : String}
    (chosen : toolchain.actionFor target = some action) : toolchain.Enables target action := by
  unfold actionFor at chosen
  split at chosen
  · next enabled => cases chosen; exact enabled
  · split at chosen
    · next enabled => cases chosen; exact enabled
    · contradiction

theorem toolFor_eq_ok_iff (toolchain : Toolchain) (configuration : Configuration)
    (action tool : String) :
    toolchain.toolFor configuration action = .ok tool ↔
      action ∈ configuration.actions ∧ toolchain.tools.find? action = some tool ∧ tool ≠ "" := by
  unfold toolFor
  by_cases enabled : action ∈ configuration.actions
  · simp only [List.contains_iff_mem.mpr enabled, enabled, Bool.not_true, true_and]
    cases found : Table.find? action toolchain.tools with
    | none => simp
    | some given =>
        by_cases empty : given = ""
        · simp [empty, eq_comm]
        · simpa using fun same : given = tool => same ▸ empty
  · simp [enabled]

end Toolchain

namespace Synthesis

/-- What all commands of a target are made with. -/
structure CompiledBy (toolchain : Toolchain) (target : Target) (context : Context)
    (action tool : String) : Prop where
  inContext : target.context = some context
  chosen : toolchain.actionFor target = some action
  found : toolchain.tools.find? action = some tool
  named : tool ≠ ""

variable {toolchain : Toolchain} {target : Target}

theorem CompiledBy.commandLine_eq {context : Context} {action tool : String}
    (made : CompiledBy toolchain target context action tool) (source : String) :
    commandLine toolchain target source =
      (toolchain.flags (configurationFor toolchain target) action
        (variablesFor toolchain context source)).map fun flags => .ok (quotedCommand tool flags) := by
  have enabled := (Toolchain.mem_actions_configurationFor ..).mpr
    (Toolchain.enables_of_actionFor made.chosen)
  have given := (Toolchain.toolFor_eq_ok_iff ..).mpr ⟨enabled, made.found, made.named⟩
  simp only [commandLine, made.inContext, Toolchain.compileAction?_configurationFor, made.chosen,
    given]
  cases toolchain.flags _ action (variablesFor toolchain context source) <;> rfl

theorem CompiledBy.commandLine_of_flags {context : Context} {action tool : String}
    (made : CompiledBy toolchain target context action tool) {source : String} {flags : List String}
    (flagged : toolchain.flags (configurationFor toolchain target) action
      (variablesFor toolchain context source) = .ok flags) :
    commandLine toolchain target source = .ok (.ok (quotedCommand tool flags)) := by
  rw [made.commandLine_eq, flagged]
  rfl

/-- The flags of one file differ from those of another in what features make of it, and the flags of
features come last. -/
theorem CompiledBy.exists_commands {context : Context} {action tool : String}
    (made : CompiledBy toolchain target context action tool) (texts : toolchain.HasTextTemplates) :
    ∃ common, ∀ source, commandLine toolchain target source = .ok (.ok (quotedCommand tool
      (common ++ toolchain.featureFlags (configurationFor toolchain target) action source))) := by
  obtain ⟨inContext, flagged⟩ := texts.exists_contextFlags (variablesFor toolchain context "").values
  refine ⟨toolchain.cxxopts ++ toolchain.copts ++ inContext, fun source => ?_⟩
  have here : toolchain.contextFlags (variablesFor toolchain context source).values =
      .ok inContext := flagged
  exact made.commandLine_of_flags (Toolchain.flags_of_contextFlags here _ action)

/-- What keeps one file of a target from being compiled keeps all of them. -/
theorem compiled_or_omitted (toolchain : Toolchain) (target : Target) :
    (∃ context action tool, CompiledBy toolchain target context action tool) ∨
      ∃ omission, ∀ source, commandLine toolchain target source = .ok (.error omission) := by
  simp only [commandLine, Toolchain.compileAction?_configurationFor]
  cases inContext : target.context with
  | none => exact .inr ⟨.noContext, fun _ => rfl⟩
  | some context =>
      cases chosen : toolchain.actionFor target with
      | none => exact .inr ⟨.noAction, fun _ => rfl⟩
      | some action =>
          cases given : toolchain.toolFor (configurationFor toolchain target) action with
          | error reason => exact .inr ⟨.noTool reason, fun _ => by simp only [given]⟩
          | ok tool =>
              obtain ⟨_, found, named⟩ := (Toolchain.toolFor_eq_ok_iff ..).mp given
              exact .inl ⟨context, action, tool, inContext, chosen, found, named⟩

/-- There is a command for a file if the target has a context and the tool of the chosen action has a
name, with which the command starts. The action is chosen among those that are enabled and not among
those that have a tool, and all of this depends on the sets of requested and disabled names alone. -/
theorem commandLine_by_chosen_action (toolchain : Toolchain) (texts : toolchain.HasTextTemplates)
    (target : Target) :
    compileAction? (configurationFor toolchain target) = toolchain.actionFor target ∧
    (∀ source, ∃ answer, commandLine toolchain target source = .ok answer) ∧
    (∀ source, (∃ command, commandLine toolchain target source = .ok (.ok command)) ↔
      ∃ context action tool, CompiledBy toolchain target context action tool) ∧
    (∀ source command context action tool,
      commandLine toolchain target source = .ok (.ok command) →
        CompiledBy toolchain target context action tool →
          ∃ flags, command = "\"" ++ tool ++ "\" " ++ flags) ∧
    (toolchain.Enables target cxxCompileAction →
      (∀ tool, toolchain.tools.find? cxxCompileAction = some tool → tool = "") →
        ∀ source command, commandLine toolchain target source ≠ .ok (.ok command)) ∧
    ∀ requested disabled : List String, (∀ name, name ∈ target.features ↔ name ∈ requested) →
      (∀ name, name ∈ target.disabledFeatures ↔ name ∈ disabled) →
        configurationFor toolchain target = toolchain.configure requested disabled := by
  have compiled (source command : String)
      (given : commandLine toolchain target source = .ok (.ok command)) :
      ∃ context action tool, CompiledBy toolchain target context action tool := by
    rcases compiled_or_omitted toolchain target with compiled | ⟨omission, omitted⟩
    · exact compiled
    · cases (omitted source).symm.trans given
  refine ⟨toolchain.compileAction?_configurationFor target, texts.exists_commandLine target,
    ?_, ?_, ?_, fun _ _ => toolchain.configure_congr⟩
  · intro source
    constructor
    · rintro ⟨command, given⟩
      exact compiled source command given
    · rintro ⟨context, action, tool, made⟩
      obtain ⟨common, commands⟩ := made.exists_commands texts
      exact ⟨_, commands source⟩
  · intro source command context action tool given made
    obtain ⟨common, commands⟩ := made.exists_commands texts
    rw [commands source] at given
    cases given
    exact ⟨_, rfl⟩
  · intro enabled untooled source command given
    obtain ⟨_, action, tool, made⟩ := compiled source command given
    have first : toolchain.actionFor target = some cxxCompileAction := if_pos enabled
    cases made.chosen.symm.trans first
    exact made.named (untooled tool made.found)

/-- A toolchain with a tool for the second compile action only. -/
def plainToolchain : Toolchain where
  tools := [(cCompileAction, "cc")]
  defaultActions := compileActions
  features := [Feature.compilerInput]
  templates := FlagTemplates.default
  copts := ["-O2"]
  cxxopts := []

/-- A target that disables the first compile action, twice. -/
def plainTarget : Target :=
  { Target.single "//app:app" "cc_binary" "" [] with
    disabledFeatures := [cxxCompileAction, cxxCompileAction] }

/-- With both actions enabled there is no command, since the first has no tool. -/
theorem commandLine_by_chosen_action_plain :
    plainToolchain.HasTextTemplates ∧
    plainToolchain.Enables (.single "//app:app" "cc_binary" "" []) cxxCompileAction ∧
    (∀ command, commandLine plainToolchain (.single "//app:app" "cc_binary" "" []) "main.cc" ≠
      .ok (.ok command)) ∧
    (∃ flags, commandLine plainToolchain plainTarget "main.cc" = .ok (.ok ("\"cc\" " ++ flags))) ∧
    configurationFor plainToolchain plainTarget = plainToolchain.configure [] [cxxCompileAction] := by
  have texts := hasTextTemplates_default plainToolchain rfl
  have enabled : plainToolchain.Enables (.single "//app:app" "cc_binary" "" []) cxxCompileAction := by
    decide
  have untooled : ∀ tool, plainToolchain.tools.find? cxxCompileAction = some tool → tool = "" := by
    rintro tool ⟨⟩
  have made : CompiledBy plainToolchain plainTarget ⟨[], [], [], [], []⟩ cCompileAction "cc" :=
    ⟨rfl, by decide, rfl, by decide⟩
  obtain ⟨_, _, _, _, silent, _⟩ := commandLine_by_chosen_action plainToolchain texts
    (.single "//app:app" "cc_binary" "" [])
  obtain ⟨_, _, exactly, starts, _, same⟩ :=
    commandLine_by_chosen_action plainToolchain texts plainTarget
  obtain ⟨command, given⟩ := (exactly "main.cc").mpr ⟨_, _, _, made⟩
  obtain ⟨flags, rfl⟩ := starts _ command _ _ _ given made
  refine ⟨texts, enabled, silent enabled untooled "main.cc", ⟨flags, given⟩, same [] _ ?_ ?_⟩
  · exact fun _ => Iff.rfl
  · simp [plainTarget]

end Synthesis

end CompileCommands
