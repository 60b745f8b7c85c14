import CompileCommands.Proofs.Success
import CompileCommands.Synthesis

set_option autoImplicit false

/- Synthesis with templates that are texts. It never fails: a target without a context, an action
or a tool has no entries, and every other target has one for each of its files. -/
namespace CompileCommands

/-- A description may hold other values as flag templates, of which no flag can be made. -/
def Toolchain.HasTextTemplates (toolchain : Toolchain) : Prop :=
  ∀ group, ∃ template, toolchain.templates group = .text template

theorem Toolchain.flags_of_contextFlags {toolchain : Toolchain} {parts : Variables}
    {inContext : List String} (made : toolchain.contextFlags parts.values = .ok inContext)
    (configuration : Configuration) (action : String) :
    toolchain.flags configuration action parts =
      .ok (parts.userFlags ++ inContext ++
        toolchain.featureFlags configuration action parts.sourceFile) := by
  rw [flags, made]
  rfl

namespace Toolchain.HasTextTemplates

variable {toolchain : Toolchain} (texts : toolchain.HasTextTemplates)

include texts

theorem exists_contextFlags (values : FlagGroup → List String) :
    ∃ flags, toolchain.contextFlags values = .ok flags := by
  have each : ∀ group ∈ FlagGroup.all,
      ∃ block, (values group).mapM (toolchain.templates group).flags = .ok block := by
    intro group _
    obtain ⟨template, text⟩ := texts group
    apply exists_mapM_eq_ok
    intro value _
    exact ⟨FlagTemplate.flagsOfText template value, by rw [text, FlagTemplate.flags]⟩
  obtain ⟨blocks, made⟩ := exists_mapM_eq_ok _ _ each
  rw [Toolchain.contextFlags, made]
  exact ⟨_, rfl⟩

theorem exists_flags (configuration : Configuration) (action : String) (parts : Variables) :
    ∃ flags, toolchain.flags configuration action parts = .ok flags := by
  obtain ⟨context, made⟩ := texts.exists_contextFlags parts.values
  exact ⟨_, Toolchain.flags_of_contextFlags made configuration action⟩

theorem exists_commandLine (target : Target) (source : String) :
    ∃ command, Synthesis.commandLine toolchain target source = .ok command := by
  unfold Synthesis.commandLine
  split
  · exact ⟨_, rfl⟩
  · next context _ =>
    dsimp only
    split
    · exact ⟨_, rfl⟩
    · next action _ =>
      split
      · exact ⟨_, rfl⟩
      · obtain ⟨flags, made⟩ := texts.exists_flags
          (Synthesis.configurationFor toolchain target) action
          (Synthesis.variablesFor toolchain context source)
        rw [made]
        exact ⟨_, rfl⟩

theorem exists_targetEntries (target : Target) :
    ∃ entries, Synthesis.targetEntries toolchain target = .ok entries := by
  have each : ∀ source ∈ target.sources,
      ∃ entry, Synthesis.entryFor toolchain target source = .ok entry := by
    intro source _
    obtain ⟨command, made⟩ := texts.exists_commandLine target source
    rw [Synthesis.entryFor, made]
    cases command with
    | error omission => exact ⟨none, rfl⟩
    | ok command =>
        by_cases empty : command = ""
        · exact ⟨none, if_pos empty⟩
        · exact ⟨some (Synthesis.entryOf source command), if_neg empty⟩
  obtain ⟨found, made⟩ := exists_mapM_eq_ok _ _ each
  rw [Synthesis.targetEntries, made]
  exact ⟨_, rfl⟩

end Toolchain.HasTextTemplates

theorem hasTextTemplates_default (toolchain : Toolchain)
    (default : toolchain.templates = FlagTemplates.default) : toolchain.HasTextTemplates := by
  intro group
  rw [default]
  cases group <;> exact ⟨_, rfl⟩

end CompileCommands
