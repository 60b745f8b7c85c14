import CompileCommands.Proofs.Synthesis.Command
import CompileCommands.Proofs.Toolchain.FeatureFlags

set_option autoImplicit false

/- What becomes of a command when a target requests more or disables less. As long as it is the same
action that compiles it, flags are added between those that there were; and names that the toolchain
does not know add nothing. -/
namespace CompileCommands

namespace Toolchain

variable (toolchain : Toolchain) {requested others unsupported disabled : List String}

theorem features_configure_mono (asked : ∀ name ∈ requested, name ∈ others)
    (refused : ∀ name ∈ disabled, name ∈ unsupported) :
    ∀ name ∈ (toolchain.configure requested unsupported).features,
      name ∈ (toolchain.configure others disabled).features := by
  intro name enabled
  rw [mem_features_configure] at enabled ⊢
  obtain ⟨kept, feature, declared, named, reason⟩ := enabled
  exact ⟨mt (refused name) kept, feature, declared, named, reason.imp_right (asked name)⟩

/-- The feature that names the file counts as unknown too if it was not declared: it is enabled
without a request. -/
theorem configure_of_unknown {declared : List Feature}
    (given : toolchain.features = withCompilerInput declared)
    (asked : ∀ name ∈ requested, name ∈ others)
    (unknown : ∀ name ∈ others, name ∉ requested →
      name ∉ declared.map (·.name) ∧ name ∉ toolchain.knownActions)
    (refused : ∀ name, name ∈ unsupported ↔ name ∈ disabled) :
    toolchain.configure requested unsupported = toolchain.configure others disabled := by
  apply configure_ext
  · intro name
    refine ⟨toolchain.features_configure_mono asked (fun name => (refused name).mpr) name, ?_⟩
    rw [mem_features_configure, mem_features_configure]
    rintro ⟨kept, feature, member, named, reason⟩
    refine ⟨mt (refused name).mp kept, feature, member, named, ?_⟩
    by_cases before : name ∈ requested
    · exact .inr before
    · refine .inl (reason.elim id fun later => ?_)
      rw [given] at member
      rcases mem_or_eq_of_mem_withCompilerInput member with own | rfl
      · exact absurd (List.mem_map.mpr ⟨feature, own, named⟩) (unknown name later before).1
      · rfl
  · intro action
    rw [mem_actions_configure, mem_actions_configure, refused]
    refine and_congr_right fun _ => or_congr_right ?_
    constructor
    · rintro ⟨before, tooled⟩
      exact ⟨asked action before, tooled⟩
    · rintro ⟨later, tooled⟩
      by_contra neither
      have new : action ∉ requested := fun before => neither ⟨before, tooled⟩
      exact (unknown action later new).2 ((toolchain.mem_knownActions action).mpr (.inr tooled))

theorem HasTextTemplates.exists_flags_sublist {toolchain : Toolchain}
    (texts : toolchain.HasTextTemplates) {configuration other : Configuration}
    (more : ∀ name ∈ configuration.features, name ∈ other.features) (action : String)
    (parts : Variables) :
    ∃ flags extended : List String, flags.Sublist extended ∧
      toolchain.flags configuration action parts = .ok flags ∧
      toolchain.flags other action parts = .ok extended := by
  obtain ⟨inContext, made⟩ := texts.exists_contextFlags parts.values
  have added := toolchain.featureFlags_sublist more action parts.sourceFile
  exact ⟨_, _, added.append_left (parts.userFlags ++ inContext),
    flags_of_contextFlags made configuration action, flags_of_contextFlags made other action⟩

end Toolchain

namespace Synthesis

/-- For a target that requests more and disables less, the flags of a file are those that it has for
the other target and some between them, if both are compiled by the same action. If nothing less is
disabled, and what is requested besides is unknown to the toolchain, then there is the same command
for both targets, or none. -/
theorem commandLine_of_more_requested (toolchain : Toolchain) (texts : toolchain.HasTextTemplates)
    (target other : Target) (inContext : target.context = other.context)
    (requested : ∀ name ∈ target.features, name ∈ other.features)
    (disabled : ∀ name ∈ other.disabledFeatures, name ∈ target.disabledFeatures) :
    (∀ context action, target.context = some context →
      compileAction? (configurationFor toolchain target) = some action →
      compileAction? (configurationFor toolchain other) = some action →
        ∀ source, ∃ flags extended : List String, flags.Sublist extended ∧
          toolchain.flags (configurationFor toolchain target) action
            (variablesFor toolchain context source) = .ok flags ∧
          toolchain.flags (configurationFor toolchain other) action
            (variablesFor toolchain context source) = .ok extended ∧
          ∀ tool, toolchain.tools.find? action = some tool → tool ≠ "" →
            commandLine toolchain target source = .ok (.ok (quotedCommand tool flags)) ∧
            commandLine toolchain other source = .ok (.ok (quotedCommand tool extended))) ∧
    ∀ declared, toolchain.features = Toolchain.withCompilerInput declared →
      (∀ name ∈ target.disabledFeatures, name ∈ other.disabledFeatures) →
      (∀ name ∈ other.features, name ∉ target.features →
        name ∉ declared.map (·.name) ∧ name ∉ toolchain.knownActions) →
        ∀ source, commandLine toolchain target source = commandLine toolchain other source := by
  constructor
  · intro context action found chosen same source
    obtain ⟨flags, extended, added, flagged, flaggedMore⟩ :=
      texts.exists_flags_sublist (toolchain.features_configure_mono requested disabled) action
        (variablesFor toolchain context source)
    refine ⟨flags, extended, added, flagged, flaggedMore, fun tool tooled named => ⟨?_, ?_⟩⟩
    · rw [Toolchain.compileAction?_configurationFor] at chosen
      have made : CompiledBy toolchain target context action tool := ⟨found, chosen, tooled, named⟩
      exact made.commandLine_of_flags flagged
    · rw [Toolchain.compileAction?_configurationFor] at same
      have made : CompiledBy toolchain other context action tool :=
        ⟨inContext ▸ found, same, tooled, named⟩
      exact made.commandLine_of_flags flaggedMore
  · intro declared given less unknown source
    have refused (name : String) : name ∈ target.disabledFeatures ↔ name ∈ other.disabledFeatures :=
      ⟨less name, disabled name⟩
    have configuration : configurationFor toolchain target = configurationFor toolchain other :=
      toolchain.configure_of_unknown given requested unknown refused
    simp only [commandLine, inContext, configuration]

def optionalFeatures : List Feature :=
  [⟨"pic", ["-fPIC"], compileActions, false⟩, ⟨"warn", ["-Wall", "-Wextra"], compileActions, true⟩]

/-- A target that requests a feature and a name that nobody knows, and disables an action once. -/
def demandingTarget : Target :=
  { plainTarget with features := ["pic", "c++20"], disabledFeatures := [cxxCompileAction] }

theorem commandLine_of_more_requested_optional :
    (plainToolchain.declaring optionalFeatures).HasTextTemplates ∧
    (∀ name ∈ plainTarget.features, name ∈ demandingTarget.features) ∧
    (∀ name ∈ demandingTarget.disabledFeatures, name ∈ plainTarget.disabledFeatures) ∧
    (∃ flags extended : List String, flags.Sublist extended ∧
      commandLine (plainToolchain.declaring optionalFeatures) plainTarget "main.c" =
        .ok (.ok (quotedCommand "cc" flags)) ∧
      commandLine (plainToolchain.declaring optionalFeatures) demandingTarget "main.c" =
        .ok (.ok (quotedCommand "cc" extended))) ∧
    ("c++20" ∉ optionalFeatures.map (·.name) ∧
      "c++20" ∉ (plainToolchain.declaring optionalFeatures).knownActions) ∧
    commandLine (plainToolchain.declaring optionalFeatures) plainTarget "main.c" =
      commandLine (plainToolchain.declaring optionalFeatures)
        { plainTarget with features := ["c++20"] } "main.c" := by
  have texts : (plainToolchain.declaring optionalFeatures).HasTextTemplates :=
    hasTextTemplates_default _ rfl
  have requested : ∀ name ∈ plainTarget.features, name ∈ demandingTarget.features := by decide
  have disabled : ∀ name ∈ demandingTarget.disabledFeatures,
      name ∈ plainTarget.disabledFeatures := by decide
  have unheard : "c++20" ∉ optionalFeatures.map (·.name) ∧
      "c++20" ∉ (plainToolchain.declaring optionalFeatures).knownActions := by
    rw [Toolchain.mem_knownActions]
    decide
  have chosen (target : Target)
      (usual : (plainToolchain.declaring optionalFeatures).actionFor target = some cCompileAction) :
      compileAction? (configurationFor (plainToolchain.declaring optionalFeatures) target) =
        some cCompileAction :=
    (Toolchain.compileAction?_configurationFor ..).trans usual
  obtain ⟨inserted, _⟩ := commandLine_of_more_requested _ texts plainTarget demandingTarget rfl
    requested disabled
  obtain ⟨flags, extended, added, _, _, commands⟩ := inserted ⟨[], [], [], [], []⟩ cCompileAction rfl
    (chosen plainTarget (by decide)) (chosen demandingTarget (by decide)) "main.c"
  obtain ⟨_, same⟩ := commandLine_of_more_requested _ texts plainTarget
    { plainTarget with features := ["c++20"] } rfl (by simp [plainTarget, Target.single]) (by simp)
  have both := commands "cc" rfl (by decide)
  refine ⟨texts, requested, disabled, ⟨flags, extended, added, both⟩, unheard, ?_⟩
  apply same optionalFeatures rfl (by simp)
  simpa [plainTarget, Target.single] using unheard

end Synthesis

end CompileCommands
