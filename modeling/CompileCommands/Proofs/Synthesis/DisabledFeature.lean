import CompileCommands.Proofs.Synthesis.OwnFile

set_option autoImplicit false

/- A target that disables a feature is compiled as if there were no such feature. It is no matter how
often the feature is declared, whether it is enabled otherwise, and whether the toolchain is given it
again because it has to have it. -/
namespace CompileCommands

namespace Toolchain

variable (toolchain : Toolchain) (declared : List Feature)

theorem configure_declaring_others {name : String} {unsupported : List String}
    (disabled : name ∈ unsupported) (requested : List String) :
    (toolchain.declaring (Feature.others name declared)).configure requested unsupported =
      (toolchain.declaring declared).configure requested unsupported := by
  apply configure_ext
  · intro enabled
    rw [mem_features_configure, mem_features_configure]
    refine and_congr_right fun kept => exists_congr fun feature => and_congr_left ?_
    rintro ⟨named, _⟩
    apply mem_withCompilerInput_others
    rintro rfl
    exact kept (named ▸ disabled)
  · intro action
    rw [mem_actions_configure, mem_actions_configure]
    rfl

theorem featureFlags_declaring_others {name : String} {configuration : Configuration}
    (off : name ∉ configuration.features) (action source : String) :
    (toolchain.declaring (Feature.others name declared)).featureFlags configuration action source =
      (toolchain.declaring declared).featureFlags configuration action source := by
  have applying : (withCompilerInput (Feature.others name declared)).filter
        (applies configuration action) =
      (withCompilerInput declared).filter (applies configuration action) := by
    rw [← filter_applies_others off, others_withCompilerInput, filter_applies_others off]
  rw [featureFlags_eq_map, featureFlags_eq_map]
  exact congrArg (fun features : List Feature => (features.flatMap Feature.flags).map _) applying

end Toolchain

namespace Synthesis

/-- To disable a name is as good as to declare no feature under it, whether it is the name of a
feature, of several, of an action besides, or of the feature that names the file. -/
theorem commandLine_of_disabled_feature (toolchain : Toolchain) (declared : List Feature)
    (name : String) (target : Target) (disabled : name ∈ target.disabledFeatures)
    (source : String) :
    commandLine (toolchain.declaring declared) target source =
      commandLine (toolchain.declaring (Feature.others name declared)) target source := by
  have configuration : configurationFor (toolchain.declaring (Feature.others name declared)) target =
      configurationFor (toolchain.declaring declared) target :=
    toolchain.configure_declaring_others declared disabled target.features
  have off : name ∉ (configurationFor (toolchain.declaring declared) target).features := by
    intro enabled
    exact ((Toolchain.mem_features_configure ..).mp enabled).1 disabled
  have flags (action : String) (context : Context) :
      (toolchain.declaring (Feature.others name declared)).flags
          (configurationFor (toolchain.declaring declared) target) action
          (variablesFor (toolchain.declaring (Feature.others name declared)) context source) =
        (toolchain.declaring declared).flags
          (configurationFor (toolchain.declaring declared) target) action
          (variablesFor (toolchain.declaring declared) context source) := by
    rw [Toolchain.flags, Toolchain.flags, toolchain.featureFlags_declaring_others declared off]
    rfl
  simp only [commandLine, configuration, flags]
  rfl

/-- Two features under one name, with other flags, actions and defaults, and one between them. -/
def repeatedFeatures : List Feature :=
  [trackingFeature, ⟨"pic", ["-fPIC"], compileActions, true⟩,
    ⟨trackingFeature.name, ["-MD"], [cCompileAction], false⟩]

/-- A target that requests and disables a feature, and the one that names the file. -/
def silentTarget : Target :=
  { plainTarget with
    features := [trackingFeature.name]
    disabledFeatures :=
      [cxxCompileAction, trackingFeature.name, Feature.compilerInputName] }

/-- A feature in the place of the one that names the file. -/
def ownCompilerInput : Feature := ⟨Feature.compilerInputName, ["-"], compileActions, true⟩

theorem commandLine_of_disabled_feature_repeated :
    trackingFeature.name ∈ silentTarget.disabledFeatures ∧
    commandLine (plainToolchain.declaring repeatedFeatures) silentTarget "main.c" =
      commandLine (plainToolchain.declaring [⟨"pic", ["-fPIC"], compileActions, true⟩])
        silentTarget "main.c" ∧
    Feature.compilerInputName ∈ silentTarget.disabledFeatures ∧
    commandLine (plainToolchain.declaring [ownCompilerInput]) silentTarget "main.c" =
      commandLine plainToolchain silentTarget "main.c" := by
  have tracked : trackingFeature.name ∈ silentTarget.disabledFeatures := by decide
  have named : Feature.compilerInputName ∈ silentTarget.disabledFeatures := by decide
  exact ⟨tracked,
    commandLine_of_disabled_feature plainToolchain repeatedFeatures _ silentTarget tracked "main.c",
    named,
    commandLine_of_disabled_feature plainToolchain [ownCompilerInput] _ silentTarget named "main.c"⟩

end Synthesis

end CompileCommands
