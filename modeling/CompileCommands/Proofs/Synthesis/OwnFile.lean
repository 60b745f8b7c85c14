import CompileCommands.Proofs.Synthesis.Command
import CompileCommands.Proofs.Text.Replaced
import CompileCommands.Proofs.Toolchain.FeatureFlags

set_option autoImplicit false

/- Every command names the file that it compiles, at its end. Features may name the file before, as
often as they like: a longer name then makes no part of the command shorter, so that the commands of
two files are of different lengths or differ at their ends. -/
namespace CompileCommands

namespace Synthesis

/-- A line that goes on with some flags. -/
def withFlags (line : String) (flags : List String) : String :=
  flags.foldl (fun line flag => line ++ " " ++ flag) line

theorem append_withFlags (start line : String) (flags : List String) :
    start ++ withFlags line flags = withFlags (start ++ line) flags := by
  induction flags generalizing line with
  | nil => rfl
  | cons flag rest ih =>
      rw [withFlags, List.foldl_cons, ← withFlags, ih, ← String.append_assoc, ← String.append_assoc]
      rfl

theorem joined_cons (flag : String) (rest : List String) :
    Text.joined " " (flag :: rest) = withFlags flag rest := by
  induction rest generalizing flag with
  | nil => rfl
  | cons next rest ih => exact ih (flag ++ " " ++ next)

theorem quotedCommand_eq_withFlags (tool : String) {flags : List String} (filled : flags ≠ []) :
    quotedCommand tool flags = withFlags ("\"" ++ tool ++ "\"") flags := by
  obtain ⟨flag, rest, rfl⟩ := List.exists_cons_of_ne_nil filled
  have space : "\" " = "\"" ++ " " := rfl
  rw [quotedCommand, joined_cons, append_withFlags, space, ← String.append_assoc]
  rfl

theorem withFlags_append (line : String) (flags others : List String) :
    withFlags line (flags ++ others) = withFlags (withFlags line flags) others :=
  List.foldl_append ..

theorem withFlags_source (line source : String) :
    withFlags line ["-c", source] = line ++ " -c " ++ source := by
  have marks : " -c " = " " ++ "-c" ++ " " := rfl
  rw [marks, ← String.append_assoc, ← String.append_assoc]
  rfl

theorem length_withFlags_le {line other : String} (start : line.length ≤ other.length)
    {flags others : List String}
    (each : List.Forall₂ (fun flag other => flag.length ≤ other.length) flags others) :
    (withFlags line flags).length ≤ (withFlags other others).length := by
  induction each generalizing line other with
  | nil => exact start
  | cons first _ ih =>
      apply ih
      simp only [String.length_append]
      omega

end Synthesis

namespace Toolchain

theorem length_featureFlag_le {source other : String} (shorter : source.length ≤ other.length)
    (flag : String) : (featureFlag source flag).length ≤ (featureFlag other flag).length := by
  rw [featureFlag, featureFlag, String.length_ofList, String.length_ofList]
  apply Text.length_replaceFrom_le
  rwa [String.length_toList, String.length_toList]

theorem sourceFilePlace_ne_nil : sourceFilePlace ≠ [] := by decide

theorem featureFlag_place (source : String) :
    featureFlag source (String.ofList sourceFilePlace) = source := by
  rw [featureFlag, String.toList_ofList, Text.replace_self sourceFilePlace_ne_nil,
    String.ofList_toList]

theorem flags_compilerInput (source : String) :
    Feature.compilerInput.flags.map (featureFlag source) = ["-c", source] := by
  have place : "\x7bsource_file\x7d" = String.ofList sourceFilePlace :=
    String.ofList_toList.symm
  rw [Feature.compilerInput, place]
  simp only [List.map_cons, List.map_nil, featureFlag_place]
  rfl

/-- The feature that names the file comes last. -/
theorem exists_featureFlags_eq {toolchain : Toolchain} {declared : List Feature}
    (given : toolchain.features = withCompilerInput declared)
    (own : ∀ feature ∈ declared, feature.name ≠ Feature.compilerInputName)
    {configuration : Configuration} {action : String} (compiles : action ∈ compileActions)
    (enabled : Feature.compilerInputName ∈ configuration.features) :
    ∃ flags : List String, ∀ source, toolchain.featureFlags configuration action source =
      flags.map (featureFlag source) ++ ["-c", source] := by
  rw [withCompilerInput_of_forall own] at given
  have names : applies configuration action Feature.compilerInput = true :=
    (applies_eq_true_iff ..).mpr ⟨enabled, compiles⟩
  refine ⟨(declared.filter (applies configuration action)).flatMap Feature.flags, fun source => ?_⟩
  rw [featureFlags_eq_map, given, List.filter_append, List.flatMap_append, List.map_append,
    List.filter_cons_of_pos names, List.filter_nil, List.flatMap_singleton, flags_compilerInput]

end Toolchain

namespace Synthesis

variable {toolchain : Toolchain} {target : Target}

/-- What stands before the name of the file: it gets no shorter when the name gets longer. -/
theorem CompiledBy.exists_fronts {context : Context} {action tool : String}
    (made : CompiledBy toolchain target context action tool) (texts : toolchain.HasTextTemplates)
    {declared : List Feature} (given : toolchain.features = Toolchain.withCompilerInput declared)
    (own : ∀ feature ∈ declared, feature.name ≠ Feature.compilerInputName)
    (kept : Feature.compilerInputName ∉ target.disabledFeatures) :
    ∃ front : String → String,
      (∀ source, commandLine toolchain target source =
        .ok (.ok (front source ++ " -c " ++ source))) ∧
      ∀ source other : String, source.length ≤ other.length →
        (front source).length ≤ (front other).length := by
  have compiles : action ∈ compileActions := List.mem_of_find?_eq_some
    ((toolchain.compileAction?_configurationFor target).trans made.chosen)
  have enabled : Feature.compilerInputName ∈ (configurationFor toolchain target).features := by
    apply (Toolchain.mem_features_configure ..).mpr
    refine ⟨kept, Feature.compilerInput, ?_, rfl, .inl rfl⟩
    simp [given, Toolchain.withCompilerInput_of_forall own]
  obtain ⟨common, commands⟩ := made.exists_commands texts
  obtain ⟨flags, named⟩ := Toolchain.exists_featureFlags_eq given own compiles enabled
  refine ⟨fun source => withFlags ("\"" ++ tool ++ "\"")
    (common ++ flags.map (Toolchain.featureFlag source)), fun source => ?_, ?_⟩
  · rw [commands, named, ← List.append_assoc, quotedCommand_eq_withFlags _ (by simp),
      withFlags_append, withFlags_source]
  · intro source other shorter
    apply length_withFlags_le (Nat.le_refl _)
    apply List.rel_append
    · exact List.forall₂_same.mpr fun _ _ => Nat.le_refl _
    · rw [List.forall₂_map_left_iff, List.forall₂_map_right_iff]
      exact List.forall₂_same.mpr fun flag _ => Toolchain.length_featureFlag_le shorter flag

/-- Texts that end with different names differ, if what stands before the longer name is no shorter. -/
theorem eq_of_same_ending {front : String → String}
    (grows : ∀ source other : String, source.length ≤ other.length →
      (front source).length ≤ (front other).length) {source other : String}
    (same : front source ++ " -c " ++ source = front other ++ " -c " ++ other) :
    source = other := by
  wlog shorter : source.length ≤ other.length generalizing source other
  · exact (this same.symm (Nat.le_of_not_le shorter)).symm
  have lengths := congrArg String.length same
  have fronts := grows source other shorter
  simp only [String.length_append] at lengths
  have equal : source.toList.length = other.toList.length := by
    rw [String.length_toList, String.length_toList]
    omega
  have chars := congrArg String.toList same
  simp only [String.toList_append] at chars
  exact String.toList_inj.mp (List.append_inj_right' chars equal)

/-- Unless a toolchain has a feature of its own under the name of the one that names the file, every
command ends with the file it compiles, and the commands of different files differ. -/
theorem commandLine_names_file (toolchain : Toolchain) (texts : toolchain.HasTextTemplates)
    (declared : List Feature) (given : toolchain.features = Toolchain.withCompilerInput declared)
    (own : ∀ feature ∈ declared, feature.name ≠ Feature.compilerInputName) (target : Target)
    (kept : Feature.compilerInputName ∉ target.disabledFeatures) :
    (∀ source command, commandLine toolchain target source = .ok (.ok command) →
      ∃ front, command = front ++ " -c " ++ source) ∧
    ∀ source other command second, source ≠ other →
      commandLine toolchain target source = .ok (.ok command) →
        commandLine toolchain target other = .ok (.ok second) → command ≠ second := by
  rcases compiled_or_omitted toolchain target with ⟨context, action, tool, made⟩ | ⟨omission, omitted⟩
  · obtain ⟨front, commands, grows⟩ := made.exists_fronts texts given own kept
    constructor
    · intro source command found
      cases (commands source).symm.trans found
      exact ⟨front source, rfl⟩
    · intro source other command second different found also same
      cases (commands source).symm.trans found
      cases (commands other).symm.trans also
      exact different (eq_of_same_ending grows same)
  · constructor
    · intro source command found
      cases (omitted source).symm.trans found
    · intro source other command second different found
      cases (omitted source).symm.trans found

/-- A feature that names the file three times, in a flag of its own and twice within another. -/
def trackingFeature : Feature :=
  ⟨"track", ["-MF", "\x7bsource_file\x7d", "-MT\x7bsource_file\x7d:\x7bsource_file\x7d"],
    compileActions, true⟩

def trackingToolchain : Toolchain :=
  { plainToolchain with features := Toolchain.withCompilerInput [trackingFeature] }

/-- The name of one file ends with a flag and the name of the other. -/
theorem commandLine_names_file_tracking :
    trackingToolchain.HasTextTemplates ∧
    (∀ feature ∈ [trackingFeature], feature.name ≠ Feature.compilerInputName) ∧
    Feature.compilerInputName ∉ plainTarget.disabledFeatures ∧
    ∃ command second,
      commandLine trackingToolchain plainTarget "a.c" = .ok (.ok command) ∧
      commandLine trackingToolchain plainTarget "b.c -c a.c" = .ok (.ok second) ∧
      (∃ front, command = front ++ " -c " ++ "a.c") ∧ command ≠ second := by
  have texts := hasTextTemplates_default trackingToolchain rfl
  have own : ∀ feature ∈ [trackingFeature], feature.name ≠ Feature.compilerInputName := by
    decide
  have kept : Feature.compilerInputName ∉ plainTarget.disabledFeatures := by decide
  have made : CompiledBy trackingToolchain plainTarget ⟨[], [], [], [], []⟩ cCompileAction "cc" :=
    ⟨rfl, by decide, rfl, by decide⟩
  obtain ⟨common, commands⟩ := made.exists_commands texts
  obtain ⟨ends, differ⟩ :=
    commandLine_names_file trackingToolchain texts [trackingFeature] rfl own plainTarget kept
  exact ⟨texts, own, kept, _, _, commands "a.c", commands "b.c -c a.c", ends _ _ (commands "a.c"),
    differ _ _ _ _ (by decide) (commands "a.c") (commands "b.c -c a.c")⟩

end Synthesis

end CompileCommands
