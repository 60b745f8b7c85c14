import CompileCommands.OrderedUnique
import CompileCommands.Proofs.Synthesis.Command

set_option autoImplicit false

/- The entries of a target and the entry of one of its files. A target has an entry for each of its
files or none at all, and asking for a single file gives the entry of that file among them. -/
namespace CompileCommands

theorem Target.sources_eq_orderedUnique (target : Target) :
    target.sources = orderedUnique (target.srcs ++ target.hdrs ++ target.generatedSources) :=
  Table.keys_ofPairs_unit _

theorem Target.nodup_sources (target : Target) : target.sources.Nodup := by
  rw [sources_eq_orderedUnique]
  exact nodup_orderedUnique _

namespace Synthesis

/-- The file that an entry is for, as it stands in the entry. -/
def filePath (source : String) : String := workspacePlaceholder ++ "/" ++ source

theorem filePath_injective : Function.Injective filePath := by
  intro source other same
  exact (String.append_right_inj _).mp same

theorem quotedCommand_ne_empty (tool : String) (flags : List String) :
    quotedCommand tool flags ≠ "" := by
  simp [quotedCommand]

/-- Entries of several files are told apart by their paths. -/
theorem mem_map_entryOf_iff (command : String → String) (sources : List String) (source : String)
    (entry : Entry) :
    (source ∈ sources ∧ entryOf source (command source) = entry) ↔
      entry ∈ sources.map (fun source => entryOf source (command source)) ∧
        entry.file = filePath source := by
  constructor
  · rintro ⟨listed, rfl⟩
    exact ⟨List.mem_map_of_mem listed, rfl⟩
  · rintro ⟨member, named⟩
    obtain ⟨other, listed, rfl⟩ := List.mem_map.mp member
    cases filePath_injective named
    exact ⟨listed, rfl⟩

variable {toolchain : Toolchain} {target : Target}

theorem exists_eq_entryOf {source : String} {entry : Entry}
    (made : entryFor toolchain target source = .ok (some entry)) :
    ∃ command, entry = entryOf source command := by
  unfold entryFor at made
  split at made
  · cases made
  · cases made
  · next command _ =>
    split at made
    · cases made
    · cases made
      exact ⟨command, rfl⟩

/-- Every entry of a target is that of one of its files. -/
theorem exists_entryFor_of_mem {entries : List Entry} {entry : Entry}
    (made : targetEntries toolchain target = .ok entries) (member : entry ∈ entries) :
    ∃ source ∈ target.sources, entryFor toolchain target source = .ok (some entry) := by
  obtain ⟨found, each, same⟩ := bind_eq_ok_iff.mp made
  cases same
  obtain ⟨_, listed, rfl⟩ := List.mem_filterMap.mp member
  exact exists_of_mem_forall₂ (mapM_eq_ok_iff.mp each) listed

/-- Commands have text, so that every file has an entry if there are commands. -/
theorem CompiledBy.exists_entries {context : Context} {action tool : String}
    (made : CompiledBy toolchain target context action tool) (texts : toolchain.HasTextTemplates) :
    ∃ command : String → String, ∀ source,
      entryFor toolchain target source = .ok (some (entryOf source (command source))) := by
  obtain ⟨common, commands⟩ := made.exists_commands texts
  refine ⟨fun source => quotedCommand tool (common ++ toolchain.featureFlags
    (configurationFor toolchain target) action source), fun source => ?_⟩
  rw [entryFor, commands]
  exact if_neg (quotedCommand_ne_empty _ _)

theorem entryFor_cases (texts : toolchain.HasTextTemplates) (target : Target) :
    (∃ command : String → String, ∀ source,
      entryFor toolchain target source = .ok (some (entryOf source (command source)))) ∨
    ∀ source, entryFor toolchain target source = .ok none := by
  rcases compiled_or_omitted toolchain target with ⟨context, action, tool, made⟩ | ⟨omission, omitted⟩
  · exact .inl (made.exists_entries texts)
  · refine .inr fun source => ?_
    rw [entryFor, omitted]

theorem targetEntries_of_entryFor {entry : String → Option Entry}
    (each : ∀ source, entryFor toolchain target source = .ok (entry source)) :
    targetEntries toolchain target = .ok (target.sources.filterMap entry) := by
  have made := mapM_eq_ok_map (entryFor toolchain target) entry target.sources fun source _ =>
    each source
  rw [targetEntries, made, ok_bind]
  exact congrArg Except.ok List.filterMap_map

theorem sourceEntry_of_entryFor {entry : String → Option Entry}
    (each : ∀ source, entryFor toolchain target source = .ok (entry source)) (source : String) :
    sourceEntry toolchain target source =
      .ok (if source ∈ target.sources then entry source else none) := by
  rw [sourceEntry, each]
  by_cases listed : source ∈ target.sources
  · rw [if_pos (List.contains_iff_mem.mpr listed), if_pos listed]
  · rw [if_neg (mt List.contains_iff_mem.mp listed), if_neg listed]

/-- The entries of a target: none, or one for each of its files, in their order and with different
paths. The entry of a single file is the one of them with its path, so that nothing is found for a
file that the target does not have. Whether there are entries is the same for every file. -/
theorem targetEntries_agree_with_sourceEntry (toolchain : Toolchain)
    (texts : toolchain.HasTextTemplates) (target : Target) :
    ∃ entries, targetEntries toolchain target = .ok entries ∧
      (entries = [] ∨ entries.map (·.file) = target.sources.map filePath) ∧
      (entries.map (·.file)).Nodup ∧
      (∀ source, ∃ found, sourceEntry toolchain target source = .ok found ∧
        ∀ entry, found = some entry ↔ entry ∈ entries ∧ entry.file = filePath source) ∧
      (∀ source ∈ target.sources,
        sourceEntry toolchain target source = .ok none ↔ entries = []) ∧
      ∀ source other, entryFor toolchain target source = .ok none ↔
        entryFor toolchain target other = .ok none := by
  rcases entryFor_cases texts target with ⟨command, each⟩ | each
  · have files : (target.sources.map fun source => entryOf source (command source)).map (·.file) =
        target.sources.map filePath := by
      rw [List.map_map]
      rfl
    refine ⟨target.sources.map fun source => entryOf source (command source), ?_, .inr files,
      files ▸ target.nodup_sources.map filePath_injective, ?_, ?_, ?_⟩
    · rw [targetEntries_of_entryFor each, ← Function.comp_def, List.filterMap_eq_map]
    · intro source
      refine ⟨_, sourceEntry_of_entryFor each source, fun entry => ?_⟩
      rw [Option.ite_none_right_eq_some, Option.some_inj, mem_map_entryOf_iff]
    · intro source listed
      rw [sourceEntry_of_entryFor each, if_pos listed]
      simpa using List.ne_nil_of_mem listed
    · intro source other
      simp [each]
  · refine ⟨[], ?_, .inl rfl, List.nodup_nil, ?_, ?_, ?_⟩
    · rw [targetEntries_of_entryFor each, List.filterMap_none]
    · intro source
      refine ⟨none, ?_, by simp⟩
      rw [sourceEntry_of_entryFor each, ite_self]
    · intro source listed
      rw [sourceEntry_of_entryFor each, ite_self]
      simp
    · intro source other
      rw [each, each]

/-- A target with a file that is both a source and a header. -/
def repeatedTarget : Target := { plainTarget with hdrs := ["main.h", "main.cc"] }

/-- A file that is listed twice has one entry. -/
theorem targetEntries_agree_with_sourceEntry_twice :
    plainToolchain.HasTextTemplates ∧
    ∃ entries entry, targetEntries plainToolchain repeatedTarget = .ok entries ∧
      entries.map (·.file) = [filePath "main.cc", filePath "main.h"] ∧
      sourceEntry plainToolchain repeatedTarget "main.h" = .ok (some entry) ∧ entry ∈ entries := by
  have texts := hasTextTemplates_default plainToolchain rfl
  have compiled : CompiledBy plainToolchain repeatedTarget ⟨[], [], [], [], []⟩ cCompileAction "cc" :=
    ⟨rfl, by decide, rfl, by decide⟩
  obtain ⟨command, each⟩ := compiled.exists_entries texts
  have listed : "main.h" ∈ repeatedTarget.sources := by decide
  have given := sourceEntry_of_entryFor each "main.h"
  rw [if_pos listed] at given
  obtain ⟨entries, made, files, _, agree, lacks, _⟩ :=
    targetEntries_agree_with_sourceEntry plainToolchain texts repeatedTarget
  obtain ⟨found, here, exactly⟩ := agree "main.h"
  cases given.symm.trans here
  refine ⟨texts, entries, _, made, files.resolve_left ?_, given, ((exactly _).mp rfl).1⟩
  intro none
  have refused := (lacks "main.h" listed).mpr none
  cases given.symm.trans refused

end Synthesis

end CompileCommands
