import CompileCommands.Proofs.Placeholder.Filled
import CompileCommands.Proofs.Synthesis.TargetEntries
import CompileCommands.Proofs.Text.Words

set_option autoImplicit false

/- Where the files of entries are when the workspace root is filled in: below the root, after a single
slash. The root of the file system keeps the slash that is its name, and another one comes after
it. -/
namespace CompileCommands

theorem Synthesis.file_of_entryFor {toolchain : Toolchain} {target : Target} {source : String}
    {entry : Entry} (made : entryFor toolchain target source = .ok (some entry)) :
    entry.file = filePath source := by
  obtain ⟨command, rfl⟩ := exists_eq_entryOf made
  rfl

namespace Placeholder

variable {root base : List Char} {count : Nat}

theorem kept_of_slashes (slashes : root = base ++ List.replicate count '/')
    (solid : base.getLast? ≠ some '/') :
    (root.reverse.dropWhile (· == '/')).reverse = base := by
  have dropped : ∀ c ∈ List.replicate count '/', (c == '/') = true := by
    intro c member
    simp [List.eq_of_mem_replicate member]
  rw [slashes, List.reverse_append, List.reverse_replicate, List.dropWhile_append_of_pos dropped]
  rw [← List.head?_reverse] at solid
  cases back : base.reverse with
  | nil => rw [← List.reverse_reverse base, back, List.dropWhile_nil]
  | cons c rest =>
      have other : c ≠ '/' := by simpa [back] using solid
      rw [List.dropWhile_cons_of_neg (by simpa using other), ← back, List.reverse_reverse]

theorem trimmedRoot_of_slashes (slashes : root = base ++ List.replicate count '/')
    (solid : base.getLast? ≠ some '/') :
    trimmedRoot root = if base = [] then ['/'] else base := by
  rw [trimmedRoot, kept_of_slashes slashes solid]
  simp only [List.isEmpty_iff]

theorem toList_filePath (source : String) :
    (Synthesis.filePath source).toList = workspacePlaceholder.toList ++ '/' :: source.toList := by
  rw [Synthesis.filePath, String.toList_append, String.toList_append, List.append_assoc]
  rfl

/-- The place of the root is the only one of the file's path that a placeholder takes. -/
theorem fill_filePath {source : String} (bare : Bare source) (executionRoot : Option String)
    (root : String) :
    (fill executionRoot (some root) (Synthesis.filePath source)).toList =
      trimmedRoot root.toList ++ '/' :: source.toList := by
  have noSlash {placeholder : String} (one : placeholder ∈ all) : '/' ∉ placeholder.toList := by
    obtain ⟨_, _, free⟩ := toList_of_mem_all one
    exact free
  have execution := executionRootPlaceholder_mem_all
  have workspace := workspacePlaceholder_mem_all
  have noExecution :
      ¬ executionRootPlaceholder.toList <:+: (Synthesis.filePath source).toList := by
    rw [toList_filePath]
    intro inside
    rcases Text.infix_of_infix_append_cons (noSlash execution) inside with root | source
    · exact absurd root (by decide)
    · exact bare _ execution source
  have noWorkspace : ¬ workspacePlaceholder.toList <:+: [] ++ '/' :: source.toList := by
    intro inside
    rcases Text.infix_of_infix_append_cons (noSlash workspace) inside with root | source
    · exact toList_ne_nil_of_mem_all workspace (List.infix_nil.mp root)
    · exact bare _ workspace source
  rw [fill, fillOne_eq_self noExecution, String.toList_ofList, toList_filePath, fillOne,
    Text.replace_append (toList_ne_nil_of_mem_all workspace)]
  exact congrArg _ (Text.replace_eq_self noWorkspace _)

theorem fill_filePath_of_slashes {source root base : String} {count : Nat} (bare : Bare source)
    (slashes : root.toList = base.toList ++ List.replicate count '/')
    (solid : base.toList.getLast? ≠ some '/') (executionRoot : Option String) :
    fill executionRoot (some root) (Synthesis.filePath source) =
      (if base = "" then "/" else base) ++ "/" ++ source := by
  have nothing : base.toList = [] ↔ base = "" := by
    rw [← String.toList_inj]
    rfl
  apply String.toList_inj.mp
  rw [fill_filePath bare, trimmedRoot_of_slashes slashes solid, String.toList_append,
    String.toList_append, List.append_assoc]
  by_cases empty : base = ""
  · rw [if_pos (nothing.mpr empty), if_pos empty]
    rfl
  · rw [if_neg (mt nothing.mp empty), if_neg empty]
    rfl

/-- The entry of a file, alone or among those of its target, names the file below the root that is
filled in: the root without the slashes at its end, one slash and the file. If nothing is left of the
root, then two slashes come before the file, since the root of the file system keeps its slash. -/
theorem source_file_below_root (toolchain : Toolchain) (target : Target) (source : String)
    (bare : Bare source) (entry : Entry)
    (made : Synthesis.entryFor toolchain target source = .ok (some entry))
    (root base : String) (count : Nat)
    (slashes : root.toList = base.toList ++ List.replicate count '/')
    (solid : base.toList.getLast? ≠ some '/') (executionRoot : Option String) :
    ∃ resolved, resolve executionRoot (some root) [entry] = [resolved] ∧
      (base ≠ "" → resolved.file = base ++ "/" ++ source) ∧
      (base = "" → resolved.file = "//" ++ source) := by
  have file : (fillEntry executionRoot (some root) entry).file =
      (if base = "" then "/" else base) ++ "/" ++ source := by
    rw [← fill_filePath_of_slashes bare slashes solid, ← Synthesis.file_of_entryFor made]
    rfl
  refine ⟨_, rfl, ?_, ?_⟩
  · intro named
    rw [file, if_neg named]
  · intro empty
    rw [file, if_pos empty]
    rfl

theorem exists_mainEntry : ∃ command, Synthesis.entryFor Synthesis.plainToolchain
    Synthesis.plainTarget "main.cc" = .ok (some (Synthesis.entryOf "main.cc" command)) := by
  have compiled : Synthesis.CompiledBy Synthesis.plainToolchain Synthesis.plainTarget
      ⟨[], [], [], [], []⟩ cCompileAction "cc" :=
    ⟨rfl, by decide, rfl, by decide⟩
  obtain ⟨command, each⟩ :=
    compiled.exists_entries (hasTextTemplates_default Synthesis.plainToolchain rfl)
  exact ⟨command "main.cc", each "main.cc"⟩

theorem bare_main : Bare "main.cc" := forall_mem_all_iff.mpr ⟨by decide, by decide⟩

theorem source_file_below_root_trimmed :
    Bare "main.cc" ∧ ∃ entry resolved,
      Synthesis.entryFor Synthesis.plainToolchain Synthesis.plainTarget "main.cc" =
        .ok (some entry) ∧
      resolve none (some "/src/project//") [entry] = [resolved] ∧
      resolved.file = "/src/project/main.cc" := by
  obtain ⟨command, made⟩ := exists_mainEntry
  obtain ⟨resolved, only, below, _⟩ :=
    source_file_below_root _ _ _ bare_main _ made "/src/project//" "/src/project" 2 rfl (by decide)
      none
  exact ⟨bare_main, _, resolved, made, only, below (by decide)⟩

/-- Two slashes come before the file where the root is that of the file system. -/
theorem two_slashes_below_file_system_root :
    "main.cc" ≠ "" ∧ "main.cc".toList.head? ≠ some '/' ∧ Bare "main.cc" ∧
    "/".toList = "".toList ++ List.replicate 1 '/' ∧ ∃ entry resolved,
      Synthesis.entryFor Synthesis.plainToolchain Synthesis.plainTarget "main.cc" =
        .ok (some entry) ∧
      resolve none (some "/") [entry] = [resolved] ∧
      resolved.file = "//main.cc" ∧ resolved.file ≠ "" ++ "/" ++ "main.cc" := by
  obtain ⟨command, made⟩ := exists_mainEntry
  have slash : "/".toList = "".toList ++ List.replicate 1 '/' := rfl
  have file : (fillEntry none (some "/") (Synthesis.entryOf "main.cc" command)).file =
      "//main.cc" :=
    fill_filePath_of_slashes bare_main slash (by decide) none
  refine ⟨by decide, by decide, bare_main, slash, _, _, made, rfl, file, ?_⟩
  rw [file]
  decide

end Placeholder

end CompileCommands
