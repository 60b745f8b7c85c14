import CompileCommands.Proofs.Synthesis.TargetEntries
import CompileCommands.Proofs.Text.Cut

set_option autoImplicit false

/- The files that a target compiles: which they are, and in which order. The outputs of a rule that
generates sources are told by the ending of their names, which is found from the last dot of the last
component of a path; dots alone before it are no stem. -/
namespace CompileCommands.Target

open Text (IsAfterLast isAfterLast_iff)

/-! The extension of a path. -/

theorem extension_of_dotless {path : List Char} (dotless : '.' ∉ Text.afterLast '/' path) :
    extension path = [] := by
  have nothing := Text.dropWhile_reverse_append dotless []
  rw [List.append_nil, List.dropWhile_nil] at nothing
  rw [extension, nothing]

theorem extension_of_parts {path stem ending : List Char}
    (parts : Text.afterLast '/' path = stem ++ '.' :: ending) (dotless : '.' ∉ ending) :
    extension path = if stem.all (· == '.') then [] else '.' :: ending := by
  have name : (Text.afterLast '/' path).reverse = ending.reverse ++ '.' :: stem.reverse := by
    rw [parts, List.reverse_append, List.reverse_cons, List.append_assoc, List.singleton_append]
  have kept := Text.takeWhile_reverse_append dotless ('.' :: stem.reverse)
  have left := Text.dropWhile_reverse_append dotless ('.' :: stem.reverse)
  rw [List.takeWhile_cons_of_neg (by simp), List.append_nil] at kept
  rw [List.dropWhile_cons_of_neg (by simp)] at left
  simp only [extension, name, kept, left, List.all_reverse, List.reverse_reverse]

/-- A path has an extension if something other than dots stands before the last dot of its last
component. -/
theorem extension_eq_iff {path ending : List Char} (dotless : '.' ∉ ending) :
    extension path = '.' :: ending ↔
      ∃ stem, IsAfterLast '/' (stem ++ '.' :: ending) path ∧ ∃ c ∈ stem, c ≠ '.' := by
  simp only [isAfterLast_iff]
  constructor
  · intro found
    have last := (isAfterLast_iff '.' _ (Text.afterLast '/' path)).mpr rfl
    obtain ⟨free, whole | ⟨stem, parts⟩⟩ := last
    · rw [whole] at free
      rw [extension_of_dotless free] at found
      contradiction
    · rw [extension_of_parts parts free] at found
      split at found
      · contradiction
      · next filled =>
        cases found
        exact ⟨stem, parts.symm, by simpa using filled⟩
  · rintro ⟨stem, parts, filled⟩
    rw [extension_of_parts parts.symm dotless, if_neg]
    simpa using filled

/-- Whether the last component of a path is a stem, which does not consist of dots alone, with one of
the endings of generated sources after it. -/
def IsGeneratedName (file : String) : Prop :=
  ∃ ending ∈ generatedExtensions, ∃ stem,
    IsAfterLast '/' (stem ++ ending) file.toList ∧ ∃ c ∈ stem, c ≠ '.'

theorem extension_eq_iff_of_generated {path ending : List Char}
    (listed : ending ∈ generatedExtensions) :
    extension path = ending ↔
      ∃ stem, IsAfterLast '/' (stem ++ ending) path ∧ ∃ c ∈ stem, c ≠ '.' := by
  simp only [generatedExtensions, List.mem_cons, List.not_mem_nil, or_false] at listed
  rcases listed with rfl | rfl
  · exact extension_eq_iff (by decide)
  · exact extension_eq_iff (by decide)

theorem extension_mem_generatedExtensions_iff (file : String) :
    extension file.toList ∈ generatedExtensions ↔ IsGeneratedName file := by
  constructor
  · intro listed
    exact ⟨_, listed, (extension_eq_iff_of_generated listed).mp rfl⟩
  · rintro ⟨ending, listed, named⟩
    rwa [(extension_eq_iff_of_generated listed).mpr named]

theorem mem_generatedSources_iff (target : Target) (file : String) :
    file ∈ target.generatedSources ↔
      target.kind = protoRuleKind ∧ file ∈ target.outputs ∧ IsGeneratedName file := by
  rw [generatedSources, ← extension_mem_generatedExtensions_iff]
  by_cases proto : target.kind = protoRuleKind
  · simp [proto]
  · simp [proto]

/-! Files that are listed at several places. -/

/-- All files that a target may compile, in the order in which they are considered. -/
def listedFiles (target : Target) : List String := target.srcs ++ target.hdrs ++ target.outputs

theorem sources_sublist (target : Target) :
    target.sources.Sublist (orderedUnique target.listedFiles) := by
  rw [sources_eq_orderedUnique, listedFiles, orderedUnique_append (target.srcs ++ target.hdrs),
    orderedUnique_append (target.srcs ++ target.hdrs)]
  apply List.Sublist.append_left
  rw [generatedSources]
  split
  · rw [orderedUniqueFrom_filter]
    exact List.filter_sublist
  · exact List.nil_sublist _

/-- A target compiles its sources, its headers and, if its rule generates sources, the outputs that are
named like sources; each file once, in the order in which the files are first listed. -/
theorem sources_once_in_order (target : Target) :
    target.sources.Nodup ∧
    (∀ file, file ∈ target.sources ↔ file ∈ target.srcs ∨ file ∈ target.hdrs ∨
      target.kind = "cc_proto_library" ∧ file ∈ target.outputs ∧ IsGeneratedName file) ∧
    target.sources.Pairwise fun file later =>
      target.listedFiles.idxOf file < target.listedFiles.idxOf later := by
  refine ⟨target.nodup_sources, fun file => ?_, ?_⟩
  · rw [sources_eq_orderedUnique, mem_orderedUnique, List.mem_append, List.mem_append, or_assoc,
      mem_generatedSources_iff, protoRuleKind]
  · exact (pairwise_idxOf_orderedUnique target.listedFiles).sublist target.sources_sublist

example : Target.sources { Target.single "//x:x" "cc_proto_library" "" [] with
    outputs := ["x.pb.h", "main.cc", "x.cc/x", ".h", "x/...cc", "x/.x.cc"] } =
    ["main.cc", "x.pb.h", "x/.x.cc"] := by decide

end CompileCommands.Target
