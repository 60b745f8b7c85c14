import CompileCommands.Proofs.CommandLine.Task
import CompileCommands.Proofs.Description.Held

set_option autoImplicit false

/- The entries that options ask for, said without the steps in which they are made: a file holds a
description, its graph and its toolchain are used for collecting, and placeholders are filled. These
are the entries of a plan. -/
namespace CompileCommands.CommandLine.Options

/-! The roots. -/

theorem namesRoot_iff (root : Option (Given String)) :
    namesRoot root = true ↔ ∃ text, text ≠ "" ∧ root = some (.value text) := by
  unfold namesRoot
  split
  · next text => simp
  · next noText =>
    simp only [Bool.false_eq_true, false_iff]
    rintro ⟨text, _, same⟩
    exact noText text same

theorem rootText_eq_ok_iff (root : Option (Given String)) (text : Option String) :
    rootText root = .ok text ↔ root = text.map .value := by
  rcases root with _ | ⟨_ | given⟩ <;> cases text <;> simp [rootText, eq_comm]

variable (options : Options)

/-- Whether a root is named by more than an empty text. -/
def NamesRoot : Prop :=
  ∃ root, root ≠ "" ∧
    (options.executionRoot = some (.value root) ∨ options.workspaceRoot = some (.value root))

/-- What is to be written when some entries were made: these, if no root is named, or else what they
are with the placeholders of the given roots filled. -/
inductive Fills (made : List Entry) : List Entry → Prop
  | unnamed (bare : ¬ options.NamesRoot) : Fills made made
  | named (named : options.NamesRoot) {execution workspace : Option String}
      (atExecution : options.executionRoot = execution.map .value)
      (atWorkspace : options.workspaceRoot = workspace.map .value) :
      Fills made (Placeholder.resolve execution workspace made)

theorem entriesOf_eq_ok_iff (collection : Collection) (entries : List Entry) :
    options.entriesOf collection = .ok entries ↔
      options.Fills collection.aggregation.flatten entries := by
  have tested : (namesRoot options.executionRoot || namesRoot options.workspaceRoot) = true ↔
      options.NamesRoot := by
    simp only [Bool.or_eq_true, namesRoot_iff, NamesRoot, and_or_left, exists_or]
  unfold entriesOf
  by_cases named : options.NamesRoot
  · simp only [if_pos (tested.mpr named), bind_eq_ok_iff, rootText_eq_ok_iff]
    constructor
    · rintro ⟨execution, atExecution, workspace, atWorkspace, same⟩
      cases same
      exact .named named atExecution atWorkspace
    · rintro (bare | ⟨_, atExecution, atWorkspace⟩)
      · exact absurd named bare
      · exact ⟨_, atExecution, _, atWorkspace, rfl⟩
  · simp only [if_neg (mt tested.mp named)]
    constructor
    · intro same
      cases same
      exact .unnamed named
    · rintro (_ | ⟨present, _, _⟩)
      · rfl
      · exact absurd present named

/-! The plan. -/

variable {options}

theorem collect_eq_of_gathered {graph : Graph} {toolchain : Toolchain} {collection : Collection}
    (made : options.gathered graph toolchain = .ok collection) :
    collect graph options.roots toolchain (some 1) = .ok collection := by
  simp only [gathered, bind_eq_ok_iff] at made
  obtain ⟨_, _, _, _, _, _, collected⟩ := made
  exact collected

theorem withheldFlag?_eq_none (toolchain : Toolchain)
    (shown : ∀ given ∈ options.copts ++ options.cxxopts, given ≠ .withheld) :
    withheldFlag? toolchain options.cxxopts options.copts = none := by
  have listed : ∀ (all : List String) (given : List (Given String)),
      (∀ flag ∈ given, flag ≠ .withheld) →
        ∀ flag ∈ (all.take (all.length - given.length)).map .value ++ given,
          flag.isWithheld = false := by
    intro all given valued flag member
    rcases List.mem_append.mp member with described | added
    · obtain ⟨text, _, rfl⟩ := List.mem_map.mp described
      rfl
    · cases flag with
      | withheld => exact absurd rfl (valued .withheld added)
      | value text => rfl
  obtain ⟨copts, cxxopts⟩ := List.forall_mem_append.mp shown
  rw [withheldFlag?, List.findIdx?_eq_none_iff]
  exact List.forall_mem_append.mpr ⟨listed _ _ cxxopts, listed _ _ copts⟩

theorem gathered_eq_of_collect {graph : Graph} {toolchain : Toolchain} {collection : Collection}
    (shown : ∀ given ∈ options.copts ++ options.cxxopts, given ≠ .withheld)
    (collected : collect graph options.roots toolchain (some 1) = .ok collection) :
    options.gathered graph toolchain = .ok collection := by
  have whole := collected
  unfold collect collectBy at collected
  split at collected
  · contradiction
  · next labels named =>
    split at collected
    · contradiction
    · next visit walked =>
      rw [gathered, named]
      show (graph.visit labels >>= _) = _
      rw [walked, withheldFlag?_eq_none toolchain shown]
      exact whole

end CompileCommands.CommandLine.Options
