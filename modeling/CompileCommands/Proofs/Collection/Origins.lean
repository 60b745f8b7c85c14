import CompileCommands.Proofs.Aggregation.ComputeOnce
import CompileCommands.Proofs.Collection.InTurn
import CompileCommands.Proofs.Synthesis.TargetEntries

set_option autoImplicit false

/- Where the entries of a collection come from. An aggregation keeps what the targets gave and nothing
else, so that every entry is that of a file of some target. -/
namespace CompileCommands

namespace Aggregation

variable {compute : String → Except Failure (List Entry)} {aggregation : Aggregation}

/-- Whether the entries that a label has are those that are computed for it. -/
def Keeps (compute : String → Except Failure (List Entry)) (aggregation : Aggregation) : Prop :=
  ∀ label entries, aggregation.find? label = some entries → compute label = .ok entries

theorem keeps_empty : Keeps compute empty := by
  intro label entries known
  cases known

theorem Keeps.addOrder (keeps : Keeps compute aggregation) (label : String) :
    Keeps compute (aggregation.addOrder label) := by
  intro other entries known
  rw [find?_addOrder] at known
  exact keeps other entries known

theorem Keeps.foldl_addOrder (keeps : Keeps compute aggregation) (labels : List String) :
    Keeps compute (labels.foldl Aggregation.addOrder aggregation) := by
  induction labels generalizing aggregation with
  | nil => exact keeps
  | cons label rest ih => exact ih (keeps.addOrder label)

theorem Keeps.getOrCompute (keeps : Keeps compute aggregation) (label : String) :
    Keeps compute (aggregation.getOrCompute label id (compute label)).1 := by
  rw [Aggregation.getOrCompute]
  cases aggregation.find? label with
  | some entries => exact keeps
  | none =>
      cases outcome : compute label with
      | error failure => exact keeps
      | ok entries =>
          intro other found known
          rw [find?_store] at known
          split at known
          · next same =>
            cases known
            rw [← same, outcome]
          · exact keeps other found known

theorem Keeps.exists_of_mem_flatten (keeps : Keeps compute aggregation) {entry : Entry}
    (member : entry ∈ aggregation.flatten) :
    ∃ label entries, compute label = .ok entries ∧ entry ∈ entries := by
  obtain ⟨label, _, listed⟩ := List.mem_flatMap.mp member
  rw [entriesFor] at listed
  cases known : aggregation.find? label with
  | none =>
      rw [known] at listed
      cases listed
  | some entries =>
      rw [known] at listed
      exact ⟨label, entries, keeps label entries known, listed⟩

end Aggregation

namespace Collection

variable {graph : Graph} {toolchain : Toolchain}

theorem keeps_of_computeAll {labels : List String} {aggregation after : Aggregation}
    (keeps : aggregation.Keeps (entriesOf graph toolchain))
    (computed : computeAll graph toolchain aggregation labels = .ok after) :
    after.Keeps (entriesOf graph toolchain) := by
  induction labels generalizing aggregation with
  | nil =>
      cases computed
      exact keeps
  | cons label rest ih =>
      have next := keeps.getOrCompute label
      rw [computeAll] at computed
      split at computed
      · cases computed
      · next between _ asked =>
        rw [asked] at next
        exact ih next computed

theorem keeps_of_ofVisitBy_inTurn {workers : Option Int} {visit : Visit} {collection : Collection}
    (made : ofVisitBy .inTurn graph toolchain workers visit = .ok collection) :
    collection.aggregation.Keeps (entriesOf graph toolchain) := by
  rw [ofVisitBy_inTurn] at made
  split at made
  · cases made
  · obtain ⟨aggregation, computed, rfl⟩ := map_eq_ok_iff.mp made
    exact keeps_of_computeAll (Aggregation.keeps_empty.foldl_addOrder visit.eligible) computed

theorem exists_target_of_entriesOf {label : String} {entries : List Entry}
    (made : entriesOf graph toolchain label = .ok entries) :
    ∃ target, graph.target label = .ok target ∧
      Synthesis.targetEntries toolchain target = .ok entries := by
  unfold entriesOf at made
  split at made
  · cases made
  · next target found => exact ⟨target, found, made⟩

end Collection

section

variable {graph : Graph} {roots : List Root} {toolchain : Toolchain} {workers : Option Int}
  {collection : Collection}

theorem keeps_of_collect (collected : collect graph roots toolchain workers = .ok collection) :
    collection.aggregation.Keeps (Collection.entriesOf graph toolchain) := by
  unfold collect collectBy at collected
  split at collected
  · cases collected
  · split at collected
    · cases collected
    · exact Collection.keeps_of_ofVisitBy_inTurn collected

/-- Every entry that is collected is made for a file of a target of the graph. -/
theorem exists_entryFor_of_collect
    (collected : collect graph roots toolchain workers = .ok collection) {entry : Entry}
    (member : entry ∈ collection.aggregation.flatten) :
    ∃ label target source, graph.target label = .ok target ∧ source ∈ target.sources ∧
      Synthesis.entryFor toolchain target source = .ok (some entry) := by
  obtain ⟨label, entries, computed, listed⟩ :=
    (keeps_of_collect collected).exists_of_mem_flatten member
  obtain ⟨target, found, made⟩ := Collection.exists_target_of_entriesOf computed
  obtain ⟨source, own, entered⟩ := Synthesis.exists_entryFor_of_mem made listed
  exact ⟨label, target, source, found, own, entered⟩

end

end CompileCommands
