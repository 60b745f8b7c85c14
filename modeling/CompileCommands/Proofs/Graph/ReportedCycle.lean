import CompileCommands.Proofs.Graph.CycleSearch
import CompileCommands.Proofs.Graph.Outcome

set_option autoImplicit false

/- The cycle that is reported when there is one. The counting of generations decides whether a graph
is rejected, and the search of edges names the cycle: what the one rejects the other one finds. -/
namespace CompileCommands.Graph

/-- Where the test rejects labels that are distinct and depend on each other only, the search finds
labels that depend each on the next one and the last on the first, none of them twice, and these
are reported. -/
theorem ofTargets_cycle_of_not_isAcyclic (targets : List Target) (workspace : String)
    (distinct : (labels ⟨workspace, targets⟩).Nodup) (closed : Closed ⟨workspace, targets⟩)
    (rejected : (dependencyTable ⟨workspace, targets⟩).isAcyclic = false) :
    ∃ first rest,
      findCycle (dependencyTable ⟨workspace, targets⟩) = some (first :: rest) ∧
      ofTargets targets workspace = .error (.graph (.cycle (first :: rest))) ∧
      (GraphFault.cycle (first :: rest)).message =
        "Dependency cycle detected: " ++ Text.joined " -> " (first :: rest ++ [first]) ∧
      (first :: rest).Nodup ∧
      (first :: rest ++ [first]).IsChain (Depends ⟨workspace, targets⟩) := by
  have cyclic : (dependencyTable ⟨workspace, targets⟩).HasCycle := by
    rw [hasCycle_dependencyTable_iff distinct]
    by_contra acyclic
    have accepted := (isAcyclic_iff_not_hasCycle distinct closed).mpr acyclic
    rw [rejected] at accepted
    contradiction
  obtain ⟨labels, found, simple⟩ := exists_findCycle cyclic
  cases labels with
  | nil => exact simple.elim
  | cons first rest =>
      obtain ⟨apart, linked⟩ := simple
      rw [depends_dependencyTable distinct] at linked
      have unique := (firstRepeated_labels_eq_none_iff ⟨workspace, targets⟩).mpr distinct
      have inside := (firstDangling_eq_none_iff ⟨workspace, targets⟩).mpr closed
      refine ⟨first, rest, found, ?_, rfl, apart, linked⟩
      simp only [ofTargets, unique, inside, rejected, found, Option.getD_some, Bool.false_eq_true,
        ↓reduceIte]

/-- Two libraries depend on each other. The program that depends on the first of them and the
library that all three use are on no cycle. -/
def entangled : List Target := [
  .single "//app:app" "cc_binary" "" ["//log:log", "//io:io"],
  .single "//io:io" "cc_library" "" ["//log:log", "//net:net"],
  .single "//log:log" "cc_library" "" [],
  .single "//net:net" "cc_library" "" ["//log:log", "//io:io"]]

theorem isAcyclic_entangled : (dependencyTable ⟨"", entangled⟩).isAcyclic = false := by
  rw [← Bool.not_eq_true, isAcyclic_iff_not_hasCycle (by decide) (by decide), not_not]
  have onward : Depends ⟨"", entangled⟩ "//io:io" "//net:net" := by decide
  have back : Depends ⟨"", entangled⟩ "//net:net" "//io:io" := by decide
  exact ⟨"//io:io", .tail (.single onward) back⟩

theorem ofTargets_entangled :
    (labels ⟨"", entangled⟩).Nodup ∧ Closed ⟨"", entangled⟩ ∧
    (dependencyTable ⟨"", entangled⟩).isAcyclic = false ∧
    ∃ first rest,
      ofTargets entangled "" = .error (.graph (.cycle (first :: rest))) ∧
      (first :: rest).Nodup ∧ (first :: rest ++ [first]).IsChain (Depends ⟨"", entangled⟩) := by
  have distinct : (labels ⟨"", entangled⟩).Nodup := by decide
  have closed : Closed ⟨"", entangled⟩ := by decide
  obtain ⟨first, rest, _, failed, _, apart, linked⟩ :=
    ofTargets_cycle_of_not_isAcyclic entangled "" distinct closed isAcyclic_entangled
  exact ⟨distinct, closed, isAcyclic_entangled, first, rest, failed, apart, linked⟩

example : findCycle (dependencyTable ⟨"", entangled⟩) = some ["//io:io", "//net:net"] := by cbv

end CompileCommands.Graph
