import CompileCommands.Closure
import CompileCommands.Proofs.Graph.Built

set_option autoImplicit false

/- The order of a walk. The walk keeps one list of pending labels, in which a label may stand many
times and is passed over at all places but the first; what it records is the order in which a
recursive walk, which visits a label together with everything below it, meets the labels. -/
namespace CompileCommands

namespace Graph

theorem mem_heads_of_mem_depsOf {graph : Graph} {label dep : String}
    (listed : dep ∈ graph.depsOf label) : dep ∈ graph.heads := by
  unfold depsOf at listed
  split at listed
  · next target found => exact mem_heads_of_mem_deps (mem_targets_of_find? found) listed
  · contradiction

/-- The labels that a recursive walk meets from some labels on, one after the other, when others
are seen already: a label that was not seen is met, then everything below it. -/
def preorder (graph : Graph) (seen : List String) : List String → List String
  | [] => []
  | label :: rest =>
      if label ∈ seen then graph.preorder seen rest
      else
        let below := graph.preorder (label :: seen) (graph.depsOf label)
        label :: below ++ graph.preorder (below.reverse ++ label :: seen) rest
termination_by labels => (graph.unmet seen labels, labels.length)
decreasing_by
  · refine Prod.Lex.right' _ ?_ (Nat.lt_succ_self _)
    exact graph.unmet_mono (fun _ known => known) (List.sublist_cons_self label rest)
  · next fresh =>
    have less : graph.unmet (label :: seen) (graph.depsOf label ++ rest) <
        graph.unmet seen (label :: rest) :=
      graph.unmet_lt fresh fun _ listed => mem_heads_of_mem_depsOf listed
    refine Prod.Lex.left _ _ (Nat.lt_of_le_of_lt ?_ less)
    exact graph.unmet_mono (fun _ known => known) (List.sublist_append_left _ rest)
  · refine Prod.Lex.right' _ ?_ (Nat.lt_succ_self _)
    refine graph.unmet_mono (fun other known => ?_) (List.sublist_cons_self label rest)
    exact List.mem_append_right _ (List.mem_cons_of_mem label known)

end Graph

namespace Visit

/-- A visit to which further labels are added, sorted by whether they are eligible. -/
def extend (graph : Graph) (visit : Visit) (labels : List String) : Visit where
  visited := visit.visited ++ labels
  eligible := visit.eligible ++ labels.filter graph.isEligibleLabel
  skipped := visit.skipped ++ labels.filter (!graph.isEligibleLabel ·)

@[simp] theorem extend_nil (graph : Graph) (visit : Visit) : visit.extend graph [] = visit := by
  simp [extend]

theorem extend_append (graph : Graph) (visit : Visit) (first second : List String) :
    visit.extend graph (first ++ second) = (visit.extend graph first).extend graph second := by
  simp [extend, List.append_assoc]

theorem record_eq_extend {graph : Graph} {label : String} {target : Target} (visit : Visit)
    (found : graph.find? label = some target) :
    visit.record label (graph.isEligible target) = visit.extend graph [label] := by
  have same : graph.isEligibleLabel label = graph.isEligible target := by
    simp only [Graph.isEligibleLabel, found]
  cases eligible : graph.isEligible target <;> simp [record, extend, same, eligible]

end Visit

namespace Walk

theorem run_of_seen (graph : Graph) (visit : Visit) {seen rest : List String} {label : String}
    (old : label ∈ seen) :
    run graph ⟨label :: rest, seen, visit⟩ = run graph ⟨rest, seen, visit⟩ := by
  apply run_of_step (List.cons_ne_nil label rest)
  simp only [step, old, ↓reduceIte]

theorem run_of_fresh {graph : Graph} (visit : Visit) {seen rest : List String} {label : String}
    (known : label ∈ graph.labels) (fresh : label ∉ seen) :
    run graph ⟨label :: rest, seen, visit⟩ =
      run graph ⟨graph.depsOf label ++ rest, label :: seen, visit.extend graph [label]⟩ := by
  obtain ⟨target, found, _⟩ := Graph.exists_find?_of_mem_labels known
  apply run_of_step (List.cons_ne_nil label rest)
  simp only [step, fresh, ↓reduceIte, Graph.target_of_find? found, Graph.depsOf_of_find? found,
    Visit.record_eq_extend visit found]

/-- Labels at the front of the pending ones are done with before any other is taken up, and then
the walk has met exactly what the recursive walk meets from them on. -/
theorem run_append {graph : Graph} (built : graph.Built) (labels seen : List String) :
    ∀ (rest : List String) (visit : Visit), (∀ label ∈ labels, label ∈ graph.labels) →
      run graph ⟨labels ++ rest, seen, visit⟩ =
        run graph ⟨rest, (graph.preorder seen labels).reverse ++ seen,
          visit.extend graph (graph.preorder seen labels)⟩ := by
  fun_induction graph.preorder seen labels with
  | case1 seen => intro rest visit known; simp
  | case2 seen label others old ih =>
      intro rest visit known
      rw [List.cons_append, run_of_seen graph visit old]
      apply ih
      intro other member
      exact known other (List.mem_cons_of_mem label member)
  | case3 seen label others fresh below inner outer =>
      intro rest visit known
      have here := known label (List.mem_cons_self ..)
      have deps : ∀ dep ∈ graph.depsOf label, dep ∈ graph.labels := by
        intro dep listed
        exact built.mem_labels_of_mem_depsOf here listed
      have later : ∀ other ∈ others, other ∈ graph.labels := by
        intro other member
        exact known other (List.mem_cons_of_mem label member)
      calc run graph ⟨label :: others ++ rest, seen, visit⟩
        _ = run graph ⟨graph.depsOf label ++ (others ++ rest), label :: seen,
              visit.extend graph [label]⟩ := by
          rw [List.cons_append, run_of_fresh visit here fresh]
        _ = run graph ⟨others ++ rest, below.reverse ++ label :: seen,
              (visit.extend graph [label]).extend graph below⟩ := inner _ _ deps
        _ = _ := by
          rw [outer _ _ later, ← Visit.extend_append, ← Visit.extend_append]
          simp

end Walk

theorem Graph.Built.visit_eq_extend {graph : Graph} (built : graph.Built) (roots : List String)
    (known : ∀ root ∈ roots, root ∈ graph.labels) :
    graph.visit roots = .ok (Visit.empty.extend graph (graph.preorder [] roots)) := by
  have simulated := Walk.run_append built roots [] [] Visit.empty known
  rw [List.append_nil] at simulated
  exact simulated.trans (Walk.run_of_done rfl)

/-- A walk from roots of a graph ends; it records the labels in the order of the recursive walk,
and tells apart those that are eligible without changing their order. -/
theorem visit_eq_preorder (targets : List Target) (workspace : String) (graph : Graph)
    (made : Graph.ofTargets targets workspace = .ok graph) (roots : List String)
    (known : ∀ root ∈ roots, root ∈ graph.labels) :
    ∃ visit, graph.visit roots = .ok visit ∧
      visit.visited = graph.preorder [] roots ∧
      visit.eligible = visit.visited.filter graph.isEligibleLabel ∧
      visit.skipped = visit.visited.filter (!graph.isEligibleLabel ·) := by
  have built := Graph.built_of_ofTargets made
  exact ⟨_, built.visit_eq_extend roots known, rfl, rfl, rfl⟩

theorem visit_eq_preorder_sharing :
    (∀ root ∈ ["//gen:gen", "//app:app"], root ∈ sharing.labels) ∧
    ∃ visit, sharing.visit ["//gen:gen", "//app:app"] = .ok visit ∧
      visit.visited = ["//gen:gen", "//base:base", "//app:app", "@ext//:ext"] ∧
      visit.skipped = ["//gen:gen", "@ext//:ext"] := by
  have known : ∀ root ∈ ["//gen:gen", "//app:app"], root ∈ sharing.labels := by decide
  have order : sharing.preorder [] ["//gen:gen", "//app:app"] =
      ["//gen:gen", "//base:base", "//app:app", "@ext//:ext"] := by cbv
  obtain ⟨visit, ended, visited, _, skipped⟩ :=
    visit_eq_preorder sharing.targets "" sharing ofTargets_sharing _ known
  rw [order] at visited
  rw [visited] at skipped
  exact ⟨known, visit, ended, visited, skipped⟩

end CompileCommands
