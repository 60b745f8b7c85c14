import CompileCommands.Proofs.Closure.SeenLabels
import CompileCommands.Proofs.Collection.Entries

set_option autoImplicit false

/- What is collected depends on the names of the roots alone, which are the labels of the targets
that they stand for: on the walk from the names, and on the entries of the labels it meets. -/
namespace CompileCommands

namespace Graph

variable {graph : Graph}

/-- What is recorded of the walk from some names. -/
def visitOf (graph : Graph) (names : List String) : Visit :=
  Visit.empty.extend graph (graph.preorder [] names)

theorem visited_visitOf (graph : Graph) (names : List String) :
    (graph.visitOf names).visited = graph.preorder [] names :=
  List.nil_append _

theorem eligible_visitOf (graph : Graph) (names : List String) :
    (graph.visitOf names).eligible = (graph.preorder [] names).filter graph.isEligibleLabel :=
  List.nil_append _

theorem Built.visit_orderedUnique (built : graph.Built) {names : List String}
    (known : ∀ name ∈ names, name ∈ graph.labels) :
    graph.visit (orderedUnique names) = .ok (graph.visitOf names) := by
  have kept : ∀ name ∈ orderedUnique names, name ∈ graph.labels := by
    intro name member
    exact known name ((mem_orderedUnique names name).mp member)
  rw [built.visit_eq_extend _ kept, orderedUnique, preorder_orderedUniqueFrom graph (by simp),
    visitOf]

theorem Built.covers_visitOf (built : graph.Built) {names : List String}
    (known : ∀ name ∈ names, name ∈ graph.labels) : (graph.visitOf names).Covers graph names := by
  obtain ⟨visit, walked, covers⟩ := built.exists_visit names known
  rw [built.visit_eq_extend names known] at walked
  cases walked
  exact covers

theorem Built.mem_preorder_iff (built : graph.Built) {names : List String}
    (known : ∀ name ∈ names, name ∈ graph.labels) (label : String) :
    label ∈ graph.preorder [] names ↔ ∃ name ∈ names, graph.Reaches name label := by
  have covers := built.covers_visitOf known
  rw [← covers.reached, visited_visitOf]

theorem Built.mem_labels_of_mem_preorder (built : graph.Built) {names : List String}
    (known : ∀ name ∈ names, name ∈ graph.labels) {label : String}
    (met : label ∈ graph.preorder [] names) : label ∈ graph.labels := by
  rw [← visited_visitOf] at met
  exact (built.covers_visitOf known).known label met

/-- All that a walk meets is closed under dependencies. -/
theorem Built.encloses_preorder (built : graph.Built) {names : List String}
    (known : ∀ name ∈ names, name ∈ graph.labels) : graph.Encloses (graph.preorder [] names) := by
  intro label member dep listed
  obtain ⟨name, start, path⟩ := (built.mem_preorder_iff known label).mp member
  exact (built.mem_preorder_iff known dep).mpr ⟨name, start, path.tail listed⟩

theorem Built.nodup_eligible (built : graph.Built) {names : List String}
    (known : ∀ name ∈ names, name ∈ graph.labels) : (graph.visitOf names).eligible.Nodup := by
  have covers := built.covers_visitOf known
  rw [covers.eligible]
  exact covers.distinct.filter _

theorem Built.mem_labels_of_mem_eligible (built : graph.Built) {names : List String}
    (known : ∀ name ∈ names, name ∈ graph.labels) {label : String}
    (eligible : label ∈ (graph.visitOf names).eligible) : label ∈ graph.labels := by
  rw [eligible_visitOf] at eligible
  exact built.mem_labels_of_mem_preorder known (List.mem_filter.mp eligible).1

end Graph

namespace Collection

/-- The entries of a label, if they can be computed. -/
def blockOf (graph : Graph) (toolchain : Toolchain) (label : String) : List Entry :=
  (entriesOf graph toolchain label).toOption.getD []

/-- What is collected from roots with some names. -/
def ofNames (graph : Graph) (toolchain : Toolchain) (names : List String) : Collection :=
  let visit := graph.visitOf names
  ⟨visit, filled visit.eligible visit.eligible (blockOf graph toolchain)⟩

/-- The answer when all of a collection is asked for with some number of workers. -/
def answer (collection : Collection) (workers : Option Int) : Except Failure Collection :=
  if lacksWorkers workers collection.visit.eligible then .error .noWorkers else .ok collection

theorem visited_ofNames (graph : Graph) (toolchain : Toolchain) (names : List String) :
    (ofNames graph toolchain names).visit.visited = graph.preorder [] names :=
  graph.visited_visitOf names

theorem flatten_ofNames (graph : Graph) (toolchain : Toolchain) (names : List String) :
    (ofNames graph toolchain names).aggregation.flatten =
      ((graph.preorder [] names).filter graph.isEligibleLabel).flatMap
        (blockOf graph toolchain) := by
  rw [ofNames, flatten_filled, Graph.eligible_visitOf]

theorem ofNames_congr {graph : Graph} (toolchain : Toolchain) {names others : List String}
    (same : graph.preorder [] names = graph.preorder [] others) :
    ofNames graph toolchain names = ofNames graph toolchain others := by
  rw [ofNames, Graph.visitOf, same, ofNames, Graph.visitOf]

end Collection

namespace Toolchain.HasTextTemplates

variable {toolchain : Toolchain} (texts : toolchain.HasTextTemplates) {graph : Graph}

include texts

theorem exists_entriesOf {label : String} (known : label ∈ graph.labels) :
    ∃ entries, Collection.entriesOf graph toolchain label = .ok entries := by
  obtain ⟨target, found, _⟩ := Graph.exists_find?_of_mem_labels known
  rw [Collection.entriesOf_of_find? found]
  exact texts.exists_targetEntries target

theorem entriesOf_eq_blockOf {label : String} (known : label ∈ graph.labels) :
    Collection.entriesOf graph toolchain label = .ok (Collection.blockOf graph toolchain label) := by
  obtain ⟨entries, computed⟩ := texts.exists_entriesOf known
  rw [Collection.blockOf, computed]
  rfl

theorem collect_eq_answer (built : graph.Built) {roots : List Root} {names : List String}
    (named : List.Forall₂ graph.Names roots names) (workers : Option Int) :
    collect graph roots toolchain workers =
      (Collection.ofNames graph toolchain names).answer workers := by
  have known := Graph.mem_labels_of_names named
  have computed : ∀ label ∈ (graph.visitOf names).eligible,
      Collection.entriesOf graph toolchain label =
        .ok (Collection.blockOf graph toolchain label) := by
    intro label member
    exact texts.entriesOf_eq_blockOf (built.mem_labels_of_mem_eligible known member)
  simp only [collect, collectBy, Graph.rootLabels_of_names named, built.visit_orderedUnique known]
  rw [Collection.ofVisitBy_inTurn_eq_filled graph toolchain _ workers (built.nodup_eligible known) computed]
  rfl

end Toolchain.HasTextTemplates

end CompileCommands
