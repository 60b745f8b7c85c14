import CompileCommands.Proofs.Closure.Preorder
import CompileCommands.Proofs.Closure.Reachability
import CompileCommands.Proofs.Collection.Filled
import CompileCommands.Proofs.Collection.RootNames
import CompileCommands.Proofs.Synthesis.TextTemplates

set_option autoImplicit false

/- What is collected from some roots: the entries of every eligible target that they reach, target
after target in the order of the walk, and nothing else. -/
namespace CompileCommands

/-- What a walk from some roots of a graph leaves behind. -/
structure Visit.Covers (graph : Graph) (roots : List String) (visit : Visit) : Prop where
  distinct : visit.visited.Nodup
  known : ∀ label ∈ visit.visited, label ∈ graph.labels
  reached : ∀ label, label ∈ visit.visited ↔ ∃ root ∈ roots, graph.Reaches root label
  eligible : visit.eligible = visit.visited.filter graph.isEligibleLabel
  skipped : visit.skipped = visit.visited.filter (!graph.isEligibleLabel ·)

theorem Graph.Built.exists_visit {graph : Graph} (built : graph.Built) (roots : List String)
    (known : ∀ root ∈ roots, root ∈ graph.labels) :
    ∃ visit, graph.visit roots = .ok visit ∧ visit.Covers graph roots := by
  obtain ⟨last, ended, done, searching⟩ := (Walk.searching_start graph roots known).run built
  have sorted : last.visit = Visit.empty.extend graph (graph.preorder [] roots) :=
    Except.ok.inj (ended.symm.trans (built.visit_eq_extend roots known))
  have reached := searching.mem_visited_iff done
  refine ⟨last.visit, ended, searching.distinct, ?_, reached, ?_, ?_⟩
  · intro label member
    obtain ⟨root, listed, path⟩ := (reached label).mp member
    apply path.mem_of_closed (known root listed)
    intro other here dep edge
    exact built.mem_labels_of_mem_depsOf here edge
  · rw [sorted]
    rfl
  · rw [sorted]
    rfl

namespace Visit.Covers

variable {graph : Graph} {roots : List String} {visit : Visit}

theorem length_eligible_add_length_skipped (covers : visit.Covers graph roots) :
    visit.eligible.length + visit.skipped.length = visit.visited.length := by
  have parts := List.length_eq_countP_add_countP graph.isEligibleLabel (l := visit.visited)
  rw [List.countP_eq_length_filter, List.countP_eq_length_filter] at parts
  rw [parts, covers.eligible, covers.skipped]
  simp

theorem exists_blocks (covers : visit.Covers graph roots) {toolchain : Toolchain}
    (texts : toolchain.HasTextTemplates) :
    ∃ block : String → List Entry, ∀ label ∈ visit.eligible, ∃ target,
      graph.find? label = some target ∧
        Synthesis.targetEntries toolchain target = .ok (block label) := by
  have each : ∀ label, ∃ entries, label ∈ visit.eligible → ∃ target,
      graph.find? label = some target ∧ Synthesis.targetEntries toolchain target = .ok entries := by
    intro label
    by_cases member : label ∈ visit.eligible
    · have met : label ∈ visit.visited := by
        rw [covers.eligible] at member
        exact (List.mem_filter.mp member).1
      obtain ⟨target, found, _⟩ := Graph.exists_find?_of_mem_labels (covers.known label met)
      obtain ⟨entries, synthesized⟩ := texts.exists_targetEntries target
      exact ⟨entries, fun _ => ⟨target, found, synthesized⟩⟩
    · exact ⟨[], fun other => absurd other member⟩
  exact Classical.axiomOfChoice each

end Visit.Covers

/-- The labels of the eligible targets of a collection, in the order of the walk. -/
def Collection.eligible (graph : Graph) (collection : Collection) : List String :=
  collection.visit.visited.filter graph.isEligibleLabel

/-- What a collection from some roots holds when every label has the entries that `block` gives
it: all that the roots reach, and nothing twice. -/
structure Collection.Complete (graph : Graph) (toolchain : Toolchain) (roots : List Root)
    (block : String → List Entry) (collection : Collection) : Prop where
  reached : ∀ label, label ∈ collection.visit.visited ↔
    ∃ root ∈ roots, ∃ start, graph.Names root start ∧ graph.Reaches start label
  distinct : collection.visit.visited.Nodup
  synthesized : ∀ label ∈ collection.eligible graph, ∃ target,
    graph.find? label = some target ∧
      Synthesis.targetEntries toolchain target = .ok (block label)
  flatten : collection.aggregation.flatten = (collection.eligible graph).flatMap block
  entriesFor : ∀ label, collection.aggregation.entriesFor label =
    if label ∈ collection.eligible graph then block label else []
  labels : collection.aggregation.labels = collection.eligible graph
  size : collection.aggregation.size = (collection.eligible graph).length
  computed : collection.aggregation.computed = (collection.eligible graph).length
  skipped : (collection.eligible graph).length + collection.visit.skipped.length =
    collection.visit.visited.length

theorem Visit.Covers.complete {graph : Graph} {labels : List String} {visit : Visit}
    (covers : visit.Covers graph labels) {toolchain : Toolchain} {roots : List Root}
    {block : String → List Entry}
    (named : ∀ label, label ∈ labels ↔ ∃ root ∈ roots, graph.Names root label)
    (blocks : ∀ label ∈ visit.eligible, ∃ target, graph.find? label = some target ∧
      Synthesis.targetEntries toolchain target = .ok (block label)) :
    Collection.Complete graph toolchain roots block
      ⟨visit, Collection.filled visit.eligible visit.eligible block⟩ := by
  have same : Collection.eligible graph
      ⟨visit, Collection.filled visit.eligible visit.eligible block⟩ = visit.eligible :=
    covers.eligible.symm
  refine ⟨?_, covers.distinct, ?_, ?_, ?_, ?_, ?_, ?_, ?_⟩
  · intro label
    simp only [covers.reached, named]
    constructor
    · rintro ⟨start, ⟨root, listed, name⟩, path⟩
      exact ⟨root, listed, start, name, path⟩
    · rintro ⟨root, listed, start, name, path⟩
      exact ⟨start, ⟨root, listed, name⟩, path⟩
  all_goals rw [same]
  · exact blocks
  · exact Collection.flatten_filled
  · exact Collection.entriesFor_filled
  · exact Collection.labels_filled
  · rw [Aggregation.size, Collection.filled, List.length_map]
  · rfl
  · exact covers.length_eligible_add_length_skipped

/-- Whatever roots are found, and however often and on how many ways a target is reached from
them: every eligible target among those reached has its entries in the collection once, at the
place of the target in the walk, and there are no other entries. Only work for several targets that
no worker is there to do is refused. -/
theorem exists_complete_collection (targets : List Target) (workspace : String) (graph : Graph)
    (made : Graph.ofTargets targets workspace = .ok graph) (toolchain : Toolchain)
    (texts : toolchain.HasTextTemplates) (roots : List Root)
    (resolved : ∀ root ∈ roots, ∃ target, graph.target root.spelling = .ok target) :
    ∃ collection block, collection.Complete graph toolchain roots block ∧
      ∀ workers, collect graph roots toolchain workers =
        if Collection.lacksWorkers workers (collection.eligible graph) then .error .noWorkers
        else .ok collection := by
  have built := Graph.built_of_ofTargets made
  obtain ⟨labels, read, named⟩ := graph.exists_rootLabels roots resolved
  have known : ∀ label ∈ labels, label ∈ graph.labels := by
    intro label member
    obtain ⟨root, _, name⟩ := (named label).mp member
    exact name.mem_labels
  obtain ⟨visit, walked, covers⟩ := built.exists_visit labels known
  obtain ⟨block, blocks⟩ := covers.exists_blocks texts
  refine ⟨_, block, covers.complete named blocks, fun workers => ?_⟩
  have distinct : visit.eligible.Nodup := by
    rw [covers.eligible]
    exact covers.distinct.filter _
  have computed : ∀ label ∈ visit.eligible,
      Collection.entriesOf graph toolchain label = .ok (block label) := by
    intro label member
    obtain ⟨target, found, synthesized⟩ := blocks label member
    rw [Collection.entriesOf_of_find? found, synthesized]
  simp only [collect, collectBy, read, walked]
  rw [Collection.ofVisitBy_inTurn_eq_filled graph toolchain visit workers distinct computed,
    Collection.eligible, covers.eligible]

/-- A toolchain that has a tool for one of the two compile actions. -/
def Toolchain.single : Toolchain where
  tools := [(cxxCompileAction, "c++")]
  defaultActions := compileActions
  features := [Feature.compilerInput]
  templates := FlagTemplates.default
  copts := []
  cxxopts := []

theorem exists_complete_collection_sharing :
    (∃ target, sharing.target "//app" = .ok target) ∧
    ∃ collection block,
      collection.Complete sharing Toolchain.single [.spelled "//app"] block ∧
        collect sharing [.spelled "//app"] Toolchain.single none = .ok collection := by
  have resolved : sharing.target "//app" = .ok
      (.single "//app:app" "cc_binary" "" ["//gen:gen", "@ext//:ext", "//base:base"]) := rfl
  have all : ∀ root ∈ [Root.spelled "//app"],
      ∃ target, sharing.target root.spelling = .ok target := by
    intro root listed
    rw [List.mem_singleton.mp listed]
    exact ⟨_, resolved⟩
  obtain ⟨collection, block, complete, collected⟩ :=
    exists_complete_collection sharing.targets "" sharing ofTargets_sharing Toolchain.single
      (hasTextTemplates_default _ rfl) _ all
  exact ⟨⟨_, resolved⟩, collection, block, complete, collected none⟩

end CompileCommands
