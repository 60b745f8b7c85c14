import CompileCommands.Proofs.Collection.Answer

set_option autoImplicit false

/- Collecting from roots and further roots: what the first ones give comes first, and of what the
further ones give all that is not there yet follows, in its order. -/
namespace CompileCommands

namespace Graph

variable {graph : Graph}

theorem Built.preorder_append_eq (built : graph.Built) {names : List String}
    (known : ∀ name ∈ names, name ∈ graph.labels) (others : List String) :
    graph.preorder [] (names ++ others) =
      graph.preorder [] names ++
        (graph.preorder [] others).filter (· ∉ graph.preorder [] names) := by
  have parts : ∀ label, label ∈ (graph.preorder [] names).reverse ++ [] ↔
      label ∈ graph.preorder [] names ∨ label ∈ ([] : List String) := by
    intro label
    rw [List.mem_append, List.mem_reverse]
  have later := preorder_eq_filter (built.encloses_preorder known) [] others _ parts
  rw [preorder_append, later]

/-- Names that are met from others already add nothing. -/
theorem Built.preorder_append_of_mem (built : graph.Built) {names others : List String}
    (known : ∀ name ∈ names, name ∈ graph.labels)
    (met : ∀ name ∈ others, name ∈ graph.preorder [] names) :
    graph.preorder [] (names ++ others) = graph.preorder [] names := by
  have nothing : (graph.preorder [] others).filter (· ∉ graph.preorder [] names) = [] := by
    apply List.filter_eq_nil_iff.mpr
    intro label later
    have here := mem_of_mem_preorder (built.encloses_preorder known) met label later
    simpa using here
  rw [built.preorder_append_eq known, nothing, List.append_nil]

end Graph

/-- What is collected from roots and further roots is what the first ones give, followed by what the
further ones give apart from that: the labels visited, and the entries of the eligible ones. Further
roots that are reached from the first ones already change nothing. -/
theorem collect_append (targets : List Target) (workspace : String) (graph : Graph)
    (made : Graph.ofTargets targets workspace = .ok graph) (toolchain : Toolchain)
    (texts : toolchain.HasTextTemplates) (roots others : List Root)
    (resolved : ∀ root ∈ roots ++ others, ∃ target, graph.target root.spelling = .ok target) :
    ∃ first second both : Collection,
      (∀ workers, collect graph roots toolchain workers = first.answer workers) ∧
      (∀ workers, collect graph others toolchain workers = second.answer workers) ∧
      (∀ workers, collect graph (roots ++ others) toolchain workers = both.answer workers) ∧
      let remaining := second.visit.visited.filter (· ∉ first.visit.visited)
      both.visit.visited = first.visit.visited ++ remaining ∧
      (∃ blocks, (remaining.filter graph.isEligibleLabel).mapM
          (Collection.entriesOf graph toolchain) = .ok blocks ∧
        both.aggregation.flatten = first.aggregation.flatten ++ blocks.flatten) ∧
      ((∀ other ∈ others, ∀ label, graph.Names other label →
          ∃ root ∈ roots, ∃ start, graph.Names root start ∧ graph.Reaches start label) →
        both = first) := by
  have built := Graph.built_of_ofTargets made
  obtain ⟨names, named⟩ := Graph.exists_names fun root member =>
    resolved root (List.mem_append_left others member)
  obtain ⟨more, further⟩ := Graph.exists_names fun root member =>
    resolved root (List.mem_append_right roots member)
  have together : List.Forall₂ graph.Names (roots ++ others) (names ++ more) :=
    List.rel_append named further
  have known := Graph.mem_labels_of_names named
  have visited := built.preorder_append_eq known more
  refine ⟨.ofNames graph toolchain names, .ofNames graph toolchain more,
    .ofNames graph toolchain (names ++ more), texts.collect_eq_answer built named,
    texts.collect_eq_answer built further, texts.collect_eq_answer built together, ?_⟩
  simp only [Collection.visited_ofNames]
  refine ⟨visited, ?_, ?_⟩
  · have inside : ∀ label ∈ ((graph.preorder [] more).filter
        (· ∉ graph.preorder [] names)).filter graph.isEligibleLabel, label ∈ graph.labels := by
      intro label member
      have met := (List.mem_filter.mp (List.mem_filter.mp member).1).1
      exact built.mem_labels_of_mem_preorder (Graph.mem_labels_of_names further) met
    refine ⟨_, mapM_eq_ok_map _ _ _ fun label member =>
      texts.entriesOf_eq_blockOf (inside label member), ?_⟩
    rw [Collection.flatten_ofNames, Collection.flatten_ofNames, visited, List.filter_append,
      List.flatMap_append, ← List.flatMap_def]
  · intro reached
    apply Collection.ofNames_congr
    apply built.preorder_append_of_mem known
    intro name member
    obtain ⟨other, listed, this⟩ := exists_of_mem_forall₂ further member
    obtain ⟨root, origin, start, here, path⟩ := reached other listed name this
    exact (built.mem_preorder_iff known name).mpr
      ⟨start, Graph.mem_names_of_mem named origin here, path⟩

theorem collect_append_sharing :
    (∀ root ∈ [Root.spelled "//gen"] ++ [.spelled "//app", .spelled "//base"],
      ∃ target, sharing.target root.spelling = .ok target) ∧
    ∃ first both : Collection,
      collect sharing [.spelled "//gen"] Toolchain.single none = .ok first ∧
      collect sharing [.spelled "//gen", .spelled "//app", .spelled "//base"] Toolchain.single none =
        .ok both ∧
      first.visit.visited = ["//gen:gen", "//base:base"] ∧
      both.visit.visited = ["//gen:gen", "//base:base", "//app:app", "@ext//:ext"] := by
  have texts := hasTextTemplates_default Toolchain.single rfl
  have built := Graph.built_of_ofTargets ofTargets_sharing
  have gen : sharing.Names (.spelled "//gen") "//gen:gen" := ⟨_, rfl, rfl⟩
  have app : sharing.Names (.spelled "//app") "//app:app" := ⟨_, rfl, rfl⟩
  have base : sharing.Names (.spelled "//base") "//base:base" := ⟨_, rfl, rfl⟩
  have resolved : ∀ root ∈ [Root.spelled "//gen"] ++ [.spelled "//app", .spelled "//base"],
      ∃ target, sharing.target root.spelling = .ok target := by
    intro root listed
    simp only [List.cons_append, List.nil_append, List.mem_cons, List.not_mem_nil, or_false] at listed
    rcases listed with rfl | rfl | rfl
    all_goals exact ⟨_, rfl⟩
  obtain ⟨first, second, both, one, two, all, visited, _⟩ :=
    collect_append sharing.targets "" sharing ofTargets_sharing Toolchain.single texts _ _ resolved
  have below : sharing.preorder [] ["//gen:gen"] = ["//gen:gen", "//base:base"] := by cbv
  have rest : sharing.preorder [] ["//app:app", "//base:base"] =
      ["//app:app", "//gen:gen", "//base:base", "@ext//:ext"] := by cbv
  have here := (one none).symm.trans (texts.collect_eq_answer built (.cons gen .nil) none)
  have there := (two none).symm.trans
    (texts.collect_eq_answer built (.cons app (.cons base .nil)) none)
  cases here
  cases there
  rw [Collection.visited_ofNames, Collection.visited_ofNames, below, rest] at visited
  have start : (Collection.ofNames sharing Toolchain.single ["//gen:gen"]).visit.visited =
      ["//gen:gen", "//base:base"] := by
    rw [Collection.visited_ofNames, below]
  exact ⟨resolved, _, both, one none, all none, start, visited.trans (by decide)⟩

end CompileCommands
