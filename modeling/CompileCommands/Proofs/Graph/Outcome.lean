import CompileCommands.Proofs.Graph.Built

set_option autoImplicit false

/- When targets make a graph, and what is reported when they do not: labels that repeat come before
dependencies that are no targets, and these before cycles. -/
namespace CompileCommands.Graph

/-- Whether a target with the one label lists the other one among its dependencies. -/
def Depends (graph : Graph) (label dep : String) : Prop :=
  ∃ target ∈ graph.targets, target.label = label ∧ dep ∈ target.deps

/-- Whether some label depends on itself, through any number of others. -/
def HasCycle (graph : Graph) : Prop := ∃ label, Relation.TransGen graph.Depends label label

/-- Every dependency is the label of a target. -/
def Closed (graph : Graph) : Prop :=
  ∀ target ∈ graph.targets, ∀ dep ∈ target.deps, dep ∈ graph.labels

/-- The label of the first target that has its label in common with one before it. -/
def RepeatsFirst (graph : Graph) (label : String) : Prop :=
  ∃ before target after, graph.targets = before ++ target :: after ∧ target.label = label ∧
    (before.map (·.label)).Nodup ∧ label ∈ before.map (·.label)

/-- The label of the first target that has a dependency which is no target, and the first such
dependency it has. -/
def DanglesFirst (graph : Graph) (label dep : String) : Prop :=
  ∃ before target after, graph.targets = before ++ target :: after ∧ target.label = label ∧
    (∀ earlier ∈ before, ∀ other ∈ earlier.deps, other ∈ graph.labels) ∧
    ∃ listed rest, target.deps = listed ++ dep :: rest ∧
      (∀ other ∈ listed, other ∈ graph.labels) ∧ dep ∉ graph.labels

instance (graph : Graph) (label dep : String) : Decidable (graph.Depends label dep) :=
  inferInstanceAs (Decidable (∃ target ∈ graph.targets, target.label = label ∧ dep ∈ target.deps))

instance (graph : Graph) : Decidable graph.Closed :=
  inferInstanceAs (Decidable (∀ target ∈ graph.targets, ∀ dep ∈ target.deps, dep ∈ graph.labels))

theorem depends_dependencyTable {graph : Graph} (distinct : graph.labels.Nodup) :
    graph.dependencyTable.Depends = graph.Depends := by
  have unique : (Table.keys graph.dependencyTable).Nodup := by
    rwa [Table.keys, dependencyTable, List.map_map]
  funext label dep
  refine propext ⟨?_, ?_⟩
  · intro edge
    obtain ⟨deps, member, listed⟩ := Dependencies.exists_entry_of_depends edge
    obtain ⟨target, declared, same⟩ := List.mem_map.mp member
    cases same
    exact ⟨target, declared, rfl, listed⟩
  · rintro ⟨target, declared, rfl, listed⟩
    have member : (target.label, target.deps) ∈ graph.dependencyTable :=
      List.mem_map_of_mem declared
    exact (Dependencies.depends_iff_of_mem unique member).mpr listed

theorem hasCycle_dependencyTable_iff {graph : Graph} (distinct : graph.labels.Nodup) :
    graph.dependencyTable.HasCycle ↔ graph.HasCycle := by
  rw [Dependencies.HasCycle, HasCycle, depends_dependencyTable distinct]

theorem isAcyclic_iff_not_hasCycle {graph : Graph} (distinct : graph.labels.Nodup)
    (closed : graph.Closed) : graph.dependencyTable.isAcyclic = true ↔ ¬ graph.HasCycle := by
  have keys : Table.keys graph.dependencyTable = graph.labels := by
    rw [Table.keys, dependencyTable, List.map_map]
    rfl
  rw [← hasCycle_dependencyTable_iff distinct]
  apply Dependencies.isAcyclic_iff
  · rwa [keys]
  · intro dep member
    rw [keys]
    obtain ⟨entry, listed, inside⟩ := List.mem_flatMap.mp member
    obtain ⟨target, declared, rfl⟩ := List.mem_map.mp listed
    exact closed target declared dep inside

theorem firstRepeated_eq_some_iff (seen labels : List String) (label : String) :
    firstRepeated seen labels = some label ↔
      ∃ before after, labels = before ++ label :: after ∧ before.Nodup ∧
        (∀ other ∈ before, other ∉ seen) ∧ (label ∈ seen ∨ label ∈ before) := by
  induction labels generalizing seen with
  | nil => simp [firstRepeated]
  | cons first rest ih =>
      rw [firstRepeated]
      by_cases old : first ∈ seen
      · rw [if_pos old]
        constructor
        · rintro ⟨⟩
          exact ⟨[], rest, rfl, by simp, by simp, .inl old⟩
        · rintro ⟨before, after, split, _, apart, _⟩
          cases before with
          | nil => cases split; rfl
          | cons other before =>
              cases split
              exact absurd old (apart first (List.mem_cons_self ..))
      · rw [if_neg old, ih]
        constructor
        · rintro ⟨before, after, rfl, distinct, apart, again⟩
          refine ⟨first :: before, after, rfl, ?_, ?_, ?_⟩
          · refine List.nodup_cons.mpr ⟨fun later => ?_, distinct⟩
            exact apart first later (List.mem_cons_self ..)
          · intro other member
            rcases List.mem_cons.mp member with rfl | member
            · exact old
            · exact fun known => apart other member (List.mem_cons_of_mem first known)
          · simp only [List.mem_cons] at again ⊢
            tauto
        · rintro ⟨before, after, split, distinct, apart, again⟩
          cases before with
          | nil =>
              cases split
              exact absurd (again.resolve_right List.not_mem_nil) old
          | cons other before =>
              cases split
              obtain ⟨new, distinct⟩ := List.nodup_cons.mp distinct
              refine ⟨before, after, rfl, distinct, ?_, ?_⟩
              · intro other member known
                rcases List.mem_cons.mp known with rfl | known
                · exact new member
                · exact apart other (List.mem_cons_of_mem first member) known
              · simp only [List.mem_cons] at again ⊢
                tauto

theorem firstRepeated_labels_iff (graph : Graph) (label : String) :
    firstRepeated [] graph.labels = some label ↔ graph.RepeatsFirst label := by
  rw [firstRepeated_eq_some_iff]
  constructor
  · rintro ⟨before, after, split, distinct, _, again⟩
    obtain ⟨first, rest, targets, rfl, others⟩ := List.map_eq_append_iff.mp split
    obtain ⟨target, last, rfl, rfl, rfl⟩ := List.map_eq_cons_iff.mp others
    exact ⟨first, target, last, targets, rfl, distinct, again.resolve_left List.not_mem_nil⟩
  · rintro ⟨before, target, after, targets, rfl, distinct, again⟩
    refine ⟨before.map (·.label), after.map (·.label), ?_, distinct, by simp, .inr again⟩
    rw [labels, targets, List.map_append, List.map_cons]

/-- A target has no edge out of the graph, or there is a first one. -/
theorem find?_dangling_eq_none_iff (graph : Graph) (target : Target) :
    (target.deps.map fun dep => (⟨target.label, dep⟩ : Edge)).find?
        (fun edge => !graph.contains edge.head) = none ↔
      ∀ dep ∈ target.deps, dep ∈ graph.labels := by
  simp [contains]

theorem find?_dangling_eq_some_iff (graph : Graph) (target : Target) (label dep : String) :
    (target.deps.map fun dep => (⟨target.label, dep⟩ : Edge)).find?
        (fun edge => !graph.contains edge.head) = some ⟨label, dep⟩ ↔
      target.label = label ∧ ∃ listed rest, target.deps = listed ++ dep :: rest ∧
        (∀ other ∈ listed, other ∈ graph.labels) ∧ dep ∉ graph.labels := by
  rw [List.find?_map, Option.map_eq_some_iff]
  constructor
  · rintro ⟨found, first, same⟩
    cases same
    obtain ⟨outside, listed, rest, split, inside⟩ := List.find?_eq_some_iff_append.mp first
    refine ⟨rfl, listed, rest, split, ?_, ?_⟩
    · simpa [contains] using inside
    · simpa [contains] using outside
  · rintro ⟨rfl, listed, rest, split, inside, outside⟩
    refine ⟨dep, List.find?_eq_some_iff_append.mpr ⟨?_, listed, rest, split, ?_⟩, rfl⟩
    · simpa [contains] using outside
    · simpa [contains] using inside

theorem firstDangling_eq_some_iff (graph : Graph) (label dep : String) :
    graph.firstDangling = some ⟨label, dep⟩ ↔ graph.DanglesFirst label dep := by
  rw [firstDangling, edges, List.find?_flatMap, List.findSome?_eq_some_iff]
  simp only [find?_dangling_eq_some_iff, find?_dangling_eq_none_iff]
  constructor
  · rintro ⟨before, target, after, split, ⟨named, listed⟩, earlier⟩
    exact ⟨before, target, after, split, named, earlier, listed⟩
  · rintro ⟨before, target, after, split, named, earlier, listed⟩
    exact ⟨before, target, after, split, ⟨named, listed⟩, earlier⟩

theorem firstRepeated_labels_eq_none_iff (graph : Graph) :
    firstRepeated [] graph.labels = none ↔ graph.labels.Nodup := by
  simp [firstRepeated_eq_none_iff]

section

variable (targets : List Target) (workspace : String)

theorem ofTargets_eq_duplicate_iff (label : String) :
    ofTargets targets workspace = .error (.graph (.duplicate label)) ↔
      RepeatsFirst ⟨workspace, targets⟩ label := by
  rw [← firstRepeated_labels_iff, ofTargets]
  cases firstRepeated [] (labels ⟨workspace, targets⟩) with
  | some first => simp
  | none =>
      cases firstDangling ⟨workspace, targets⟩ with
      | some edge => simp
      | none => cases (dependencyTable ⟨workspace, targets⟩).isAcyclic <;> simp

theorem ofTargets_eq_unknownDependency_iff (label dep : String) :
    ofTargets targets workspace = .error (.graph (.unknownDependency label dep)) ↔
      (labels ⟨workspace, targets⟩).Nodup ∧ DanglesFirst ⟨workspace, targets⟩ label dep := by
  rw [← firstDangling_eq_some_iff, ← firstRepeated_labels_eq_none_iff, ofTargets]
  cases firstRepeated [] (labels ⟨workspace, targets⟩) with
  | some first => simp
  | none =>
      cases firstDangling ⟨workspace, targets⟩ with
      | some edge =>
          obtain ⟨tail, head⟩ := edge
          simp
      | none => cases (dependencyTable ⟨workspace, targets⟩).isAcyclic <;> simp

theorem exists_ofTargets_eq_cycle_iff :
    (∃ cycle, ofTargets targets workspace = .error (.graph (.cycle cycle))) ↔
      (labels ⟨workspace, targets⟩).Nodup ∧ Closed ⟨workspace, targets⟩ ∧
        HasCycle ⟨workspace, targets⟩ := by
  rw [← firstRepeated_labels_eq_none_iff, Closed, ← firstDangling_eq_none_iff, ofTargets]
  cases distinct : firstRepeated [] (labels ⟨workspace, targets⟩) with
  | some first => simp
  | none =>
      cases closed : firstDangling ⟨workspace, targets⟩ with
      | some edge => simp
      | none =>
          have decided := isAcyclic_iff_not_hasCycle
            ((firstRepeated_labels_eq_none_iff _).mp distinct)
            ((firstDangling_eq_none_iff _).mp closed)
          rw [← not_not (a := HasCycle ⟨workspace, targets⟩), ← decided]
          cases (dependencyTable ⟨workspace, targets⟩).isAcyclic <;> simp

theorem ofTargets_eq_ok_iff_not_hasCycle (graph : Graph) :
    ofTargets targets workspace = .ok graph ↔
      graph = ⟨workspace, targets⟩ ∧ graph.labels.Nodup ∧ graph.Closed ∧ ¬ graph.HasCycle := by
  rw [ofTargets_eq_ok_iff]
  refine and_congr_right fun _ => ⟨fun built => ?_, fun ⟨distinct, closed, acyclic⟩ => ?_⟩
  · exact ⟨built.distinct, built.closed,
      (isAcyclic_iff_not_hasCycle built.distinct built.closed).mp built.acyclic⟩
  · exact ⟨distinct, closed, (isAcyclic_iff_not_hasCycle distinct closed).mpr acyclic⟩

/-- Making a graph fails with nothing but the three faults of graphs. -/
theorem exists_graphFault_of_ofTargets_eq_error {failure : Failure}
    (failed : ofTargets targets workspace = .error failure) :
    ∃ fault : GraphFault, failure = .graph fault := by
  simp only [ofTargets] at failed
  split at failed
  · cases failed; exact ⟨_, rfl⟩
  · split at failed
    · cases failed; exact ⟨_, rfl⟩
    · split at failed
      · contradiction
      · cases failed; exact ⟨_, rfl⟩

end

theorem mem_edges_iff (graph : Graph) (label dep : String) :
    (⟨label, dep⟩ : Edge) ∈ graph.edges ↔ graph.Depends label dep := by
  rw [edges, Depends, List.mem_flatMap]
  refine exists_congr fun target => and_congr_right fun _ => ?_
  simp [and_comm]

theorem dependencies_of_mem_targets {graph : Graph} (distinct : graph.labels.Nodup)
    {target : Target} (declared : target ∈ graph.targets) :
    graph.dependencies target.label = .ok target.deps := by
  obtain ⟨other, found, named⟩ := exists_find?_of_mem_labels (List.mem_map_of_mem declared)
  have same : other = target :=
    List.inj_on_of_nodup_map distinct (mem_targets_of_find? found) declared named
  rw [dependencies, target_of_find? found, same]
  rfl

/-- A graph is made exactly of targets with distinct labels that depend on each other only, without
a cycle. What is wrong with others is reported in that order, and of several repeated labels or
dependencies that are no targets the first one is named. -/
theorem ofTargets_outcome (targets : List Target) (workspace : String) :
    let graph : Graph := ⟨workspace, targets⟩
    ((∃ made, ofTargets targets workspace = .ok made) ↔
      graph.labels.Nodup ∧ graph.Closed ∧ ¬ graph.HasCycle) ∧
    (∀ made, ofTargets targets workspace = .ok made →
      made.labels = targets.map (·.label) ∧
      (∀ label dep, (⟨label, dep⟩ : Edge) ∈ made.edges ↔
        ∃ target ∈ targets, target.label = label ∧ dep ∈ target.deps) ∧
      ∀ target ∈ targets, made.dependencies target.label = .ok target.deps) ∧
    (∀ label, ofTargets targets workspace = .error (.graph (.duplicate label)) ↔
      graph.RepeatsFirst label) ∧
    (∀ label dep, ofTargets targets workspace = .error (.graph (.unknownDependency label dep)) ↔
      graph.labels.Nodup ∧ graph.DanglesFirst label dep) ∧
    ((∃ cycle, ofTargets targets workspace = .error (.graph (.cycle cycle))) ↔
      graph.labels.Nodup ∧ graph.Closed ∧ graph.HasCycle) ∧
    ∀ failure, ofTargets targets workspace = .error failure →
      ∃ fault : GraphFault, failure = .graph fault := by
  intro graph
  have accepted := ofTargets_eq_ok_iff_not_hasCycle targets workspace
  refine ⟨?_, ?_, ofTargets_eq_duplicate_iff targets workspace,
    ofTargets_eq_unknownDependency_iff targets workspace,
    exists_ofTargets_eq_cycle_iff targets workspace,
    fun failure => exists_graphFault_of_ofTargets_eq_error targets workspace⟩
  · constructor
    · rintro ⟨made, success⟩
      obtain ⟨rfl, sound⟩ := (accepted made).mp success
      exact sound
    · exact fun sound => ⟨graph, (accepted graph).mpr ⟨rfl, sound⟩⟩
  · intro made success
    obtain ⟨rfl, distinct, _⟩ := (accepted made).mp success
    exact ⟨rfl, mem_edges_iff graph, fun target => dependencies_of_mem_targets distinct⟩

end CompileCommands.Graph
