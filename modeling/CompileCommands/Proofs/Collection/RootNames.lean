import CompileCommands.Collection
import CompileCommands.Proofs.FirstFailure
import CompileCommands.Proofs.Graph.Built

set_option autoImplicit false

/- Roots stand for targets of the graph, by whose labels they are walked; one label may be that of
several roots. -/
namespace CompileCommands.Graph

/-- Whether a root stands for the target with a label. -/
def Names (graph : Graph) (root : Root) (label : String) : Prop :=
  ∃ target, graph.target root.spelling = .ok target ∧ target.label = label

theorem Names.mem_labels {graph : Graph} {root : Root} {label : String}
    (named : graph.Names root label) : label ∈ graph.labels := by
  obtain ⟨target, found, rfl⟩ := named
  exact mem_labels_of_target found

variable {graph : Graph}

theorem exists_names {roots : List Root}
    (resolved : ∀ root ∈ roots, ∃ target, graph.target root.spelling = .ok target) :
    ∃ names, List.Forall₂ graph.Names roots names := by
  induction roots with
  | nil => exact ⟨[], .nil⟩
  | cons root rest ih =>
      obtain ⟨target, found⟩ := resolved root (List.mem_cons_self ..)
      obtain ⟨names, named⟩ := ih fun other member => resolved other (.tail root member)
      exact ⟨target.label :: names, .cons ⟨target, found, rfl⟩ named⟩

theorem mem_labels_of_names {roots : List Root} {names : List String}
    (named : List.Forall₂ graph.Names roots names) : ∀ name ∈ names, name ∈ graph.labels := by
  intro name member
  obtain ⟨root, _, this⟩ := exists_of_mem_forall₂ named member
  exact this.mem_labels

theorem mem_names_of_mem {roots : List Root} {names : List String}
    (named : List.Forall₂ graph.Names roots names) {root : Root} (listed : root ∈ roots)
    {name : String} (this : graph.Names root name) : name ∈ names := by
  induction named with
  | nil => contradiction
  | cons first _ ih =>
      rcases List.mem_cons.mp listed with rfl | listed
      · obtain ⟨target, found, rfl⟩ := this
        obtain ⟨other, same, rfl⟩ := first
        cases found.symm.trans same
        exact List.mem_cons_self ..
      · exact .tail _ (ih listed)

/-- The label of the target that a root stands for. -/
def rootLabel (graph : Graph) (root : Root) : Except Failure String :=
  (graph.target root.spelling).map (·.label)

theorem Names.rootLabel_eq {root : Root} {label : String} (named : graph.Names root label) :
    graph.rootLabel root = .ok label := by
  obtain ⟨target, found, rfl⟩ := named
  rw [rootLabel, found]
  rfl

/-- Labels are added while the roots are looked up, which comes to the same as adding them when all
roots are found. -/
theorem rootLabelsFrom_eq_map (graph : Graph) (kept : List String) (roots : List Root) :
    graph.rootLabelsFrom kept roots =
      (roots.mapM graph.rootLabel).map fun names => names.foldl appendNew kept := by
  induction roots generalizing kept with
  | nil => rfl
  | cons root rest ih =>
      rw [rootLabelsFrom, List.mapM_cons, rootLabel]
      cases graph.target root.spelling with
      | error failure => rfl
      | ok target =>
          simp only [ih]
          cases rest.mapM graph.rootLabel <;> rfl

theorem rootLabels_eq_map (graph : Graph) (roots : List Root) :
    graph.rootLabels roots = (roots.mapM graph.rootLabel).map orderedUnique := by
  rw [rootLabels, rootLabelsFrom_eq_map]
  simp only [foldl_appendNew_nil]

theorem rootLabels_of_names {roots : List Root} {names : List String}
    (named : List.Forall₂ graph.Names roots names) :
    graph.rootLabels roots = .ok (orderedUnique names) := by
  have read : roots.mapM graph.rootLabel = .ok names :=
    mapM_eq_ok_iff.mpr (named.imp fun _ _ => Names.rootLabel_eq)
  rw [rootLabels_eq_map, read]
  rfl

theorem rootLabels_of_failsFirst {roots : List Root} {failure : Failure}
    (fails : FailsFirst (fun root => graph.target root.spelling) roots failure) :
    graph.rootLabels roots = .error failure := by
  have unread : roots.mapM graph.rootLabel = .error failure :=
    (mapM_eq_error_iff roots failure).mpr (fails.map _)
  rw [rootLabels_eq_map, unread]
  rfl

theorem mem_names_iff {roots : List Root} {names : List String}
    (named : List.Forall₂ graph.Names roots names) (label : String) :
    label ∈ names ↔ ∃ root ∈ roots, graph.Names root label := by
  constructor
  · intro member
    exact exists_of_mem_forall₂ named member
  · rintro ⟨root, listed, this⟩
    exact mem_names_of_mem named listed this

theorem exists_rootLabels (graph : Graph) (roots : List Root)
    (resolved : ∀ root ∈ roots, ∃ target, graph.target root.spelling = .ok target) :
    ∃ labels, graph.rootLabels roots = .ok labels ∧
      ∀ label, label ∈ labels ↔ ∃ root ∈ roots, graph.Names root label := by
  obtain ⟨names, named⟩ := exists_names resolved
  refine ⟨_, rootLabels_of_names named, fun label => ?_⟩
  rw [mem_orderedUnique, mem_names_iff named]

end CompileCommands.Graph
