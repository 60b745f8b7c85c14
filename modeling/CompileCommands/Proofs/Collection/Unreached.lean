import CompileCommands.Proofs.Collection.Answer
import CompileCommands.Proofs.Graph.CanonicalLabels
import CompileCommands.Proofs.Graph.Outcome

set_option autoImplicit false

/- Targets that no root leads to make no difference to what is collected, nor does the order in which
the targets are declared. Two graphs that hold the same targets where the walk through one of them
comes are walked alike. -/
namespace CompileCommands

namespace Graph

/-- Whether some root leads to a label. -/
def ReachedFrom (graph : Graph) (roots : List Root) (label : String) : Prop :=
  ∃ root ∈ roots, ∃ start, graph.Names root start ∧ graph.Reaches start label

theorem Built.mem_labels_of_reachedFrom {graph : Graph} (built : graph.Built) {roots : List Root}
    {label : String} (reached : graph.ReachedFrom roots label) : label ∈ graph.labels := by
  obtain ⟨root, _, start, named, path⟩ := reached
  exact path.mem_of_closed named.mem_labels built.encloses_labels

/-- Whether two graphs of one workspace hold the same targets under some labels. -/
structure Agrees (graph other : Graph) (labels : List String) : Prop where
  workspace : other.workspace = graph.workspace
  find? : ∀ label ∈ labels, other.find? label = graph.find? label

section

variable {graph other : Graph} {labels : List String} (agrees : graph.Agrees other labels)

include agrees

theorem Agrees.depsOf {label : String} (member : label ∈ labels) :
    other.depsOf label = graph.depsOf label := by
  rw [Graph.depsOf, agrees.find? label member, Graph.depsOf]

theorem Agrees.isEligibleLabel {label : String} (member : label ∈ labels) :
    other.isEligibleLabel label = graph.isEligibleLabel label := by
  have external : other.isExternal = graph.isExternal := by
    funext target
    rw [isExternal, isExternal, agrees.workspace]
  have eligible : other.isEligible = graph.isEligible := by
    funext target
    rw [isEligible, isEligible, external]
  rw [Graph.isEligibleLabel, Graph.isEligibleLabel, agrees.find? label member, eligible]

/-- The walks go in lockstep: from labels under which the graphs agree they go on to such labels. -/
theorem Agrees.preorder (closed : graph.Encloses labels) (seen start : List String) :
    (∀ label ∈ start, label ∈ labels) →
      other.preorder seen start = graph.preorder seen start := by
  fun_induction graph.preorder seen start with
  | case1 seen => simp
  | case2 seen label rest old ih =>
      intro within
      rw [preorder_of_seen other old]
      exact ih fun one member => within one (.tail label member)
  | case3 seen label rest fresh below inner outer =>
      intro within
      have here := within label (List.mem_cons_self ..)
      have first : other.preorder (label :: seen) (graph.depsOf label) = below :=
        inner (closed label here)
      have later := outer fun one member => within one (.tail label member)
      rw [preorder_of_fresh other fresh, agrees.depsOf here, first, later]

theorem Agrees.entriesOf {label : String} (member : label ∈ labels) (known : label ∈ graph.labels)
    (toolchain : Toolchain) :
    Collection.entriesOf other toolchain label = Collection.entriesOf graph toolchain label := by
  obtain ⟨target, found, _⟩ := exists_find?_of_mem_labels known
  have same := (agrees.find? label member).trans found
  rw [Collection.entriesOf_of_find? same, Collection.entriesOf_of_find? found]

end

section

variable {graph other : Graph} {names : List String}
  (agrees : graph.Agrees other (graph.preorder [] names)) (built : graph.Built)
  (known : ∀ name ∈ names, name ∈ graph.labels)

include agrees built known

theorem Agrees.visitOf : other.visitOf names = graph.visitOf names := by
  have started : ∀ name ∈ names, name ∈ graph.preorder [] names := by
    intro name member
    exact (built.mem_preorder_iff known name).mpr ⟨name, member, .refl⟩
  have order := agrees.preorder (built.encloses_preorder known) [] names started
  have eligible : (graph.preorder [] names).filter other.isEligibleLabel =
      (graph.preorder [] names).filter graph.isEligibleLabel := by
    apply List.filter_congr
    intro label met
    exact agrees.isEligibleLabel met
  have skipped : (graph.preorder [] names).filter (!other.isEligibleLabel ·) =
      (graph.preorder [] names).filter (!graph.isEligibleLabel ·) := by
    apply List.filter_congr
    intro label met
    rw [agrees.isEligibleLabel met]
  rw [Graph.visitOf, order, Visit.extend, eligible, skipped, Graph.visitOf, Visit.extend]

theorem Agrees.ofNames (toolchain : Toolchain) :
    Collection.ofNames other toolchain names = Collection.ofNames graph toolchain names := by
  have blocks : ∀ label ∈ (graph.visitOf names).eligible,
      Collection.blockOf other toolchain label = Collection.blockOf graph toolchain label := by
    intro label eligible
    have here := built.mem_labels_of_mem_eligible known eligible
    rw [eligible_visitOf] at eligible
    have met := (List.mem_filter.mp eligible).1
    rw [Collection.blockOf, agrees.entriesOf met here, Collection.blockOf]
  rw [Collection.ofNames, agrees.visitOf built known, Collection.ofNames,
    Collection.filled_congr blocks]

end

/-! Roots stand for the same targets in both graphs. -/

/-- If a label is not found as a root spells it, it is not found so among canonical labels that
include the canonical spelling of that one. -/
theorem Names.of_find? {graph other : Graph} {root : Root} {label : String}
    (named : graph.Names root label) (canonical : ∀ target ∈ other.targets, target.HasCanonicalLabel)
    (same : other.find? label = graph.find? label) : other.Names root label := by
  obtain ⟨target, found, rfl⟩ := named
  refine ⟨target, ?_, rfl⟩
  rcases target_cases found with here | ⟨absent, spelling, spelled, here⟩
  · rw [label_of_find? here, here] at same
    exact target_of_find? same
  · rw [label_of_find? here, here] at same
    have nowhere : other.find? root.spelling = none := by
      cases raw : other.find? root.spelling with
      | none => rfl
      | some one =>
          have own := canonical one (mem_targets_of_find? raw)
          rw [Target.HasCanonicalLabel, label_of_find? raw] at own
          cases spelled.symm.trans own
          rw [absent] at here
          contradiction
    exact target_of_canonicalize nowhere spelled same

theorem forall₂_names_of_forall {graph other : Graph} {roots : List Root} {names : List String}
    (named : List.Forall₂ graph.Names roots names)
    (each : ∀ root ∈ roots, ∀ name, graph.Names root name → other.Names root name) :
    List.Forall₂ other.Names roots names := by
  have placed := (List.forall₂_and_left roots names).mpr ⟨fun _ listed => listed, named⟩
  exact placed.imp fun root name this => each root this.1 name this.2

theorem names_of_same_reached {graph other : Graph} {roots : List Root}
    (canonical : ∀ target ∈ other.targets, target.HasCanonicalLabel)
    (same : ∀ label, graph.ReachedFrom roots label → other.find? label = graph.find? label) :
    ∀ root ∈ roots, ∀ name, graph.Names root name → other.Names root name := by
  intro root listed name this
  exact this.of_find? canonical (same name ⟨root, listed, name, this, .refl⟩)

/-! Targets in another order. -/

theorem labels_perm {targets others : List Target} (same : others.Perm targets) (workspace : String) :
    (labels ⟨workspace, others⟩).Perm (labels ⟨workspace, targets⟩) :=
  same.map Target.label

theorem find?_of_perm {workspace : String} {targets others : List Target}
    (built : Built ⟨workspace, targets⟩) (same : others.Perm targets) (label : String) :
    find? ⟨workspace, others⟩ label = find? ⟨workspace, targets⟩ label := by
  have distinct := (labels_perm same workspace).nodup_iff.mpr built.distinct
  apply Option.ext
  intro target
  rw [find?_eq_some_iff distinct, find?_eq_some_iff built.distinct]
  exact and_congr_left' same.mem_iff

theorem Built.of_perm {workspace : String} {targets others : List Target}
    (built : Built ⟨workspace, targets⟩) (same : others.Perm targets) :
    Built ⟨workspace, others⟩ := by
  have labels := labels_perm same workspace
  have distinct := labels.nodup_iff.mpr built.distinct
  have closed : Closed ⟨workspace, others⟩ := by
    intro target declared dep listed
    exact labels.mem_iff.mpr (built.closed target (same.mem_iff.mp declared) dep listed)
  have depends : Depends ⟨workspace, others⟩ = Depends ⟨workspace, targets⟩ := by
    funext label dep
    simp only [Depends, same.mem_iff]
  refine ⟨distinct, closed, ?_⟩
  rw [isAcyclic_iff_not_hasCycle distinct closed, HasCycle, depends]
  exact (isAcyclic_iff_not_hasCycle built.distinct built.closed).mp built.acyclic

end Graph

theorem Toolchain.HasTextTemplates.collect_eq_of_find? {toolchain : Toolchain}
    (texts : toolchain.HasTextTemplates) {graph other : Graph} (built : graph.Built)
    (alike : other.Built) (workspace : other.workspace = graph.workspace) {roots : List Root}
    {names : List String} (named : List.Forall₂ graph.Names roots names)
    (resolved : ∀ root ∈ roots, ∀ name, graph.Names root name → other.Names root name)
    (same : ∀ label, graph.ReachedFrom roots label → other.find? label = graph.find? label)
    (workers : Option Int) :
    collect other roots toolchain workers =
      (Collection.ofNames graph toolchain names).answer workers := by
  have known := Graph.mem_labels_of_names named
  have agrees : graph.Agrees other (graph.preorder [] names) := by
    refine ⟨workspace, fun label met => ?_⟩
    obtain ⟨name, member, path⟩ := (built.mem_preorder_iff known label).mp met
    obtain ⟨root, listed, this⟩ := exists_of_mem_forall₂ named member
    exact same label ⟨root, listed, name, this, path⟩
  have others := Graph.forall₂_names_of_forall named resolved
  rw [texts.collect_eq_answer alike others, agrees.ofNames built known]

/-- What is collected from some roots hangs on the targets alone that they reach. Another graph of
the same workspace that holds these targets gives the same collection, whatever else it holds and in
whatever order; it has to spell its labels as they are spelled when targets are read. -/
theorem collect_eq_of_same_reached (targets : List Target) (workspace : String) (graph : Graph)
    (made : Graph.ofTargets targets workspace = .ok graph) (toolchain : Toolchain)
    (texts : toolchain.HasTextTemplates) (roots : List Root)
    (resolved : ∀ root ∈ roots, ∃ target, graph.target root.spelling = .ok target) :
    ∃ collection : Collection,
      (∀ workers, collect graph roots toolchain workers = collection.answer workers) ∧
      (∀ others other, Graph.ofTargets others workspace = .ok other →
        (∀ target ∈ others, target.HasCanonicalLabel) →
        (∀ label, graph.ReachedFrom roots label → other.find? label = graph.find? label) →
        ∀ workers, collect other roots toolchain workers = collection.answer workers) ∧
      (∀ others, others.Perm targets → ∃ other, Graph.ofTargets others workspace = .ok other ∧
        ∀ workers, collect other roots toolchain workers = collection.answer workers) ∧
      (∀ description other, Graph.ofDescription description = .ok other →
        other.workspace = workspace →
        (∀ target ∈ targets, graph.ReachedFrom roots target.label → target ∈ other.targets) →
        ∀ workers, collect other roots toolchain workers = collection.answer workers) := by
  obtain ⟨names, named⟩ := Graph.exists_names resolved
  obtain ⟨rfl, built⟩ := (Graph.ofTargets_eq_ok_iff targets workspace graph).mp made
  refine ⟨.ofNames _ toolchain names, texts.collect_eq_answer built named, ?_, ?_, ?_⟩
  · intro others other same canonical agrees
    obtain ⟨rfl, alike⟩ := (Graph.ofTargets_eq_ok_iff others workspace other).mp same
    have found := Graph.names_of_same_reached canonical agrees
    exact texts.collect_eq_of_find? built alike rfl named found agrees
  · intro others same
    have alike := built.of_perm same
    have found := Graph.find?_of_perm built same
    refine ⟨_, (Graph.ofTargets_eq_ok_iff ..).mpr ⟨rfl, alike⟩, ?_⟩
    apply texts.collect_eq_of_find? built alike rfl named ?_ fun label _ => found label
    rintro root _ name ⟨target, here, named⟩
    refine ⟨target, ?_, named⟩
    rw [← here]
    simp only [Graph.target, found]
  · intro description other read same kept
    obtain ⟨again, canonical⟩ := Graph.ofTargets_of_ofDescription read
    have alike := Graph.built_of_ofTargets again
    have agrees : ∀ label, Graph.ReachedFrom ⟨workspace, targets⟩ roots label →
        other.find? label = Graph.find? ⟨workspace, targets⟩ label := by
      intro label reached
      obtain ⟨target, found, rfl⟩ :=
        Graph.exists_find?_of_mem_labels (built.mem_labels_of_reachedFrom reached)
      have declared := kept target (Graph.mem_targets_of_find? found) reached
      rw [found]
      exact (Graph.find?_eq_some_iff alike.distinct ..).mpr ⟨declared, rfl⟩
    have found := Graph.names_of_same_reached canonical agrees
    exact texts.collect_eq_of_find? built alike same named found agrees

/-- Of the graph in which targets share a dependency only those two are left that one of its targets
leads to; they are declared the other way round, and with a third one in between. -/
def rearranged : Graph where
  workspace := ""
  targets := [
    .single "//base:base" "cc_library" "" [],
    .single "//tool:tool" "cc_binary" "" ["//gen:gen"],
    .single "//gen:gen" "genrule" "" ["//base:base"]]

theorem ofTargets_rearranged : Graph.ofTargets rearranged.targets "" = .ok rearranged := by
  refine (Graph.ofTargets_eq_ok_iff ..).mpr ⟨rfl, by decide, by decide, ?_⟩
  apply (Graph.Dependencies.isAcyclic_iff _ (by decide) (by decide)).mpr
  exact Graph.Dependencies.not_hasCycle_of_rank
    (fun label => ["//base:base", "//gen:gen", "//tool:tool"].idxOf label) (by decide)

theorem collect_eq_of_same_reached_rearranged :
    (∃ target, sharing.target "//gen" = .ok target) ∧
    (∀ target ∈ rearranged.targets, target.HasCanonicalLabel) ∧
    (∀ label, sharing.ReachedFrom [.spelled "//gen"] label →
      rearranged.find? label = sharing.find? label) ∧
    ∃ collection, collect sharing [.spelled "//gen"] Toolchain.single none = .ok collection ∧
      collect rearranged [.spelled "//gen"] Toolchain.single none = .ok collection := by
  have found : sharing.target "//gen" = .ok (.single "//gen:gen" "genrule" "" ["//base:base"]) := rfl
  have resolved : ∀ root ∈ [Root.spelled "//gen"],
      ∃ target, sharing.target root.spelling = .ok target := by
    intro root listed
    rw [List.mem_singleton.mp listed]
    exact ⟨_, found⟩
  have canonical : ∀ target ∈ rearranged.targets, target.HasCanonicalLabel := by
    simp only [rearranged, List.mem_cons, List.not_mem_nil, or_false]
    rintro target (rfl | rfl | rfl)
    all_goals rfl
  have same : ∀ label, sharing.ReachedFrom [.spelled "//gen"] label →
      rearranged.find? label = sharing.find? label := by
    rintro label ⟨root, listed, start, ⟨target, read, rfl⟩, path⟩
    rw [List.mem_singleton.mp listed] at read
    cases found.symm.trans read
    have reached : label ∈ ["//gen:gen", "//base:base"] :=
      path.mem_of_closed (List.mem_cons_self ..) (by decide)
    have alike : ∀ other ∈ ["//gen:gen", "//base:base"],
        rearranged.find? other = sharing.find? other := by decide
    exact alike label reached
  obtain ⟨collection, here, other, _⟩ := collect_eq_of_same_reached sharing.targets "" sharing
    ofTargets_sharing Toolchain.single (hasTextTemplates_default _ rfl) _ resolved
  exact ⟨⟨_, found⟩, canonical, same, collection, here none,
    other _ rearranged ofTargets_rearranged canonical same none⟩

end CompileCommands
