import CompileCommands.Proofs.Collection.Sharing
import CompileCommands.Proofs.Collection.Unreached
import CompileCommands.Proofs.Graph.Lookup

set_option autoImplicit false

/- The order of the roots and their spelling make no difference to what is collected, only to the order
in which it stands. A walk meets each label once, so that walks which meet the same labels meet them in
two orders of one list, and every label brings its own entries wherever it stands. -/
namespace CompileCommands

/-- The canonical spelling of the label by which a root is named. -/
def Root.canonical (root : Root) : Except Failure String := Label.canonicalize root.spelling

namespace Graph

variable {graph : Graph}

theorem Built.nodup_preorder (built : graph.Built) {names : List String}
    (known : ∀ name ∈ names, name ∈ graph.labels) : (graph.preorder [] names).Nodup := by
  rw [← visited_visitOf]
  exact (built.covers_visitOf known).distinct

theorem Built.preorder_perm (built : graph.Built) {names others : List String}
    (known : ∀ name ∈ names, name ∈ graph.labels)
    (inside : ∀ name ∈ others, name ∈ graph.labels)
    (same : ∀ label, (∃ name ∈ names, graph.Reaches name label) ↔
      ∃ name ∈ others, graph.Reaches name label) :
    (graph.preorder [] names).Perm (graph.preorder [] others) := by
  have distinct := built.nodup_preorder known
  apply (List.perm_ext_iff_of_nodup distinct (built.nodup_preorder inside)).mpr
  intro label
  rw [built.mem_preorder_iff known, built.mem_preorder_iff inside, same]

theorem reachedFrom_iff_of_names {roots : List Root} {names : List String}
    (named : List.Forall₂ graph.Names roots names) (label : String) :
    graph.ReachedFrom roots label ↔ ∃ name ∈ names, graph.Reaches name label := by
  constructor
  · rintro ⟨root, listed, name, this, path⟩
    exact ⟨name, mem_names_of_mem named listed this, path⟩
  · rintro ⟨name, member, path⟩
    obtain ⟨root, listed, this⟩ := exists_of_mem_forall₂ named member
    exact ⟨root, listed, name, this, path⟩

theorem exists_target_of_names {roots : List Root} {names : List String}
    (named : List.Forall₂ graph.Names roots names) :
    ∀ root ∈ roots, ∃ target, graph.target root.spelling = .ok target := by
  intro root listed
  obtain ⟨_, _, target, found, _⟩ := exists_of_mem_forall₂ named.flip listed
  exact ⟨target, found⟩

theorem IsMade.canonical_of_names (made : graph.IsMade) {root : Root} {name : String}
    (named : graph.Names root name) : root.canonical = .ok name := by
  obtain ⟨target, found, rfl⟩ := named
  exact ((made.target_eq_ok_iff root.spelling target).mp found).2

theorem IsMade.mapM_canonical_of_names (made : graph.IsMade) {roots : List Root}
    {names : List String} (named : List.Forall₂ graph.Names roots names) :
    roots.mapM Root.canonical = .ok names :=
  mapM_eq_ok_iff.mpr (named.imp fun _ _ => made.canonical_of_names)

end Graph

namespace Collection

/-- Whether two collections hold the same labels, each with the same entries, in whatever order. -/
structure SameContents (one other : Collection) : Prop where
  visited : one.visit.visited.Perm other.visit.visited
  skipped : one.visit.skipped.Perm other.visit.skipped
  labels : one.aggregation.labels.Perm other.aggregation.labels
  entriesFor : ∀ label, one.aggregation.entriesFor label = other.aggregation.entriesFor label
  flatten : one.aggregation.flatten.Perm other.aggregation.flatten

theorem sameContents_ofNames {graph : Graph} {names others : List String} (toolchain : Toolchain)
    (same : (graph.preorder [] names).Perm (graph.preorder [] others)) :
    (ofNames graph toolchain names).SameContents (ofNames graph toolchain others) := by
  have eligible : (graph.visitOf names).eligible.Perm (graph.visitOf others).eligible := by
    rw [Graph.eligible_visitOf, Graph.eligible_visitOf]
    exact same.filter _
  constructor
  · rw [visited_ofNames, visited_ofNames]
    exact same
  · exact same.filter _
  · rw [ofNames, labels_filled, ofNames, labels_filled]
    exact eligible
  · intro label
    rw [ofNames, entriesFor_filled, ofNames, entriesFor_filled]
    simp only [eligible.mem_iff]
  · rw [ofNames, flatten_filled, ofNames, flatten_filled]
    exact eligible.flatMap_right _

/-- Labels named again add nothing. -/
theorem ofNames_eraseDups (graph : Graph) (toolchain : Toolchain) (names : List String) :
    ofNames graph toolchain names.eraseDups = ofNames graph toolchain names := by
  apply ofNames_congr
  rw [← orderedUnique_eq_eraseDups]
  exact graph.preorder_orderedUniqueFrom (by simp) names

end Collection

/-- Whether a collection is what is collected from some roots, be it by one worker or by several who
do their share in whatever order. -/
structure Collection.CollectedFrom (graph : Graph) (toolchain : Toolchain) (roots : List Root)
    (collection : Collection) : Prop where
  alone : ∀ workers, collect graph roots toolchain workers = collection.answer workers
  shared : ∀ schedule workers, SameAnswer (collectBy schedule graph roots toolchain workers)
    (collection.answer workers)

theorem Toolchain.HasTextTemplates.collectedFrom {toolchain : Toolchain}
    (texts : toolchain.HasTextTemplates) {graph : Graph} (built : graph.Built) {roots : List Root}
    {names : List String} (named : List.Forall₂ graph.Names roots names) :
    (Collection.ofNames graph toolchain names).CollectedFrom graph toolchain roots := by
  refine ⟨texts.collect_eq_answer built named, fun schedule workers => ?_⟩
  rw [← texts.collect_eq_answer built named]
  exact built.sameAnswer_collectBy schedule roots toolchain workers

/-- What is collected from some roots and what is collected from others. If the roots reach the same
labels, then the same labels are visited and have the same entries, so that the two lists of entries
differ in their order at most. If the roots name the same labels in the same order, apart from
repetitions and however the labels are spelled, the two collections are equal. -/
theorem collect_from_roots_in_any_order (graph : Graph) (made : graph.IsMade) (toolchain : Toolchain)
    (texts : toolchain.HasTextTemplates) (roots others : List Root)
    (resolved : ∀ root ∈ roots ++ others, ∃ target, graph.target root.spelling = .ok target) :
    ∃ (names more : List String) (one other : Collection),
      roots.mapM Root.canonical = .ok names ∧ others.mapM Root.canonical = .ok more ∧
      one.CollectedFrom graph toolchain roots ∧ other.CollectedFrom graph toolchain others ∧
      ((∀ label, graph.ReachedFrom roots label ↔ graph.ReachedFrom others label) →
        one.SameContents other) ∧
      (names.eraseDups = more.eraseDups → one = other) := by
  have built := made.built
  obtain ⟨names, named⟩ := Graph.exists_names fun root listed =>
    resolved root (List.mem_append_left others listed)
  obtain ⟨more, further⟩ := Graph.exists_names fun root listed =>
    resolved root (List.mem_append_right roots listed)
  refine ⟨names, more, .ofNames graph toolchain names, .ofNames graph toolchain more,
    made.mapM_canonical_of_names named, made.mapM_canonical_of_names further,
    texts.collectedFrom built named, texts.collectedFrom built further, ?_, ?_⟩
  · intro same
    apply Collection.sameContents_ofNames
    apply built.preorder_perm (Graph.mem_labels_of_names named) (Graph.mem_labels_of_names further)
    intro label
    rw [← Graph.reachedFrom_iff_of_names named, ← Graph.reachedFrom_iff_of_names further, same]
  · intro same
    rw [← Collection.ofNames_eraseDups, same, Collection.ofNames_eraseDups]

/-- Two targets with files of their own share a dependency, and one of its files is theirs as well. -/
def forked : Graph where
  workspace := ""
  targets := [
    { Target.single "//left:left" "cc_library" "" ["//base:base"] with srcs := ["left.cc"] },
    { Target.single "//right:right" "cc_library" "" ["//base:base"] with
      srcs := ["right.cc", "base.cc"] },
    { Target.single "//base:base" "cc_library" "" [] with srcs := ["base.cc"] }]

theorem ofTargets_forked : Graph.ofTargets forked.targets "" = .ok forked := by
  refine (Graph.ofTargets_eq_ok_iff ..).mpr ⟨rfl, by decide, by decide, ?_⟩
  apply (Graph.Dependencies.isAcyclic_iff _ (by decide) (by decide)).mpr
  exact Graph.Dependencies.not_hasCycle_of_rank
    (fun label => forked.labels.length - forked.labels.idxOf label) (by decide)

theorem isMade_forked : forked.IsMade := by
  refine Graph.IsMade.ofTargets ?_ ofTargets_forked
  simp only [forked, List.forall_mem_cons]
  exact ⟨⟨"//left", _, rfl, rfl⟩, ⟨"//right", _, rfl, rfl⟩, ⟨"//base", _, rfl, rfl⟩, by simp⟩

theorem collect_from_roots_in_any_order_forked :
    (∀ label, forked.ReachedFrom [.spelled "//left", .spelled "//right"] label ↔
      forked.ReachedFrom [.spelled "@//right", .spelled "//left:left"] label) ∧
    (∃ one other : Collection,
      collect forked [.spelled "//left", .spelled "//right"] Toolchain.single none = .ok one ∧
      collect forked [.spelled "@//right", .spelled "//left:left"] Toolchain.single none = .ok other ∧
      one.visit.visited = ["//left:left", "//base:base", "//right:right"] ∧
      other.visit.visited = ["//right:right", "//base:base", "//left:left"] ∧
      one.aggregation.flatten.Perm other.aggregation.flatten) ∧
    collect forked [.spelled "//left", .spelled "//right"] Toolchain.single none =
      collect forked [.spelled " //left", .spelled "@//right",
        .described (.single "//left:left" "cc_library" "" [])] Toolchain.single none := by
  have texts := hasTextTemplates_default Toolchain.single rfl
  have built := isMade_forked.built
  have left : forked.Names (.spelled "//left") "//left:left" := ⟨_, rfl, rfl⟩
  have whole : forked.Names (.spelled "//left:left") "//left:left" := ⟨_, rfl, rfl⟩
  have blank : forked.Names (.spelled " //left") "//left:left" := ⟨_, rfl, rfl⟩
  have target : forked.Names (.described (.single "//left:left" "cc_library" "" []))
      "//left:left" := ⟨_, rfl, rfl⟩
  have right : forked.Names (.spelled "//right") "//right:right" := ⟨_, rfl, rfl⟩
  have marked : forked.Names (.spelled "@//right") "//right:right" := ⟨_, rfl, rfl⟩
  have forth := List.Forall₂.cons left (.cons right .nil)
  have back := List.Forall₂.cons marked (.cons whole .nil)
  have repeated := List.Forall₂.cons blank (.cons marked (.cons target .nil))
  have same : ∀ label, forked.ReachedFrom [.spelled "//left", .spelled "//right"] label ↔
      forked.ReachedFrom [.spelled "@//right", .spelled "//left:left"] label := by
    intro label
    rw [Graph.reachedFrom_iff_of_names forth, Graph.reachedFrom_iff_of_names back]
    simp [or_comm]
  refine ⟨same, ?_, ?_⟩
  · obtain ⟨_, _, one, other, _, _, here, there, alike, _⟩ :=
      collect_from_roots_in_any_order forked isMade_forked Toolchain.single texts _ _
        (Graph.exists_target_of_names (List.rel_append forth back))
    cases (here.alone none).symm.trans (texts.collect_eq_answer built forth none)
    cases (there.alone none).symm.trans (texts.collect_eq_answer built back none)
    refine ⟨_, _, here.alone none, there.alone none, ?_, ?_, (alike same).flatten⟩
    · rw [Collection.visited_ofNames]
      cbv
    · rw [Collection.visited_ofNames]
      cbv
  · obtain ⟨_, _, one, other, names, more, here, there, _, equal⟩ :=
      collect_from_roots_in_any_order forked isMade_forked Toolchain.single texts _ _
        (Graph.exists_target_of_names (List.rel_append forth repeated))
    cases names
    cases more
    rw [here.alone, there.alone, equal (by decide)]

end CompileCommands
