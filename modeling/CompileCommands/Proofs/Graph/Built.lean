import CompileCommands.Graph
import CompileCommands.Proofs.Graph.Acyclic

set_option autoImplicit false

/- Graphs that were made of targets. Their labels are distinct and closed under dependencies, so
that every look-up on the way of a walk finds its target. -/
namespace CompileCommands.Graph

/-- What is checked when a graph is made. -/
structure Built (graph : Graph) : Prop where
  distinct : graph.labels.Nodup
  closed : ∀ target ∈ graph.targets, ∀ dep ∈ target.deps, dep ∈ graph.labels
  acyclic : graph.dependencyTable.isAcyclic = true

theorem firstRepeated_eq_none_iff (seen labels : List String) :
    firstRepeated seen labels = none ↔ labels.Nodup ∧ ∀ label ∈ labels, label ∉ seen := by
  induction labels generalizing seen with
  | nil => simp [firstRepeated]
  | cons label rest ih =>
      rw [firstRepeated]
      by_cases old : label ∈ seen
      · simp [old]
      · rw [if_neg old, ih, List.nodup_cons]
        constructor
        · rintro ⟨distinct, apart⟩
          refine ⟨⟨fun again => apart label again (by simp), distinct⟩, ?_⟩
          intro other member
          rcases List.mem_cons.mp member with rfl | member
          · exact old
          · exact fun known => apart other member (List.mem_cons_of_mem label known)
        · rintro ⟨⟨new, distinct⟩, apart⟩
          refine ⟨distinct, fun other member known => ?_⟩
          rcases List.mem_cons.mp known with rfl | known
          · exact new member
          · exact apart other (List.mem_cons_of_mem label member) known

theorem firstDangling_eq_none_iff (graph : Graph) :
    graph.firstDangling = none ↔
      ∀ target ∈ graph.targets, ∀ dep ∈ target.deps, dep ∈ graph.labels := by
  rw [firstDangling, List.find?_eq_none]
  constructor
  · intro inside target declared dep listed
    have edge : (⟨target.label, dep⟩ : Edge) ∈ graph.edges :=
      List.mem_flatMap.mpr ⟨target, declared, List.mem_map.mpr ⟨dep, listed, rfl⟩⟩
    simpa [contains] using inside _ edge
  · intro closed edge member
    obtain ⟨target, declared, found⟩ := List.mem_flatMap.mp member
    obtain ⟨dep, listed, rfl⟩ := List.mem_map.mp found
    simpa [contains] using closed target declared dep listed

theorem ofTargets_eq_ok_iff (targets : List Target) (workspace : String) (graph : Graph) :
    ofTargets targets workspace = .ok graph ↔ graph = ⟨workspace, targets⟩ ∧ graph.Built := by
  simp only [ofTargets]
  constructor
  · intro made
    split at made
    · contradiction
    · next distinct =>
      split at made
      · contradiction
      · next closed =>
        split at made
        · next acyclic =>
          cases made
          exact ⟨rfl, ((firstRepeated_eq_none_iff ..).mp distinct).1,
            (firstDangling_eq_none_iff _).mp closed, acyclic⟩
        · contradiction
  · rintro ⟨rfl, distinct, closed, acyclic⟩
    have first := (firstRepeated_eq_none_iff [] _).mpr ⟨distinct, by simp⟩
    have second := (firstDangling_eq_none_iff _).mpr closed
    simp only [first, second, acyclic, ↓reduceIte]

theorem built_of_ofTargets {targets : List Target} {workspace : String} {graph : Graph}
    (made : ofTargets targets workspace = .ok graph) : graph.Built :=
  ((ofTargets_eq_ok_iff targets workspace graph).mp made).2

/-! Look-ups of labels in canonical spelling. -/

theorem exists_find?_of_mem_labels {graph : Graph} {label : String}
    (known : label ∈ graph.labels) :
    ∃ target, graph.find? label = some target ∧ target.label = label := by
  obtain ⟨target, declared, named⟩ := List.mem_map.mp known
  have some : (graph.find? label).isSome := by
    rw [find?, List.find?_isSome]
    exact ⟨target, declared, by simpa using named⟩
  obtain ⟨found, here⟩ := Option.isSome_iff_exists.mp some
  exact ⟨found, here, by simpa using List.find?_some here⟩

theorem target_of_find? {graph : Graph} {label : String} {target : Target}
    (found : graph.find? label = some target) : graph.target label = .ok target := by
  simp only [Graph.target, found]

theorem target_of_canonicalize {graph : Graph} {label canonical : String} {target : Target}
    (absent : graph.find? label = none) (spelled : Label.canonicalize label = .ok canonical)
    (found : graph.find? canonical = some target) : graph.target label = .ok target := by
  simp only [Graph.target, absent, spelled, found]

theorem label_of_find? {graph : Graph} {label : String} {target : Target}
    (found : graph.find? label = some target) : target.label = label := by
  simpa using List.find?_some found

/-- A label is looked up as it is spelled, and only then in its canonical spelling. -/
theorem target_cases {graph : Graph} {label : String} {target : Target}
    (found : graph.target label = .ok target) :
    graph.find? label = some target ∨
      graph.find? label = none ∧ ∃ canonical, Label.canonicalize label = .ok canonical ∧
        graph.find? canonical = some target := by
  unfold Graph.target at found
  split at found
  · next here =>
    cases found
    exact .inl here
  · next absent =>
    split at found
    · contradiction
    · next canonical spelled =>
      split at found
      · next here =>
        cases found
        exact .inr ⟨absent, canonical, spelled, here⟩
      · contradiction

theorem find?_eq_some_iff {graph : Graph} (distinct : graph.labels.Nodup) (label : String)
    (target : Target) :
    graph.find? label = some target ↔ target ∈ graph.targets ∧ target.label = label := by
  constructor
  · intro found
    exact ⟨mem_targets_of_find? found, label_of_find? found⟩
  · rintro ⟨declared, rfl⟩
    obtain ⟨other, found, same⟩ := exists_find?_of_mem_labels (List.mem_map_of_mem declared)
    have this := List.inj_on_of_nodup_map distinct (mem_targets_of_find? found) declared same
    rw [found, this]

theorem depsOf_of_find? {graph : Graph} {label : String} {target : Target}
    (found : graph.find? label = some target) : graph.depsOf label = target.deps := by
  simp only [depsOf, found]

theorem mem_labels_of_target {graph : Graph} {label : String} {target : Target}
    (found : graph.target label = .ok target) : target.label ∈ graph.labels :=
  List.mem_map_of_mem (mem_targets_of_target found)

theorem Built.mem_labels_of_mem_depsOf {graph : Graph} (built : graph.Built) {label dep : String}
    (known : label ∈ graph.labels) (listed : dep ∈ graph.depsOf label) : dep ∈ graph.labels := by
  obtain ⟨target, found, _⟩ := exists_find?_of_mem_labels known
  rw [depsOf_of_find? found] at listed
  exact built.closed target (mem_targets_of_find? found) dep listed

end CompileCommands.Graph

namespace CompileCommands

/-- A target that compiles one file without flags of its own. -/
def Target.single (label kind workspace : String) (deps : List String) : Target where
  label := label
  kind := kind
  workspace := workspace
  srcs := ["main.cc"]
  hdrs := []
  deps := deps
  outputs := []
  context := some ⟨[], [], [], [], []⟩
  features := []
  disabledFeatures := []

/-- Two targets that are not eligible themselves share a dependency with their dependent. -/
def sharing : Graph where
  workspace := ""
  targets := [
    .single "//app:app" "cc_binary" "" ["//gen:gen", "@ext//:ext", "//base:base"],
    .single "//gen:gen" "genrule" "" ["//base:base"],
    .single "@ext//:ext" "cc_library" "ext" ["//base:base"],
    .single "//base:base" "cc_library" "" []]

theorem ofTargets_sharing : Graph.ofTargets sharing.targets "" = .ok sharing := by
  refine (Graph.ofTargets_eq_ok_iff ..).mpr ⟨rfl, by decide, by decide, ?_⟩
  apply (Graph.Dependencies.isAcyclic_iff _ (by decide) (by decide)).mpr
  exact Graph.Dependencies.not_hasCycle_of_rank
    (fun label => sharing.labels.length - sharing.labels.idxOf label) (by decide)

end CompileCommands
