import CompileCommands.Proofs.Graph.CanonicalLabels

set_option autoImplicit false

/- Looking up targets. A text is looked up as it is and only then in its canonical spelling, and this
makes no difference: the labels of a graph are their own canonical spellings. -/
namespace CompileCommands

open Json (Members)

namespace Graph

variable {graph : Graph}

theorem mem_labels_of_find? {label : String} {target : Target}
    (found : graph.find? label = some target) : label ∈ graph.labels := by
  rw [← label_of_find? found]
  exact List.mem_map_of_mem (mem_targets_of_find? found)

theorem find?_eq_none_iff (label : String) : graph.find? label = none ↔ label ∉ graph.labels := by
  constructor
  · intro absent known
    obtain ⟨target, found, _⟩ := exists_find?_of_mem_labels known
    rw [absent] at found
    contradiction
  · intro unknown
    cases found : graph.find? label with
    | none => rfl
    | some target => exact absurd (mem_labels_of_find? found) unknown

/-- What is wrong with a text for which no target is found: it is no label, or the label of no
target. -/
inductive NotFound (graph : Graph) (text : String) : Failure → Prop
  | noLabel {fault : Label.Fault} (unread : Label.parse text = .error fault) :
      NotFound graph text (.description (.label text fault))
  | noTarget {label : String} (read : Label.canonicalize text = .ok label)
      (unknown : label ∉ graph.labels) : NotFound graph text (.unknownTarget text)

theorem canonicalize_eq_error_iff (text : String) (failure : Failure) :
    Label.canonicalize text = .error failure ↔
      ∃ fault, Label.parse text = .error fault ∧ failure = .description (.label text fault) := by
  rw [Label.canonicalize, Label.canonical]
  cases Label.parse text with
  | error fault => simp [Except.map, eq_comm]
  | ok label => simp [Except.map]

theorem notFound_iff_of_error {text : String} {spelling : Failure}
    (unread : Label.canonicalize text = .error spelling) (failure : Failure) :
    graph.NotFound text failure ↔ failure = spelling := by
  obtain ⟨fault, wrong, rfl⟩ := (canonicalize_eq_error_iff text spelling).mp unread
  constructor
  · rintro (⟨again⟩ | ⟨read, _⟩)
    · cases wrong.symm.trans again
      rfl
    · cases unread.symm.trans read
  · rintro rfl
    exact .noLabel wrong

theorem notFound_iff_of_ok {text label : String} (read : Label.canonicalize text = .ok label)
    (failure : Failure) :
    graph.NotFound text failure ↔ label ∉ graph.labels ∧ failure = .unknownTarget text := by
  constructor
  · rintro (⟨wrong⟩ | ⟨again, unknown⟩)
    · have unread := (canonicalize_eq_error_iff text _).mpr ⟨_, wrong, rfl⟩
      cases read.symm.trans unread
    · cases read.symm.trans again
      exact ⟨unknown, rfl⟩
  · rintro ⟨unknown, rfl⟩
    exact .noTarget read unknown

theorem target_eq_error_iff (text : String) (failure : Failure) :
    graph.target text = .error failure ↔ text ∉ graph.labels ∧ graph.NotFound text failure := by
  rw [Graph.target, ← find?_eq_none_iff]
  cases graph.find? text with
  | some target => simp
  | none =>
      cases spelled : Label.canonicalize text with
      | error spelling =>
          rw [notFound_iff_of_error spelled]
          simp [eq_comm]
      | ok label =>
          rw [notFound_iff_of_ok spelled, ← find?_eq_none_iff]
          cases here : graph.find? label <;> simp [here, eq_comm]

/-- Labels of a graph are found in any spelling, if they are spelled in it as they are when targets
are read. -/
theorem NotFound.not_mem_labels {text : String} {failure : Failure}
    (missing : graph.NotFound text failure)
    (canonical : ∀ target ∈ graph.targets, target.HasCanonicalLabel) : text ∉ graph.labels := by
  intro known
  obtain ⟨target, declared, rfl⟩ := List.mem_map.mp known
  have spelled := canonical target declared
  cases missing with
  | noLabel unread =>
      have failed := (canonicalize_eq_error_iff _ _).mpr ⟨_, unread, rfl⟩
      cases spelled.symm.trans failed
  | noTarget read unknown =>
      cases spelled.symm.trans read
      exact unknown known

end Graph

/-- Whether the label of a target is the canonical spelling of one that was read, as it is for every
target when it is made. -/
def Target.IsNamed (target : Target) : Prop :=
  ∃ text label, Label.parse text = .ok label ∧ target.label = label.text

theorem Target.IsNamed.hasCanonicalLabel {target : Target} (named : target.IsNamed) :
    target.HasCanonicalLabel := by
  obtain ⟨text, label, read, spelled⟩ := named
  rw [HasCanonicalLabel, spelled]
  exact Label.canonicalize_text_of_parse read

theorem Label.canonicalize_eq_ok_iff (text spelling : String) :
    canonicalize text = .ok spelling ↔ ∃ label, parse text = .ok label ∧ label.text = spelling := by
  rw [canonicalize, canonical]
  cases parse text <;> simp [Except.map]

namespace Graph

/-- The graphs there are: they are made of targets, or read from descriptions. -/
inductive IsMade : Graph → Prop
  | ofTargets {targets : List Target} {workspace : String} {graph : Graph}
      (named : ∀ target ∈ targets, target.IsNamed)
      (made : ofTargets targets workspace = .ok graph) : IsMade graph
  | ofDescription {description : Members} {graph : Graph}
      (read : ofDescription description = .ok graph) : IsMade graph

theorem dependencies_eq_ok_iff {graph : Graph} {text : String} {deps : List String} :
    graph.dependencies text = .ok deps ↔
      ∃ target, graph.target text = .ok target ∧ target.deps = deps := by
  rw [dependencies]
  cases graph.target text <;> simp [Except.map]

/-- Looking up the canonical spelling of a text and nothing else. -/
def canonicalTarget (graph : Graph) (text : String) : Except Failure Target := do
  let label ← Label.canonicalize text
  match graph.find? label with
  | some target => return target
  | none => throw (.unknownTarget text)

namespace IsMade

variable {graph : Graph}

theorem built (made : graph.IsMade) : graph.Built := by
  cases made with
  | ofTargets named made => exact built_of_ofTargets made
  | ofDescription read => exact built_of_ofTargets (ofTargets_of_ofDescription read).1

theorem hasCanonicalLabel (made : graph.IsMade) :
    ∀ target ∈ graph.targets, target.HasCanonicalLabel := by
  cases made with
  | ofTargets named made =>
      obtain ⟨rfl, _⟩ := (ofTargets_eq_ok_iff ..).mp made
      exact fun target declared => (named target declared).hasCanonicalLabel
  | ofDescription read => exact (ofTargets_of_ofDescription read).2

/-- What makes it safe to look up a text as it is. -/
theorem canonicalize_of_mem_labels (made : graph.IsMade) {text : String}
    (known : text ∈ graph.labels) : Label.canonicalize text = .ok text := by
  obtain ⟨target, declared, rfl⟩ := List.mem_map.mp known
  exact made.hasCanonicalLabel target declared

theorem target_eq_canonicalTarget (made : graph.IsMade) (text : String) :
    graph.target text = graph.canonicalTarget text := by
  rw [Graph.target, canonicalTarget]
  cases here : graph.find? text with
  | some target =>
      rw [made.canonicalize_of_mem_labels (mem_labels_of_find? here), ok_bind, here]
      rfl
  | none =>
      cases Label.canonicalize text with
      | error failure => rfl
      | ok label =>
          simp only [ok_bind]
          cases graph.find? label with
          | none => rfl
          | some target => rfl

theorem target_eq_ok_iff (made : graph.IsMade) (text : String) (target : Target) :
    graph.target text = .ok target ↔
      target ∈ graph.targets ∧ Label.canonicalize text = .ok target.label := by
  constructor
  · intro found
    refine ⟨mem_targets_of_target found, ?_⟩
    rcases target_cases found with here | ⟨_, label, spelled, here⟩
    · rw [label_of_find? here]
      exact made.canonicalize_of_mem_labels (mem_labels_of_find? here)
    · rw [label_of_find? here]
      exact spelled
  · rintro ⟨declared, spelled⟩
    have here := (find?_eq_some_iff made.built.distinct ..).mpr ⟨declared, rfl⟩
    rw [made.target_eq_canonicalTarget, canonicalTarget, spelled, ok_bind, here]
    rfl

theorem exists_target_iff (made : graph.IsMade) (text : String) :
    (∃ target, graph.target text = .ok target) ↔
      ∃ label, Label.parse text = .ok label ∧ label.text ∈ graph.labels := by
  constructor
  · rintro ⟨target, found⟩
    obtain ⟨declared, spelled⟩ := (made.target_eq_ok_iff text target).mp found
    obtain ⟨label, read, same⟩ := (Label.canonicalize_eq_ok_iff ..).mp spelled
    exact ⟨label, read, same ▸ List.mem_map_of_mem declared⟩
  · rintro ⟨label, read, known⟩
    obtain ⟨target, declared, same⟩ := List.mem_map.mp known
    refine ⟨target, (made.target_eq_ok_iff text target).mpr ⟨declared, ?_⟩⟩
    rw [same]
    exact Label.canonicalize_of_parse read

theorem target_eq_error_iff (made : graph.IsMade) (text : String) (failure : Failure) :
    graph.target text = .error failure ↔ graph.NotFound text failure := by
  rw [Graph.target_eq_error_iff]
  exact and_iff_right_of_imp fun missing => missing.not_mem_labels made.hasCanonicalLabel

end IsMade

/-- Looking up a target is looking up the canonical spelling of its label. A text that is one of the
labels of the graph is its own canonical spelling, so that it makes no difference to look it up
first. The target that is found is the one with that label; if there is none, the failure tells
whether the text is no label or the label of no target. -/
theorem target_in_any_spelling (graph : Graph) (made : graph.IsMade) :
    (∀ text, graph.target text = graph.canonicalTarget text) ∧
    (∀ text ∈ graph.labels, Label.canonicalize text = .ok text) ∧
    (∀ text target, graph.target text = .ok target ↔
      target ∈ graph.targets ∧ Label.canonicalize text = .ok target.label) ∧
    (∀ text, (∃ target, graph.target text = .ok target) ↔
      ∃ label, Label.parse text = .ok label ∧ label.text ∈ graph.labels) ∧
    (∀ text failure, graph.target text = .error failure ↔ graph.NotFound text failure) ∧
    ∀ text other label, Label.canonicalize text = .ok label →
      Label.canonicalize other = .ok label →
        ∀ deps, graph.dependencies text = .ok deps ↔ graph.dependencies other = .ok deps := by
  refine ⟨made.target_eq_canonicalTarget, fun text => made.canonicalize_of_mem_labels,
    made.target_eq_ok_iff, made.exists_target_iff, made.target_eq_error_iff, ?_⟩
  intro text other label spelled again deps
  have same (target : Target) :
      graph.target text = .ok target ↔ graph.target other = .ok target := by
    rw [made.target_eq_ok_iff, made.target_eq_ok_iff, spelled, again]
  simp only [dependencies_eq_ok_iff, same]

theorem target_in_any_spelling_sharing :
    sharing.IsMade ∧
    (∃ target, sharing.target "@@//base " = .ok target ∧ target.label = "//base:base") ∧
    sharing.NotFound "//nope" (.unknownTarget "//nope") ∧
    sharing.NotFound "base" (.description (.label "base" .notAbsolute)) ∧
    sharing.dependencies "@//gen" = .ok ["//base:base"] := by
  have named : ∀ target ∈ sharing.targets, target.IsNamed := by
    simp only [sharing, List.forall_mem_cons]
    exact ⟨⟨"//app", _, rfl, rfl⟩, ⟨"//gen", _, rfl, rfl⟩, ⟨"@ext//:ext", _, rfl, rfl⟩,
      ⟨"//base", _, rfl, rfl⟩, by simp⟩
  have made := IsMade.ofTargets named ofTargets_sharing
  obtain ⟨_, _, found, _, missing, same⟩ := target_in_any_spelling sharing made
  exact ⟨made, ⟨.single "//base:base" "cc_library" "" [], (found ..).mpr ⟨by decide, rfl⟩, rfl⟩,
    (missing ..).mp rfl, (missing ..).mp rfl,
    (same "@//gen" "//gen:gen" "//gen:gen" rfl rfl _).mpr rfl⟩

end Graph

end CompileCommands
