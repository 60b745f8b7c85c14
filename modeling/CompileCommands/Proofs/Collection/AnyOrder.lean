import CompileCommands.Proofs.Collection.Answer

set_option autoImplicit false

/- The places of the labels are fixed by the walk, so that it makes no difference in which order their
entries are computed afterwards, and how often they are asked for. -/
namespace CompileCommands

namespace Collection

theorem eq_blockOf_of_entriesOf {graph : Graph} {toolchain : Toolchain} {label : String}
    (entries : List Entry) (made : entriesOf graph toolchain label = .ok entries) :
    entries = blockOf graph toolchain label := by
  rw [blockOf, made]
  rfl

/-- Asking for the same labels gives the same, when all of them have their places. -/
theorem looksLike_askAll (graph : Graph) (toolchain : Toolchain) {places one other : List String}
    (distinct : places.Nodup) (placed : ∀ label ∈ one, label ∈ places)
    (same : ∀ label, label ∈ one ↔ label ∈ other) :
    (askAll graph toolchain (places.foldl Aggregation.addOrder .empty) one).LooksLike
      (askAll graph toolchain (places.foldl Aggregation.addOrder .empty) other) := by
  have others : ∀ label ∈ other, label ∈ places := by
    intro label member
    exact placed label ((same label).mpr member)
  rw [askAll_foldl_addOrder graph toolchain distinct placed fun _ _ => eq_blockOf_of_entriesOf,
    askAll_foldl_addOrder graph toolchain distinct others fun _ _ => eq_blockOf_of_entriesOf]
  apply looksLike_filled
  apply (List.perm_ext_iff_of_nodup (nodup_orderedUnique _) (nodup_orderedUnique _)).mpr
  intro label
  simp only [mem_orderedUnique, List.mem_filter, same]

end Collection

open Collection in
/-- The walk from roots that are found fixes the places; whoever asks then for the entries of all
eligible labels, in whatever order and however often, and whether or not some of them can be
computed, ends with what asking in the order of the walk ends with. With templates that are texts
all of them can be computed, and this is what is collected. -/
theorem looksLike_in_any_order (targets : List Target) (workspace : String) (graph : Graph)
    (made : Graph.ofTargets targets workspace = .ok graph) (toolchain : Toolchain)
    (roots : List Root)
    (resolved : ∀ root ∈ roots, ∃ target, graph.target root.spelling = .ok target) :
    ∃ labels visit, graph.rootLabels roots = .ok labels ∧ graph.visit labels = .ok visit ∧
      ∀ calls, (∀ label, label ∈ calls ↔ label ∈ visit.eligible) →
        let walked := visit.eligible.foldl Aggregation.addOrder .empty
        (askAll graph toolchain walked calls).LooksLike
          (askAll graph toolchain walked visit.eligible) ∧
        (toolchain.HasTextTemplates →
          computeAll graph toolchain walked calls = .ok (askAll graph toolchain walked calls) ∧
          ∀ workers, lacksWorkers workers visit.eligible = false →
            collect graph roots toolchain workers =
              .ok ⟨visit, askAll graph toolchain walked visit.eligible⟩) := by
  have built := Graph.built_of_ofTargets made
  obtain ⟨names, named⟩ := Graph.exists_names resolved
  have known := Graph.mem_labels_of_names named
  have read := Graph.rootLabels_of_names named
  have walked := built.visit_orderedUnique known
  refine ⟨_, graph.visitOf names, read, walked, fun calls all => ⟨?_, fun texts => ⟨?_, ?_⟩⟩⟩
  · exact looksLike_askAll graph toolchain (built.nodup_eligible known)
      (fun label member => (all label).mp member) all
  · apply computeAll_eq_askAll
    intro label member
    exact texts.exists_entriesOf (built.mem_labels_of_mem_eligible known ((all label).mp member))
  · intro workers enough
    have computed := computeAll_eq_askAll graph toolchain
      ((graph.visitOf names).eligible.foldl Aggregation.addOrder .empty) (graph.visitOf names).eligible
      fun label member => texts.exists_entriesOf (built.mem_labels_of_mem_eligible known member)
    simp only [collect, collectBy, read, walked, ofVisitBy_inTurn, enough, Bool.false_eq_true,
      ↓reduceIte, computed, Except.map]

open Collection in
theorem looksLike_in_any_order_sharing :
    (∃ target, sharing.target "//app" = .ok target) ∧
    ∃ labels visit, sharing.rootLabels [.spelled "//app"] = .ok labels ∧
      sharing.visit labels = .ok visit ∧ visit.eligible = ["//app:app", "//base:base"] ∧
      let walked := visit.eligible.foldl Aggregation.addOrder .empty
      (askAll sharing Toolchain.single walked ["//base:base", "//app:app", "//base:base"]).LooksLike
        (askAll sharing Toolchain.single walked visit.eligible) := by
  have resolved : sharing.target "//app" = .ok
      (.single "//app:app" "cc_binary" "" ["//gen:gen", "@ext//:ext", "//base:base"]) := rfl
  have all : ∀ root ∈ [Root.spelled "//app"],
      ∃ target, sharing.target root.spelling = .ok target := by
    intro root listed
    rw [List.mem_singleton.mp listed]
    exact ⟨_, resolved⟩
  obtain ⟨labels, visit, read, walked, same⟩ :=
    looksLike_in_any_order sharing.targets "" sharing ofTargets_sharing Toolchain.single _ all
  have named : sharing.rootLabels [.spelled "//app"] = .ok ["//app:app"] := rfl
  cases read.symm.trans named
  have order : sharing.preorder [] ["//app:app"] =
      ["//app:app", "//gen:gen", "//base:base", "@ext//:ext"] := by cbv
  have built := Graph.built_of_ofTargets ofTargets_sharing
  have ended := built.visit_eq_extend ["//app:app"] (by decide)
  rw [order] at ended
  cases walked.symm.trans ended
  have eligible : (Visit.empty.extend sharing
      ["//app:app", "//gen:gen", "//base:base", "@ext//:ext"]).eligible =
      ["//app:app", "//base:base"] := by decide
  have asked : ∀ label, label ∈ ["//base:base", "//app:app", "//base:base"] ↔
      label ∈ ["//app:app", "//base:base"] := by simp [or_comm]
  rw [← eligible] at asked
  exact ⟨⟨_, resolved⟩, _, _, read, walked, eligible, (same _ asked).1⟩

end CompileCommands
