import CompileCommands.Proofs.Collection.Sharing
import CompileCommands.Proofs.Graph.Lookup

set_option autoImplicit false

/- Collecting fails for its roots alone. Every look-up of a walk is of a label that some target
depends on, and a target of which no commands can be made is passed over. -/
namespace CompileCommands

theorem Collection.lacksWorkers_eq_false {workers : Option Int} (labels : List String)
    (enough : ∀ count, workers = some count → 1 ≤ count) : lacksWorkers workers labels = false := by
  cases workers with
  | none => rfl
  | some count =>
      have least := enough count rfl
      have positive : ¬ count ≤ 0 := by omega
      simp [lacksWorkers, positive]

/-- With templates that are texts, and at least one worker if their number is given, the answer
depends on whether all roots are found. -/
theorem Toolchain.HasTextTemplates.collect_eq_error_iff {toolchain : Toolchain}
    (texts : toolchain.HasTextTemplates) {graph : Graph} (built : graph.Built) (roots : List Root)
    {workers : Option Int} (enough : ∀ count, workers = some count → 1 ≤ count)
    (failure : Failure) :
    collect graph roots toolchain workers = .error failure ↔
      FailsFirst (fun root => graph.target root.spelling) roots failure := by
  constructor
  · intro failed
    rcases forall_ok_or_failsFirst (fun root => graph.target root.spelling) roots with
      resolved | ⟨other, fails⟩
    · obtain ⟨names, named⟩ := Graph.exists_names resolved
      rw [texts.collect_eq_answer built named, Collection.answer,
        Collection.lacksWorkers_eq_false _ enough] at failed
      contradiction
    · rw [collect, collectBy, Graph.rootLabels_of_failsFirst fails] at failed
      cases failed
      exact fails
  · intro fails
    rw [collect, collectBy, Graph.rootLabels_of_failsFirst fails]

/-- Nothing that the roots reach makes collecting fail, whichever kinds, workspaces, contexts,
actions and tools the targets have or lack, and however the work is shared. It fails exactly if one
of the roots is not found, with what looking up the first such root says; and looking up says whether
the text is no label or the label of no target. -/
theorem collect_fails_exactly_for_roots (targets : List Target) (workspace : String) (graph : Graph)
    (made : Graph.ofTargets targets workspace = .ok graph) (toolchain : Toolchain)
    (texts : toolchain.HasTextTemplates) (roots : List Root) (workers : Option Int)
    (enough : ∀ count, workers = some count → 1 ≤ count) :
    (∀ failure,
      (collect graph roots toolchain workers = .error failure ↔
        FailsFirst (fun root => graph.target root.spelling) roots failure) ∧
      ∀ schedule, collectBy schedule graph roots toolchain workers = .error failure ↔
        FailsFirst (fun root => graph.target root.spelling) roots failure) ∧
    ((∃ failure, collect graph roots toolchain workers = .error failure) ↔
      ∃ root ∈ roots, ∃ failure, graph.target root.spelling = .error failure) ∧
    (∀ (root : Root) (failure : Failure), graph.target root.spelling = .error failure ↔
      root.spelling ∉ graph.labels ∧ graph.NotFound root.spelling failure) ∧
    ((∀ target ∈ targets, target.HasCanonicalLabel) →
      ∀ (root : Root) (failure : Failure), graph.target root.spelling = .error failure ↔
        graph.NotFound root.spelling failure) := by
  obtain ⟨rfl, built⟩ := (Graph.ofTargets_eq_ok_iff targets workspace graph).mp made
  have exactly := texts.collect_eq_error_iff built roots enough
  refine ⟨fun failure => ⟨exactly failure, fun schedule => ?_⟩, ⟨?_, ?_⟩,
    fun root => Graph.target_eq_error_iff root.spelling, ?_⟩
  · rw [(built.sameAnswer_collectBy schedule roots toolchain workers).eq_error_iff]
    exact exactly failure
  · rintro ⟨failure, failed⟩
    obtain ⟨root, listed, missing⟩ := ((exactly failure).mp failed).exists_mem
    exact ⟨root, listed, failure, missing⟩
  · rintro ⟨root, listed, failure, missing⟩
    rcases forall_ok_or_failsFirst (fun root : Root => Graph.target _ root.spelling) roots with
      resolved | ⟨first, fails⟩
    · obtain ⟨target, found⟩ := resolved root listed
      rw [missing] at found
      contradiction
    · exact ⟨first, (exactly first).mpr fails⟩
  · intro canonical root failure
    rw [Graph.target_eq_error_iff]
    exact and_iff_right_of_imp fun missing => missing.not_mem_labels canonical

theorem collect_fails_exactly_for_roots_sharing :
    (∀ count, some (4 : Int) = some count → 1 ≤ count) ∧
    (∀ target ∈ sharing.targets, target.HasCanonicalLabel) ∧
    collect sharing [.spelled "//app", .spelled "//nope", .spelled "nope"] Toolchain.single (some 4) =
      .error (.unknownTarget "//nope") ∧
    sharing.NotFound "//nope" (.unknownTarget "//nope") ∧
    sharing.NotFound "nope" (.description (.label "nope" .notAbsolute)) := by
  have enough : ∀ count, some (4 : Int) = some count → 1 ≤ count := by
    rintro count ⟨⟩
    decide
  have canonical : ∀ target ∈ sharing.targets, target.HasCanonicalLabel := by
    simp only [sharing, List.mem_cons, List.not_mem_nil, or_false]
    rintro target (rfl | rfl | rfl | rfl)
    all_goals rfl
  have texts := hasTextTemplates_default Toolchain.single rfl
  obtain ⟨exactly, _, _, missing⟩ := collect_fails_exactly_for_roots sharing.targets "" sharing
    ofTargets_sharing Toolchain.single texts
    [.spelled "//app", .spelled "//nope", .spelled "nope"] (some 4) enough
  refine ⟨enough, canonical, (exactly _).1.mpr ?_, ?_, ?_⟩
  · refine ⟨[.spelled "//app"], .spelled "//nope", [.spelled "nope"], rfl, ?_, rfl⟩
    intro root listed
    rw [List.mem_singleton.mp listed]
    exact ⟨_, rfl⟩
  · exact (missing canonical (.spelled "//nope") _).mp rfl
  · exact (missing canonical (.spelled "nope") _).mp rfl

end CompileCommands
