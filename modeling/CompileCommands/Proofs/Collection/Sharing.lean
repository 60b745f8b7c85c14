import CompileCommands.Proofs.Collection.AnyOrder

set_option autoImplicit false

/- Several workers answer what one worker answers. The labels have their places before the work is
shared, and which failure is told depends on the order of the labels, so that the order in which the
workers have their turns shows nowhere. -/
namespace CompileCommands

namespace Collection

/-- Whether two answers are the same to whoever looks at them from outside: one failure, or
collections of one walk whose aggregations look the same. -/
inductive SameAnswer : Except Failure Collection → Except Failure Collection → Prop
  | failed (failure : Failure) : SameAnswer (.error failure) (.error failure)
  | collected (visit : Visit) {one other : Aggregation} (same : one.LooksLike other) :
      SameAnswer (.ok ⟨visit, one⟩) (.ok ⟨visit, other⟩)

theorem SameAnswer.refl (answer : Except Failure Collection) : SameAnswer answer answer := by
  cases answer with
  | error failure => exact .failed failure
  | ok collection => exact .collected collection.visit (.of_find? rfl rfl rfl rfl)

theorem SameAnswer.eq_error_iff {one other : Except Failure Collection}
    (same : SameAnswer one other) (failure : Failure) :
    one = .error failure ↔ other = .error failure := by
  cases same with
  | failed => rfl
  | collected => simp

variable {graph : Graph} {toolchain : Toolchain}

/-- Which of two schedules the workers keep to makes no difference. -/
theorem sameAnswer_ofVisitBy (schedule other : Schedule) (workers : Option Int) (visit : Visit)
    (distinct : visit.eligible.Nodup) :
    SameAnswer (ofVisitBy schedule graph toolchain workers visit)
      (ofVisitBy other graph toolchain workers visit) := by
  simp only [ofVisitBy, computeBy]
  by_cases lacks : lacksWorkers workers visit.eligible = true
  · rw [if_pos lacks, if_pos lacks]
    exact .failed .noWorkers
  rw [if_neg lacks, if_neg lacks]
  by_cases shared : isShared workers visit.eligible = true
  · simp only [if_pos shared, computeShared]
    cases visit.eligible.mapM (entriesOf graph toolchain) with
    | error failure => exact .failed failure
    | ok blocks =>
        have one := schedule.complete visit.eligible
        have two := other.complete visit.eligible
        exact .collected visit (looksLike_askAll graph toolchain distinct
          (fun label turn => one.mem_iff.mp turn) fun label => one.mem_iff.trans two.mem_iff.symm)
  · simp only [if_neg shared]
    exact .refl _

end Collection

open Collection in
/-- Sharing the work changes no answer. -/
theorem Graph.Built.sameAnswer_collectBy {graph : Graph} (built : graph.Built)
    (schedule : Schedule) (roots : List Root) (toolchain : Toolchain) (workers : Option Int) :
    SameAnswer (collectBy schedule graph roots toolchain workers)
      (collect graph roots toolchain workers) := by
  rcases forall_ok_or_failsFirst (fun root => graph.target root.spelling) roots with
    resolved | ⟨failure, fails⟩
  · obtain ⟨names, named⟩ := Graph.exists_names resolved
    have known := Graph.mem_labels_of_names named
    simp only [collect, collectBy, Graph.rootLabels_of_names named, built.visit_orderedUnique known]
    exact sameAnswer_ofVisitBy schedule .inTurn workers _ (built.nodup_eligible known)
  · simp only [collect, collectBy, Graph.rootLabels_of_failsFirst fails]
    exact .failed failure

end CompileCommands
