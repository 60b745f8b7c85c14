import CompileCommands.Collection
import CompileCommands.Proofs.FirstFailure

set_option autoImplicit false

/- Workers that have their turns in the order of the labels do what one worker does, which stops at
the first label that fails. -/
namespace CompileCommands.Collection

/-- A computation that does not fail gives entries to whoever asks. -/
theorem exists_getOrCompute_ok {ε : Type} (aggregation : Aggregation) (label : String)
    (nested : Aggregation → Aggregation) (entries : List Entry) :
    ∃ found, (aggregation.getOrCompute label nested (.ok entries : Except ε _)).2 = .ok found := by
  rw [Aggregation.getOrCompute]
  cases aggregation.find? label with
  | some found => exact ⟨found, rfl⟩
  | none => exact ⟨entries, rfl⟩

variable (graph : Graph) (toolchain : Toolchain)

theorem computeAll_eq_askAll (aggregation : Aggregation) (labels : List String)
    (made : ∀ label ∈ labels, ∃ entries, entriesOf graph toolchain label = .ok entries) :
    computeAll graph toolchain aggregation labels =
      .ok (askAll graph toolchain aggregation labels) := by
  induction labels generalizing aggregation with
  | nil => rfl
  | cons label rest ih =>
      obtain ⟨entries, first⟩ := made label (List.mem_cons_self ..)
      obtain ⟨found, answered⟩ :=
        exists_getOrCompute_ok (ε := Failure) aggregation label id entries
      have others := ih (aggregation.getOrCompute label id (entriesOf graph toolchain label)).1
        fun other member => made other (List.mem_cons_of_mem label member)
      rw [← first] at answered
      rw [computeAll]
      split
      · next asked =>
        rw [asked] at answered
        contradiction
      · next after _ asked =>
        rw [asked] at others
        rw [others, askAll, askAll, List.foldl_cons, asked]

variable {graph toolchain}

/-- What one worker tells when computations fail: the failure of the first label, as long as nothing
is stored that could not be computed. -/
theorem computeAll_of_failsFirst {labels : List String} {failure : Failure}
    (fails : FailsFirst (entriesOf graph toolchain) labels failure) (aggregation : Aggregation)
    (stored : ∀ label, aggregation.contains label = true →
      ∃ entries, entriesOf graph toolchain label = .ok entries) :
    computeAll graph toolchain aggregation labels = .error failure := by
  induction labels generalizing aggregation with
  | nil => exact absurd fails (not_failsFirst_nil failure)
  | cons label rest ih =>
      -- What is stored could be computed, so that the first failure is at a label not stored yet.
      rw [computeAll, Aggregation.getOrCompute]
      cases found : aggregation.find? label with
      | some entries =>
          have held : aggregation.contains label = true := by
            rw [Aggregation.contains, found]
            rfl
          obtain ⟨block, able⟩ := stored label held
          rcases (failsFirst_cons_iff label rest failure).mp fails with here | ⟨_, later⟩
          · rw [able] at here
            contradiction
          · exact ih later aggregation stored
      | none =>
          rcases (failsFirst_cons_iff label rest failure).mp fails with
            here | ⟨⟨block, able⟩, later⟩
          · rw [here]
          · rw [able]
            apply ih later
            intro other held
            by_cases same : label = other
            · exact ⟨block, same ▸ able⟩
            · apply stored other
              rw [← held]
              simp [Aggregation.contains, Aggregation.find?, Aggregation.store, Aggregation.lock,
                Table.find?_insert, same]

theorem contains_foldl_addOrder (labels : List String) (aggregation : Aggregation)
    (label : String) :
    (labels.foldl Aggregation.addOrder aggregation).contains label =
      aggregation.contains label := by
  induction labels generalizing aggregation with
  | nil => rfl
  | cons first rest ih =>
      rw [List.foldl_cons, ih, Aggregation.contains, Aggregation.find?,
        Aggregation.entries_addOrder]
      rfl

variable (graph toolchain)

theorem computeBy_inTurn (workers : Option Int) {aggregation : Aggregation} (labels : List String)
    (stored : ∀ label, aggregation.contains label = true →
      ∃ entries, entriesOf graph toolchain label = .ok entries) :
    computeBy .inTurn workers graph toolchain aggregation labels =
      computeAll graph toolchain aggregation labels := by
  rw [computeBy]
  split
  · rw [computeShared]
    rcases forall_ok_or_failsFirst (entriesOf graph toolchain) labels with
      able | ⟨failure, fails⟩
    · obtain ⟨blocks, made⟩ := exists_mapM_eq_ok _ _ able
      rw [made, computeAll_eq_askAll graph toolchain _ _ able]
      rfl
    · rw [(mapM_eq_error_iff ..).mpr fails, computeAll_of_failsFirst fails _ stored]
  · rfl

/-- When everybody has a turn in the order of the labels, it is as if one worker did it all, except
that there may be nobody to do it. -/
theorem ofVisitBy_inTurn (workers : Option Int) (visit : Visit) :
    ofVisitBy .inTurn graph toolchain workers visit =
      if lacksWorkers workers visit.eligible then .error .noWorkers
      else (computeAll graph toolchain (visit.eligible.foldl Aggregation.addOrder .empty)
        visit.eligible).map fun aggregation => ⟨visit, aggregation⟩ := by
  have stored : ∀ label,
      (visit.eligible.foldl Aggregation.addOrder .empty).contains label = true →
        ∃ entries, entriesOf graph toolchain label = .ok entries := by
    intro label held
    rw [contains_foldl_addOrder] at held
    contradiction
  rw [ofVisitBy, computeBy_inTurn graph toolchain workers visit.eligible stored]
  cases computeAll graph toolchain (visit.eligible.foldl Aggregation.addOrder .empty)
    visit.eligible <;> rfl

end CompileCommands.Collection
