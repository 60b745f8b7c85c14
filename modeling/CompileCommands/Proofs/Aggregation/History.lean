import CompileCommands.Aggregation

set_option autoImplicit false

/- What happens to an aggregation while steps are taken, in time. A computation that is needed is
two events, its start and its end; what its nested steps do lies between them. -/
namespace CompileCommands.Aggregation

/-- Something that happens to an aggregation, and what was answered. -/
inductive Event where
  | ordered (label : String)
  /-- Entries that are not there are asked for, and their computation begins. -/
  | started (label : String)
  | finished (label : String) (result : Except String (List Entry))
  /-- Entries are asked for, and no computation is begun. -/
  | answered (label : String) (result : Except String (List Entry))
  | contained (label : String) (answer : Bool)
  | read (label : String) (entries : List Entry)

/-- An event, and the aggregation after it. -/
structure Moment where
  event : Event
  after : Aggregation

def Report.after : Report → Aggregation
  | .ordered after => after
  | .computed after _ _ _ => after
  | .contained after _ => after
  | .entries after _ => after

theorem after_perform (aggregation : Aggregation) (step : Step) :
    (aggregation.perform step).2.after = (aggregation.perform step).1 := by
  cases step with
  | compute label nested outcome =>
      rw [perform]
      split
      · rfl
      · cases outcome <;> rfl
  | _ => rfl

mutual

/-- What happened in a step, as its report tells. -/
def Step.moments (before : Aggregation) : Step → Report → List Moment
  | .addOrder label, .ordered after => [⟨.ordered label, after⟩]
  | .compute label nested _, .computed after result true inner =>
      ⟨.started label, before.lock label⟩ ::
        (moments (before.lock label) nested inner ++ [⟨.finished label result, after⟩])
  | .compute label _ _, .computed after result false _ => [⟨.answered label result, after⟩]
  | .contains label, .contained after answer => [⟨.contained label answer, after⟩]
  | .entriesFor label, .entries after answer => [⟨.read label answer, after⟩]
  | _, _ => []

/-- What happened in steps that were taken one after the other. -/
def moments (before : Aggregation) : List Step → List Report → List Moment
  | step :: steps, report :: reports =>
      step.moments before report ++ moments report.after steps reports
  | _, _ => []

end

mutual

/-- Whether no step asks for the entries of a label whose computation is in progress, which it is
for those that are `active`. -/
def Step.Admissible (active : List String) (before : Aggregation) : Step → Prop
  | .compute label nested _ =>
      label ∉ active ∧
        (before.find? label = none → Admissible (label :: active) (before.lock label) nested)
  | _ => True

def Admissible (active : List String) (before : Aggregation) : List Step → Prop
  | [] => True
  | step :: rest => step.Admissible active before ∧ Admissible active (before.perform step).1 rest

end

mutual

def Step.decideAdmissible (active : List String) (before : Aggregation) :
    (step : Step) → Decidable (step.Admissible active before)
  | .compute label nested _ =>
      have := decideAdmissible (label :: active) (before.lock label) nested
      inferInstanceAs (Decidable (label ∉ active ∧
        (before.find? label = none → Admissible (label :: active) (before.lock label) nested)))
  | .addOrder _ | .contains _ | .entriesFor _ => .isTrue trivial

def decideAdmissible (active : List String) (before : Aggregation) :
    (steps : List Step) → Decidable (Admissible active before steps)
  | [] => .isTrue trivial
  | step :: rest =>
      have := step.decideAdmissible active before
      have := decideAdmissible active (before.perform step).1 rest
      inferInstanceAs (Decidable
        (step.Admissible active before ∧ Admissible active (before.perform step).1 rest))

end

instance (active : List String) (before : Aggregation) (steps : List Step) :
    Decidable (Admissible active before steps) := decideAdmissible active before steps

/-- What can happen next while computations are in progress, the innermost of them first, and those
that are in progress afterwards. -/
inductive Transition : List String → Aggregation → Moment → List String → Prop
  | ordered {active : List String} {before : Aggregation} (label : String) :
      Transition active before ⟨.ordered label, before.addOrder label⟩ active
  | started {active : List String} {before : Aggregation} {label : String}
      (idle : label ∉ active) (absent : before.find? label = none) :
      Transition active before ⟨.started label, before.lock label⟩ (label :: active)
  | failed {active : List String} {before : Aggregation} {label : String} (fault : String) :
      Transition (label :: active) before ⟨.finished label (.error fault), before⟩ active
  | completed {active : List String} {before : Aggregation} {label : String}
      (entries : List Entry) :
      Transition (label :: active) before
        ⟨.finished label (.ok entries), before.store label entries⟩ active
  | answered {active : List String} {before : Aggregation} {label : String}
      {entries : List Entry} (found : before.find? label = some entries) :
      Transition active before ⟨.answered label (.ok entries), before⟩ active
  | contained {active : List String} {before : Aggregation} (label : String) :
      Transition active before ⟨.contained label (before.contains label), before⟩ active
  | read {active : List String} {before : Aggregation} (label : String) :
      Transition active before ⟨.read label (before.entriesFor label), before⟩ active

/-- The states that an aggregation can come to, with all that happened since it was empty. -/
inductive Reached : List Moment → List String → Aggregation → Prop
  | fresh : Reached [] [] .empty
  | next {past : List Moment} {active after : List String} {before : Aggregation} {moment : Moment}
      (reached : Reached past active before) (step : Transition active before moment after) :
      Reached (past ++ [moment]) after moment.after

/-- The state in which something happened. -/
theorem Reached.exists_before {past : List Moment} {active : List String}
    {aggregation : Aggregation} (reached : Reached past active aggregation)
    {earlier later : List Moment} {moment : Moment} (parts : past = earlier ++ moment :: later) :
    ∃ active before after, Reached earlier active before ∧
      Transition active before moment after := by
  induction reached generalizing later with
  | fresh => simp at parts
  | @next past active after before last reached step ih =>
      rcases List.eq_nil_or_concat later with rfl | ⟨rest, final, rfl⟩
      · obtain ⟨rfl, same⟩ := List.append_inj' parts rfl
        cases same
        exact ⟨active, before, after, reached, step⟩
      · rw [List.concat_eq_append, ← List.cons_append, ← List.append_assoc] at parts
        exact ih (List.append_inj' parts rfl).1

theorem Reached.exists_after {past : List Moment} {active : List String}
    {aggregation : Aggregation} (reached : Reached past active aggregation) {moment : Moment}
    (member : moment ∈ past) : ∃ past active, Reached past active moment.after := by
  obtain ⟨earlier, later, parts⟩ := List.append_of_mem member
  obtain ⟨_, _, after, reached, step⟩ := reached.exists_before parts
  exact ⟨earlier ++ [moment], after, reached.next step⟩

/-! What a step does that needs its computation. -/

theorem moments_perform_compute {before : Aggregation} {label : String}
    (absent : before.find? label = none) (nested : List Step)
    (outcome : Except String (List Entry)) :
    (Step.compute label nested outcome).moments before
        (before.perform (.compute label nested outcome)).2 =
      ⟨.started label, before.lock label⟩ ::
        (moments (before.lock label) nested ((before.lock label).performAll nested).2 ++
          [⟨.finished label outcome, (before.perform (.compute label nested outcome)).1⟩]) := by
  rw [perform, absent]
  cases outcome <;> rw [Step.moments]

theorem Transition.finished {before : Aggregation} {label : String}
    (absent : before.find? label = none) (active : List String) (nested : List Step)
    (outcome : Except String (List Entry)) :
    Transition (label :: active) ((before.lock label).performAll nested).1
      ⟨.finished label outcome, (before.perform (.compute label nested outcome)).1⟩ active := by
  cases outcome with
  | error fault =>
      simp only [perform, absent]
      exact .failed fault
  | ok entries =>
      simp only [perform, absent]
      exact .completed entries

/- The induction is on the steps: a computation goes on from its start with its nested steps. -/
mutual

theorem Reached.perform {past : List Moment} {active : List String} {before : Aggregation}
    (reached : Reached past active before) (step : Step)
    (admissible : step.Admissible active before) :
    Reached (past ++ step.moments before (before.perform step).2) active
      (before.perform step).1 := by
  cases step with
  | addOrder label => exact reached.next (.ordered label)
  | contains label => exact reached.next (.contained label)
  | entriesFor label => exact reached.next (.read label)
  | compute label nested outcome =>
      obtain ⟨idle, inside⟩ := admissible
      cases found : before.find? label with
      | some entries =>
          rw [Aggregation.perform, found, Step.moments]
          exact reached.next (.answered found)
      | none =>
          have started := reached.next (.started idle found)
          have ran := started.performAll nested (inside found)
          have ended := ran.next (.finished found active nested outcome)
          rw [moments_perform_compute found, List.append_cons, ← List.append_assoc]
          exact ended

theorem Reached.performAll {past : List Moment} {active : List String} {before : Aggregation}
    (reached : Reached past active before) (steps : List Step)
    (admissible : Admissible active before steps) :
    Reached (past ++ moments before steps (before.performAll steps).2) active
      (before.performAll steps).1 := by
  cases steps with
  | nil =>
      have same : past ++ moments before [] [] = past := List.append_nil past
      rwa [Aggregation.performAll, same]
  | cons step rest =>
      obtain ⟨first, others⟩ := admissible
      have done := (reached.perform step first).performAll rest others
      rw [Aggregation.performAll, moments, after_perform, ← List.append_assoc]
      exact done

end

/-- A computation that fails after another one that it needed, and one that gives no entries. -/
def retried : List Step := [
  .addOrder "//app:app",
  .compute "//app:app" [
    .compute "//lib:lib" [.contains "//app:app"] (.ok [⟨"cc -c lib.c", "/", "lib.c"⟩]),
    .addOrder "//gen:gen"] (.error "no tool"),
  .entriesFor "//lib:lib",
  .compute "//app:app" [.compute "//lib:lib" [] (.error "unused")] (.ok []),
  .compute "//app:app" [] (.ok [⟨"cc -c app.c", "/", "app.c"⟩]),
  .contains "//gen:gen"]

end CompileCommands.Aggregation
