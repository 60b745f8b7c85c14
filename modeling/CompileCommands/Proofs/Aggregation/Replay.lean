import CompileCommands.Proofs.Aggregation.History

set_option autoImplicit false

/- What happens to an aggregation is all that its state depends on. The events themselves follow from
the entries it starts with: whether a computation is needed and what is answered is told by them,
and never by places, locks or the count. -/
namespace CompileCommands.Aggregation

/-- What an event does to an aggregation. -/
def Event.apply (aggregation : Aggregation) : Event → Aggregation
  | .ordered label => aggregation.addOrder label
  | .started label => aggregation.lock label
  | .finished label (.ok entries) => aggregation.store label entries
  | .finished _ (.error _) | .answered _ _ | .contained _ _ | .read _ _ => aggregation

/-- What happens in a step. -/
def Step.events (aggregation : Aggregation) (step : Step) : List Event :=
  (step.moments aggregation (aggregation.perform step).2).map (·.event)

/-- What happens in steps that are taken one after the other. -/
def events (aggregation : Aggregation) (steps : List Step) : List Event :=
  (moments aggregation steps (aggregation.performAll steps).2).map (·.event)

@[simp] theorem events_nil (aggregation : Aggregation) : aggregation.events [] = [] := rfl

theorem events_cons (aggregation : Aggregation) (step : Step) (rest : List Step) :
    aggregation.events (step :: rest) =
      step.events aggregation ++ (aggregation.perform step).1.events rest := by
  rw [events, performAll, moments, List.map_append, after_perform]
  rfl

theorem events_compute_of_none {aggregation : Aggregation} {label : String}
    (absent : aggregation.find? label = none) (nested : List Step)
    (outcome : Except String (List Entry)) :
    (Step.compute label nested outcome).events aggregation =
      .started label :: ((aggregation.lock label).events nested ++ [.finished label outcome]) := by
  rw [Step.events, moments_perform_compute absent, List.map_cons, List.map_append]
  rfl

theorem events_compute_of_some {aggregation : Aggregation} {label : String} {entries : List Entry}
    (found : aggregation.find? label = some entries) (nested : List Step)
    (outcome : Except String (List Entry)) :
    (Step.compute label nested outcome).events aggregation = [.answered label (.ok entries)] := by
  rw [Step.events, perform, found, Step.moments]
  rfl

theorem perform_compute_of_none {aggregation : Aggregation} {label : String}
    (absent : aggregation.find? label = none) (nested : List Step)
    (outcome : Except String (List Entry)) :
    (aggregation.perform (.compute label nested outcome)).1 =
      Event.apply ((aggregation.lock label).performAll nested).1 (.finished label outcome) := by
  rw [perform, absent]
  cases outcome <;> rfl

/- A computation that is needed goes on from its start with its nested steps, so the induction is
on steps and lists of steps together. -/
mutual

theorem perform_eq_foldl_events (aggregation : Aggregation) (step : Step) :
    (aggregation.perform step).1 = (step.events aggregation).foldl Event.apply aggregation := by
  cases step with
  | addOrder label => rfl
  | contains label => rfl
  | entriesFor label => rfl
  | compute label nested outcome =>
      cases found : aggregation.find? label with
      | some entries =>
          rw [events_compute_of_some found, perform, found]
          rfl
      | none =>
          have inner := performAll_eq_foldl_events (aggregation.lock label) nested
          rw [events_compute_of_none found, perform_compute_of_none found, inner,
            List.foldl_cons, List.foldl_append]
          rfl

theorem performAll_eq_foldl_events (aggregation : Aggregation) (steps : List Step) :
    (aggregation.performAll steps).1 =
      (aggregation.events steps).foldl Event.apply aggregation := by
  cases steps with
  | nil => rfl
  | cons step rest =>
      have first := perform_eq_foldl_events aggregation step
      have others := performAll_eq_foldl_events (aggregation.perform step).1 rest
      rw [performAll, events_cons, List.foldl_append, ← first]
      exact others

end

theorem Event.entries_apply {one other : Aggregation} (same : one.entries = other.entries)
    (event : Event) : (event.apply one).entries = (event.apply other).entries := by
  cases event with
  | ordered label => simpa only [apply, entries_addOrder] using same
  | finished label result =>
      cases result with
      | error fault => exact same
      | ok entries => exact congrArg (Table.insert label entries) same
  | _ => exact same

theorem entries_foldl_apply {one other : Aggregation} (same : one.entries = other.entries)
    (happened : List Event) :
    (happened.foldl Event.apply one).entries = (happened.foldl Event.apply other).entries := by
  induction happened generalizing one other with
  | nil => exact same
  | cons event rest ih => exact ih (event.entries_apply same)

mutual

theorem Step.events_congr {one other : Aggregation} (same : one.entries = other.entries)
    (step : Step) : step.events one = step.events other := by
  have looked : ∀ label, one.find? label = other.find? label := by
    intro label
    rw [find?, find?, same]
  cases step with
  | addOrder label => rfl
  | contains label =>
      show [Event.contained label (one.find? label).isSome] = [Event.contained label _]
      rw [looked]
      rfl
  | entriesFor label =>
      show [Event.read label ((one.find? label).getD [])] = [Event.read label _]
      rw [looked]
      rfl
  | compute label nested outcome =>
      cases found : other.find? label with
      | some entries =>
          rw [events_compute_of_some found, events_compute_of_some ((looked label).trans found)]
      | none =>
          have locked : (one.lock label).entries = (other.lock label).entries := same
          rw [events_compute_of_none found, events_compute_of_none ((looked label).trans found),
            events_congr locked nested]

/-- Two aggregations with the same entries answer alike, whatever is done with both of them. -/
theorem events_congr {one other : Aggregation} (same : one.entries = other.entries)
    (steps : List Step) : one.events steps = other.events steps := by
  cases steps with
  | nil => rfl
  | cons step rest =>
      have first := step.events_congr same
      have later : (one.perform step).1.entries = (other.perform step).1.entries := by
        rw [perform_eq_foldl_events, perform_eq_foldl_events, first]
        exact entries_foldl_apply same _
      rw [events_cons, events_cons, first, events_congr later rest]

end

end CompileCommands.Aggregation
