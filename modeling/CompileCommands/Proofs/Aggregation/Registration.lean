import CompileCommands.Proofs.Aggregation.ComputeOnce

set_option autoImplicit false

/- In which order the labels of an aggregation stand. A label gets its place once, by whichever happens
first: it is ordered before anyone asked for its entries, or a computation for it succeeds. A label
that is locked without a place is one whose entries were asked for. -/
namespace CompileCommands.Aggregation

instance Event.decidableRequests (label : String) : (event : Event) → Decidable (event.Requests label)
  | .started other | .answered other _ => inferInstanceAs (Decidable (other = label))
  | .ordered _ | .finished _ _ | .contained _ _ | .read _ _ => .isFalse id

/-- Whether anyone has asked for the entries of a label. -/
def Requested (history : List Event) (label : String) : Prop :=
  ∃ event ∈ history, event.Requests label

instance (history : List Event) (label : String) : Decidable (Requested history label) :=
  inferInstanceAs (Decidable (∃ event ∈ history, event.Requests label))

/-- The label that an event registers, after what happened earlier. -/
def Event.registers? (earlier : List Event) : Event → Option String
  | .ordered label => if Requested earlier label then none else some label
  | .finished label (.ok _) => some label
  | _ => none

/-- The labels that events register, in time. -/
def registrationsFrom (earlier : List Event) : List Event → List String
  | [] => []
  | event :: later =>
      (event.registers? earlier).toList ++ registrationsFrom (earlier ++ [event]) later

/-- The labels in the order in which they were registered for the first time. -/
def registered (history : List Event) : List String :=
  orderedUnique (registrationsFrom [] history)

theorem requested_append_iff (history : List Event) (event : Event) (label : String) :
    Requested (history ++ [event]) label ↔ Requested history label ∨ event.Requests label := by
  simp [Requested, or_and_right, exists_or]

theorem registrationsFrom_append (earlier first second : List Event) :
    registrationsFrom earlier (first ++ second) =
      registrationsFrom earlier first ++ registrationsFrom (earlier ++ first) second := by
  induction first generalizing earlier with
  | nil => simp [registrationsFrom]
  | cons event rest ih =>
      rw [List.cons_append, registrationsFrom, registrationsFrom, ih, List.append_assoc,
        List.append_assoc, List.singleton_append]

theorem registered_append (history later : List Event) :
    registered (history ++ later) =
      (registrationsFrom history later).foldl appendNew (registered history) := by
  rw [registered, registered, ← foldl_appendNew_nil, ← foldl_appendNew_nil, registrationsFrom_append,
    List.foldl_append, List.nil_append]

/-- Whatever happens later, a label that is registered keeps its place. -/
theorem registered_prefix (history later : List Event) :
    registered history <+: registered (history ++ later) := by
  rw [registered_append, foldl_appendNew]
  exact List.prefix_append ..

theorem registered_of_none {history : List Event} {event : Event}
    (nothing : event.registers? history = none) :
    registered (history ++ [event]) = registered history := by
  rw [registered_append, registrationsFrom, nothing]
  rfl

theorem registered_of_some {history : List Event} {event : Event} {label : String}
    (something : event.registers? history = some label) :
    registered (history ++ [event]) = appendNew (registered history) label := by
  rw [registered_append, registrationsFrom, something]
  rfl

/-- How places and locks follow from what happened. -/
structure Registers (history : List Event) (aggregation : Aggregation) : Prop where
  order : aggregation.order = registered history
  locks : ∀ label, label ∈ aggregation.locks ↔
    Requested history label ∨ label ∈ aggregation.order

theorem registers_empty : Registers [] empty where
  order := rfl
  locks := by simp [empty, Requested]

namespace Registers

variable {history : List Event} {aggregation : Aggregation} (registers : Registers history aggregation)

include registers

/-- Whoever asks for the entries of a label that is locked leaves all as it was. -/
theorem quiet {event : Event} (nothing : event.registers? history = none)
    (known : ∀ label, event.Requests label → label ∈ aggregation.locks) :
    Registers (history ++ [event]) aggregation where
  order := registers.order.trans (registered_of_none nothing).symm
  locks := by
    intro label
    rw [requested_append_iff, or_right_comm, ← registers.locks]
    exact (or_iff_left_of_imp (known label)).symm

theorem addOrder (label : String) :
    Registers (history ++ [.ordered label]) (aggregation.addOrder label) := by
  have requested (other : String) : Requested (history ++ [.ordered label]) other ↔
      Requested history other := by
    rw [requested_append_iff]
    exact or_iff_left id
  by_cases asked : Requested history label
  · have locked := (registers.locks label).mpr (.inl asked)
    have nothing : Event.registers? history (.ordered label) = none := if_pos asked
    rw [Aggregation.addOrder, if_pos locked]
    exact registers.quiet nothing fun _ => False.elim
  · have something : Event.registers? history (.ordered label) = some label := if_neg asked
    have order : (aggregation.addOrder label).order = appendNew aggregation.order label := by
      rw [order_addOrder]
      split
      · next locked =>
        -- nobody asked for its entries, so that it is locked for having a place
        have placed := ((registers.locks label).mp locked).resolve_left asked
        rw [appendNew_of_mem placed]
      · rfl
    refine ⟨?_, fun other => ?_⟩
    · rw [order, registered_of_some something, registers.order]
    · rw [mem_locks_addOrder, order, mem_appendNew, requested, registers.locks, or_assoc]

theorem lock (label : String) :
    Registers (history ++ [.started label]) (aggregation.lock label) where
  order := registers.order.trans (registered_of_none rfl).symm
  locks := by
    intro other
    have here : Event.Requests other (.started label) ↔ other = label := eq_comm
    rw [mem_locks_lock, requested_append_iff, here, registers.locks, or_right_comm]
    rfl

theorem store {label : String} (locked : label ∈ aggregation.locks) (entries : List Entry) :
    Registers (history ++ [.finished label (.ok entries)]) (aggregation.store label entries) where
  order := by
    rw [registered_of_some rfl, ← registers.order]
    rfl
  locks := by
    intro other
    have here : other ∈ (aggregation.store label entries).order ↔
        other ∈ aggregation.order ∨ other = label := mem_appendNew ..
    have silent : ¬ Event.Requests other (.finished label (.ok entries)) := id
    rw [here, requested_append_iff, or_iff_left silent, ← or_assoc, ← registers.locks]
    refine (or_iff_left_of_imp ?_).symm
    rintro rfl
    exact locked

end Registers

theorem Sound.mem_locks_of_find? {active : List String} {aggregation : Aggregation}
    (sound : Sound active aggregation) {label : String} {entries : List Entry}
    (found : aggregation.find? label = some entries) : label ∈ aggregation.locks := by
  apply sound.locked label
  apply sound.placed label
  rw [mem_keys_iff_contains, contains, found, Option.isSome_some]

theorem Transition.registers {active after : List String} {before : Aggregation} {moment : Moment}
    (step : Transition active before moment after) (sound : Sound active before)
    {history : List Event} (registers : Registers history before) :
    Registers (history ++ [moment.event]) moment.after := by
  cases step with
  | ordered label => exact registers.addOrder label
  | started => exact registers.lock _
  | completed entries => exact registers.store (sound.held _ (List.mem_cons_self ..)) entries
  | answered found =>
      apply registers.quiet rfl
      rintro label rfl
      exact sound.mem_locks_of_find? found
  | failed | contained | read => exact registers.quiet rfl fun _ => False.elim

theorem Reached.registers {past : List Moment} {active : List String} {aggregation : Aggregation}
    (reached : Reached past active aggregation) :
    Registers (past.map (·.event)) aggregation := by
  induction reached with
  | fresh => exact registers_empty
  | next reached step ih =>
      rw [List.map_append]
      exact step.registers reached.sound ih

/-- What an aggregation lists, told by what happened to it. -/
structure InOrder (history : List Event) (aggregation : Aggregation) : Prop where
  order : aggregation.order = registered history
  computed : ∀ label, aggregation.contains label = true ↔
    ∃ entries, .finished label (.ok entries) ∈ history
  labels : aggregation.labels = (registered history).filter aggregation.contains
  flatten : aggregation.flatten = aggregation.labels.flatMap aggregation.entriesFor

theorem Reached.inOrder {past : List Moment} {active : List String} {aggregation : Aggregation}
    (reached : Reached past active aggregation) : InOrder (past.map (·.event)) aggregation where
  order := reached.registers.order
  computed := by
    intro label
    rw [contains, Option.isSome_iff_exists]
    exact exists_congr fun entries => reached.remembers label entries
  labels := by rw [Aggregation.labels, reached.registers.order]
  flatten := reached.sound.consistent.flatten

/-- Whatever steps are taken, with computations that fail and that take steps themselves: the labels
stand in the order in which they were first registered, and those with entries are listed in that
order. So it was whenever something happened, and no label has been moved since. -/
theorem in_order_of_registration (steps : List Step) (admissible : Admissible [] empty steps) :
    let happened := moments empty steps (empty.performAll steps).2
    InOrder (happened.map (·.event)) (empty.performAll steps).1 ∧
      ∀ earlier moment later, happened = earlier ++ moment :: later →
        InOrder ((earlier ++ [moment]).map (·.event)) moment.after ∧
          moment.after.order <+: (empty.performAll steps).1.order := by
  intro happened
  have reached := Reached.fresh.performAll steps admissible
  rw [List.nil_append] at reached
  refine ⟨reached.inOrder, fun earlier moment later parts => ?_⟩
  obtain ⟨_, _, _, before, step⟩ := reached.exists_before parts
  have here := before.next step
  refine ⟨here.inOrder, ?_⟩
  have events : happened.map (·.event) =
      (earlier ++ [moment]).map (·.event) ++ later.map (·.event) := by
    rw [parts, ← List.map_append, List.append_assoc, List.singleton_append]
  rw [here.registers.order, reached.registers.order]
  exact events ▸ registered_prefix ..

/-- A label that is ordered when it is too late, while a computation for it is in progress and after
that has failed. -/
def lateOrdered : List Step := [
  .compute "//app:app" [
    .addOrder "//app:app",
    .compute "//lib:lib" [] (.ok [⟨"cc -c lib.c", "/", "lib.c"⟩])] (.error "no tool"),
  .addOrder "//app:app",
  .addOrder "//gen:gen",
  .compute "//app:app" [] (.ok [⟨"cc -c app.c", "/", "app.c"⟩]),
  .addOrder "//lib:lib"]

theorem in_order_of_registration_late :
    Admissible [] empty lateOrdered ∧
    (empty.performAll lateOrdered).1.order = ["//lib:lib", "//gen:gen", "//app:app"] ∧
    (empty.performAll lateOrdered).1.labels = ["//lib:lib", "//app:app"] := by
  have admissible : Admissible [] empty lateOrdered := by decide
  obtain ⟨listed, _⟩ := in_order_of_registration lateOrdered admissible
  have places : registered ((moments empty lateOrdered
      (empty.performAll lateOrdered).2).map (·.event)) =
      ["//lib:lib", "//gen:gen", "//app:app"] := by decide
  refine ⟨admissible, listed.order.trans places, ?_⟩
  rw [listed.labels, places]
  decide

end CompileCommands.Aggregation
