import CompileCommands.Proofs.Aggregation.Consistency

set_option autoImplicit false

/- The entries of a label are computed once. An aggregation has entries for those labels for which a
computation succeeded, and it has those that the computation gave; while it has them nothing that
happens can be at odds with them. -/
namespace CompileCommands.Aggregation

/-- Whether something can happen when a label has these entries: they are not computed again, and
whoever asks for them is given them. -/
def Event.Agrees (label : String) (entries : List Entry) : Event → Prop
  | .ordered _ => True
  | .started other => other ≠ label
  | .finished other _ => other ≠ label
  | .answered other result => other = label → result = .ok entries
  | .contained other answer => other = label → answer = true
  | .read other found => other = label → found = entries

/-- Whether the entries of a label are asked for. -/
def Event.Requests (label : String) : Event → Prop
  | .started other | .answered other _ => other = label
  | _ => False

/-- Exactly the labels for which a computation succeeded have entries, those that it gave. -/
def Remembers (history : List Event) (aggregation : Aggregation) : Prop :=
  ∀ label entries, aggregation.find? label = some entries ↔
    .finished label (.ok entries) ∈ history

theorem Sound.ne_of_find? {label other : String} {active : List String} {aggregation : Aggregation}
    (sound : Sound (label :: active) aggregation) {entries : List Entry}
    (known : aggregation.find? other = some entries) : label ≠ other := by
  rintro rfl
  have absent := (Table.find?_eq_none_iff ..).mpr (sound.pending label (List.mem_cons_self ..))
  rw [find?, absent] at known
  contradiction

theorem find?_store (aggregation : Aggregation) (label other : String) (entries : List Entry) :
    (aggregation.store label entries).find? other =
      if label = other then some entries else aggregation.find? other :=
  Table.find?_insert label other entries aggregation.entries

theorem find?_addOrder (aggregation : Aggregation) (label other : String) :
    (aggregation.addOrder label).find? other = aggregation.find? other := by
  rw [addOrder]
  split <;> rfl

theorem Transition.remembers {active after : List String} {before : Aggregation} {moment : Moment}
    (step : Transition active before moment after) (sound : Sound active before)
    {history : List Event} (remembers : Remembers history before) :
    Remembers (history ++ [moment.event]) moment.after := by
  intro label entries
  rw [List.mem_append, ← remembers, List.mem_singleton]
  cases step with
  | completed made =>
      rename_i computed
      rw [find?_store]
      by_cases same : computed = label
      · -- while its computation is in progress a label has no entries, so no success came before
        subst same
        have absent : before.find? computed ≠ some entries :=
          fun known => sound.ne_of_find? known rfl
        simp [absent, eq_comm]
      · simp [same, Ne.symm same]
  | ordered other => simp [find?_addOrder]
  | _ => simp [find?, lock]

theorem Reached.remembers {past : List Moment} {active : List String} {aggregation : Aggregation}
    (reached : Reached past active aggregation) :
    Remembers (past.map (·.event)) aggregation := by
  induction reached with
  | fresh => simp [Remembers, find?, empty, Table.find?]
  | next reached step ih =>
      rw [List.map_append]
      exact step.remembers reached.sound ih

theorem Transition.agrees {active after : List String} {before : Aggregation} {moment : Moment}
    (step : Transition active before moment after) (sound : Sound active before) {label : String}
    {entries : List Entry} (known : before.find? label = some entries) :
    moment.event.Agrees label entries := by
  cases step with
  | ordered => trivial
  | started idle absent =>
      rintro rfl
      rw [absent] at known
      contradiction
  | failed | completed => exact sound.ne_of_find? known
  | answered found =>
      rintro rfl
      rw [Option.some.inj (found.symm.trans known)]
  | contained =>
      rintro rfl
      rw [contains, known, Option.isSome_some]
  | read =>
      rintro rfl
      rw [entriesFor, known, Option.getD_some]

/-- The state in which something happened, and what had happened until then. -/
theorem Reached.exists_state {past : List Moment} {active : List String} {aggregation : Aggregation}
    (reached : Reached past active aggregation) {earlier later : List Event} {event : Event}
    (parts : past.map (·.event) = earlier ++ event :: later) :
    ∃ active before moment after, moment.event = event ∧ Sound active before ∧
      Remembers earlier before ∧ Transition active before moment after := by
  obtain ⟨first, rest, rfl, rfl, others⟩ := List.map_eq_append_iff.mp parts
  obtain ⟨moment, last, rfl, rfl, rfl⟩ := List.map_eq_cons_iff.mp others
  obtain ⟨active, before, after, here, step⟩ := reached.exists_before rfl
  exact ⟨active, before, moment, after, rfl, here.sound, here.remembers, step⟩

theorem Reached.agrees {past : List Moment} {active : List String} {aggregation : Aggregation}
    (reached : Reached past active aggregation) {earlier later : List Event} {event : Event}
    (parts : past.map (·.event) = earlier ++ event :: later) {label : String}
    {entries : List Entry} (computed : .finished label (.ok entries) ∈ earlier) :
    event.Agrees label entries := by
  obtain ⟨_, _, _, _, rfl, sound, remembers, step⟩ := reached.exists_state parts
  exact step.agrees sound ((remembers label entries).mpr computed)

theorem Reached.agrees_of_mem {past : List Moment} {active : List String}
    {aggregation : Aggregation} (reached : Reached past active aggregation)
    {earlier later : List Event} {label : String} {entries : List Entry}
    (parts : past.map (·.event) = earlier ++ .finished label (.ok entries) :: later)
    {event : Event} (member : event ∈ later) : event.Agrees label entries := by
  obtain ⟨between, rest, rfl⟩ := List.append_of_mem member
  rw [← List.cons_append, ← List.append_assoc] at parts
  exact reached.agrees parts (by simp)

/-- A computation is begun for those who ask before one has succeeded, and for nobody else. -/
theorem Reached.started_iff {past : List Moment} {active : List String} {aggregation : Aggregation}
    (reached : Reached past active aggregation) {earlier later : List Event} {event : Event}
    (parts : past.map (·.event) = earlier ++ event :: later) {label : String}
    (requests : event.Requests label) :
    event = .started label ↔ ∀ entries, .finished label (.ok entries) ∉ earlier := by
  constructor
  · rintro rfl entries computed
    exact reached.agrees parts computed rfl
  · intro unfinished
    obtain ⟨_, _, _, _, rfl, _, remembers, step⟩ := reached.exists_state parts
    cases step with
    | started => exact congrArg Event.started requests
    | answered found =>
        cases requests
        exact absurd ((remembers label _).mp found) (unfinished _)
    | _ => exact requests.elim

/-- Whatever steps are taken, with computations that fail and that take steps themselves: at most
one computation for a label succeeds. None is begun after it, and all who ask are given what it
gave; before it everyone who asks for the entries has them computed. -/
theorem computed_once_of_admissible (steps : List Step) (admissible : Admissible [] empty steps) :
    let history := (moments empty steps (empty.performAll steps).2).map (·.event)
    ∀ label,
      (∀ before entries after, history = before ++ .finished label (.ok entries) :: after →
        (∀ other, .finished label (.ok other) ∉ before) ∧
        (∀ result, .finished label result ∉ after) ∧
        .started label ∉ after ∧
        (∀ result, .answered label result ∈ after → result = .ok entries) ∧
        ∀ found, .read label found ∈ after → found = entries) ∧
      ∀ before event after, history = before ++ event :: after → event.Requests label →
        (event = .started label ↔ ∀ entries, .finished label (.ok entries) ∉ before) := by
  intro history label
  have reached := Reached.fresh.performAll steps admissible
  rw [List.nil_append] at reached
  refine ⟨fun before entries after parts => ⟨?_, ?_, ?_, ?_, ?_⟩,
    fun before event after parts requests => reached.started_iff parts requests⟩
  · exact fun other computed => reached.agrees parts computed rfl
  · exact fun result member => reached.agrees_of_mem parts member rfl
  · exact fun member => reached.agrees_of_mem parts member rfl
  · exact fun result member => reached.agrees_of_mem parts member rfl
  · exact fun found member => reached.agrees_of_mem parts member rfl

theorem computed_once_retried :
    Admissible [] empty retried ∧
    ∃ before after,
      (moments empty retried (empty.performAll retried).2).map (·.event) =
        before ++ .finished "//app:app" (.ok []) :: after ∧
      .finished "//app:app" (.error "no tool") ∈ before ∧
      (∀ other, .finished "//app:app" (.ok other) ∉ before) ∧
      .started "//app:app" ∉ after ∧
      ∀ result, .answered "//app:app" result ∈ after → result = .ok [] := by
  have admissible : Admissible [] empty retried := by decide
  have parts : (moments empty retried (empty.performAll retried).2).map (·.event) =
      [.ordered "//app:app", .started "//app:app", .started "//lib:lib",
        .contained "//app:app" false, .finished "//lib:lib" (.ok [⟨"cc -c lib.c", "/", "lib.c"⟩]),
        .ordered "//gen:gen", .finished "//app:app" (.error "no tool"),
        .read "//lib:lib" [⟨"cc -c lib.c", "/", "lib.c"⟩], .started "//app:app",
        .answered "//lib:lib" (.ok [⟨"cc -c lib.c", "/", "lib.c"⟩])] ++
      .finished "//app:app" (.ok []) ::
        [.answered "//app:app" (.ok []), .contained "//gen:gen" false] := rfl
  obtain ⟨once, _, finished, same, _⟩ :=
    (computed_once_of_admissible retried admissible "//app:app").1 _ _ _ parts
  exact ⟨admissible, _, _, parts, by simp, once, finished, same⟩

end CompileCommands.Aggregation
