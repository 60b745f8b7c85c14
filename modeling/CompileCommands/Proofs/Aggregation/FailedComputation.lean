import CompileCommands.Proofs.Aggregation.ComputeOnce
import CompileCommands.Proofs.Aggregation.Replay
import Mathlib.Data.Fintype.EquivFin

set_option autoImplicit false

/- What a computation that fails leaves behind is the lock of its label. Nobody is answered otherwise
because of it, then or later; but a label that is locked and has no place yet is not given one by
ordering it, so that it stands where it is computed at last. -/
namespace CompileCommands.Aggregation

/-- Two aggregations that may differ in one label only, and in no more than whether it is locked and
where it stands. -/
structure Alike (label : String) (one other : Aggregation) : Prop where
  entries : one.entries = other.entries
  computed : one.computed = other.computed
  locks : ∀ name, name ≠ label → (name ∈ one.locks ↔ name ∈ other.locks)
  order : one.order.filter (· ≠ label) = other.order.filter (· ≠ label)

/-- Two aggregations in which all labels have the same places, although in the second one the lock
of a label may be missing. -/
structure Behind (label : String) (one other : Aggregation) : Prop extends
    Alike label one other where
  places : one.order = other.order
  locked : label ∈ one.locks

theorem filter_appendNew_self (label : String) (names : List String) :
    (appendNew names label).filter (· ≠ label) = names.filter (· ≠ label) := by
  rw [appendNew]
  split
  · rfl
  · simp

theorem filter_appendNew_of_ne {label name : String} (apart : name ≠ label) (names : List String) :
    (appendNew names name).filter (· ≠ label) = appendNew (names.filter (· ≠ label)) name := by
  have inside : name ∈ names.filter (· ≠ label) ↔ name ∈ names := by simp [apart]
  rw [appendNew, appendNew]
  by_cases old : name ∈ names
  · rw [if_pos old, if_pos (inside.mpr old)]
  · rw [if_neg old, if_neg (old ∘ inside.mp), List.filter_append]
    simp [apart]

theorem filter_appendNew_congr {label : String} {one other : List String}
    (same : one.filter (· ≠ label) = other.filter (· ≠ label)) (name : String) :
    (appendNew one name).filter (· ≠ label) = (appendNew other name).filter (· ≠ label) := by
  by_cases here : name = label
  · subst here
    rw [filter_appendNew_self, filter_appendNew_self, same]
  · rw [filter_appendNew_of_ne here, filter_appendNew_of_ne here, same]

theorem filter_order_addOrder_self (aggregation : Aggregation) (label : String) :
    (aggregation.addOrder label).order.filter (· ≠ label) =
      aggregation.order.filter (· ≠ label) := by
  rw [order_addOrder]
  split
  · rfl
  · exact filter_appendNew_self label aggregation.order

namespace Alike

variable {label : String} {one other : Aggregation}

theorem lock (alike : Alike label one other) (name : String) :
    Alike label (one.lock name) (other.lock name) where
  entries := alike.entries
  computed := alike.computed
  locks := by
    intro third apart
    rw [mem_locks_lock, mem_locks_lock, alike.locks third apart]
  order := alike.order

theorem addOrder (alike : Alike label one other) (name : String) :
    Alike label (one.addOrder name) (other.addOrder name) where
  entries := by
    rw [entries_addOrder, entries_addOrder]
    exact alike.entries
  computed := by
    rw [computed_addOrder, computed_addOrder]
    exact alike.computed
  locks := by
    intro third apart
    rw [mem_locks_addOrder, mem_locks_addOrder, alike.locks third apart]
  order := by
    by_cases here : name = label
    · -- at most one of the two gives the label a place, and no other label notices
      subst here
      rw [filter_order_addOrder_self, filter_order_addOrder_self]
      exact alike.order
    · have locks := alike.locks name here
      rw [order_addOrder, order_addOrder]
      by_cases known : name ∈ one.locks
      · rw [if_pos known, if_pos (locks.mp known)]
        exact alike.order
      · rw [if_neg known, if_neg (known ∘ locks.mpr)]
        exact filter_appendNew_congr alike.order name

theorem store (alike : Alike label one other) (name : String) (entries : List Entry) :
    Alike label (one.store name entries) (other.store name entries) where
  entries := congrArg (Table.insert name entries) alike.entries
  computed := congrArg (· + 1) alike.computed
  locks := alike.locks
  order := filter_appendNew_congr alike.order name

theorem apply (alike : Alike label one other) (event : Event) :
    Alike label (event.apply one) (event.apply other) := by
  cases event with
  | ordered name => exact alike.addOrder name
  | started name => exact alike.lock name
  | finished name result =>
      cases result with
      | error fault => exact alike
      | ok entries => exact alike.store name entries
  | answered | contained | read => exact alike

theorem foldl (alike : Alike label one other) (happened : List Event) :
    Alike label (happened.foldl Event.apply one) (happened.foldl Event.apply other) := by
  induction happened generalizing one other with
  | nil => exact alike
  | cons event rest ih => exact ih (alike.apply event)

end Alike

theorem mem_locks_apply {aggregation : Aggregation} {label : String}
    (locked : label ∈ aggregation.locks) (event : Event) :
    label ∈ (event.apply aggregation).locks := by
  cases event with
  | ordered name => exact (mem_locks_addOrder ..).mpr (.inl locked)
  | started name => exact (mem_locks_lock ..).mpr (.inl locked)
  | finished name result => cases result <;> exact locked
  | answered | contained | read => exact locked

namespace Behind

variable {label : String} {one other : Aggregation}

/-- The places stay the same unless the label is ordered while it is locked in one of the two. -/
theorem apply (behind : Behind label one other) {event : Event}
    (level : event = .ordered label → label ∈ other.locks) :
    Behind label (event.apply one) (event.apply other) := by
  refine ⟨behind.toAlike.apply event, ?_, mem_locks_apply behind.locked event⟩
  cases event with
  | ordered name =>
      have locks : name ∈ one.locks ↔ name ∈ other.locks := by
        by_cases here : name = label
        · subst here
          exact iff_of_true behind.locked (level rfl)
        · exact behind.locks name here
      show (one.addOrder name).order = (other.addOrder name).order
      rw [order_addOrder, order_addOrder, behind.places]
      simp only [locks]
  | started name => exact behind.places
  | finished name result =>
      cases result with
      | error fault => exact behind.places
      | ok entries => exact congrArg (appendNew · name) behind.places
  | answered | contained | read => exact behind.places

/-- The lock that is missing is made good when the computation of its label begins. -/
theorem foldl (behind : Behind label one other) (happened : List Event)
    (level : ∀ earlier later, happened = earlier ++ .ordered label :: later →
      label ∈ other.locks ∨ .started label ∈ earlier) :
    Behind label (happened.foldl Event.apply one) (happened.foldl Event.apply other) := by
  induction happened generalizing one other with
  | nil => exact behind
  | cons event rest ih =>
      have here : event = .ordered label → label ∈ other.locks := by
        rintro rfl
        have known := level [] rest rfl
        simpa using known
      apply ih (behind.apply here)
      intro earlier later parts
      have known := level (event :: earlier) later (by rw [parts, List.cons_append])
      rcases known with locked | begun
      · exact .inl (mem_locks_apply locked event)
      · rcases List.mem_cons.mp begun with rfl | begun
        · exact .inl ((mem_locks_lock ..).mpr (.inr rfl))
        · exact .inr begun

theorem looksLike (behind : Behind label one other) : one.LooksLike other := by
  have found : one.find? = other.find? := by
    funext name
    rw [find?, find?, behind.entries]
  have size : one.size = other.size := by
    rw [Aggregation.size, Aggregation.size, behind.entries]
  exact .of_find? found behind.places size behind.computed

end Behind

theorem perform_failed {aggregation : Aggregation} {label : String}
    (absent : aggregation.find? label = none) (fault : String) :
    (aggregation.perform (.compute label [] (.error fault))).1 = aggregation.lock label := by
  rw [perform_compute_of_none absent, performAll]
  rfl

theorem behind_lock (aggregation : Aggregation) (label : String) :
    Behind label (aggregation.lock label) aggregation where
  entries := rfl
  computed := rfl
  locks := by
    intro name apart
    rw [mem_locks_lock]
    simp [apart]
  order := rfl
  places := rfl
  locked := (mem_locks_lock ..).mpr (.inr rfl)

/-- Steps that tell whether a label was locked without a place: it is ordered, and computed after
another one. -/
def overtaking (label other : String) : List Step :=
  [.addOrder label, .compute other [] (.ok []), .compute label [] (.ok [])]

theorem performAll_overtaking {aggregation : Aggregation} {label other : String}
    (absent : aggregation.find? label = none) (new : aggregation.find? other = none)
    (apart : label ≠ other) :
    (aggregation.performAll (overtaking label other)).1 =
      ((((aggregation.addOrder label).lock other).store other []).lock label).store label [] := by
  have first : (aggregation.addOrder label).find? other = none := by
    rw [find?_addOrder, new]
  have second : (((aggregation.addOrder label).lock other).store other []).find? label = none := by
    rw [find?_store, if_neg (Ne.symm apart)]
    exact (find?_addOrder ..).trans absent
  simp only [overtaking, performAll, perform, first, second]

theorem labels_overtaking {aggregation : Aggregation} {label other : String}
    (absent : aggregation.find? label = none) (new : aggregation.find? other = none)
    (apart : label ≠ other) :
    (aggregation.performAll (overtaking label other)).1.labels =
      (appendNew (appendNew (aggregation.addOrder label).order other) label).filter fun name =>
        name = label ∨ name = other ∨ aggregation.contains name := by
  have order : (aggregation.performAll (overtaking label other)).1.order =
      appendNew (appendNew (aggregation.addOrder label).order other) label := by
    rw [performAll_overtaking absent new apart]
    rfl
  rw [labels, order]
  apply List.filter_congr
  intro name _
  rw [contains, performAll_overtaking absent new apart, find?_store]
  by_cases here : label = name
  · simp [here]
  · rw [if_neg here]
    show (Aggregation.find? (((aggregation.addOrder label).lock other).store other []) name).isSome
      = _
    rw [find?_store]
    by_cases there : other = name
    · simp [there]
    · rw [if_neg there]
      show ((aggregation.addOrder label).find? name).isSome = _
      rw [find?_addOrder]
      simp [Ne.symm here, Ne.symm there, contains]

/-- Where a label stands after that depends on whether it was locked before. -/
theorem labels_overtaking_ne {aggregation : Aggregation} {label other : String}
    (placed : ∀ name ∈ aggregation.order, name ∈ aggregation.locks)
    (unlocked : label ∉ aggregation.locks) (fresh : other ∉ aggregation.locks)
    (absent : aggregation.find? label = none) (new : aggregation.find? other = none)
    (apart : label ≠ other) :
    ((aggregation.lock label).performAll (overtaking label other)).1.labels ≠
      (aggregation.performAll (overtaking label other)).1.labels := by
  have label_place : label ∉ aggregation.order := unlocked ∘ placed label
  have other_place : other ∉ aggregation.order := fresh ∘ placed other
  have locked : label ∈ (aggregation.lock label).locks := (mem_locks_lock ..).mpr (.inr rfl)
  have before : appendNew (appendNew (aggregation.addOrder label).order other) label =
      aggregation.order ++ [label, other] := by
    have later : other ∉ aggregation.order ++ [label] := by
      simp [other_place, Ne.symm apart]
    rw [order_addOrder, if_neg unlocked, appendNew_of_not_mem label_place,
      appendNew_of_not_mem later, appendNew_of_mem (by simp), List.append_assoc]
    rfl
  have after : appendNew (appendNew ((aggregation.lock label).addOrder label).order other) label =
      aggregation.order ++ [other, label] := by
    have later : label ∉ aggregation.order ++ [other] := by
      simp [label_place, apart]
    rw [order_addOrder, if_pos locked, lock, appendNew_of_not_mem other_place,
      appendNew_of_not_mem later, List.append_assoc]
    rfl
  intro same
  rw [labels_overtaking absent new apart, @labels_overtaking (aggregation.lock label) label other
    absent new apart, before, after, List.filter_append, List.filter_append] at same
  have rest := List.append_cancel_left same
  simp at rest
  exact apart rest.2

/-- There is always a label to overtake with. -/
theorem Reached.exists_overtaking {past : List Moment} {active : List String}
    {aggregation : Aggregation} (reached : Reached past active aggregation) {label : String}
    (absent : aggregation.find? label = none) (unlocked : label ∉ aggregation.locks) :
    ∃ steps, Admissible active aggregation steps ∧
      ((aggregation.lock label).performAll steps).1.labels ≠
        (aggregation.performAll steps).1.labels := by
  have sound := reached.sound
  obtain ⟨other, outside⟩ :=
    Infinite.exists_notMem_finset (label :: aggregation.locks).toFinset
  rw [List.mem_toFinset, List.mem_cons, not_or] at outside
  obtain ⟨apart, fresh⟩ := outside
  have new : aggregation.find? other = none := by
    apply (Table.find?_eq_none_iff ..).mpr
    intro stored
    exact fresh (sound.locked other (sound.placed other stored))
  have idle : ∀ name, name ∉ aggregation.locks → name ∉ active := by
    intro name free running
    exact free (sound.held name running)
  refine ⟨overtaking label other, ?_, ?_⟩
  · exact ⟨trivial, ⟨idle other fresh, fun _ => trivial⟩, ⟨idle label unlocked, fun _ => trivial⟩,
      trivial⟩
  · exact labels_overtaking_ne sound.locked unlocked fresh absent new (Ne.symm apart)

/-- Whatever is done after a computation has failed that took no steps itself, everybody is answered
as if it had not been tried, and all but the place of its label is the same. The place is the same
too unless the label is ordered before its next computation begins; and no steps at all tell the
failure exactly if the label had been locked before it. -/
theorem failed_computation_leaves_lock (past : List Moment) (active : List String)
    (before : Aggregation) (reached : Reached past active before) (label : String)
    (absent : before.find? label = none) (fault : String) :
    let failed := (before.perform (.compute label [] (.error fault))).1
    (∀ steps, failed.events steps = before.events steps ∧
      Alike label (failed.performAll steps).1 (before.performAll steps).1) ∧
    (∀ steps, (∀ earlier later, before.events steps = earlier ++ .ordered label :: later →
        .started label ∈ earlier) →
      (failed.performAll steps).1.LooksLike (before.performAll steps).1) ∧
    ((∀ steps, Admissible active before steps →
        (failed.performAll steps).1.LooksLike (before.performAll steps).1) ↔
      label ∈ before.locks) := by
  intro failed
  have behind : Behind label failed before := by
    rw [show failed = before.lock label from perform_failed absent fault]
    exact behind_lock before label
  have answers : ∀ steps, failed.events steps = before.events steps := events_congr behind.entries
  have state : ∀ steps, (failed.performAll steps).1 =
      (before.events steps).foldl Event.apply failed := by
    intro steps
    rw [performAll_eq_foldl_events, answers]
  refine ⟨?_, ?_, ?_⟩
  · intro steps
    rw [state, performAll_eq_foldl_events before]
    exact ⟨answers steps, behind.toAlike.foldl _⟩
  · intro steps begun
    rw [state, performAll_eq_foldl_events before]
    exact (behind.foldl _ fun earlier later parts => .inr (begun earlier later parts)).looksLike
  · constructor
    · intro unseen
      by_contra unlocked
      obtain ⟨steps, admissible, told⟩ := reached.exists_overtaking absent unlocked
      rw [← perform_failed absent fault] at told
      exact told (unseen steps admissible).labels
    · intro locked steps _
      rw [state, performAll_eq_foldl_events before]
      exact (behind.foldl _ fun _ _ _ => .inl locked).looksLike

theorem failed_computation_leaves_lock_ordered :
    Reached [⟨.ordered "//app:app", empty.addOrder "//app:app"⟩] [] (empty.addOrder "//app:app") ∧
    (empty.addOrder "//app:app").find? "//app:app" = none ∧
    ∀ steps, Admissible [] (empty.addOrder "//app:app") steps →
      ((((empty.addOrder "//app:app").perform
        (.compute "//app:app" [] (.error "no tool"))).1).performAll steps).1.LooksLike
        ((empty.addOrder "//app:app").performAll steps).1 := by
  have reached := Reached.fresh.next (.ordered "//app:app")
  have absent : (empty.addOrder "//app:app").find? "//app:app" = none := by decide
  have locked : "//app:app" ∈ (empty.addOrder "//app:app").locks := by decide
  obtain ⟨_, _, told⟩ := failed_computation_leaves_lock _ _ _ reached "//app:app" absent "no tool"
  exact ⟨reached, absent, told.mpr locked⟩

/-- A label that is ordered only after a computation for it has failed stands behind one that is
computed in between. -/
theorem overtaken_after_failure :
    let steps : List Step := [.addOrder "//app:app",
      .compute "//lib:lib" [] (.ok [⟨"cc -c lib.c", "/", "lib.c"⟩]),
      .compute "//app:app" [] (.ok [⟨"cc -c app.c", "/", "app.c"⟩])]
    let failed := (empty.perform (.compute "//app:app" [] (.error "no tool"))).1
    Admissible [] empty (.compute "//app:app" [] (.error "no tool") :: steps) ∧
    (empty.performAll steps).1.labels = ["//app:app", "//lib:lib"] ∧
    (failed.performAll steps).1.labels = ["//lib:lib", "//app:app"] ∧
    (empty.performAll steps).1.flatten ≠ (failed.performAll steps).1.flatten := by
  decide

end CompileCommands.Aggregation
