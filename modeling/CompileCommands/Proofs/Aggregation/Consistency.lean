import CompileCommands.Proofs.Aggregation.History
import Mathlib.Data.List.Dedup
import Mathlib.Data.List.Perm.Basic

set_option autoImplicit false

/- Entries, places, locks and the count of an aggregation fit together at any time, also while
computations are in progress. A label whose computation is in progress is locked and has no entries
yet, so that storing them adds one label to all of these. -/
namespace CompileCommands.Aggregation

/-- What the parts of an aggregation have to do with each other. -/
structure Consistent (aggregation : Aggregation) : Prop where
  placed : ∀ label, aggregation.contains label = true → aggregation.order.count label = 1
  distinct : aggregation.order.Nodup
  locked : ∀ label ∈ aggregation.order, label ∈ aggregation.locks
  stored : (Table.keys aggregation.entries).Nodup
  labels : aggregation.labels.Perm (Table.keys aggregation.entries)
  size : aggregation.labels.length = aggregation.size
  computed : aggregation.computed = aggregation.size
  flatten : aggregation.flatten = aggregation.labels.flatMap aggregation.entriesFor

/-- What each event preserves; the computations in progress are `active`. -/
structure Sound (active : List String) (aggregation : Aggregation) : Prop where
  distinct : aggregation.order.Nodup
  locked : ∀ label ∈ aggregation.order, label ∈ aggregation.locks
  placed : ∀ label ∈ Table.keys aggregation.entries, label ∈ aggregation.order
  stored : (Table.keys aggregation.entries).Nodup
  computed : aggregation.computed = aggregation.entries.length
  nested : active.Nodup
  held : ∀ label ∈ active, label ∈ aggregation.locks
  pending : ∀ label ∈ active, label ∉ Table.keys aggregation.entries

theorem mem_keys_iff_contains (aggregation : Aggregation) (label : String) :
    label ∈ Table.keys aggregation.entries ↔ aggregation.contains label = true := by
  rw [contains, ← Option.ne_none_iff_isSome, find?, ne_eq, Table.find?_eq_none_iff, not_not]

theorem flatMap_entriesFor_filter (aggregation : Aggregation) (labels : List String) :
    (labels.filter aggregation.contains).flatMap aggregation.entriesFor =
      labels.flatMap aggregation.entriesFor := by
  induction labels with
  | nil => rfl
  | cons label rest ih =>
      cases known : aggregation.contains label with
      | true => rw [List.filter_cons_of_pos known, List.flatMap_cons, List.flatMap_cons, ih]
      | false =>
          have nothing : aggregation.entriesFor label = [] := by
            rw [contains, Option.isSome_eq_false_iff, Option.isNone_iff_eq_none] at known
            rw [entriesFor, known, Option.getD_none]
          rw [List.filter_cons_of_neg (by simp [known]), List.flatMap_cons, nothing, ih,
            List.nil_append]

theorem Sound.consistent {active : List String} {aggregation : Aggregation}
    (sound : Sound active aggregation) : aggregation.Consistent := by
  have labels : aggregation.labels.Perm (Table.keys aggregation.entries) := by
    refine (List.perm_ext_iff_of_nodup (sound.distinct.filter _) sound.stored).mpr fun label => ?_
    rw [List.mem_filter, ← mem_keys_iff_contains]
    exact and_iff_right_of_imp (sound.placed label)
  refine ⟨?_, sound.distinct, sound.locked, sound.stored, labels, ?_, sound.computed,
    (aggregation.flatMap_entriesFor_filter _).symm⟩
  · intro label known
    have place := sound.placed label ((aggregation.mem_keys_iff_contains label).mpr known)
    exact List.count_eq_one_of_mem sound.distinct place
  · rw [labels.length_eq, Table.keys, List.length_map, size]

theorem sound_empty : Sound [] empty where
  distinct := .nil
  locked := by simp [empty]
  placed := by simp [empty, Table.keys]
  stored := .nil
  computed := rfl
  nested := .nil
  held := by simp
  pending := by simp

namespace Sound

variable {active : List String} {aggregation : Aggregation} {label : String}

theorem addOrder (sound : Sound active aggregation) (label : String) :
    Sound active (aggregation.addOrder label) := by
  rw [Aggregation.addOrder]
  split
  · exact sound
  · exact {
      distinct := nodup_appendNew sound.distinct label
      locked := by
        intro other member
        refine (mem_appendNew ..).mpr (((mem_appendNew ..).mp member).imp_left ?_)
        exact sound.locked other
      placed := fun other member => (mem_appendNew ..).mpr (.inl (sound.placed other member))
      stored := sound.stored
      computed := sound.computed
      nested := sound.nested
      held := fun other member => (mem_appendNew ..).mpr (.inl (sound.held other member))
      pending := sound.pending }

theorem lock (sound : Sound active aggregation) (idle : label ∉ active)
    (absent : aggregation.find? label = none) :
    Sound (label :: active) (aggregation.lock label) where
  distinct := sound.distinct
  locked := fun other member => (mem_appendNew ..).mpr (.inl (sound.locked other member))
  placed := sound.placed
  stored := sound.stored
  computed := sound.computed
  nested := List.nodup_cons.mpr ⟨idle, sound.nested⟩
  held := by
    intro other member
    refine (mem_appendNew ..).mpr ((List.mem_cons.mp member).symm.imp_left ?_)
    exact sound.held other
  pending := by
    intro other member
    rcases List.mem_cons.mp member with rfl | member
    · exact (Table.find?_eq_none_iff ..).mp absent
    · exact sound.pending other member

theorem leave (sound : Sound (label :: active) aggregation) : Sound active aggregation :=
  { sound with
    nested := (List.nodup_cons.mp sound.nested).2
    held := fun other member => sound.held other (List.mem_cons_of_mem label member)
    pending := fun other member => sound.pending other (List.mem_cons_of_mem label member) }

theorem store (sound : Sound (label :: active) aggregation) (entries : List Entry) :
    Sound active (aggregation.store label entries) := by
  have new := sound.pending label (List.mem_cons_self ..)
  have keys : Table.keys (aggregation.store label entries).entries =
      Table.keys aggregation.entries ++ [label] := by
    rw [Aggregation.store, Table.keys_insert, if_neg new]
  exact {
    distinct := nodup_appendNew sound.distinct label
    locked := by
      intro other member
      rcases (mem_appendNew ..).mp member with member | rfl
      · exact sound.locked other member
      · -- the label may get its place only now, but it was locked when its computation began
        exact sound.held other (List.mem_cons_self ..)
    placed := by
      intro other member
      rw [keys, List.mem_append, List.mem_singleton] at member
      exact (mem_appendNew ..).mpr (member.imp_left (sound.placed other))
    stored := Table.nodup_keys_insert label entries _ sound.stored
    computed := by
      have added := congrArg List.length keys
      simp only [Table.keys, List.length_map, List.length_append, List.length_singleton] at added
      rw [added, Aggregation.store, sound.computed]
    nested := sound.leave.nested
    held := sound.leave.held
    pending := by
      intro other member
      rw [keys, List.mem_append, List.mem_singleton, not_or]
      refine ⟨sound.leave.pending other member, ?_⟩
      rintro rfl
      exact (List.nodup_cons.mp sound.nested).1 member }

end Sound

theorem Transition.sound {active after : List String} {before : Aggregation} {moment : Moment}
    (step : Transition active before moment after) (sound : Sound active before) :
    Sound after moment.after := by
  cases step with
  | ordered label => exact sound.addOrder label
  | started idle absent => exact sound.lock idle absent
  | failed => exact sound.leave
  | completed entries => exact sound.store entries
  | answered | contained | read => exact sound

theorem Reached.sound {past : List Moment} {active : List String} {aggregation : Aggregation}
    (reached : Reached past active aggregation) : Sound active aggregation := by
  induction reached with
  | fresh => exact sound_empty
  | next _ step ih => exact step.sound ih

/-- Whatever steps are taken, with computations that fail and that take steps themselves: the
aggregation is consistent after them, and so it was whenever something happened. -/
theorem consistent_of_admissible (steps : List Step) (admissible : Admissible [] empty steps) :
    (empty.performAll steps).1.Consistent ∧
      ∀ moment ∈ moments empty steps (empty.performAll steps).2, moment.after.Consistent := by
  have reached := Reached.fresh.performAll steps admissible
  rw [List.nil_append] at reached
  refine ⟨reached.sound.consistent, fun moment member => ?_⟩
  obtain ⟨_, _, here⟩ := reached.exists_after member
  exact here.sound.consistent

theorem consistent_retried :
    Admissible [] empty retried ∧ (empty.performAll retried).1.Consistent ∧
      ∀ moment ∈ moments empty retried (empty.performAll retried).2, moment.after.Consistent :=
  have admissible : Admissible [] empty retried := by decide
  ⟨admissible, consistent_of_admissible retried admissible⟩

example : (empty.performAll retried).1.labels = ["//app:app", "//lib:lib"] := by decide

end CompileCommands.Aggregation
