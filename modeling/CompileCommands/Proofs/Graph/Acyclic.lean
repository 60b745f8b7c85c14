import CompileCommands.Proofs.Graph.Dependency
import Mathlib.Data.Fintype.Card
import Mathlib.Data.Fintype.EquivFin
import Mathlib.Data.Fintype.Sets

set_option autoImplicit false

/- What the generations of a dependency table decide. A label is settled with its generation, when
all labels that depend on it are settled; so a label that depends on itself is never settled, and
labels that are never settled wait for each other, which makes a cycle among finitely many. -/
namespace CompileCommands.Graph

/-- Where every one of finitely many elements is preceded by one of them, some element precedes
itself. -/
theorem exists_transGen_self {α : Type} [DecidableEq α] {precedes : α → α → Prop} (xs : List α)
    (filled : xs ≠ []) (preceded : ∀ x ∈ xs, ∃ y ∈ xs, precedes y x) :
    ∃ x, Relation.TransGen precedes x x := by
  by_contra apart
  rw [not_exists] at apart
  let inside : { x // x ∈ xs } → { x // x ∈ xs } → Prop :=
    fun x y => Relation.TransGen precedes x.1 y.1
  have irreflexive : Std.Irrefl inside := ⟨fun x => apart x.1⟩
  have transitive : IsTrans { x // x ∈ xs } inside := ⟨fun _ _ _ => Relation.TransGen.trans⟩
  have founded : WellFounded inside := Finite.wellFounded_of_trans_of_irrefl inside
  have absurd : { x // x ∈ xs } → False := by
    intro x
    induction x using founded.induction with
    | h x before =>
        obtain ⟨y, member, edge⟩ := preceded x.1 x.2
        exact before ⟨y, member⟩ (Relation.TransGen.single edge)
  obtain ⟨first, member⟩ := List.exists_mem_of_ne_nil xs filled
  exact absurd ⟨first, member⟩

namespace Dependencies

/-- The labels that those not yet `done` depend on, as often as one does. -/
def awaited (table : Dependencies) (done : List String) : List String :=
  heads (table.filter (·.1 ∉ done))

variable {table : Dependencies} {label dep : String} {done : List String}

theorem mem_awaited_iff (distinct : (Table.keys table).Nodup) :
    dep ∈ table.awaited done ↔ ∃ label, label ∉ done ∧ table.Depends label dep := by
  simp only [awaited, heads, List.mem_flatMap, List.mem_filter, decide_eq_true_eq]
  constructor
  · rintro ⟨⟨label, deps⟩, ⟨member, waits⟩, listed⟩
    exact ⟨label, waits, (depends_iff_of_mem distinct member).mpr listed⟩
  · rintro ⟨label, waits, edge⟩
    obtain ⟨deps, member, listed⟩ := exists_entry_of_depends edge
    exact ⟨_, ⟨member, waits⟩, listed⟩

theorem awaited_nil (table : Dependencies) : table.awaited [] = table.heads := by
  simp [awaited]

theorem awaited_of_not_mem_keys (absent : label ∉ Table.keys table) :
    table.awaited (label :: done) = table.awaited done := by
  have same : ∀ entry ∈ table, decide (entry.1 ∉ label :: done) = decide (entry.1 ∉ done) := by
    intro entry member
    have other : entry.1 ≠ label := by
      rintro rfl
      exact absent (List.mem_map_of_mem member)
    simp [other]
  rw [awaited, List.filter_congr same, awaited]

/-- With a label its own dependencies are no longer awaited, each once less. -/
theorem awaited_perm (distinct : (Table.keys table).Nodup) (known : label ∈ Table.keys table)
    (waits : label ∉ done) :
    (table.awaited done).Perm (table.depsOf label ++ table.awaited (label :: done)) := by
  induction table with
  | nil => contradiction
  | cons entry rest ih =>
      obtain ⟨other, deps⟩ := entry
      obtain ⟨new, distinct⟩ := List.nodup_cons.mp distinct
      by_cases same : other = label
      · subst same
        have here : depsOf ((other, deps) :: rest) other = deps := by simp [depsOf, Table.find?]
        have now : awaited ((other, deps) :: rest) done = deps ++ awaited rest done := by
          simp [awaited, heads, waits]
        have later : awaited ((other, deps) :: rest) (other :: done) = awaited rest done := by
          rw [← awaited_of_not_mem_keys new]
          simp [awaited]
        rw [here, now, later]
      · have known : label ∈ Table.keys rest :=
          (List.mem_cons.mp known).resolve_left (Ne.symm same)
        have below : depsOf ((other, deps) :: rest) label = depsOf rest label := by
          simp [depsOf, Table.find?, same]
        rw [below]
        have step : ∀ before, awaited ((other, deps) :: rest) before =
            (if other ∈ before then [] else deps) ++ awaited rest before := by
          intro before
          by_cases old : other ∈ before <;> simp [awaited, heads, old]
        have still : other ∈ label :: done ↔ other ∈ done := by simp [same]
        rw [step, step, ← List.append_assoc]
        simp only [still]
        calc (if other ∈ done then [] else deps) ++ awaited rest done
          _ |>.Perm ((if other ∈ done then [] else deps) ++
                (depsOf rest label ++ awaited rest (label :: done))) :=
            (ih distinct known).append_left _
          _ |>.Perm _ := by
            rw [← List.append_assoc]
            exact List.perm_append_comm.append_right _

end Dependencies

namespace Countdown

open Dependencies

variable {table : Dependencies}

/-- Whether labels wait for as many others as they occur among those that are still to be
released. -/
def Tallies (waiting : Table String Nat) (pending : List String) : Prop :=
  ∀ label, Table.find? label waiting =
    if label ∈ pending then some (pending.count label) else none

theorem Tallies.of_perm {waiting : Table String Nat} {pending other : List String}
    (tallies : Tallies waiting pending) (same : pending.Perm other) : Tallies waiting other := by
  intro label
  rw [tallies label, same.count_eq]
  simp only [same.mem_iff]

theorem Tallies.release {state : Countdown} {label : String} {rest : List String}
    (tallies : Tallies state.waiting (label :: rest)) :
    Tallies (state.release label).waiting rest ∧
      (state.release label).freed =
        if label ∈ rest then state.freed else state.freed ++ [label] := by
  have found : Table.find? label state.waiting = some (rest.count label + 1) := by
    rw [tallies label, if_pos (List.mem_cons_self ..), List.count_cons_self]
  have others : ∀ other, other ≠ label → Table.find? other state.waiting =
      if other ∈ rest then some (rest.count other) else none := by
    intro other apart
    rw [tallies other, List.count_cons_of_ne (Ne.symm apart)]
    simp [apart]
  by_cases more : label ∈ rest
  · have left : rest.count label + 1 ≠ 1 := by
      have positive := List.count_pos_iff.mpr more
      omega
    simp only [Countdown.release, found, left, more, ↓reduceIte, Nat.add_sub_cancel, and_true]
    intro other
    rw [Table.find?_insert]
    split
    · next same => rw [← same, if_pos more]
    · next apart => exact others other (Ne.symm apart)
  · have last : rest.count label + 1 = 1 := by rw [List.count_eq_zero_of_not_mem more]
    simp only [Countdown.release, found, last, more, ↓reduceIte, and_true]
    intro other
    rw [Table.find?_erase]
    split
    · next same => rw [← same, if_neg more]
    · next apart => exact others other (Ne.symm apart)

/-- Some labels are released and others are still pending. Freed are, beside those that were freed
`before`, the released labels that are not pending again. -/
structure Releasing (before released pending : List String) (state : Countdown) : Prop where
  tallies : Tallies state.waiting pending
  distinct : state.freed.Nodup
  apart : ∀ label ∈ before, label ∉ pending
  freed : ∀ label, label ∈ state.freed ↔ label ∈ before ∨ label ∈ released ∧ label ∉ pending

theorem Releasing.step {before released rest : List String} {first : String} {state : Countdown}
    (releasing : Releasing before released (first :: rest) state) :
    Releasing before (first :: released) rest (state.release first) := by
  obtain ⟨tallies, freed⟩ := releasing.tallies.release
  have apart : ∀ label ∈ before, label ∉ rest := by
    intro label member again
    exact releasing.apart label member (List.mem_cons_of_mem first again)
  have new : first ∉ state.freed := by
    rw [releasing.freed]
    rintro (old | ⟨-, last⟩)
    · exact releasing.apart first old (List.mem_cons_self ..)
    · exact last (List.mem_cons_self ..)
  by_cases more : first ∈ rest
  · rw [if_pos more] at freed
    refine ⟨tallies, freed ▸ releasing.distinct, apart, fun label => ?_⟩
    rw [freed, releasing.freed]
    by_cases same : label = first
    · simp [same, more]
    · simp [same]
  · rw [if_neg more] at freed
    refine ⟨tallies, ?_, apart, fun label => ?_⟩
    · rw [freed]
      exact List.nodup_append.mpr ⟨releasing.distinct, by simp, by
        rintro one member two single rfl
        exact new (List.mem_singleton.mp single ▸ member)⟩
    · rw [freed, List.mem_append, List.mem_singleton, releasing.freed]
      by_cases same : label = first
      · simp [same, more]
      · simp [same]

theorem Releasing.foldl {before rest : List String} (labels : List String) :
    ∀ (released : List String) (state : Countdown),
      Releasing before released (labels ++ rest) state →
      Releasing before (labels.reverse ++ released) rest (labels.foldl release state) := by
  induction labels with
  | nil => exact fun _ _ releasing => releasing
  | cons first labels ih =>
      intro released state releasing
      simpa using ih (first :: released) (state.release first) releasing.step

/-- How far a countdown has come: the labels `done` are settled, those of `todo` are next, and every
label that is not among them or freed is awaited by one that is not done. What is settled is on no
cycle. -/
structure Progress (table : Dependencies) (done todo : List String) (state : Countdown) : Prop where
  tallies : Tallies state.waiting (table.awaited done)
  distinct : (done ++ todo ++ state.freed).Nodup
  settled : ∀ label ∈ done ++ todo ++ state.freed, label ∈ Table.keys table ∧
    label ∉ table.awaited done ∧ ¬ Relation.TransGen table.Depends label label
  covered : ∀ label ∈ Table.keys table,
    label ∈ done ++ todo ++ state.freed ∨ label ∈ table.awaited done

theorem progress_start (distinct : (Table.keys table).Nodup)
    (closed : ∀ dep ∈ table.heads, dep ∈ Table.keys table) :
    Progress table [] table.firstGeneration (start table) := by
  have first : ∀ label, label ∈ [] ++ table.firstGeneration ++ (start table).freed ↔
      label ∈ Table.keys table ∧ label ∉ table.awaited [] := by
    intro label
    simp [firstGeneration, start, awaited_nil, List.count_eq_zero]
  refine ⟨fun label => ?_, ?_, ?_, ?_⟩
  · rw [start, List.filter_map, awaited_nil, Table.find?_map_self]
    by_cases head : label ∈ table.heads
    · simp [head, closed label head]
    · simp [head]
  · simpa [firstGeneration, start] using distinct.filter _
  · intro label member
    obtain ⟨known, free⟩ := (first label).mp member
    refine ⟨known, free, fun cycle => free ?_⟩
    obtain ⟨other, edge, _⟩ := exists_depends_of_transGen cycle
    exact (mem_awaited_iff distinct).mpr ⟨other, List.not_mem_nil, edge⟩
  · intro label known
    by_cases free : label ∈ table.awaited []
    · exact .inr free
    · exact .inl ((first label).mpr ⟨known, free⟩)

/-- What is still awaited when a label is settled is what was awaited before without its
dependencies. -/
theorem Progress.awaited_perm (unique : (Table.keys table).Nodup) {done rest : List String}
    {label : String} {state : Countdown} (progress : Progress table done (label :: rest) state) :
    (table.awaited done).Perm (table.depsOf label ++ table.awaited (label :: done)) := by
  have here : label ∈ done ++ (label :: rest) ++ state.freed := by simp
  have waits : label ∉ done := by
    intro old
    have apart := (List.nodup_append.mp (List.nodup_append.mp progress.distinct).1).2.2
    exact apart label old label (List.mem_cons_self ..) rfl
  exact Dependencies.awaited_perm unique (progress.settled label here).1 waits

theorem Progress.releasing (unique : (Table.keys table).Nodup) {done rest : List String}
    {label : String} {state : Countdown} (progress : Progress table done (label :: rest) state) :
    Releasing state.freed (table.depsOf label).reverse (table.awaited (label :: done))
      (state.settle table label) := by
  have split := progress.awaited_perm unique
  have begun : Releasing state.freed [] (table.depsOf label ++ table.awaited (label :: done))
      state := by
    refine ⟨progress.tallies.of_perm split, ?_, ?_, by simp⟩
    · exact (List.nodup_append.mp progress.distinct).2.1
    · intro other member
      rw [← split.mem_iff]
      exact (progress.settled other (List.mem_append_right _ member)).2.1
  have ended := begun.foldl (table.depsOf label)
  rwa [List.append_nil] at ended

/-- Settling a label frees those of its dependencies that nothing else waits for. -/
theorem Progress.settle (unique : (Table.keys table).Nodup)
    (closed : ∀ dep ∈ table.heads, dep ∈ Table.keys table) {done rest : List String}
    {label : String} {state : Countdown} (progress : Progress table done (label :: rest) state) :
    Progress table (label :: done) rest (state.settle table label) := by
  have split := progress.awaited_perm unique
  have after := progress.releasing unique
  have listed : ∀ other, other ∈ (label :: done) ++ rest ++ (state.settle table label).freed ↔
      other ∈ done ++ (label :: rest) ++ state.freed ∨
        other ∈ table.depsOf label ∧ other ∉ table.awaited (label :: done) := by
    intro other
    simp only [List.mem_append, List.mem_cons, after.freed, List.mem_reverse]
    tauto
  refine ⟨after.tallies, ?_, ?_, ?_⟩
  · have parts := List.nodup_append.mp progress.distinct
    refine List.nodup_append.mpr ⟨?_, after.distinct, ?_⟩
    · exact List.perm_middle.nodup_iff.mp parts.1
    · rintro one member two again rfl
      have before : one ∈ done ++ label :: rest := List.perm_middle.mem_iff.mpr member
      rcases (after.freed one).mp again with old | ⟨dep, -⟩
      · exact parts.2.2 one before one old rfl
      · apply (progress.settled one (List.mem_append_left _ before)).2.1
        rw [split.mem_iff]
        exact List.mem_append_left _ (by simpa using dep)
  · intro other member
    rcases (listed other).mp member with inside | ⟨dep, free⟩
    · obtain ⟨known, free, single⟩ := progress.settled other inside
      refine ⟨known, fun waiting => free ?_, single⟩
      exact split.mem_iff.mpr (List.mem_append_right _ waiting)
    · -- a label of a cycle is awaited by the one before it, which is never settled
      refine ⟨closed other (mem_heads_of_depends dep), free, fun cycle => ?_⟩
      obtain ⟨before, edge, cycle⟩ := exists_depends_of_transGen cycle
      apply free
      refine (mem_awaited_iff unique).mpr ⟨before, fun settled => ?_, edge⟩
      refine (progress.settled before ?_).2.2 cycle
      exact List.mem_append_left _ (List.perm_middle.mem_iff.mpr (List.mem_append_left _ settled))
  · intro other known
    rw [listed]
    rcases progress.covered other known with inside | waiting
    · exact .inl (.inl inside)
    · rcases List.mem_append.mp (split.mem_iff.mp waiting) with dep | waiting
      · by_cases more : other ∈ table.awaited (label :: done)
        · exact .inr more
        · exact .inl (.inr ⟨dep, more⟩)
      · exact .inr waiting

theorem Progress.settleAll (unique : (Table.keys table).Nodup)
    (closed : ∀ dep ∈ table.heads, dep ∈ Table.keys table) (todo : List String) :
    ∀ (done : List String) (state : Countdown), Progress table done todo state →
      ∃ settled, Progress table settled [] (todo.foldl (Countdown.settle table) state) := by
  induction todo with
  | nil => exact fun done state progress => ⟨done, progress⟩
  | cons label rest ih =>
      intro done state progress
      exact ih (label :: done) (state.settle table label) (progress.settle unique closed)

/-- With a whole generation settled the freed labels are the next one. -/
theorem Progress.next {done : List String} {state : Countdown}
    (progress : Progress table done [] state) :
    Progress table done state.freed ⟨state.waiting, []⟩ := by
  obtain ⟨tallies, distinct, settled, covered⟩ := progress
  simp only [List.append_nil] at distinct settled covered
  exact ⟨tallies, by simpa using distinct, by simpa using settled, by simpa using covered⟩

theorem Progress.run (unique : (Table.keys table).Nodup)
    (closed : ∀ dep ∈ table.heads, dep ∈ Table.keys table) {done generation : List String}
    {waiting : Table String Nat} (progress : Progress table done generation ⟨waiting, []⟩) :
    ∃ settled, Progress table settled [] ⟨Countdown.run table waiting generation, []⟩ := by
  fun_induction Countdown.run table waiting generation generalizing done with
  | case1 waiting generation after =>
      rename_i nothing
      obtain ⟨settled, last⟩ := Progress.settleAll unique closed generation done _ progress
      have ended : Progress table settled after.freed ⟨after.waiting, []⟩ := last.next
      exact ⟨settled, nothing ▸ ended⟩
  | case2 waiting generation after =>
      rename_i ih
      obtain ⟨settled, last⟩ := Progress.settleAll unique closed generation done _ progress
      exact ih last.next

/-- At the end of a countdown no label waits exactly if none depends on itself. -/
theorem Progress.waiting_eq_nil_iff (unique : (Table.keys table).Nodup) {settled : List String}
    {waiting : Table String Nat} (last : Progress table settled [] ⟨waiting, []⟩) :
    waiting = [] ↔ ¬ table.HasCycle := by
  have covered : ∀ label ∈ Table.keys table, label ∈ settled ∨ label ∈ table.awaited settled := by
    simpa using last.covered
  constructor
  · rintro rfl ⟨label, cycle⟩
    obtain ⟨next, edge, -⟩ := Relation.TransGen.head'_iff.mp cycle
    rcases covered label (mem_keys_of_depends edge) with inside | waits
    · exact (last.settled label (by simpa using inside)).2.2 cycle
    · have found := last.tallies label
      rw [if_pos waits] at found
      contradiction
  · intro acyclic
    by_contra left
    refine acyclic (exists_transGen_self (table.awaited settled) ?_ ?_)
    · cases waiting with
      | nil => contradiction
      | cons entry rest =>
          intro free
          have found := last.tallies entry.1
          simp [Table.find?, free] at found
    · intro dep waits
      obtain ⟨label, fresh, edge⟩ := (mem_awaited_iff unique).mp waits
      exact ⟨label, (covered label (mem_keys_of_depends edge)).resolve_left fresh, edge⟩

end Countdown

/-- A table of distinct labels with known dependencies has no cycle exactly if its generations take
up all labels. -/
theorem Dependencies.isAcyclic_iff (table : Dependencies) (unique : (Table.keys table).Nodup)
    (closed : ∀ dep ∈ table.heads, dep ∈ Table.keys table) :
    table.isAcyclic = true ↔ ¬ table.HasCycle := by
  obtain ⟨settled, last⟩ := (Countdown.progress_start unique closed).run unique closed
  rw [isAcyclic, List.isEmpty_iff]
  exact last.waiting_eq_nil_iff unique

end CompileCommands.Graph
