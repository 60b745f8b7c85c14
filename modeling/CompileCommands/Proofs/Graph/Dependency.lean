import CompileCommands.Graph.Generations
import Mathlib.Logic.Relation

set_option autoImplicit false

/- The dependencies that a table lists, as a relation between labels, and its cycles. -/
namespace CompileCommands.Graph.Dependencies

/-- Whether the first label depends on the second one. -/
def Depends (table : Dependencies) (label dep : String) : Prop := dep ∈ table.depsOf label

/-- Whether some label depends on itself, through any number of others. -/
def HasCycle (table : Dependencies) : Prop := ∃ label, Relation.TransGen table.Depends label label

variable {table : Dependencies} {label dep : String}

theorem exists_entry_of_depends (edge : table.Depends label dep) :
    ∃ deps, (label, deps) ∈ table ∧ dep ∈ deps := by
  unfold Depends depsOf at edge
  cases found : Table.find? label table with
  | none => simp [found] at edge
  | some deps => exact ⟨deps, Table.mem_of_find? found, by simpa [found] using edge⟩

theorem mem_keys_of_depends (edge : table.Depends label dep) : label ∈ Table.keys table := by
  obtain ⟨_, member, _⟩ := exists_entry_of_depends edge
  exact List.mem_map_of_mem member

theorem mem_heads_of_depends (edge : table.Depends label dep) : dep ∈ table.heads := by
  obtain ⟨_, member, listed⟩ := exists_entry_of_depends edge
  exact List.mem_flatMap.mpr ⟨_, member, listed⟩

theorem depends_iff_of_mem {deps : List String} (distinct : (Table.keys table).Nodup)
    (member : (label, deps) ∈ table) : table.Depends label dep ↔ dep ∈ deps := by
  rw [Depends, depsOf, Table.find?_of_mem distinct member, Option.getD_some]

/-- What depends on itself is depended on by a label that does so too. -/
theorem exists_depends_of_transGen (cycle : Relation.TransGen table.Depends label label) :
    ∃ other, table.Depends other label ∧ Relation.TransGen table.Depends other other := by
  obtain ⟨other, path, edge⟩ := Relation.TransGen.tail'_iff.mp cycle
  exact ⟨other, edge, Relation.TransGen.head' edge path⟩

/-- Along dependencies that go down some rank no label is met again. -/
theorem not_hasCycle_of_rank (rank : String → Nat)
    (descends : ∀ entry ∈ table, ∀ dep ∈ entry.2, rank dep < rank entry.1) : ¬ table.HasCycle := by
  have edges : ∀ label dep, table.Depends label dep → rank dep < rank label := by
    intro label dep edge
    obtain ⟨deps, member, listed⟩ := exists_entry_of_depends edge
    exact descends (label, deps) member dep listed
  rintro ⟨label, cycle⟩
  have paths : ∀ dep, Relation.TransGen table.Depends label dep → rank dep < rank label := by
    intro dep path
    induction path with
    | single edge => exact edges _ _ edge
    | tail _ edge ih => exact Nat.lt_trans (edges _ _ edge) ih
  exact Nat.lt_irrefl _ (paths label cycle)

end CompileCommands.Graph.Dependencies
