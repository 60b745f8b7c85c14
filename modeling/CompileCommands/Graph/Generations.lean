import CompileCommands.OrderedMap

set_option autoImplicit false

/- Topological generations of a dependency table: the first generation are the labels no label
depends on, the next one those that only labels of the first depend on, and so on. Every other label
waits, with the number of labels that are still to come and depend on it; a label that loses the
last of them belongs to the next generation. A table has no cycle exactly if no label waits in the
end. -/
namespace CompileCommands.Graph

/-- Labels, each with the labels it depends on. -/
abbrev Dependencies := Table String (List String)

namespace Dependencies

/-- The labels that some label depends on, as often as one does. -/
def heads (table : Dependencies) : List String := table.flatMap (·.2)

/-- The labels that a label depends on; one that is not in the table depends on none. -/
def depsOf (table : Dependencies) (label : String) : List String :=
  (Table.find? label table).getD []

def firstGeneration (table : Dependencies) : List String :=
  let heads := table.heads
  (Table.keys table).filter (heads.count · = 0)

end Dependencies

/-- The labels that wait, with the number of those they wait for, and the labels that were freed. -/
structure Countdown where
  waiting : Table String Nat
  freed : List String
  deriving DecidableEq, Repr

namespace Countdown

/-- All labels that are not of the first generation wait for those that depend on them. -/
def start (table : Dependencies) : Countdown where
  waiting :=
    let heads := table.heads
    ((Table.keys table).map fun label => (label, heads.count label)).filter (0 < ·.2)
  freed := []

/-- A label waits for one less. It is freed if that was the last. -/
def release (state : Countdown) (label : String) : Countdown :=
  match Table.find? label state.waiting with
  | none => state
  | some count =>
      if count = 1 then
        ⟨Table.erase label state.waiting, state.freed ++ [label]⟩
      else { state with waiting := Table.insert label (count - 1) state.waiting }

/-- Nothing that a label depends on waits for it any more. -/
def settle (table : Dependencies) (state : Countdown) (label : String) : Countdown :=
  (table.depsOf label).foldl release state

theorem size_release_le (state : Countdown) (label : String) :
    (state.release label).waiting.length + (state.release label).freed.length ≤
      state.waiting.length + state.freed.length := by
  unfold release
  split
  · exact Nat.le_refl _
  · next count found =>
    split
    · have less := Table.length_erase_lt found
      simp only [List.length_append, List.length_singleton]
      omega
    · exact Nat.le_of_eq (congrArg (· + _) (Table.length_insert_of_find? found))

theorem size_foldl_release_le (labels : List String) (state : Countdown) :
    (labels.foldl release state).waiting.length + (labels.foldl release state).freed.length ≤
      state.waiting.length + state.freed.length := by
  induction labels generalizing state with
  | nil => exact Nat.le_refl _
  | cons label rest ih =>
      exact Nat.le_trans (ih (state.release label)) (size_release_le state label)

/-- Settles the labels of a generation, one after the other. -/
def settleAll (table : Dependencies) (waiting : Table String Nat) (generation : List String) :
    Countdown :=
  generation.foldl (settle table) ⟨waiting, []⟩

theorem size_foldl_settle_le (table : Dependencies) (labels : List String) (state : Countdown) :
    (labels.foldl (settle table) state).waiting.length +
        (labels.foldl (settle table) state).freed.length ≤
      state.waiting.length + state.freed.length := by
  induction labels generalizing state with
  | nil => exact Nat.le_refl _
  | cons label rest ih =>
      exact Nat.le_trans (ih (state.settle table label))
        (size_foldl_release_le (table.depsOf label) state)

theorem size_settleAll_le (table : Dependencies) (waiting : Table String Nat)
    (generation : List String) :
    (settleAll table waiting generation).waiting.length +
      (settleAll table waiting generation).freed.length ≤ waiting.length :=
  size_foldl_settle_le table generation ⟨waiting, []⟩

/-- Goes through a generation and then through those it frees; gives the labels that still wait. -/
def run (table : Dependencies) (waiting : Table String Nat) (generation : List String) :
    Table String Nat :=
  let after := settleAll table waiting generation
  match _freed : after.freed with
  | [] => after.waiting
  | _ :: _ => run table after.waiting after.freed
termination_by waiting.length
decreasing_by
  have total : after.waiting.length + after.freed.length ≤ waiting.length :=
    size_settleAll_le table waiting generation
  rw [_freed, List.length_cons] at total
  exact Nat.lt_of_lt_of_le (Nat.lt_add_of_pos_right (Nat.succ_pos _)) total

end Countdown

def Dependencies.isAcyclic (table : Dependencies) : Bool :=
  (Countdown.run table (Countdown.start table).waiting table.firstGeneration).isEmpty

end CompileCommands.Graph
