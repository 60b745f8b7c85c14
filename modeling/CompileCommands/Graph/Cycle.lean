import CompileCommands.Graph.Generations

set_option autoImplicit false

/- The search for a cycle. From one label after another all edges are walked depth first, each edge
once; along the walk a trail of edges from the start to the current label is kept, which is cut
back whenever the walk returns to an earlier label. The first edge that leads back onto the trail
closes a cycle. Labels from which a whole walk found none are explored, and later walks pass over
the edges that lead to them. -/
namespace CompileCommands.Graph

structure Edge where
  tail : String
  head : String
  deriving DecidableEq, Repr

namespace Dependencies

/-- The number of edges. -/
def size : Dependencies → Nat
  | [] => 0
  | (_, deps) :: rest => deps.length + size rest

/-- Takes the next dependency of a label, if it has one left. -/
def take (label : String) : Dependencies → Option (String × Dependencies)
  | [] => none
  | (other, deps) :: rest =>
      if other = label then
        match deps with
        | [] => none
        | dep :: deps => some (dep, (other, deps) :: rest)
      else
        match take label rest with
        | none => none
        | some (dep, rest) => some (dep, (other, deps) :: rest)

theorem size_take {label dep : String} {table after : Dependencies}
    (taken : table.take label = some (dep, after)) : after.size + 1 = table.size := by
  induction table generalizing after with
  | nil => simp [take] at taken
  | cons entry rest ih =>
      obtain ⟨other, deps⟩ := entry
      unfold take at taken
      split at taken
      · split at taken
        · contradiction
        · cases taken
          simp only [size, List.length_cons]
          omega
      · split at taken
        · contradiction
        · next found =>
            cases taken
            have less := ih found
            simp only [size] at less ⊢
            omega

end Dependencies

/-- The edges in the order of a depth-first walk whose current path, innermost label first, is
`path`. A label goes on with the dependency after the last one taken, however it is reached; the
dependencies that are still to be taken are `untaken`. -/
def walkEdges (untaken : Dependencies) (path : List String) : List Edge :=
  match path with
  | [] => []
  | label :: outer =>
      match _taken : untaken.take label with
      | none => walkEdges untaken outer
      | some (dep, rest) => ⟨label, dep⟩ :: walkEdges rest (dep :: label :: outer)
termination_by (untaken.size, path.length)
decreasing_by
  · exact Prod.Lex.right _ (Nat.lt_succ_self _)
  · have less := Dependencies.size_take _taken
    exact Prod.Lex.left _ _ (by omega)

/-- A walk in progress: its edges from the start to the current label, the last one first, the
label the trail starts at, and the labels seen. -/
structure Trail where
  base : String
  edges : List Edge
  seen : List String

namespace Trail

def start (label : String) : Trail := ⟨label, [], [label]⟩

/-- The labels on the trail. -/
def active (trail : Trail) : List String := trail.edges.map (·.head) ++ [trail.base]

/-- Drops edges, at least one, until the last edge leads to `tail`. -/
def cutBack (tail : String) : List Edge → List Edge
  | [] => []
  | _ :: rest =>
      match rest with
      | [] => []
      | edge :: earlier =>
          if edge.head = tail then edge :: earlier else cutBack tail (edge :: earlier)

/-- The trail up to `tail`, from which the walk goes on. `previous` is the label reached last; the
trail stays as it is if the walk goes on from there, or has not left its start. -/
def resume (trail : Trail) (previous : Option String) (tail : String) : Trail :=
  match previous with
  | none => trail
  | some label =>
      if label = tail then trail
      else
        let edges := cutBack tail trail.edges
        { trail with edges := edges, base := if edges.isEmpty then tail else trail.base }

end Trail

/-- Follows a walk until an edge closes a cycle: either the edges up to and with the closing one,
the last one first, or the labels seen. -/
def followEdges (explored : List String) (trail : Trail) (previous : Option String) :
    List Edge → List Edge ⊕ List String
  | [] => .inr trail.seen
  | edge :: rest =>
      if edge.head ∈ explored then followEdges explored trail previous rest
      else
        let trail := trail.resume previous edge.tail
        if edge.head ∈ trail.active then .inl (edge :: trail.edges)
        else
          followEdges explored
            { trail with edges := edge :: trail.edges, seen := edge.head :: trail.seen }
            (some edge.head) rest

/-- The walks from each label that is not explored yet. -/
def searchCycle (untaken : Dependencies) (explored : List String) : List String → Option (List Edge)
  | [] => none
  | label :: rest =>
      if label ∈ explored then searchCycle untaken explored rest
      else
        match followEdges explored (.start label) none (walkEdges untaken [label]) with
        | .inl edges => some edges
        | .inr seen => searchCycle untaken (explored ++ seen) rest

/-- The labels along a cycle, if a cycle is found. The edges before the
label that the last edge leads to are no part of it. -/
def findCycle (table : Dependencies) : Option (List String) :=
  match searchCycle table [] (table.map (·.1)) with
  | none | some [] => none
  | some (closing :: earlier) =>
      some (((closing :: earlier).reverse.map (·.tail)).dropWhile (· != closing.head))

end CompileCommands.Graph
