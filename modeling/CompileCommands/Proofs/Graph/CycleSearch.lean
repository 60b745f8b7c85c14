import CompileCommands.Graph.Cycle
import CompileCommands.Proofs.Graph.Dependency
import Mathlib.Data.List.Chain
import Mathlib.Data.List.Nodup

set_option autoImplicit false

/- The search for a cycle. As long as none is found, the trail of a walk leads along its path: the
path may go on from there through labels that were explored before, whose edges the trail passes
over, and the trail may still hold labels that the walk has left, from which it is cut back at the
next edge. What a walk leaves is settled: all its dependencies are, and it is on no cycle. -/
namespace CompileCommands.Graph

namespace Dependencies

theorem depsOf_of_take_none {table : Dependencies} {label : String}
    (missing : table.take label = none) : table.depsOf label = [] := by
  induction table with
  | nil => rfl
  | cons entry rest ih =>
      obtain ⟨other, deps⟩ := entry
      unfold take at missing
      split at missing
      · next same =>
        split at missing
        · simp [depsOf, Table.find?, same]
        · contradiction
      · next apart =>
        split at missing
        · next left =>
          have below := ih left
          simpa [depsOf, Table.find?, apart] using below
        · contradiction

theorem depsOf_of_take {table after : Dependencies} {label dep : String}
    (taken : table.take label = some (dep, after)) (other : String) :
    table.depsOf other =
      if other = label then dep :: after.depsOf other else after.depsOf other := by
  induction table generalizing after with
  | nil => contradiction
  | cons entry rest ih =>
      obtain ⟨first, deps⟩ := entry
      unfold take at taken
      split at taken
      · next same =>
        split at taken
        · contradiction
        · cases taken
          subst same
          by_cases here : other = first
          · simp [depsOf, Table.find?, here]
          · simp [depsOf, Table.find?, here, Ne.symm here]
      · next apart =>
        split at taken
        · contradiction
        · next found =>
          cases taken
          have below := ih found
          by_cases here : first = other
          · subst here
            simp [depsOf, Table.find?, apart]
          · simpa [depsOf, Table.find?, here] using below

/-- Labels that lead to each other only, none of them on a cycle. -/
structure Settled (table : Dependencies) (labels : List String) : Prop where
  closed : ∀ label ∈ labels, ∀ dep, table.Depends label dep → dep ∈ labels
  acyclic : ∀ label ∈ labels, ¬ Relation.TransGen table.Depends label label

variable {table : Dependencies} {labels : List String} {label : String}

theorem Settled.mem_of_reaches (settled : table.Settled labels) (member : label ∈ labels)
    {last : String} (path : Relation.ReflTransGen table.Depends label last) : last ∈ labels := by
  induction path with
  | refl => exact member
  | tail _ edge ih => exact settled.closed _ ih _ edge

/-- A cycle through a label goes through one of its dependencies. -/
theorem Settled.cons (settled : table.Settled labels)
    (deps : ∀ dep, table.Depends label dep → dep ∈ labels) : table.Settled (label :: labels) := by
  refine ⟨?_, ?_⟩
  · intro other member dep edge
    apply List.mem_cons_of_mem
    rcases List.mem_cons.mp member with rfl | member
    · exact deps dep edge
    · exact settled.closed other member dep edge
  · intro other member cycle
    rcases List.mem_cons.mp member with rfl | member
    · obtain ⟨dep, edge, path⟩ := Relation.TransGen.head'_iff.mp cycle
      exact settled.acyclic other (settled.mem_of_reaches (deps dep edge) path) cycle
    · exact settled.acyclic other member cycle

theorem Settled.of_mem_iff {others : List String} (settled : table.Settled labels)
    (same : ∀ label, label ∈ others ↔ label ∈ labels) : table.Settled others := by
  refine ⟨?_, ?_⟩
  · intro label member dep edge
    exact (same dep).mpr (settled.closed label ((same label).mp member) dep edge)
  · intro label member
    exact settled.acyclic label ((same label).mp member)

/-- Whether each label of a path, from the innermost one on, is a dependency of the next. -/
def IsPath (table : Dependencies) (labels : List String) : Prop :=
  labels.IsChain fun inner outer => table.Depends outer inner

end Dependencies

open Dependencies

/-- The edges of a path, of which the innermost label comes first. -/
def links : List String → List Edge
  | inner :: outer :: rest => ⟨outer, inner⟩ :: links (outer :: rest)
  | _ => []

theorem map_head_links (path : List String) : (links path).map (·.head) = path.dropLast := by
  induction path with
  | nil => rfl
  | cons inner rest ih =>
      cases rest with
      | nil => rfl
      | cons outer rest => simp [links, ih]

theorem map_tail_links (path : List String) : (links path).map (·.tail) = path.tail := by
  induction path with
  | nil => rfl
  | cons inner rest ih =>
      cases rest with
      | nil => rfl
      | cons outer rest => simp [links, ih]

namespace Trail

/-- Whether the edges of a trail are those of a path. -/
structure Along (trail : Trail) (path : List String) : Prop where
  edges : trail.edges = links path
  base : path.getLast? = some trail.base

theorem Along.active_eq {trail : Trail} {path : List String} (along : trail.Along path) :
    trail.active = path := by
  rw [active, along.edges, map_head_links]
  exact List.dropLast_append_getLast? _ along.base

theorem cutBack_links {tail : String} {rest : List String} (left : List String) (filled : left ≠ [])
    (distinct : (left ++ tail :: rest).Nodup) :
    cutBack tail (links (left ++ tail :: rest)) = links (tail :: rest) := by
  induction left with
  | nil => contradiction
  | cons first left ih =>
      cases left with
      | nil => cases rest <;> simp [links, cutBack]
      | cons second left =>
          have more := ih (List.cons_ne_nil second left) (List.nodup_cons.mp distinct).2
          have apart : second ≠ tail := by
            rintro rfl
            simp at distinct
          cases left with
          | nil => simpa [links, cutBack, apart] using more
          | cons third left => simpa [links, cutBack, apart] using more

/-- However far a trail leads beyond a label of it, it is cut back to that label. -/
theorem Along.resume {trail : Trail} {left rest : List String} {tail : String}
    {previous : Option String} (along : trail.Along (left ++ tail :: rest))
    (distinct : (left ++ tail :: rest).Nodup)
    (entered : ∀ label, previous = some label → (left ++ tail :: rest).head? = some label)
    (fresh : previous = none → left = []) :
    (trail.resume previous tail).Along (tail :: rest) ∧
      (trail.resume previous tail).seen = trail.seen := by
  cases previous with
  | none =>
      rw [fresh rfl] at along
      exact ⟨along, rfl⟩
  | some label =>
      have first := entered label rfl
      by_cases same : label = tail
      · have empty : left = [] := by
          cases left with
          | nil => rfl
          | cons other left =>
              simp only [List.cons_append, List.head?_cons, Option.some.injEq] at first
              simp [first, same] at distinct
        rw [empty] at along
        simp only [Trail.resume, same, ↓reduceIte, and_true]
        exact along
      · have filled : left ≠ [] := by
          rintro rfl
          simp only [List.nil_append, List.head?_cons, Option.some.injEq] at first
          exact same first.symm
        have cut : cutBack tail trail.edges = links (tail :: rest) := by
          rw [along.edges, cutBack_links left filled distinct]
        simp only [Trail.resume, same, ↓reduceIte, cut, and_true]
        refine ⟨rfl, ?_⟩
        cases rest with
        | nil => simp [links]
        | cons outer rest => simpa [links] using along.base

end Trail

section

variable {table : Dependencies} {explored path nodes outer : List String} {label dep : String}
  {previous : Option String}

/-- Where a walk is: its path and the nodes of its trail have their outer part in common, in which
no label is explored. The path goes on through explored labels, the trail through labels that the
walk has left. -/
structure Located (table : Dependencies) (explored path nodes : List String)
    (previous : Option String) : Prop where
  split : ∃ passing left shared, path = passing ++ shared ∧ nodes = left ++ shared ∧
    (∀ label ∈ passing, label ∈ explored) ∧ ∀ label ∈ shared, label ∉ explored
  distinct : nodes.Nodup
  linked : table.IsPath nodes
  entered : ∀ label, previous = some label → nodes.head? = some label
  fresh : previous = none → nodes.length = 1

theorem located_start (fresh : label ∉ explored) :
    Located table explored [label] [label] none where
  split := ⟨[], [], [label], rfl, rfl, by simp, by simpa using fresh⟩
  distinct := by simp
  linked := List.isChain_singleton label
  entered := by simp
  fresh := by simp

theorem Located.leave (located : Located table explored (label :: outer) nodes previous) :
    Located table explored outer nodes previous := by
  refine ⟨?_, located.distinct, located.linked, located.entered, located.fresh⟩
  obtain ⟨passing, left, shared, path, trail, known, new⟩ := located.split
  cases passing with
  | nil =>
      rw [List.nil_append] at path
      subst path
      refine ⟨[], left ++ [label], outer, rfl, by simpa using trail, by simp, ?_⟩
      exact fun other member => new other (List.mem_cons_of_mem label member)
  | cons first passing =>
      cases path
      refine ⟨passing, left, shared, rfl, trail, ?_, new⟩
      exact fun other member => known other (List.mem_cons_of_mem label member)

theorem Located.pass (located : Located table explored path nodes previous)
    (known : dep ∈ explored) : Located table explored (dep :: path) nodes previous := by
  refine ⟨?_, located.distinct, located.linked, located.entered, located.fresh⟩
  obtain ⟨passing, left, shared, rfl, trail, before, new⟩ := located.split
  refine ⟨dep :: passing, left, shared, rfl, trail, ?_, new⟩
  intro other member
  rcases List.mem_cons.mp member with rfl | member
  · exact known
  · exact before other member

/-- At a label that is not explored the whole path lies on the trail. -/
theorem Located.on_trail (located : Located table explored (label :: outer) nodes previous)
    (new : label ∉ explored) :
    (∃ left, nodes = left ++ label :: outer ∧ (previous = none → left = [])) ∧
      ∀ other ∈ label :: outer, other ∉ explored := by
  obtain ⟨passing, left, shared, path, trail, known, apart⟩ := located.split
  cases passing with
  | nil =>
      rw [List.nil_append] at path
      subst path
      refine ⟨⟨left, trail, fun start => ?_⟩, apart⟩
      have single := located.fresh start
      rw [trail, List.length_append, List.length_cons] at single
      exact List.length_eq_zero_iff.mp (by omega)
  | cons first passing =>
      cases path
      exact absurd (known label (List.mem_cons_self ..)) new

theorem Located.enter (located : Located table explored (label :: outer) nodes previous)
    (new : label ∉ explored) (edge : table.Depends label dep) (next : dep ∉ explored)
    (apart : dep ∉ label :: outer) :
    Located table explored (dep :: label :: outer) (dep :: label :: outer) (some dep) := by
  obtain ⟨⟨left, trail, _⟩, unexplored⟩ := located.on_trail new
  have distinct := located.distinct
  have linked := located.linked
  rw [trail] at distinct linked
  refine ⟨⟨[], [], dep :: label :: outer, rfl, rfl, by simp, ?_⟩, ?_, ?_, by simp, by simp⟩
  · intro other member
    rcases List.mem_cons.mp member with rfl | member
    · exact next
    · exact unexplored other member
  · exact List.nodup_cons.mpr ⟨apart, (List.nodup_append.mp distinct).2.1⟩
  · exact List.isChain_cons_cons.mpr ⟨edge, (List.isChain_append.mp linked).2.1⟩

/-- What a walk has done: a dependency is still to be taken, or leads to a settled label, or is the
edge by which the path goes on. -/
structure Settling (table : Dependencies) (explored : List String) (untaken : Dependencies)
    (path seen settled : List String) : Prop where
  declared : ∀ label dep, dep ∈ untaken.depsOf label → table.Depends label dep
  taken : ∀ label dep, table.Depends label dep →
    dep ∈ untaken.depsOf label ∨ dep ∈ settled ∨ [dep, label] <:+: path
  grounded : table.Settled settled
  kept : ∀ label ∈ explored, label ∈ settled
  known : ∀ label, label ∈ settled ∨ label ∈ path → label ∈ explored ∨ label ∈ seen
  met : ∀ label ∈ seen, label ∈ settled ∨ label ∈ path

variable {untaken rest : Dependencies} {seen settled : List String}

theorem settling_start (done : table.Settled explored) :
    Settling table explored table [label] [label] explored where
  declared := fun _ _ edge => edge
  taken := fun _ _ edge => .inl edge
  grounded := done
  kept := fun _ member => member
  known := by simp
  met := by simp

/-- A label is settled when the walk leaves it. -/
theorem Settling.leave (settling : Settling table explored untaken (label :: outer) seen settled)
    (bare : untaken.depsOf label = []) (apart : label ∉ settled → label ∉ outer) :
    Settling table explored untaken outer seen (label :: settled) := by
  have deps : ∀ dep, table.Depends label dep → dep ∈ settled := by
    intro dep edge
    by_cases inside : label ∈ settled
    · exact settling.grounded.closed label inside dep edge
    · rcases settling.taken label dep edge with left | old | step
      · rw [bare] at left
        contradiction
      · exact old
      · -- The path goes on from a label only at its one place.
        rcases List.infix_cons_iff.mp step with first | later
        · have next := (List.cons_prefix_cons.mp first).2
          exact absurd (next.subset (List.mem_singleton_self label)) (apart inside)
        · exact absurd (later.subset (by simp)) (apart inside)
  refine ⟨settling.declared, ?_, settling.grounded.cons deps, ?_, ?_, ?_⟩
  · intro other dep edge
    rcases settling.taken other dep edge with left | old | step
    · exact .inl left
    · exact .inr (.inl (List.mem_cons_of_mem label old))
    · rcases List.infix_cons_iff.mp step with first | later
      · have same := (List.cons_prefix_cons.mp first).1
        exact .inr (.inl (same ▸ List.mem_cons_self ..))
      · exact .inr (.inr later)
  · exact fun other member => List.mem_cons_of_mem label (settling.kept other member)
  · intro other member
    apply settling.known
    simp only [List.mem_cons] at member ⊢
    tauto
  · intro other member
    have before := settling.met other member
    simp only [List.mem_cons] at before ⊢
    tauto

theorem Settling.take {more : List String}
    (settling : Settling table explored untaken (label :: outer) seen settled)
    (taken : untaken.take label = some (dep, rest))
    (grown : ∀ other, other ∈ more ↔ other ∈ seen ∨ other = dep ∧ dep ∉ explored) :
    Settling table explored rest (dep :: label :: outer) more settled := by
  have split := depsOf_of_take taken
  refine ⟨?_, ?_, settling.grounded, settling.kept, ?_, ?_⟩
  · intro other one member
    apply settling.declared
    rw [split]
    split
    · exact List.mem_cons_of_mem dep member
    · exact member
  · intro other one edge
    rcases settling.taken other one edge with left | old | step
    · rw [split] at left
      split at left
      · next same =>
        subst same
        rcases List.mem_cons.mp left with rfl | left
        · exact .inr (.inr ⟨[], outer, rfl⟩)
        · exact .inl left
      · exact .inl left
    · exact .inr (.inl old)
    · exact .inr (.inr (List.infix_cons step))
  · intro other member
    rw [grown]
    by_cases new : other = dep
    · subst new
      tauto
    · have before := settling.known other
      simp only [List.mem_cons, new, false_or] at member before ⊢
      tauto
  · intro other member
    rcases (grown other).mp member with old | ⟨rfl, -⟩
    · rcases settling.met other old with inside | before
      · exact .inl inside
      · exact .inr (List.mem_cons_of_mem dep before)
    · exact .inr (List.mem_cons_self ..)

/-- At the end of a walk exactly the labels that it has seen are settled beside those explored. -/
theorem Settling.ended (settling : Settling table explored untaken [] seen settled) :
    table.Settled (explored ++ seen) := by
  apply settling.grounded.of_mem_iff
  intro label
  rw [List.mem_append]
  constructor
  · rintro (old | new)
    · exact settling.kept label old
    · exact (settling.met label new).resolve_right List.not_mem_nil
  · exact fun member => settling.known label (.inl member)

end

/-- The edges of a simple path whose innermost edge leads back onto it. -/
def ClosesCycle (table : Dependencies) (edges : List Edge) : Prop :=
  ∃ dep path, edges = links (dep :: path) ∧ table.IsPath (dep :: path) ∧ path.Nodup ∧ dep ∈ path

/-- What following a walk may answer: a cycle, or labels that are settled now. -/
def FollowedTo (table : Dependencies) (explored seen : List String) :
    List Edge ⊕ List String → Prop
  | .inl edges => ClosesCycle table edges
  | .inr met => table.Settled (explored ++ met) ∧ ∀ label ∈ seen, label ∈ met

theorem FollowedTo.mono {table : Dependencies} {explored seen fewer : List String}
    {answer : List Edge ⊕ List String} (followed : FollowedTo table explored seen answer)
    (part : ∀ label ∈ fewer, label ∈ seen) : FollowedTo table explored fewer answer := by
  cases answer with
  | inl edges => exact followed
  | inr met => exact ⟨followed.1, fun label member => followed.2 label (part label member)⟩

theorem followEdges_walkEdges {table : Dependencies} {explored : List String}
    (done : table.Settled explored) (untaken : Dependencies) (path : List String) :
    ∀ (nodes settled : List String) (trail : Trail) (previous : Option String),
      Located table explored path nodes previous → trail.Along nodes →
      Settling table explored untaken path trail.seen settled →
      FollowedTo table explored trail.seen
        (followEdges explored trail previous (walkEdges untaken path)) := by
  fun_induction walkEdges untaken path with
  | case1 untaken =>
      intro nodes settled trail previous located along settling
      exact ⟨settling.ended, fun _ member => member⟩
  | case2 untaken label outer missing ih =>
      intro nodes settled trail previous located along settling
      refine ih nodes (label :: settled) trail previous located.leave along
        (settling.leave (depsOf_of_take_none missing) fun fresh => ?_)
      obtain ⟨⟨left, trail, _⟩, _⟩ := located.on_trail fun old => fresh (settling.kept label old)
      have distinct := located.distinct
      rw [trail] at distinct
      exact (List.nodup_cons.mp (List.nodup_append.mp distinct).2.1).1
  | case3 untaken label outer dep rest taken ih =>
      intro nodes settled trail previous located along settling
      have edge : table.Depends label dep := by
        apply settling.declared
        simp [depsOf_of_take taken label]
      rw [followEdges]
      by_cases old : dep ∈ explored
      · rw [if_pos old]
        exact ih nodes settled trail previous (located.pass old) along
          (settling.take taken (by simp [old]))
      · rw [if_neg old]
        have new : label ∉ explored := fun known => old (done.closed label known dep edge)
        obtain ⟨⟨left, same, first⟩, _⟩ := located.on_trail new
        subst same
        obtain ⟨resumed, seen⟩ :=
          along.resume located.distinct located.entered first
        have distinct := (List.nodup_append.mp located.distinct).2.1
        have linked := (List.isChain_append.mp located.linked).2.1
        by_cases closing : dep ∈ label :: outer
        · simp only [resumed.active_eq, closing, ↓reduceIte]
          refine ⟨dep, label :: outer, ?_, List.isChain_cons_cons.mpr ⟨edge, linked⟩, distinct,
            closing⟩
          rw [resumed.edges, links]
        · simp only [resumed.active_eq, closing, ↓reduceIte]
          have further := ih (dep :: label :: outer) settled
            { (trail.resume previous label) with
              edges := ⟨label, dep⟩ :: (trail.resume previous label).edges
              seen := dep :: (trail.resume previous label).seen }
            (some dep) (located.enter new edge old closing)
            ⟨by rw [resumed.edges, links], by simpa using resumed.base⟩
            (settling.take taken (by simp [old, seen, or_comm]))
          apply further.mono
          intro other member
          rw [seen]
          exact List.mem_cons_of_mem dep member

theorem followEdges_start {table : Dependencies} {explored : List String} {label : String}
    (done : table.Settled explored) (new : label ∉ explored) :
    FollowedTo table explored [label]
      (followEdges explored (.start label) none (walkEdges table [label])) :=
  followEdges_walkEdges done table [label] [label] explored (.start label) none
    (located_start new) ⟨rfl, rfl⟩ (settling_start done)

/-- A search that finds nothing has settled all labels that it started from. -/
def SearchedTo (table : Dependencies) (labels : List String) : Option (List Edge) → Prop
  | some edges => ClosesCycle table edges
  | none => ∃ settled, table.Settled settled ∧ ∀ label ∈ labels, label ∈ settled

theorem SearchedTo.mono {table : Dependencies} {labels fewer : List String}
    {answer : Option (List Edge)} (searched : SearchedTo table labels answer)
    (part : ∀ label ∈ fewer, label ∈ labels) : SearchedTo table fewer answer := by
  cases answer with
  | some edges => exact searched
  | none =>
      obtain ⟨settled, grounded, inside⟩ := searched
      exact ⟨settled, grounded, fun label member => inside label (part label member)⟩

theorem searchCycle_spec {table : Dependencies} (labels explored : List String)
    (done : table.Settled explored) :
    SearchedTo table (explored ++ labels) (searchCycle table explored labels) := by
  induction labels generalizing explored with
  | nil => exact ⟨explored, done, by simp⟩
  | cons first rest ih =>
      rw [searchCycle]
      split
      · next old =>
        apply (ih explored done).mono
        intro label member
        simp only [List.mem_append, List.mem_cons] at member ⊢
        rcases member with known | rfl | member
        · exact .inl known
        · exact .inl old
        · exact .inr member
      · next new =>
        have followed := followEdges_start done new
        split
        · next edges found => rwa [found] at followed
        · next seen found =>
          rw [found] at followed
          apply (ih (explored ++ seen) followed.1).mono
          intro label member
          simp only [List.mem_append, List.mem_cons] at member ⊢
          rcases member with known | rfl | member
          · exact .inl (.inl known)
          · exact .inl (.inr (followed.2 label (List.mem_singleton_self label)))
          · exact .inr member

/-- Whether labels, all of them different, depend each on the next and the last on the first. -/
def Dependencies.IsSimpleCycle (table : Dependencies) : List String → Prop
  | [] => False
  | first :: rest => (first :: rest).Nodup ∧ (first :: rest ++ [first]).IsChain table.Depends

/-- From the label on to which the last edge leads, the edges make a cycle. -/
theorem ClosesCycle.exists_cycle {table : Dependencies} {edges : List Edge}
    (closes : ClosesCycle table edges) :
    ∃ closing earlier, edges = closing :: earlier ∧
      table.IsSimpleCycle ((edges.reverse.map (·.tail)).dropWhile (· != closing.head)) := by
  obtain ⟨dep, path, rfl, linked, distinct, back⟩ := closes
  obtain ⟨first, rest, rfl⟩ := List.exists_cons_of_ne_nil (List.ne_nil_of_mem back)
  refine ⟨⟨first, dep⟩, links (first :: rest), rfl, ?_⟩
  rw [List.map_reverse, map_tail_links, List.tail_cons]
  obtain ⟨inner, outer, split⟩ := List.append_of_mem back
  rw [split] at distinct linked ⊢
  have onward : (inner ++ dep :: outer).reverse.dropWhile (· != dep) = dep :: inner.reverse := by
    have passed : ∀ label ∈ outer.reverse, (label != dep) = true := by
      intro label member
      rw [bne_iff_ne]
      rintro rfl
      have later := (List.nodup_append.mp distinct).2.1
      exact (List.nodup_cons.mp later).1 (List.mem_reverse.mp member)
    rw [List.reverse_append, List.reverse_cons, List.append_assoc,
      List.dropWhile_append_of_pos passed]
    simp
  have turned : dep :: inner.reverse = (inner ++ [dep]).reverse := by simp
  rw [onward]
  refine ⟨?_, ?_⟩
  · rw [turned, List.nodup_reverse]
    exact distinct.sublist ((List.cons_sublist_cons.mpr (List.nil_sublist outer)).append_left inner)
  · have closed : dep :: inner.reverse ++ [dep] = (dep :: (inner ++ [dep])).reverse := by simp
    rw [closed, List.isChain_reverse]
    have whole : table.IsPath (dep :: (inner ++ [dep]) ++ outer) := by simpa using linked
    exact (List.isChain_append.mp whole).1

/-- Where some label depends on itself a cycle is found, and it is one. -/
theorem exists_findCycle {table : Dependencies} (cycle : table.HasCycle) :
    ∃ labels, findCycle table = some labels ∧ table.IsSimpleCycle labels := by
  have searched := searchCycle_spec (table.map (·.1)) []
    (⟨by simp, by simp⟩ : table.Settled [])
  rw [findCycle]
  cases answer : searchCycle table [] (table.map (·.1)) with
  | none =>
      rw [answer] at searched
      obtain ⟨settled, grounded, inside⟩ := searched
      obtain ⟨label, path⟩ := cycle
      obtain ⟨next, edge, -⟩ := Relation.TransGen.head'_iff.mp path
      exact absurd path (grounded.acyclic label (inside label (mem_keys_of_depends edge)))
  | some edges =>
      rw [answer] at searched
      obtain ⟨closing, earlier, rfl, simple⟩ := searched.exists_cycle
      exact ⟨_, rfl, simple⟩

end CompileCommands.Graph
