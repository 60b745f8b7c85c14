import CompileCommands.Proofs.Collection.RootNames
import CompileCommands.Proofs.Synthesis.TargetEntries

set_option autoImplicit false

/- A list without its repetitions is told by three things: nothing stands in it twice, it has the same
elements, and they stand in the order of their first places. Repetitions are found in a set of what
was seen, in a table with the elements as keys, or in the list that is made; the three give the same. -/
namespace CompileCommands

variable {α : Type} [DecidableEq α]

/-- Whether a list has each element of `xs` once, in the order of the first places. -/
structure KeepsFirsts (xs kept : List α) : Prop where
  distinct : kept.Nodup
  same : ∀ x, x ∈ kept ↔ x ∈ xs
  inOrder : kept.Pairwise fun x y => xs.idxOf x < xs.idxOf y

theorem keepsFirsts_orderedUnique (xs : List α) : KeepsFirsts xs (orderedUnique xs) where
  distinct := nodup_orderedUnique xs
  same := mem_orderedUnique xs
  inOrder := pairwise_idxOf_orderedUnique xs

theorem KeepsFirsts.eq {xs kept others : List α} (one : KeepsFirsts xs kept)
    (other : KeepsFirsts xs others) : kept = others := by
  have perm : kept.Perm others := by
    apply (List.perm_ext_iff_of_nodup one.distinct other.distinct).mpr
    intro x
    rw [one.same, other.same]
  -- No two elements stand before each other, so that there is one order only.
  apply perm.eq_of_pairwise _ one.inOrder other.inOrder
  intro x y _ _ before after
  exact absurd after (Nat.lt_asymm before)

theorem keepsFirsts_iff (xs kept : List α) : KeepsFirsts xs kept ↔ kept = orderedUnique xs := by
  constructor
  · intro firsts
    exact firsts.eq (keepsFirsts_orderedUnique xs)
  · rintro rfl
    exact keepsFirsts_orderedUnique xs

theorem orderedUnique_append_filter (xs ys : List α) :
    orderedUnique (xs ++ ys) = orderedUnique xs ++ (orderedUnique ys).filter (· ∉ xs) := by
  rw [orderedUnique_append, orderedUniqueFrom_eq_filter]

/-- However repetitions are dropped, what is left is the one list that has each element once, in the
order of the first places. Dropping them again changes nothing, and a list that follows another adds
what is new of it. The files of a target are listed like this, and so are the labels of roots, once
every root is found. -/
theorem repetitions_dropped_alike :
    (∀ {α : Type} [DecidableEq α] (xs : List α),
      (∀ kept, KeepsFirsts xs kept ↔ kept = orderedUnique xs) ∧
      Table.keys (Table.ofPairs (xs.map fun x => (x, ()))) = orderedUnique xs ∧
      xs.foldl appendNew [] = orderedUnique xs ∧
      orderedUnique (orderedUnique xs) = orderedUnique xs ∧
      ∀ ys, orderedUnique (xs ++ ys) =
        orderedUnique xs ++ (orderedUnique ys).filter (· ∉ xs)) ∧
    (∀ target : Target, target.sources =
      orderedUnique (target.srcs ++ target.hdrs ++ target.generatedSources)) ∧
    ∀ (graph : Graph) (roots : List Root),
      graph.rootLabels roots = (roots.mapM graph.rootLabel).map orderedUnique := by
  refine ⟨fun xs => ?_, Target.sources_eq_orderedUnique, Graph.rootLabels_eq_map⟩
  have again := orderedUnique_eq_self (nodup_orderedUnique xs)
  exact ⟨keepsFirsts_iff xs, Table.keys_ofPairs_unit xs, foldl_appendNew_nil xs, again,
    orderedUnique_append_filter xs⟩

example : orderedUnique ["b", "a", "b", "c", "a"] = ["b", "a", "c"] := by decide

end CompileCommands
