set_option autoImplicit false

/- Lists without repetitions: the first of several equal elements stays, at its place. -/
namespace CompileCommands

variable {α : Type} [DecidableEq α]

/-- The elements that are not among those `seen`, each once. -/
def orderedUniqueFrom (seen : List α) : List α → List α
  | [] => []
  | x :: rest =>
      if x ∈ seen then orderedUniqueFrom seen rest
      else x :: orderedUniqueFrom (x :: seen) rest

/-- The elements of a list in the order of their first places, without later repetitions. -/
def orderedUnique (xs : List α) : List α := orderedUniqueFrom [] xs

/-- Adds an element at the end unless it is there already. -/
def appendNew (kept : List α) (x : α) : List α := if x ∈ kept then kept else kept ++ [x]

theorem appendNew_of_mem {kept : List α} {x : α} (known : x ∈ kept) : appendNew kept x = kept :=
  if_pos known

theorem appendNew_of_not_mem {kept : List α} {x : α} (new : x ∉ kept) :
    appendNew kept x = kept ++ [x] :=
  if_neg new

theorem mem_appendNew (kept : List α) (x y : α) : y ∈ appendNew kept x ↔ y ∈ kept ∨ y = x := by
  by_cases known : x ∈ kept
  · rw [appendNew_of_mem known]
    constructor
    · exact .inl
    · rintro (member | rfl)
      · exact member
      · exact known
  · rw [appendNew_of_not_mem known]
    simp

theorem nodup_appendNew {kept : List α} (distinct : kept.Nodup) (x : α) :
    (appendNew kept x).Nodup := by
  by_cases known : x ∈ kept
  · rwa [appendNew_of_mem known]
  · rw [appendNew_of_not_mem known]
    refine List.nodup_append.mpr ⟨distinct, by simp, ?_⟩
    intro y member z single same
    rw [List.mem_singleton] at single
    exact known (single ▸ same ▸ member)

@[simp] theorem orderedUnique_nil : orderedUnique ([] : List α) = [] := rfl

theorem mem_orderedUniqueFrom (seen xs : List α) (x : α) :
    x ∈ orderedUniqueFrom seen xs ↔ x ∈ xs ∧ x ∉ seen := by
  induction xs generalizing seen with
  | nil => simp [orderedUniqueFrom]
  | cons y rest ih =>
      rw [orderedUniqueFrom]
      by_cases known : y ∈ seen
      · rw [if_pos known, ih]
        constructor
        · rintro ⟨inside, fresh⟩
          exact ⟨List.mem_cons_of_mem y inside, fresh⟩
        · rintro ⟨inside, fresh⟩
          rcases List.mem_cons.mp inside with equal | inside
          · exact absurd (equal ▸ known) fresh
          · exact ⟨inside, fresh⟩
      · rw [if_neg known, List.mem_cons, ih]
        by_cases equal : x = y
        · subst equal
          simp [known]
        · simp [equal]

theorem mem_orderedUnique (xs : List α) (x : α) : x ∈ orderedUnique xs ↔ x ∈ xs := by
  simp [orderedUnique, mem_orderedUniqueFrom]

theorem nodup_orderedUniqueFrom (seen xs : List α) : (orderedUniqueFrom seen xs).Nodup := by
  induction xs generalizing seen with
  | nil => simp [orderedUniqueFrom]
  | cons y rest ih =>
      rw [orderedUniqueFrom]
      split
      · exact ih seen
      · refine List.nodup_cons.mpr ⟨?_, ih (y :: seen)⟩
        simp [mem_orderedUniqueFrom]

theorem nodup_orderedUnique (xs : List α) : (orderedUnique xs).Nodup :=
  nodup_orderedUniqueFrom [] xs

theorem orderedUniqueFrom_eq_self {seen xs : List α} (distinct : xs.Nodup)
    (fresh : ∀ x ∈ xs, x ∉ seen) : orderedUniqueFrom seen xs = xs := by
  induction xs generalizing seen with
  | nil => rfl
  | cons x rest ih =>
      obtain ⟨new, others⟩ := List.nodup_cons.mp distinct
      have later : ∀ y ∈ rest, y ∉ x :: seen := by
        intro y member known
        rcases List.mem_cons.mp known with rfl | known
        · exact new member
        · exact fresh y (List.mem_cons_of_mem x member) known
      rw [orderedUniqueFrom, if_neg (fresh x (List.mem_cons_self ..)), ih others later]

theorem orderedUnique_eq_self {xs : List α} (distinct : xs.Nodup) : orderedUnique xs = xs :=
  orderedUniqueFrom_eq_self distinct fun _ _ => List.not_mem_nil

theorem orderedUniqueFrom_congr {seen known : List α} (same : ∀ x, x ∈ seen ↔ x ∈ known)
    (xs : List α) : orderedUniqueFrom seen xs = orderedUniqueFrom known xs := by
  induction xs generalizing seen known with
  | nil => rfl
  | cons x rest ih =>
      have later : ∀ y, y ∈ x :: seen ↔ y ∈ x :: known := by
        intro y
        rw [List.mem_cons, List.mem_cons, same]
      rw [orderedUniqueFrom, orderedUniqueFrom, ih same, ih later]
      simp only [same]

/-- Adding elements one after the other adds each that is new once. -/
theorem foldl_appendNew (kept xs : List α) :
    xs.foldl appendNew kept = kept ++ orderedUniqueFrom kept xs := by
  induction xs generalizing kept with
  | nil => simp [orderedUniqueFrom]
  | cons x rest ih =>
      rw [List.foldl_cons, ih, orderedUniqueFrom]
      by_cases known : x ∈ kept
      · rw [if_pos known, appendNew_of_mem known]
      · have same : ∀ y, y ∈ kept ++ [x] ↔ y ∈ x :: kept := by
          intro y
          rw [List.mem_append, List.mem_singleton, List.mem_cons, or_comm]
        rw [if_neg known, appendNew_of_not_mem known, orderedUniqueFrom_congr same,
          List.append_assoc, List.singleton_append]

theorem foldl_appendNew_nil (xs : List α) : xs.foldl appendNew [] = orderedUnique xs := by
  rw [foldl_appendNew, List.nil_append, orderedUnique]

theorem orderedUniqueFrom_eq_eraseDups (seen xs : List α) :
    orderedUniqueFrom seen xs = (xs.filter (· ∉ seen)).eraseDups := by
  induction xs generalizing seen with
  | nil => rfl
  | cons x rest ih =>
      rw [orderedUniqueFrom]
      by_cases known : x ∈ seen
      · rw [if_pos known, ih, List.filter_cons_of_neg (by simpa using known)]
      · have later (y : α) : decide (y ∉ x :: seen) = (!y == x && decide (y ∉ seen)) := by
          rw [Bool.eq_iff_iff]
          simp
        rw [if_neg known, ih, List.filter_cons_of_pos (by simpa using known), List.eraseDups_cons,
          List.filter_filter]
        simp only [later]

theorem orderedUnique_eq_eraseDups (xs : List α) : orderedUnique xs = xs.eraseDups := by
  have all : xs.filter (· ∉ []) = xs := by simp
  rw [orderedUnique, orderedUniqueFrom_eq_eraseDups, all]

/-- What follows a list adds what is new of it. -/
theorem orderedUnique_append (xs ys : List α) :
    orderedUnique (xs ++ ys) = orderedUnique xs ++ orderedUniqueFrom xs ys := by
  rw [← foldl_appendNew_nil, List.foldl_append, foldl_appendNew_nil, foldl_appendNew,
    orderedUniqueFrom_congr (mem_orderedUnique xs)]

theorem orderedUniqueFrom_cons_of_not_mem {x : α} {xs : List α} (other : x ∉ xs) (seen : List α) :
    orderedUniqueFrom (x :: seen) xs = orderedUniqueFrom seen xs := by
  rw [orderedUniqueFrom_eq_eraseDups, orderedUniqueFrom_eq_eraseDups]
  congr 1
  apply List.filter_congr
  intro y member
  have different : y ≠ x := fun same => other (same ▸ member)
  simp [different]

/-- It makes no difference whether elements are left out before or after. -/
theorem orderedUniqueFrom_filter (keep : α → Bool) (seen xs : List α) :
    orderedUniqueFrom seen (xs.filter keep) = (orderedUniqueFrom seen xs).filter keep := by
  induction xs generalizing seen with
  | nil => rfl
  | cons x rest ih =>
      rw [orderedUniqueFrom]
      by_cases kept : keep x = true
      · rw [List.filter_cons_of_pos kept, orderedUniqueFrom]
        split
        · exact ih seen
        · rw [List.filter_cons_of_pos kept, ih]
      · have absent : x ∉ rest.filter keep := by
          intro member
          exact kept (List.mem_filter.mp member).2
        rw [List.filter_cons_of_neg kept]
        split
        · exact ih seen
        · rw [List.filter_cons_of_neg kept, ← ih, orderedUniqueFrom_cons_of_not_mem absent]

theorem orderedUniqueFrom_eq_filter (seen xs : List α) :
    orderedUniqueFrom seen xs = (orderedUnique xs).filter (· ∉ seen) := by
  rw [orderedUniqueFrom_eq_eraseDups, ← orderedUnique_eq_eraseDups]
  exact orderedUniqueFrom_filter _ [] xs

theorem ne_of_mem_orderedUniqueFrom {seen xs : List α} {x y : α} (known : x ∈ seen)
    (kept : y ∈ orderedUniqueFrom seen xs) : y ≠ x := by
  rintro rfl
  exact ((mem_orderedUniqueFrom seen xs y).mp kept).2 known

theorem pairwise_idxOf_orderedUniqueFrom (seen xs : List α) :
    (orderedUniqueFrom seen xs).Pairwise fun x y => xs.idxOf x < xs.idxOf y := by
  induction xs generalizing seen with
  | nil => exact .nil
  | cons x rest ih =>
      have shifted {y : α} (other : y ≠ x) : (x :: rest).idxOf y = rest.idxOf y + 1 := by
        simp [List.idxOf_cons, beq_false_of_ne other.symm]
      have later (known : List α) (member : x ∈ known) :
          (orderedUniqueFrom known rest).Pairwise
            fun y z => (x :: rest).idxOf y < (x :: rest).idxOf z := by
        refine (ih known).imp_of_mem fun first second before => ?_
        rw [shifted (ne_of_mem_orderedUniqueFrom member first),
          shifted (ne_of_mem_orderedUniqueFrom member second)]
        exact Nat.succ_lt_succ before
      rw [orderedUniqueFrom]
      split
      · next known => exact later seen known
      · have here : x ∈ x :: seen := List.mem_cons_self ..
        refine List.pairwise_cons.mpr ⟨fun y kept => ?_, later _ here⟩
        rw [List.idxOf_cons_self, shifted (ne_of_mem_orderedUniqueFrom here kept)]
        exact Nat.succ_pos _

/-- The elements stand in the order of their first places. -/
theorem pairwise_idxOf_orderedUnique (xs : List α) :
    (orderedUnique xs).Pairwise fun x y => xs.idxOf x < xs.idxOf y :=
  pairwise_idxOf_orderedUniqueFrom [] xs

/-- Different elements that are renamed stay different, so that the same ones are left out. -/
theorem orderedUniqueFrom_map {β : Type} [DecidableEq β] {f : α → β}
    (injective : Function.Injective f) (seen xs : List α) :
    orderedUniqueFrom (seen.map f) (xs.map f) = (orderedUniqueFrom seen xs).map f := by
  induction xs generalizing seen with
  | nil => rfl
  | cons x rest ih =>
      have renamed : f x ∈ seen.map f ↔ x ∈ seen := by
        constructor
        · intro member
          obtain ⟨y, known, same⟩ := List.mem_map.mp member
          exact injective same ▸ known
        · exact List.mem_map_of_mem
      rw [List.map_cons, orderedUniqueFrom, orderedUniqueFrom]
      by_cases known : x ∈ seen
      · rw [if_pos (renamed.mpr known), if_pos known, ih]
      · rw [if_neg (mt renamed.mp known), if_neg known, List.map_cons, ← ih, List.map_cons]

theorem orderedUnique_map {β : Type} [DecidableEq β] {f : α → β}
    (injective : Function.Injective f) (xs : List α) :
    orderedUnique (xs.map f) = (orderedUnique xs).map f :=
  orderedUniqueFrom_map injective [] xs

end CompileCommands
