import CompileCommands.OrderedUnique

set_option autoImplicit false

/- Tables in insertion order: a list of keys with their values. Inserting under a key that is
present replaces its value and keeps its place, so keys stay distinct and in first-seen order. -/
namespace CompileCommands

abbrev Table (κ ν : Type) := List (κ × ν)

namespace Table

variable {κ ν : Type} [DecidableEq κ]

def keys (table : Table κ ν) : List κ := table.map (·.1)

def find? (key : κ) : Table κ ν → Option ν
  | [] => none
  | (k, v) :: rest => if k = key then some v else find? key rest

def insert (key : κ) (value : ν) : Table κ ν → Table κ ν
  | [] => [(key, value)]
  | (k, v) :: rest => if k = key then (k, value) :: rest else (k, v) :: insert key value rest

/-- Drops a key; the others keep their places. -/
def erase (key : κ) (table : Table κ ν) : Table κ ν := table.filter (·.1 ≠ key)

def ofPairs (pairs : List (κ × ν)) : Table κ ν :=
  pairs.foldl (fun table pair => insert pair.1 pair.2 table) []

theorem find?_insert (key other : κ) (value : ν) (table : Table κ ν) :
    find? other (insert key value table) =
      if key = other then some value else find? other table := by
  induction table with
  | nil => rfl
  | cons pair rest ih =>
      obtain ⟨k, v⟩ := pair
      rw [insert]
      by_cases same : k = key
      · subst same
        by_cases here : k = other <;> simp [find?, here]
      · by_cases here : k = other
        · subst here
          simp [find?, same, Ne.symm same]
        · simp [find?, same, here, ih]

theorem mem_of_find? {key : κ} {value : ν} {table : Table κ ν}
    (found : find? key table = some value) : (key, value) ∈ table := by
  induction table with
  | nil => contradiction
  | cons pair rest ih =>
      obtain ⟨k, v⟩ := pair
      rw [find?] at found
      split at found
      · next same => cases found; subst same; exact List.mem_cons_self ..
      · exact List.mem_cons_of_mem _ (ih found)

theorem find?_eq_none_iff (key : κ) (table : Table κ ν) :
    find? key table = none ↔ key ∉ keys table := by
  induction table with
  | nil => simp [find?, keys]
  | cons pair rest ih =>
      obtain ⟨k, v⟩ := pair
      rw [find?]
      by_cases same : k = key
      · simp [same, keys]
      · rw [if_neg same, ih]
        simp [keys, Ne.symm same]

theorem find?_of_mem {key : κ} {value : ν} {table : Table κ ν} (distinct : (keys table).Nodup)
    (member : (key, value) ∈ table) : find? key table = some value := by
  induction table with
  | nil => contradiction
  | cons pair rest ih =>
      obtain ⟨k, v⟩ := pair
      obtain ⟨new, distinct⟩ := List.nodup_cons.mp distinct
      rcases List.mem_cons.mp member with same | member
      · cases same
        rw [find?, if_pos rfl]
      · have other : k ≠ key := by
          rintro rfl
          exact new (List.mem_map.mpr ⟨_, member, rfl⟩)
        rw [find?, if_neg other, ih distinct member]

theorem length_insert_of_find? {key : κ} {value old : ν} {table : Table κ ν}
    (found : find? key table = some old) : (insert key value table).length = table.length := by
  induction table with
  | nil => contradiction
  | cons pair rest ih =>
      obtain ⟨k, v⟩ := pair
      rw [find?] at found
      rw [insert]
      split
      · rfl
      · next other =>
        rw [if_neg other] at found
        rw [List.length_cons, List.length_cons, ih found]

theorem find?_erase (key other : κ) (table : Table κ ν) :
    find? other (erase key table) = if key = other then none else find? other table := by
  induction table with
  | nil => simp [erase, find?]
  | cons pair rest ih =>
      obtain ⟨k, v⟩ := pair
      rw [erase] at ih ⊢
      by_cases same : k = key
      · subst same
        rw [List.filter_cons_of_neg (by simp), ih]
        by_cases here : k = other <;> simp [find?, here]
      · rw [List.filter_cons_of_pos (by simpa using same), find?, find?, ih]
        by_cases here : k = other
        · subst here
          simp [Ne.symm same]
        · simp [here]

theorem length_erase_lt {key : κ} {value : ν} {table : Table κ ν}
    (found : find? key table = some value) : (erase key table).length < table.length := by
  apply List.length_filter_lt_length_iff_exists.mpr
  exact ⟨(key, value), mem_of_find? found, by simp⟩

theorem keys_insert (key : κ) (value : ν) (table : Table κ ν) :
    keys (insert key value table) =
      if key ∈ keys table then keys table else keys table ++ [key] := by
  induction table with
  | nil => simp [insert, keys]
  | cons pair rest ih =>
      obtain ⟨k, v⟩ := pair
      rw [insert]
      by_cases same : k = key
      · simp [same, keys]
      · have other : key ≠ k := fun equal => same equal.symm
        simp only [keys] at ih
        by_cases present : key ∈ rest.map (·.1)
        · simp_all [keys]
        · simp_all [keys]

theorem insert_of_not_mem_keys (key : κ) (value : ν) (table : Table κ ν)
    (new : key ∉ keys table) : insert key value table = table ++ [(key, value)] := by
  induction table with
  | nil => rfl
  | cons pair rest ih =>
      obtain ⟨k, v⟩ := pair
      simp only [keys, List.map_cons, List.mem_cons, not_or] at new ih
      rw [insert, if_neg (Ne.symm new.1), ih new.2, List.cons_append]

theorem find?_map_self (key : κ) (value : κ → ν) (keys : List κ) :
    find? key (keys.map fun k => (k, value k)) = if key ∈ keys then some (value key) else none := by
  induction keys with
  | nil => rfl
  | cons k rest ih =>
      rw [List.map_cons, find?]
      by_cases same : k = key
      · simp [same]
      · simp [same, Ne.symm same, ih]

theorem nodup_keys_insert (key : κ) (value : ν) (table : Table κ ν)
    (distinct : (keys table).Nodup) : (keys (insert key value table)).Nodup := by
  rw [keys_insert]
  split
  · exact distinct
  · rw [List.nodup_append]
    refine ⟨distinct, by simp, ?_⟩
    intro one member two single
    simp only [List.mem_singleton] at single
    subst single
    intro equal
    subst equal
    contradiction

theorem keys_ofPairs (pairs : List (κ × ν)) :
    keys (ofPairs pairs) = orderedUnique (pairs.map (·.1)) := by
  have filled (table : Table κ ν) :
      keys (pairs.foldl (fun table pair => insert pair.1 pair.2 table) table) =
        (pairs.map (·.1)).foldl appendNew (keys table) := by
    induction pairs generalizing table with
    | nil => rfl
    | cons pair rest ih =>
        rw [List.foldl_cons, ih, keys_insert]
        rfl
  rw [ofPairs, filled]
  exact foldl_appendNew_nil _

/-- The keys of a table without values are a list without repetitions. -/
theorem keys_ofPairs_unit (xs : List κ) :
    keys (ofPairs (xs.map fun x => (x, ()))) = orderedUnique xs := by
  rw [keys_ofPairs, List.map_map]
  exact congrArg orderedUnique (List.map_id xs)

theorem find?_append (key : κ) (table others : Table κ ν) :
    find? key (table ++ others) = (find? key table).or (find? key others) := by
  induction table with
  | nil => rfl
  | cons pair rest ih =>
      obtain ⟨k, v⟩ := pair
      rw [List.cons_append, find?, find?]
      split
      · rfl
      · exact ih

/-- Of several pairs with one key the last one counts. -/
theorem find?_ofPairs (key : κ) (pairs : List (κ × ν)) :
    find? key (ofPairs pairs) = find? key pairs.reverse := by
  have filled (table : Table κ ν) :
      find? key (pairs.foldl (fun table pair => insert pair.1 pair.2 table) table) =
        (find? key pairs.reverse).or (find? key table) := by
    induction pairs generalizing table with
    | nil => rfl
    | cons pair rest ih =>
        obtain ⟨k, v⟩ := pair
        rw [List.foldl_cons, ih, find?_insert, List.reverse_cons, find?_append, Option.or_assoc,
          find?, find?]
        split <;> rfl
  rw [ofPairs, filled, find?, Option.or_none]

/-- Changing the keys is as changing what is looked for, if no other key becomes it. -/
theorem find?_map {κ' ν' : Type} [DecidableEq κ'] {rename : κ → κ'} {key : κ} {renamed : κ'}
    (same : ∀ k, rename k = renamed ↔ k = key) (change : ν → ν') (table : Table κ ν) :
    find? renamed (table.map fun pair => (rename pair.1, change pair.2)) =
      (find? key table).map change := by
  induction table with
  | nil => rfl
  | cons pair rest ih =>
      obtain ⟨k, v⟩ := pair
      rw [List.map_cons, find?, find?]
      simp only [same k]
      split
      · rfl
      · exact ih

end Table

end CompileCommands
