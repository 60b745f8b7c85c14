import CompileCommands.Proofs.Collection.InTurn
import CompileCommands.Proofs.Graph.Built

set_option autoImplicit false

/- Aggregations in which the labels have their places, and some of them their entries. Asking for the
entries of labels that have places fills in what can be computed of them and moves nothing, so that
it makes no difference in which order they are asked for, and how often. -/
namespace CompileCommands.Collection

/-- The aggregation in which all labels of `order` have their place and those `computed` have the
entries that `block` gives them. -/
def filled (order computed : List String) (block : String → List Entry) : Aggregation where
  entries := computed.map fun label => (label, block label)
  order := order
  locks := order
  computed := computed.length

/-- Whether the entries of a label can be computed. -/
def computes (graph : Graph) (toolchain : Toolchain) (label : String) : Bool :=
  (entriesOf graph toolchain label).isOk

theorem entriesOf_of_find? {graph : Graph} {label : String} {target : Target}
    (found : graph.find? label = some target) (toolchain : Toolchain) :
    entriesOf graph toolchain label = Synthesis.targetEntries toolchain target := by
  simp only [entriesOf, Graph.target_of_find? found]

section

variable {order computed : List String} {block : String → List Entry}

theorem foldl_addOrder (labels : List String) (distinct : (order ++ labels).Nodup) :
    labels.foldl Aggregation.addOrder (filled order [] block) =
      filled (order ++ labels) [] block := by
  induction labels generalizing order with
  | nil => simp
  | cons label rest ih =>
      have new : label ∉ order := by
        intro old
        exact (List.nodup_append.mp distinct).2.2 label old label (List.mem_cons_self ..) rfl
      have placed : (filled order [] block).addOrder label = filled (order ++ [label]) [] block := by
        simp only [Aggregation.addOrder, Aggregation.lock, filled, new, ↓reduceIte,
          appendNew_of_not_mem new, List.map_nil, List.length_nil]
      rw [List.foldl_cons, placed, ih (by simpa using distinct), List.append_assoc]
      rfl

theorem find?_filled (label : String) :
    (filled order computed block).find? label =
      if label ∈ computed then some (block label) else none :=
  Table.find?_map_self label block computed

theorem lock_filled {label : String} (placed : label ∈ order) :
    (filled order computed block).lock label = filled order computed block := by
  simp only [Aggregation.lock, filled, appendNew_of_mem placed]

theorem store_filled {label : String} (new : label ∉ computed) (placed : label ∈ order) :
    (filled order computed block).store label (block label) =
      filled order (computed ++ [label]) block := by
  have absent : label ∉ Table.keys (filled order computed block).entries := by
    simpa [Table.keys, filled] using new
  simp only [Aggregation.store, Table.insert_of_not_mem_keys _ _ _ absent]
  simp [filled, appendNew_of_mem placed]

variable {graph : Graph} {toolchain : Toolchain}

theorem askOne_filled {label : String} (placed : label ∈ order)
    (made : ∀ entries, entriesOf graph toolchain label = .ok entries → entries = block label) :
    ((filled order computed block).getOrCompute label id (entriesOf graph toolchain label)).1 =
      filled order
        (if computes graph toolchain label then appendNew computed label else computed) block := by
  rw [Aggregation.getOrCompute, find?_filled]
  by_cases known : label ∈ computed
  · rw [if_pos known, appendNew_of_mem known, ite_self]
  · rw [if_neg known, appendNew_of_not_mem known, computes]
    cases outcome : entriesOf graph toolchain label with
    | error failure => exact lock_filled placed
    | ok entries =>
        rw [made entries outcome]
        show ((filled order computed block).lock label).store label (block label) = _
        rw [lock_filled placed]
        exact store_filled known placed

theorem askAll_filled (labels : List String) (placed : ∀ label ∈ labels, label ∈ order)
    (made : ∀ label ∈ labels, ∀ entries,
      entriesOf graph toolchain label = .ok entries → entries = block label) :
    askAll graph toolchain (filled order computed block) labels =
      filled order ((labels.filter (computes graph toolchain)).foldl appendNew computed) block := by
  induction labels generalizing computed with
  | nil => rfl
  | cons label rest ih =>
      have here := List.mem_cons_self (a := label) (l := rest)
      have others := @ih (if computes graph toolchain label then appendNew computed label
        else computed) (fun other member => placed other (.tail label member))
        (fun other member => made other (.tail label member))
      rw [askAll] at others
      rw [askAll, List.foldl_cons, askOne_filled (placed label here) (made label here), others]
      cases able : computes graph toolchain label with
      | true => rw [if_pos rfl, List.filter_cons_of_pos able, List.foldl_cons]
      | false => rw [if_neg Bool.false_ne_true, List.filter_cons_of_neg (by simp [able])]

/-- Of the labels computed it counts which they are, and not their order. -/
theorem looksLike_filled {one other : List String} (same : one.Perm other) :
    (filled order one block).LooksLike (filled order other block) := by
  have found : (filled order one block).find? = (filled order other block).find? := by
    funext label
    rw [find?_filled, find?_filled]
    simp only [same.mem_iff]
  have size : (filled order one block).size = (filled order other block).size := by
    simp only [Aggregation.size, filled, List.length_map, same.length_eq]
  exact .of_find? found rfl size same.length_eq

/-! What can be asked of an aggregation in which every label that has a place has its entries. -/

theorem entriesFor_filled (label : String) :
    (filled order order block).entriesFor label = if label ∈ order then block label else [] := by
  rw [Aggregation.entriesFor, find?_filled]
  split <;> rfl

theorem labels_filled : (filled order order block).labels = order := by
  apply List.filter_eq_self.mpr
  intro label member
  have placed : label ∈ order := member
  simp only [Aggregation.contains, find?_filled, placed, ↓reduceIte, Option.isSome_some]

theorem flatten_filled : (filled order order block).flatten = order.flatMap block := by
  have same : ∀ label ∈ order, (filled order order block).entriesFor label = block label := by
    intro label member
    rw [entriesFor_filled, if_pos member]
  rw [List.flatMap_def, ← List.map_congr_left same, ← List.flatMap_def]
  rfl

theorem filled_congr {other : String → List Entry}
    (same : ∀ label ∈ computed, block label = other label) :
    filled order computed block = filled order computed other := by
  have entries : (computed.map fun label => (label, block label)) =
      computed.map fun label => (label, other label) := by
    apply List.map_congr_left
    intro label member
    rw [same label member]
  rw [filled, entries, filled]

end

section

variable (graph : Graph) (toolchain : Toolchain)

/-- Labels that are given their places and then asked for. -/
theorem askAll_foldl_addOrder {places calls : List String} {block : String → List Entry}
    (distinct : places.Nodup) (placed : ∀ label ∈ calls, label ∈ places)
    (made : ∀ label ∈ calls, ∀ entries,
      entriesOf graph toolchain label = .ok entries → entries = block label) :
    askAll graph toolchain (places.foldl Aggregation.addOrder .empty) calls =
      filled places (orderedUnique (calls.filter (computes graph toolchain))) block := by
  have start : places.foldl Aggregation.addOrder .empty = filled places [] block :=
    @foldl_addOrder [] block places (by simpa using distinct)
  rw [start, askAll_filled calls placed made, foldl_appendNew]
  rfl

/-- Every label that is eligible is given its place by the walk and its entries after it. -/
theorem ofVisitBy_inTurn_eq_filled {block : String → List Entry} (visit : Visit) (workers : Option Int)
    (distinct : visit.eligible.Nodup)
    (made : ∀ label ∈ visit.eligible, entriesOf graph toolchain label = .ok (block label)) :
    ofVisitBy .inTurn graph toolchain workers visit =
      if lacksWorkers workers visit.eligible then .error .noWorkers
      else .ok ⟨visit, filled visit.eligible visit.eligible block⟩ := by
  have computed := computeAll_eq_askAll graph toolchain
    (visit.eligible.foldl Aggregation.addOrder .empty) visit.eligible
    fun label member => ⟨block label, made label member⟩
  have all : visit.eligible.filter (computes graph toolchain) = visit.eligible := by
    apply List.filter_eq_self.mpr
    intro label member
    rw [computes, made label member]
    rfl
  have asked := askAll_foldl_addOrder graph toolchain distinct (fun _ member => member)
    fun label member entries outcome => Except.ok.inj (outcome.symm.trans (made label member))
  rw [all, orderedUnique_eq_self distinct] at asked
  rw [ofVisitBy_inTurn, computed, asked]
  rfl

end

end CompileCommands.Collection
