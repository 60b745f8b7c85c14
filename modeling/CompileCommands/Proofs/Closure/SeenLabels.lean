import CompileCommands.OrderedUnique
import CompileCommands.Proofs.Closure.Preorder

set_option autoImplicit false

/- A walk in which some labels count as seen from the beginning. Nothing that they lead to is met
then, and the other labels are met in the order in which they would be met anyway. -/
namespace CompileCommands.Graph

/-- Whether no dependency leads out of some labels. -/
def Encloses (graph : Graph) (labels : List String) : Prop :=
  ∀ label ∈ labels, ∀ dep ∈ graph.depsOf label, dep ∈ labels

theorem Built.encloses_labels {graph : Graph} (built : graph.Built) :
    graph.Encloses graph.labels := by
  intro label known dep listed
  exact built.mem_labels_of_mem_depsOf known listed

@[simp] theorem preorder_nil (graph : Graph) (seen : List String) :
    graph.preorder seen [] = [] := by
  rw [preorder]

theorem preorder_of_seen (graph : Graph) {seen rest : List String} {label : String}
    (old : label ∈ seen) : graph.preorder seen (label :: rest) = graph.preorder seen rest := by
  rw [preorder, if_pos old]

theorem preorder_of_fresh (graph : Graph) {seen rest : List String} {label : String}
    (fresh : label ∉ seen) :
    graph.preorder seen (label :: rest) =
      label :: graph.preorder (label :: seen) (graph.depsOf label) ++
        graph.preorder
          ((graph.preorder (label :: seen) (graph.depsOf label)).reverse ++ label :: seen) rest := by
  rw [preorder, if_neg fresh]

/-- Labels that follow others are met as if the walk began with them, with all that the others lead
to seen already. -/
theorem preorder_append (graph : Graph) (seen labels others : List String) :
    graph.preorder seen (labels ++ others) =
      graph.preorder seen labels ++
        graph.preorder ((graph.preorder seen labels).reverse ++ seen) others := by
  fun_induction graph.preorder seen labels with
  | case1 seen => simp
  | case2 seen label rest old ih => rw [List.cons_append, preorder_of_seen graph old, ih]
  | case3 seen label rest fresh below _ ih =>
      rw [List.cons_append, preorder_of_fresh graph fresh, ih]
      simp only [below, List.reverse_append, List.reverse_cons, List.append_assoc, List.cons_append,
        List.nil_append]

/-- A closed set that holds the labels a walk begins with holds all that it meets. -/
theorem mem_of_mem_preorder {graph : Graph} {within : List String} (closed : graph.Encloses within)
    {seen labels : List String} (start : ∀ label ∈ labels, label ∈ within) :
    ∀ label ∈ graph.preorder seen labels, label ∈ within := by
  fun_induction graph.preorder seen labels with
  | case1 seen => simp
  | case2 seen label rest old ih => exact ih fun other member => start other (.tail label member)
  | case3 seen label rest fresh below inner outer =>
      have here := start label (List.mem_cons_self ..)
      intro other met
      rcases List.mem_append.mp met with met | later
      · rcases List.mem_cons.mp met with rfl | met
        · exact here
        · exact inner (closed label here) other met
      · exact outer (fun one member => start one (.tail label member)) other later

/-- Labels that count as seen together with all they lead to are left out, and nothing else changes:
where the walk meets one of them it would have met no others before it leaves it. -/
theorem preorder_eq_filter {graph : Graph} {within : List String} (closed : graph.Encloses within)
    (seen labels : List String) :
    ∀ known : List String, (∀ label, label ∈ known ↔ label ∈ within ∨ label ∈ seen) →
      graph.preorder known labels = (graph.preorder seen labels).filter (· ∉ within) := by
  fun_induction graph.preorder seen labels with
  | case1 seen => simp
  | case2 seen label rest old ih =>
      intro known parts
      have skipped : label ∈ known := (parts label).mpr (.inr old)
      rw [preorder_of_seen graph skipped, ih known parts]
  | case3 seen label rest fresh below inner outer =>
      intro known parts
      by_cases inside : label ∈ within
      · -- everything below such a label is left out with it
        have covered : ∀ other ∈ label :: below, other ∈ within := by
          intro other met
          rcases List.mem_cons.mp met with rfl | met
          · exact inside
          · exact mem_of_mem_preorder closed (closed label inside) other met
        have nothing : (label :: below).filter (· ∉ within) = [] := by
          apply List.filter_eq_nil_iff.mpr
          intro other met
          simpa using covered other met
        have later : ∀ other, other ∈ known ↔
            other ∈ within ∨ other ∈ below.reverse ++ label :: seen := by
          intro other
          have absorbed : other ∈ label :: below → other ∈ within := covered other
          simp only [List.mem_append, List.mem_reverse, List.mem_cons] at absorbed ⊢
          rw [parts]
          tauto
        have skipped : label ∈ known := (parts label).mpr (.inl inside)
        rw [preorder_of_seen graph skipped, outer known later, List.filter_append, nothing,
          List.nil_append]
      · have new : label ∉ known := by
          intro old
          exact ((parts label).mp old).elim inside fresh
        have started : ∀ other, other ∈ label :: known ↔ other ∈ within ∨ other ∈ label :: seen := by
          intro other
          simp only [List.mem_cons, parts]
          tauto
        have first := inner _ started
        have later : ∀ other, other ∈ (below.filter (· ∉ within)).reverse ++ label :: known ↔
            other ∈ within ∨ other ∈ below.reverse ++ label :: seen := by
          intro other
          simp only [List.mem_append, List.mem_reverse, List.mem_cons, List.mem_filter, parts,
            decide_eq_true_eq]
          tauto
        rw [preorder_of_fresh graph new, first, outer _ later, List.filter_append,
          List.filter_cons_of_pos (by simpa using inside)]

/-- Naming a label again makes no difference. -/
theorem preorder_orderedUniqueFrom (graph : Graph) {seen kept : List String}
    (met : ∀ label ∈ kept, label ∈ seen) (labels : List String) :
    graph.preorder seen (orderedUniqueFrom kept labels) = graph.preorder seen labels := by
  induction labels generalizing seen kept with
  | nil => rfl
  | cons label rest ih =>
      rw [orderedUniqueFrom]
      by_cases repeated : label ∈ kept
      · rw [if_pos repeated, preorder_of_seen graph (met label repeated), ih met]
      · rw [if_neg repeated]
        by_cases old : label ∈ seen
        · have now : ∀ other ∈ label :: kept, other ∈ seen := by
            intro other member
            rcases List.mem_cons.mp member with rfl | member
            · exact old
            · exact met other member
          rw [preorder_of_seen graph old, preorder_of_seen graph old, ih now]
        · have now : ∀ other ∈ label :: kept, other ∈
              (graph.preorder (label :: seen) (graph.depsOf label)).reverse ++ label :: seen := by
            intro other member
            rcases List.mem_cons.mp member with rfl | member
            · simp
            · simp [met other member]
          rw [preorder_of_fresh graph old, preorder_of_fresh graph old, ih now]

end CompileCommands.Graph
