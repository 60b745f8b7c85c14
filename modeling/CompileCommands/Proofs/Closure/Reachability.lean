import CompileCommands.Closure
import CompileCommands.Proofs.Graph.Built
import Mathlib.Logic.Relation

set_option autoImplicit false

/- Which labels a walk meets: those that its roots reach along dependencies, each of them once.
Whether a target is eligible makes no difference to that. -/
namespace CompileCommands

/-- Whether a label leads to another one by any number of dependencies. -/
def Graph.Reaches (graph : Graph) : String → String → Prop :=
  Relation.ReflTransGen fun label dep => dep ∈ graph.depsOf label

theorem Graph.Reaches.mem_of_closed {graph : Graph} {start label : String} {labels : List String}
    (path : graph.Reaches start label) (here : start ∈ labels)
    (closed : ∀ other ∈ labels, ∀ dep ∈ graph.depsOf other, dep ∈ labels) : label ∈ labels := by
  induction path with
  | refl => exact here
  | tail _ edge ih => exact closed _ ih _ edge

namespace Walk

/-- A label is held by a walk that has seen it or will still come to it. -/
def Holds (walk : Walk) (label : String) : Prop := label ∈ walk.pending ∨ label ∈ walk.seen

/-- What is known of a walk on its way: it holds the roots and every dependency of a label it has
seen, but nothing that no root reaches. -/
structure Searching (graph : Graph) (roots : List String) (walk : Walk) : Prop where
  known : ∀ label ∈ walk.pending, label ∈ graph.labels
  recorded : ∀ label, label ∈ walk.visit.visited ↔ label ∈ walk.seen
  distinct : walk.visit.visited.Nodup
  located : ∀ root ∈ roots, walk.Holds root
  closed : ∀ label ∈ walk.seen, ∀ dep ∈ graph.depsOf label, walk.Holds dep
  reached : ∀ label, walk.Holds label → ∃ root ∈ roots, graph.Reaches root label

theorem searching_start (graph : Graph) (roots : List String)
    (known : ∀ root ∈ roots, root ∈ graph.labels) : (start roots).Searching graph roots where
  known := known
  recorded := by simp [start, Visit.empty]
  distinct := by simp [start, Visit.empty]
  located := fun root member => .inl member
  closed := by simp [start]
  reached := by
    rintro label (member | member)
    · exact ⟨label, member, Relation.ReflTransGen.refl⟩
    · simp [start] at member

section

variable {graph : Graph} {roots rest : List String} {walk : Walk} {label : String}

/-- Taking a label off the pending ones and seeing it leaves it held, and everything else too. -/
theorem Holds.later {later : Walk} {other : String} (held : walk.Holds other)
    (pending : walk.pending = label :: rest) (left : ∀ one ∈ rest, one ∈ later.pending)
    (met : label ∈ later.seen) (kept : ∀ one ∈ walk.seen, one ∈ later.seen) :
    later.Holds other := by
  rcases held with waiting | old
  · rw [pending] at waiting
    rcases List.mem_cons.mp waiting with rfl | waiting
    · exact .inr met
    · exact .inl (left other waiting)
  · exact .inr (kept other old)

theorem Searching.pass (searching : walk.Searching graph roots)
    (pending : walk.pending = label :: rest) (old : label ∈ walk.seen) :
    { walk with pending := rest }.Searching graph roots := by
  have back : ∀ other ∈ rest, other ∈ walk.pending := by
    intro other member
    rw [pending]
    exact List.mem_cons_of_mem label member
  have forth : ∀ other, walk.Holds other → { walk with pending := rest }.Holds other := by
    intro other held
    exact held.later pending (fun _ member => member) old (fun _ member => member)
  refine ⟨?_, searching.recorded, searching.distinct, ?_, ?_, ?_⟩
  · intro other member
    exact searching.known other (back other member)
  · intro root member
    exact forth root (searching.located root member)
  · intro other member dep listed
    exact forth dep (searching.closed other member dep listed)
  · intro other held
    apply searching.reached
    exact held.imp_left (back other)

/-- The edges out of a label that is met lead to labels that are pending from now on. -/
theorem Searching.meet (built : graph.Built) (searching : walk.Searching graph roots)
    (pending : walk.pending = label :: rest) (fresh : label ∉ walk.seen) (eligible : Bool) :
    Searching graph roots ⟨graph.depsOf label ++ rest, label :: walk.seen,
      walk.visit.record label eligible⟩ := by
  have here : label ∈ walk.pending := by simp [pending]
  have back : ∀ other ∈ rest, other ∈ walk.pending := by
    intro other member
    rw [pending]
    exact List.mem_cons_of_mem label member
  have forth : ∀ other, walk.Holds other → Holds ⟨graph.depsOf label ++ rest, label :: walk.seen,
      walk.visit.record label eligible⟩ other := by
    intro other held
    apply held.later pending _ (List.mem_cons_self ..)
    · intro one member
      exact List.mem_cons_of_mem label member
    · intro one member
      exact List.mem_append_right _ member
  refine ⟨?_, ?_, ?_, ?_, ?_, ?_⟩
  · intro other member
    rcases List.mem_append.mp member with listed | member
    · exact built.mem_labels_of_mem_depsOf (searching.known label here) listed
    · exact searching.known other (back other member)
  · intro other
    simp [Visit.record, searching.recorded, or_comm]
  · refine List.nodup_append.mpr ⟨searching.distinct, by simp, ?_⟩
    intro one member other single same
    rw [same, List.mem_singleton.mp single, searching.recorded] at member
    exact fresh member
  · intro root member
    exact forth root (searching.located root member)
  · intro other member dep listed
    rcases List.mem_cons.mp member with rfl | member
    · exact .inl (List.mem_append_left _ listed)
    · exact forth dep (searching.closed other member dep listed)
  · rintro other (member | member)
    · rcases List.mem_append.mp member with listed | member
      · obtain ⟨root, origin, path⟩ := searching.reached label (.inl here)
        exact ⟨root, origin, path.tail listed⟩
      · exact searching.reached other (.inl (back other member))
    · rcases List.mem_cons.mp member with rfl | member
      · exact searching.reached other (.inl here)
      · exact searching.reached other (.inr member)

theorem Searching.step (built : graph.Built) (searching : walk.Searching graph roots)
    (pending : walk.pending = label :: rest) :
    ∃ next, walk.step graph = .ok next ∧ next.Searching graph roots := by
  obtain ⟨target, found, _⟩ :=
    Graph.exists_find?_of_mem_labels (searching.known label (by simp [pending]))
  by_cases old : label ∈ walk.seen
  · refine ⟨{ walk with pending := rest }, ?_, searching.pass pending old⟩
    simp only [Walk.step, pending, old, ↓reduceIte]
  · refine ⟨_, ?_, searching.meet built pending old (graph.isEligible target)⟩
    simp only [Walk.step, pending, old, ↓reduceIte, Graph.target_of_find? found,
      Graph.depsOf_of_find? found]

theorem Searching.run (built : graph.Built) (searching : walk.Searching graph roots) :
    ∃ last : Walk, walk.run graph = .ok last.visit ∧ last.pending = [] ∧
      last.Searching graph roots := by
  fun_induction walk.run graph with
  | case1 walk done => exact ⟨walk, rfl, done, searching⟩
  | case2 walk label rest pending failure failed =>
      obtain ⟨next, stepped, _⟩ := searching.step built pending
      rw [failed] at stepped
      contradiction
  | case3 walk label rest pending next stepped ih =>
      obtain ⟨other, same, later⟩ := searching.step built pending
      rw [stepped] at same
      cases same
      exact ih later

/-- When nothing is pending any more, what was met is closed under dependencies. -/
theorem Searching.mem_visited_iff (searching : walk.Searching graph roots)
    (done : walk.pending = []) (label : String) :
    label ∈ walk.visit.visited ↔ ∃ root ∈ roots, graph.Reaches root label := by
  have seen : ∀ other, walk.Holds other → other ∈ walk.seen := by
    rintro other (member | member)
    · rw [done] at member
      contradiction
    · exact member
  rw [searching.recorded]
  constructor
  · intro member
    exact searching.reached label (.inr member)
  · rintro ⟨root, origin, path⟩
    apply path.mem_of_closed (seen root (searching.located root origin))
    intro other member dep listed
    exact seen dep (searching.closed other member dep listed)

end

end Walk

/-- A walk from roots of a graph ends; it has met the labels that some root reaches, and no label
twice. -/
theorem mem_visited_iff_reaches (targets : List Target) (workspace : String) (graph : Graph)
    (made : Graph.ofTargets targets workspace = .ok graph) (roots : List String)
    (known : ∀ root ∈ roots, root ∈ graph.labels) :
    ∃ visit, graph.visit roots = .ok visit ∧ visit.visited.Nodup ∧
      ∀ label, label ∈ visit.visited ↔ ∃ root ∈ roots, graph.Reaches root label := by
  have started := Walk.searching_start graph roots known
  obtain ⟨last, ended, done, searching⟩ := started.run (Graph.built_of_ofTargets made)
  exact ⟨last.visit, ended, searching.distinct, searching.mem_visited_iff done⟩

theorem mem_visited_iff_reaches_sharing :
    (∀ root ∈ ["@ext//:ext", "//gen:gen"], root ∈ sharing.labels) ∧
    ∃ visit, sharing.visit ["@ext//:ext", "//gen:gen"] = .ok visit ∧ visit.visited.Nodup ∧
      ∀ label, label ∈ visit.visited ↔
        ∃ root ∈ ["@ext//:ext", "//gen:gen"], sharing.Reaches root label :=
  ⟨by decide, mem_visited_iff_reaches sharing.targets "" sharing ofTargets_sharing _ (by decide)⟩

end CompileCommands
