import CompileCommands.Graph

set_option autoImplicit false

/- The dependency closure of some roots, in depth-first order: each label where it is met first,
before its dependencies, which follow in the order of declaration. Only targets of a known rule
kind in the graph's own workspace are eligible, but the dependencies of all are followed. -/
namespace CompileCommands

def ccRuleKinds : List String :=
  ["cc_library", "cc_binary", "cc_test", "cc_inc_library", "cc_proto_library"]

def objcRuleKinds : List String := ["objc_library", "objc_binary"]

namespace Graph

def isEligible (graph : Graph) (target : Target) : Bool :=
  (ccRuleKinds ++ objcRuleKinds).contains target.kind && !graph.isExternal target

/-- Whether a label in canonical spelling is that of an eligible target. -/
def isEligibleLabel (graph : Graph) (label : String) : Bool :=
  match graph.find? label with
  | some target => graph.isEligible target
  | none => false

private theorem countP_not_mem_cons (labels seen : List String) (label : String)
    (fresh : label ∉ seen) :
    labels.countP (· ∉ label :: seen) + labels.count label = labels.countP (· ∉ seen) := by
  induction labels with
  | nil => rfl
  | cons other rest ih =>
      rw [List.countP_cons, List.countP_cons, List.count_cons, ← ih]
      by_cases same : other = label
      · subst same
        simp only [List.mem_cons, true_or, not_true_eq_false, decide_false, fresh,
          not_false_eq_true, decide_true, BEq.rfl, ↓reduceIte, Bool.false_eq_true]
        omega
      · simp only [List.mem_cons, same, false_or, beq_iff_eq, ↓reduceIte]
        omega

/-- What a walk may still have to meet for the first time, when some labels are seen and others are
pending: the heads not seen yet, and the pending labels that are no heads. -/
def unmet (graph : Graph) (seen pending : List String) : Nat :=
  graph.heads.countP (· ∉ seen) + pending.countP (· ∉ graph.heads)

theorem unmet_mono (graph : Graph) {seen more pending fewer : List String}
    (known : ∀ label ∈ seen, label ∈ more) (part : fewer.Sublist pending) :
    graph.unmet more fewer ≤ graph.unmet seen pending := by
  refine Nat.add_le_add (List.countP_mono_left ?_) part.countP_le
  intro label _ fresh
  simp only [decide_eq_true_eq] at fresh ⊢
  exact fun old => fresh (known label old)

/-- Dependencies are heads, so that only a label that was met is gone afterwards. -/
theorem unmet_lt (graph : Graph) {seen rest deps : List String} {label : String}
    (fresh : label ∉ seen) (inner : ∀ dep ∈ deps, dep ∈ graph.heads) :
    graph.unmet (label :: seen) (deps ++ rest) < graph.unmet seen (label :: rest) := by
  have none : deps.countP (· ∉ graph.heads) = 0 := by
    rw [List.countP_eq_zero]
    intro dep listed
    simpa using inner dep listed
  have total := countP_not_mem_cons graph.heads seen label fresh
  unfold unmet
  rw [List.countP_append, none, List.countP_cons]
  by_cases head : label ∈ graph.heads
  · have met := List.count_pos_iff.mpr head
    omega
  · rw [if_pos (by simpa using head)]
    omega

end Graph

/-- The labels of a closure in the order of the first visit. -/
structure Visit where
  visited : List String
  eligible : List String
  skipped : List String
  deriving DecidableEq, Repr

namespace Visit

def empty : Visit := ⟨[], [], []⟩

/-- Records a label that is met for the first time. -/
def record (visit : Visit) (label : String) (eligible : Bool) : Visit where
  visited := visit.visited ++ [label]
  eligible := if eligible then visit.eligible ++ [label] else visit.eligible
  skipped := if eligible then visit.skipped else visit.skipped ++ [label]

end Visit

/-- A walk in progress: the labels that are still pending, the next one first, the labels seen and
what is recorded of them. -/
structure Walk where
  pending : List String
  seen : List String
  visit : Visit
  deriving DecidableEq, Repr

namespace Walk

def start (roots : List String) : Walk := ⟨roots, [], .empty⟩

/-- Goes on with the next label. It counts as seen from now on, and its dependencies come before
everything else that is pending. -/
def step (graph : Graph) (walk : Walk) : Except Failure Walk :=
  match walk.pending with
  | [] => .ok walk
  | label :: rest =>
      if label ∈ walk.seen then .ok { walk with pending := rest }
      else
        match graph.target label with
        | .error failure => .error failure
        | .ok target =>
            .ok {
              pending := target.deps ++ rest
              seen := label :: walk.seen
              visit := walk.visit.record label (graph.isEligible target) }

/-- Everything a step can do: pass over a label that was seen, or record one that was not. -/
theorem step_cases {graph : Graph} {walk next : Walk} {label : String} {rest : List String}
    (pending : walk.pending = label :: rest) (stepped : walk.step graph = .ok next) :
    (label ∈ walk.seen ∧ next = { walk with pending := rest }) ∨
      (label ∉ walk.seen ∧ ∃ target, graph.target label = .ok target ∧
        next = {
          pending := target.deps ++ rest
          seen := label :: walk.seen
          visit := walk.visit.record label (graph.isEligible target) }) := by
  simp only [step, pending] at stepped
  split at stepped
  · next old => cases stepped; exact .inl ⟨old, rfl⟩
  · next fresh =>
    split at stepped
    · contradiction
    · next target found => cases stepped; exact .inr ⟨fresh, target, found, rfl⟩

theorem step_decreases {graph : Graph} {walk next : Walk} {label : String} {rest : List String}
    (pending : walk.pending = label :: rest) (stepped : walk.step graph = .ok next) :
    Prod.Lex (· < ·) (· < ·) (graph.unmet next.seen next.pending, next.pending.length)
      (graph.unmet walk.seen walk.pending, walk.pending.length) := by
  rcases step_cases pending stepped with ⟨_, rfl⟩ | ⟨fresh, target, found, rfl⟩
  · rw [pending]
    refine Prod.Lex.right' _ ?_ (Nat.lt_succ_self _)
    exact graph.unmet_mono (fun _ known => known) (List.sublist_cons_self label rest)
  · rw [pending]
    exact Prod.Lex.left _ _ (graph.unmet_lt fresh fun dep listed =>
      Graph.mem_heads_of_mem_deps (Graph.mem_targets_of_target found) listed)

/-- Goes on until nothing is pending. -/
def run (graph : Graph) (walk : Walk) : Except Failure Visit :=
  match _pending : walk.pending with
  | [] => .ok walk.visit
  | _ :: _ =>
      match _stepped : walk.step graph with
      | .error failure => .error failure
      | .ok next => run graph next
termination_by (graph.unmet walk.seen walk.pending, walk.pending.length)
decreasing_by exact step_decreases _pending _stepped

theorem run_of_done {graph : Graph} {walk : Walk} (done : walk.pending = []) :
    walk.run graph = .ok walk.visit := by
  unfold run
  split
  · rfl
  · next left => rw [done] at left; contradiction

theorem run_of_step {graph : Graph} {walk next : Walk} (left : walk.pending ≠ [])
    (stepped : walk.step graph = .ok next) : walk.run graph = next.run graph := by
  rw [run]
  split
  · next done => exact absurd done left
  · split
    · next failed => rw [stepped] at failed; contradiction
    · next here => rw [stepped] at here; cases here; rfl

end Walk

def Graph.visit (graph : Graph) (roots : List String) : Except Failure Visit :=
  (Walk.start roots).run graph

end CompileCommands
