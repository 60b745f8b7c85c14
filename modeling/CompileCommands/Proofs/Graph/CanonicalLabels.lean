import CompileCommands.Proofs.Graph.Built
import CompileCommands.Proofs.Label.RoundTrip
import CompileCommands.Proofs.Target.Described

set_option autoImplicit false

/- However the labels are spelled in a description, the targets that are read have them in canonical
spelling. -/
namespace CompileCommands

open Json (Value Members)

/-- Whether the label of a target is in canonical spelling. -/
def Target.HasCanonicalLabel (target : Target) : Prop :=
  Label.canonicalize target.label = .ok target.label

namespace Target

theorem hasCanonicalLabel_of_ofValue {value : Value} {target : Target}
    (read : ofValue value = .ok target) : target.HasCanonicalLabel := by
  cases value with
  | object members =>
      have described := ensures_ofMembers members
      change ofMembers members = .ok target at read
      rw [read] at described
      obtain ⟨name, label, _, parsed, same, _⟩ := described.2.label
      rw [HasCanonicalLabel, same]
      exact Label.canonicalize_text_of_parse parsed
  | _ => contradiction

end Target

/-- A graph that is read is made of the targets it holds. -/
theorem Graph.ofTargets_of_ofDescription {description : Members} {graph : Graph}
    (read : Graph.ofDescription description = .ok graph) :
    Graph.ofTargets graph.targets graph.workspace = .ok graph ∧
      ∀ target ∈ graph.targets, target.HasCanonicalLabel := by
  unfold Graph.ofDescription at read
  split at read
  · next items listed =>
    obtain ⟨targets, each, made⟩ := bind_eq_ok_iff.mp read
    obtain ⟨rfl, built⟩ := (ofTargets_eq_ok_iff _ _ graph).mp made
    refine ⟨made, fun target declared => ?_⟩
    obtain ⟨value, _, this⟩ := exists_of_mem_forall₂ (mapM_eq_ok_iff.mp each) declared
    exact Target.hasCanonicalLabel_of_ofValue this
  · contradiction

end CompileCommands
