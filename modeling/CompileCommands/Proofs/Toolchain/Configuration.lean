import CompileCommands.Proofs.Text.Sorted
import CompileCommands.Toolchain

set_option autoImplicit false

/- What is enabled for a request. Features and actions are sets of names: it matters which names are
requested and disabled, and neither in which order nor how often. -/
namespace CompileCommands

theorem textSet_congr {texts others : List String}
    (same : ∀ text, text ∈ texts ↔ text ∈ others) : textSet texts = textSet others := by
  apply (Text.sorted_eq_iff (nodup_orderedUnique _) (nodup_orderedUnique _)).mpr
  intro text
  rw [mem_orderedUnique, mem_orderedUnique, same]

namespace Toolchain

variable (toolchain : Toolchain) (requested unsupported : List String)

theorem mem_knownActions (action : String) :
    action ∈ toolchain.knownActions ↔
      action ∈ toolchain.defaultActions ∨ action ∈ toolchain.tools.keys := by
  simp [knownActions]

theorem mem_actions_configure (action : String) :
    action ∈ (toolchain.configure requested unsupported).actions ↔
      action ∉ unsupported ∧ (action ∈ toolchain.defaultActions ∨
        action ∈ requested ∧ action ∈ toolchain.tools.keys) := by
  simp only [configure, mem_textSet, List.mem_filter, List.mem_append,
    Bool.not_eq_true', List.contains_eq_mem, decide_eq_false_iff_not, decide_eq_true_eq,
    mem_knownActions]
  constructor
  · rintro ⟨usual | ⟨asked, usual | tooled⟩, kept⟩
    · exact ⟨kept, .inl usual⟩
    · exact ⟨kept, .inl usual⟩
    · exact ⟨kept, .inr ⟨asked, tooled⟩⟩
  · rintro ⟨kept, usual | ⟨asked, tooled⟩⟩
    · exact ⟨.inl usual, kept⟩
    · exact ⟨.inr ⟨asked, .inr tooled⟩, kept⟩

theorem mem_features_configure (name : String) :
    name ∈ (toolchain.configure requested unsupported).features ↔
      name ∉ unsupported ∧ ∃ feature ∈ toolchain.features, feature.name = name ∧
        (feature.enabled = true ∨ name ∈ requested) := by
  simp only [configure, mem_textSet, List.mem_filter, List.mem_append, List.mem_map,
    Bool.not_eq_true', List.contains_eq_mem, decide_eq_false_iff_not, decide_eq_true_eq]
  constructor
  · rintro ⟨⟨feature, ⟨declared, always⟩, named⟩ | ⟨asked, feature, declared, named⟩, kept⟩
    · exact ⟨kept, feature, declared, named, .inl always⟩
    · exact ⟨kept, feature, declared, named, .inr asked⟩
  · rintro ⟨kept, feature, declared, named, always | asked⟩
    · exact ⟨.inl ⟨feature, ⟨declared, always⟩, named⟩, kept⟩
    · exact ⟨.inr ⟨asked, feature, declared, named⟩, kept⟩

/-- Configurations are told apart by what is enabled in them. -/
theorem configure_ext {toolchain other : Toolchain}
    {requested unsupported others disabled : List String}
    (features : ∀ name, name ∈ (toolchain.configure requested unsupported).features ↔
      name ∈ (other.configure others disabled).features)
    (actions : ∀ action, action ∈ (toolchain.configure requested unsupported).actions ↔
      action ∈ (other.configure others disabled).actions) :
    toolchain.configure requested unsupported = other.configure others disabled := by
  have sameFeatures : (toolchain.configure requested unsupported).features =
      (other.configure others disabled).features :=
    textSet_congr fun name => by simpa only [configure, mem_textSet] using features name
  have sameActions : (toolchain.configure requested unsupported).actions =
      (other.configure others disabled).actions :=
    textSet_congr fun action => by simpa only [configure, mem_textSet] using actions action
  exact congrArg₂ Configuration.mk sameFeatures sameActions

theorem configure_congr {requested others unsupported disabled : List String}
    (asked : ∀ name, name ∈ requested ↔ name ∈ others)
    (refused : ∀ name, name ∈ unsupported ↔ name ∈ disabled) :
    toolchain.configure requested unsupported = toolchain.configure others disabled := by
  apply configure_ext
  · intro name
    simp only [mem_features_configure, asked, refused]
  · intro action
    simp only [mem_actions_configure, asked, refused]

end Toolchain

end CompileCommands
