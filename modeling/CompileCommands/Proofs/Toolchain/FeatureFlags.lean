import CompileCommands.Proofs.Toolchain.Configuration
import Mathlib.Data.List.Flatten

set_option autoImplicit false

/- The features of a toolchain and the flags that they add. A feature adds its flags if its name is
enabled, so that features under one name add all theirs or none, and more enabled names only add
flags between those that there were. -/
namespace CompileCommands

/-- The features under other names. -/
def Feature.others (name : String) (declared : List Feature) : List Feature :=
  declared.filter (·.name ≠ name)

theorem Feature.mem_others (name : String) (declared : List Feature) (feature : Feature) :
    feature ∈ others name declared ↔ feature ∈ declared ∧ feature.name ≠ name := by
  simp [others]

namespace Toolchain

/-- A toolchain that is made with other features. -/
def declaring (toolchain : Toolchain) (declared : List Feature) : Toolchain :=
  { toolchain with features := withCompilerInput declared }

/-- Whether the flags of a feature are among those of an action. -/
def applies (configuration : Configuration) (action : String) (feature : Feature) : Bool :=
  configuration.features.contains feature.name && feature.actions.contains action

theorem applies_eq_true_iff (configuration : Configuration) (action : String) (feature : Feature) :
    applies configuration action feature = true ↔
      feature.name ∈ configuration.features ∧ action ∈ feature.actions := by
  simp [applies]

theorem featureFlags_eq_map (toolchain : Toolchain) (configuration : Configuration)
    (action source : String) :
    toolchain.featureFlags configuration action source =
      ((toolchain.features.filter (applies configuration action)).flatMap Feature.flags).map
        (featureFlag source) := by
  rw [List.map_flatMap]
  rfl

theorem featureFlags_sublist (toolchain : Toolchain) {configuration other : Configuration}
    (more : ∀ name ∈ configuration.features, name ∈ other.features) (action source : String) :
    (toolchain.featureFlags configuration action source).Sublist
      (toolchain.featureFlags other action source) := by
  rw [featureFlags_eq_map, featureFlags_eq_map]
  refine List.Sublist.map _ (List.Sublist.flatMap (List.monotone_filter_right _ ?_) _)
  intro feature applied
  rw [applies_eq_true_iff] at applied ⊢
  exact applied.imp_left (more _)

/-- Features that are not enabled add nothing. -/
theorem filter_applies_others {configuration : Configuration} {name : String}
    (off : name ∉ configuration.features) (action : String) (features : List Feature) :
    (Feature.others name features).filter (applies configuration action) =
      features.filter (applies configuration action) := by
  rw [Feature.others, List.filter_filter]
  apply List.filter_congr
  intro feature _
  rw [Bool.eq_iff_iff, Bool.and_eq_true, applies_eq_true_iff, decide_eq_true_iff]
  refine and_iff_left_of_imp ?_
  rintro ⟨enabled, _⟩ rfl
  exact off enabled

/-! The feature that every toolchain has. -/

theorem withCompilerInput_eq_append (declared : List Feature) :
    withCompilerInput declared = declared ++
      if declared.any (·.name == Feature.compilerInputName) then [] else [Feature.compilerInput] := by
  rw [withCompilerInput]
  split
  · rw [List.append_nil]
  · rfl

theorem withCompilerInput_of_forall {declared : List Feature}
    (own : ∀ feature ∈ declared, feature.name ≠ Feature.compilerInputName) :
    withCompilerInput declared = declared ++ [Feature.compilerInput] := by
  rw [withCompilerInput, if_neg]
  simpa using own

theorem mem_or_eq_of_mem_withCompilerInput {declared : List Feature} {feature : Feature}
    (member : feature ∈ withCompilerInput declared) :
    feature ∈ declared ∨ feature = Feature.compilerInput := by
  rw [withCompilerInput_eq_append, List.mem_append] at member
  refine member.imp_right fun added => ?_
  split at added
  · contradiction
  · exact List.mem_singleton.mp added

/-- Whether the feature is added again is of no matter where its name is left out. -/
theorem others_withCompilerInput (name : String) (declared : List Feature) :
    Feature.others name (withCompilerInput (Feature.others name declared)) =
      Feature.others name (withCompilerInput declared) := by
  have twice : Feature.others name (Feature.others name declared) =
      Feature.others name declared := by
    simp only [Feature.others, List.filter_filter, Bool.and_self]
  have parts (features : List Feature) : Feature.others name (withCompilerInput features) =
      Feature.others name features ++ Feature.others name
        (if features.any (·.name == Feature.compilerInputName) then []
          else [Feature.compilerInput]) := by
    rw [withCompilerInput_eq_append]
    exact List.filter_append ..
  rw [parts, parts, twice]
  by_cases same : Feature.compilerInputName = name
  · have nothing (known : Bool) :
        Feature.others name (if known then [] else [Feature.compilerInput]) = [] := by
      subst same
      cases known <;> rfl
    rw [nothing, nothing]
  · have known : (Feature.others name declared).any (·.name == Feature.compilerInputName) =
        declared.any (·.name == Feature.compilerInputName) := by
      rw [Bool.eq_iff_iff, List.any_eq_true, List.any_eq_true]
      constructor
      · rintro ⟨feature, member, named⟩
        exact ⟨feature, ((Feature.mem_others ..).mp member).1, named⟩
      · rintro ⟨feature, member, named⟩
        have other : feature.name ≠ name := beq_iff_eq.mp named ▸ same
        exact ⟨feature, (Feature.mem_others ..).mpr ⟨member, other⟩, named⟩
    rw [known]

theorem mem_withCompilerInput_others {name : String} {feature : Feature}
    (other : feature.name ≠ name) (declared : List Feature) :
    feature ∈ withCompilerInput (Feature.others name declared) ↔
      feature ∈ withCompilerInput declared := by
  have both := Feature.mem_others name (withCompilerInput (Feature.others name declared)) feature
  rw [others_withCompilerInput, Feature.mem_others] at both
  simpa [other] using both.symm

end Toolchain

end CompileCommands
