import CompileCommands.Proofs.Context.Described
import CompileCommands.Proofs.Label.OtherValues
import CompileCommands.Target

set_option autoImplicit false

/- Which values describe a target, and which target they describe. Labels have to be strings that are
read as labels, lists have to be lists of strings, and the context has to be described as one; the
target has its labels in canonical spelling and its lists as they are. -/
namespace CompileCommands

open Json (Value Members)

/-! Labels. -/

namespace Label

theorem ensures_canonicalize (text : String) :
    Ensures Failure.IsDescription (fun _ => ∃ label, parse text = .ok label) (canonicalize text) := by
  cases read : parse text with
  | error fault =>
      rw [canonicalize_of_parse_error read]
      exact .intro _
  | ok label =>
      rw [canonicalize_of_parse read]
      exact ⟨label, rfl⟩

theorem ensures_parse (text : String) :
    Ensures Failure.IsDescription (fun label => parse text = .ok label)
      ((parse text).mapError fun fault => .description (.label text fault)) := by
  cases parse text with
  | error fault => exact Failure.IsDescription.intro _
  | ok label => exact rfl

end Label

namespace Target

def listNames : List String :=
  ["srcs", "hdrs", "deps", "outputs", "features", "disabled_features"]

/-- Whether a member is left out or null. -/
def LacksContext (members : Members) : Prop :=
  members.find? "compilation_context" = none ∨ members.find? "compilation_context" = some .null

/-- Whether members describe a target. -/
structure Describable (members : Members) : Prop where
  label : ∃ text label, members.find? "label" = some (.string text) ∧ Label.parse text = .ok label
  kind : ∃ kind, members.find? "kind" = some kind
  lists : ∀ key ∈ listNames, ∃ texts, Fields.Lists members key texts
  deps : ∀ texts, Fields.Lists members "deps" texts →
    ∀ text ∈ texts, ∃ label, Label.parse text = .ok label
  context : LacksContext members ∨ ∃ described,
    members.find? "compilation_context" = some (.object described) ∧ Context.Describable described

/-- Whether a target is as members describe it. -/
structure AsDescribed (target : Target) (members : Members) : Prop where
  label : ∃ text label, members.find? "label" = some (.string text) ∧
    Label.parse text = .ok label ∧ target.label = label.text ∧ target.workspace = label.workspace
  kind : ∃ kind, members.find? "kind" = some kind ∧ target.kind = kind.text
  srcs : Fields.Lists members "srcs" target.srcs
  hdrs : Fields.Lists members "hdrs" target.hdrs
  deps : ∃ texts labels, Fields.Lists members "deps" texts ∧
    List.Forall₂ (fun text label => Label.canonicalize text = .ok label) texts labels ∧
      target.deps = labels.eraseDups
  outputs : Fields.Lists members "outputs" target.outputs
  features : Fields.Lists members "features" target.features
  disabledFeatures : Fields.Lists members "disabled_features" target.disabledFeatures
  context : (LacksContext members ∧ target.context = none) ∨ ∃ described context,
    members.find? "compilation_context" = some (.object described) ∧
      context.AsDescribed described ∧ target.context = some context

theorem ensures_requiredText (key : String) (members : Members) :
    Ensures Failure.IsDescription
      (fun text => ∃ value, members.find? key = some value ∧ text = value.text)
      (requiredText key members) := by
  unfold requiredText
  cases members.find? key with
  | none => exact Failure.IsDescription.intro _
  | some value => exact ⟨value, rfl, rfl⟩

theorem ensures_optionalContext (members : Members) :
    Ensures Failure.IsDescription
      (fun found => (LacksContext members ∧ found = none) ∨ ∃ described context,
        members.find? "compilation_context" = some (.object described) ∧
          (Context.Describable described ∧ context.AsDescribed described) ∧ found = some context)
      (optionalContext members) := by
  unfold optionalContext
  cases found : members.find? "compilation_context" with
  | none => exact .inl ⟨.inl found, rfl⟩
  | some value =>
      cases value with
      | null => exact .inl ⟨.inr found, rfl⟩
      | object described =>
          apply Ensures.map
          apply (Context.ensures_ofMembers described).mono (fun _ => id)
          intro context read
          exact .inr ⟨described, context, rfl, read, rfl⟩
      | _ => exact Failure.IsDescription.intro _

theorem ensures_ofMembers (members : Members) :
    Ensures Failure.IsDescription
      (fun target => Describable members ∧ target.AsDescribed members) (ofMembers members) := by
  unfold ofMembers
  apply (ensures_requiredText "label" members).bind
  rintro name ⟨labelValue, labelled, rfl⟩
  apply (ensures_requiredText "kind" members).bind
  rintro kind ⟨kindValue, ofKind, rfl⟩
  apply (ensures_optionalContext members).bind
  intro context inContext
  apply (Fields.ensures_lists _ "srcs" members).bind
  intro srcs srcsListed
  apply (Fields.ensures_lists _ "hdrs" members).bind
  intro hdrs hdrsListed
  apply (Fields.ensures_lists _ "deps" members).bind
  intro texts depsListed
  apply (Fields.ensures_lists _ "outputs" members).bind
  intro outputs outputsListed
  apply (Fields.ensures_lists _ "features" members).bind
  intro features featuresListed
  apply (Fields.ensures_lists _ "disabled_features" members).bind
  intro disabled disabledListed
  apply (Label.ensures_parse _).bind
  intro label read
  obtain ⟨text, rfl⟩ := Label.exists_string_of_parse_text read
  apply (ensures_mapM fun dep _ => (Label.ensures_canonicalize dep).self).bind
  intro deps each
  constructor
  · refine ⟨⟨text, label, labelled, read⟩, ⟨kindValue, ofKind⟩, ?_, ?_, ?_⟩
    · simp only [listNames, List.forall_mem_cons]
      exact ⟨⟨srcs, srcsListed⟩, ⟨hdrs, hdrsListed⟩, ⟨texts, depsListed⟩, ⟨outputs, outputsListed⟩,
        ⟨features, featuresListed⟩, ⟨disabled, disabledListed⟩, by simp⟩
    · intro others listed dep member
      rw [← depsListed.unique listed] at member
      obtain ⟨_, _, parsed, _⟩ := exists_of_mem_forall₂ each.flip member
      exact parsed
    · rcases inContext with ⟨lacks, _⟩ | ⟨described, found, here, ⟨good, _⟩, _⟩
      · exact .inl lacks
      · exact .inr ⟨described, here, good⟩
  · refine ⟨⟨text, label, labelled, read, rfl, rfl⟩, ⟨kindValue, ofKind, rfl⟩, srcsListed, hdrsListed,
      ⟨texts, deps, depsListed, each.imp fun _ _ => And.right, orderedUnique_eq_eraseDups deps⟩,
      outputsListed, featuresListed, disabledListed, ?_⟩
    rcases inContext with ⟨lacks, rfl⟩ | ⟨described, found, here, ⟨_, as⟩, rfl⟩
    · exact .inl ⟨lacks, rfl⟩
    · exact .inr ⟨described, found, here, as, rfl⟩

theorem exists_optionalContext {members : Members} (good : Describable members) :
    ∃ context, optionalContext members = .ok context := by
  unfold optionalContext
  rcases good.context with (absent | null) | ⟨described, found, good⟩
  · rw [absent]
    exact ⟨none, rfl⟩
  · rw [null]
    exact ⟨none, rfl⟩
  · obtain ⟨context, read⟩ := good.exists_ofMembers
    rw [found]
    exact ⟨some context, by simp only [Context.ofValue, read]; rfl⟩

theorem Describable.exists_ofMembers {members : Members} (good : Describable members) :
    ∃ target, ofMembers members = .ok target := by
  obtain ⟨text, label, labelled, read⟩ := good.label
  obtain ⟨kind, ofKind⟩ := good.kind
  obtain ⟨context, inContext⟩ := exists_optionalContext good
  have each (key : String) (name : key ∈ listNames) : ∃ texts, Fields.Lists members key texts :=
    good.lists key name
  obtain ⟨srcs, srcsListed⟩ := each "srcs" (by simp [listNames])
  obtain ⟨hdrs, hdrsListed⟩ := each "hdrs" (by simp [listNames])
  obtain ⟨texts, depsListed⟩ := each "deps" (by simp [listNames])
  obtain ⟨outputs, outputsListed⟩ := each "outputs" (by simp [listNames])
  obtain ⟨features, featuresListed⟩ := each "features" (by simp [listNames])
  obtain ⟨disabled, disabledListed⟩ := each "disabled_features" (by simp [listNames])
  obtain ⟨deps, canonical⟩ := exists_mapM_eq_ok Label.canonicalize texts fun dep member => by
    obtain ⟨parsed, readDep⟩ := good.deps texts depsListed dep member
    exact ⟨_, Label.canonicalize_of_parse readDep⟩
  have named : requiredText "label" members = .ok text := by rw [requiredText, labelled]; rfl
  have kinded : requiredText "kind" members = .ok kind.text := by rw [requiredText, ofKind]
  refine ⟨⟨label.text, kind.text, label.workspace, srcs, hdrs, orderedUnique deps, outputs, context,
    features, disabled⟩, ?_⟩
  simp only [ofMembers, named, kinded, inContext, srcsListed.strings_eq, hdrsListed.strings_eq,
    depsListed.strings_eq, outputsListed.strings_eq, featuresListed.strings_eq,
    disabledListed.strings_eq, read, Except.mapError, canonical, ok_bind]
  rfl

/-- A value is refused as a mistake of the description, or describes a target and is read as that
target; and whether it describes one is told by the shapes of its members. -/
theorem ofValue_decodes (value : Value) :
    ((∃ target, ofValue value = .ok target) ↔
      ∃ members, value = .object members ∧ Describable members) ∧
    Ensures Failure.IsDescription
      (fun target => ∃ members, value = .object members ∧ target.AsDescribed members)
      (ofValue value) := by
  cases value with
  | object members =>
      have sure := ensures_ofMembers members
      constructor
      · constructor
        · rintro ⟨target, read⟩
          change ofMembers members = .ok target at read
          rw [read] at sure
          exact ⟨members, rfl, sure.1⟩
        · rintro ⟨others, same, good⟩
          cases same
          exact good.exists_ofMembers
      · exact sure.mono (fun _ => id) fun target read => ⟨members, rfl, read.2⟩
  | _ =>
      refine ⟨⟨?_, ?_⟩, .intro _⟩
      · rintro ⟨target, read⟩
        cases read
      · rintro ⟨members, same, _⟩
        cases same

end Target

end CompileCommands
