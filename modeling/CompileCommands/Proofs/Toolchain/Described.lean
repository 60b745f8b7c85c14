import CompileCommands.Proofs.Context.Described
import CompileCommands.Proofs.FirstFailure
import CompileCommands.Proofs.Synthesis.TextTemplates

set_option autoImplicit false

/- Toolchains that are read from a description. Every member of it is looked at before it is used,
and what is wrong with it is told as a mistake of the description; only of the flag templates it is
taken for granted that they are an object of texts. -/
namespace CompileCommands

open Json (Value Members)

/-- Mistakes in a description that the program itself reports. -/
inductive Failure.IsInputError : Failure → Prop
  | description (fault : DescriptionFault) : IsInputError (.description fault)
  | toolchain (fault : ToolchainFault) : IsInputError (.toolchain fault)

/-- What happens to values that are no flag templates and are looked through all the same. -/
inductive Failure.IsTemplateCrash : Failure → Prop
  | notObject (typeName : String) : IsTemplateCrash (.templatesNotObject typeName)
  | notSearchable (typeName : String) : IsTemplateCrash (.templateNotSearchable typeName)

/-! The members apart from the flag templates. -/

theorem Fields.ensures_strings (owner key : String) (members : Members) :
    Ensures Failure.IsInputError (fun _ => True) (strings owner key members) := by
  apply (ensures_lists owner key members).mono _ fun _ _ => trivial
  rintro _ ⟨fault⟩
  exact .description fault

theorem Feature.ensures_ofValue (value : Value) :
    Ensures Failure.IsInputError (fun _ => True) (Feature.ofValue value) := by
  cases value with
  | string name => trivial
  | object members =>
      rw [Feature.ofValue, Feature.ofMembers]
      cases Table.find? "name" members with
      | none => exact Failure.IsInputError.description _
      | some name =>
          apply (Fields.ensures_strings _ "flags" members).bind
          intro flags _
          have usual : Ensures Failure.IsInputError (fun _ => True) (pure compileActions) := trivial
          apply Ensures.ite_bind (Fields.ensures_strings _ "actions" members) usual
          intro actions _
          trivial
  | _ => exact Failure.IsInputError.description _

namespace Toolchain

theorem ensures_toolsOf (found : Option Value) :
    Ensures Failure.IsInputError (fun _ => True) (toolsOf found) := by
  unfold toolsOf
  split
  · trivial
  · trivial
  · exact Failure.IsInputError.description _

theorem ensures_featuresOf (found : Option Value) :
    Ensures Failure.IsInputError (fun _ => True) (featuresOf found) := by
  unfold featuresOf
  split
  · trivial
  · trivial
  · exact Failure.IsInputError.description _

/-- Reading a toolchain goes wrong in the ways that reading its flag templates does, and by mistakes
of the description. -/
theorem ensures_ofSection {fails : Failure → Prop} {good : FlagTemplates → Prop} {members : Members}
    (reported : ∀ failure : Failure, failure.IsInputError → fails failure)
    (templates : Ensures fails good (FlagTemplates.ofValue? (members.find? "flag_templates")))
    (copts cxxopts : List String) :
    Ensures fails (fun toolchain => good toolchain.templates)
      (ofSection members copts cxxopts) := by
  have part {α : Type} {x : Except Failure α}
      (sure : Ensures Failure.IsInputError (fun _ => True) x) : Ensures fails (fun _ => True) x :=
    sure.mono reported fun _ => id
  apply (part (ensures_toolsOf (members.find? "tools"))).bind
  intro tools _
  have usual : Ensures fails (fun _ => True) (pure compileActions) := trivial
  apply Ensures.ite_bind (part (Fields.ensures_strings _ "actions" members)) usual
  intro actions _
  apply (part (ensures_featuresOf (members.find? "features"))).bind
  intro described _
  apply (part (ensures_mapM fun value _ => Feature.ensures_ofValue value).ignore).bind
  intro features _
  apply (part (Fields.ensures_strings _ "copts" members)).bind
  intro ownCopts _
  apply (part (Fields.ensures_strings _ "cxxopts" members)).bind
  intro ownCxxopts _
  apply templates.bind
  intro made sound
  exact sound

end Toolchain

/-! Flag templates. -/

/-- Whether a template is a text with the place of the value marked. -/
def FlagTemplate.IsMarkedText (template : FlagTemplate) : Prop :=
  ∃ text, template = .text text ∧ Text.occurs place text.toList = true

/-- Whether a template is another value in which the mark is found, but not within a text. -/
def FlagTemplate.IsMarkedOther (template : FlagTemplate) : Prop :=
  ∃ value, template = .other value ∧ marksPlace value = .ok true ∧ value.string? = none

/-- Whether flag templates are described as texts, one for each name, or not at all. -/
def DescribesTexts : Option Value → Prop
  | none => True
  | some (.object members) => ∀ member ∈ members, ∃ text, member.2 = .string text
  | some found => found.isFalsy = true

theorem FlagTemplates.isMarkedText_default (group : FlagGroup) : (default group).IsMarkedText := by
  cases group <;> exact ⟨_, rfl, rfl⟩

theorem FlagTemplate.ensures_ofValue_string (group text : String) :
    Ensures Failure.IsInputError IsMarkedText (ofValue group (.string text)) := by
  rw [ofValue, marksPlace]
  cases marked : Text.occurs place text.toList with
  | false => exact Failure.IsInputError.toolchain _
  | true => exact ⟨text, rfl, marked⟩

theorem FlagTemplate.ensures_ofValue_other (group : String) {value : Value} {holdsMark : Bool}
    (searched : marksPlace value = .ok holdsMark) (noText : value.string? = none) :
    Ensures Failure.IsInputError IsMarkedOther (ofValue group value) := by
  unfold ofValue
  rw [searched]
  cases holdsMark with
  | false => exact Failure.IsInputError.toolchain _
  | true =>
      cases value with
      | string text => contradiction
      | _ => exact ⟨_, rfl, searched, noText⟩

theorem FlagTemplate.ensures_ofValue (group : String) (value : Value) :
    Ensures (fun failure => failure.IsInputError ∨ failure.IsTemplateCrash)
      (fun template => template.IsMarkedText ∨ template.IsMarkedOther) (ofValue group value) := by
  cases value with
  | string text =>
      exact (ensures_ofValue_string group text).mono (fun _ => .inl) fun _ => .inl
  | array items =>
      exact (ensures_ofValue_other group rfl rfl).mono (fun _ => .inl) fun _ => .inr
  | object members =>
      exact (ensures_ofValue_other group rfl rfl).mono (fun _ => .inl) fun _ => .inr
  | _ => exact .inr (.notSearchable _)

namespace FlagTemplates

theorem ensures_override {fails : Failure → Prop} {good : FlagTemplate → Prop}
    (reported : ∀ failure : Failure, failure.IsInputError → fails failure)
    {members : List (String × Value)}
    (each : ∀ member ∈ members, Ensures fails good (FlagTemplate.ofValue member.1 member.2))
    {templates : FlagTemplates} (start : ∀ group, good (templates group)) :
    Ensures fails (fun made => ∀ group, good (made group)) (override templates members) := by
  induction members generalizing templates with
  | nil => exact start
  | cons member rest ih =>
      obtain ⟨first, others⟩ := List.forall_mem_cons.mp each
      rw [override]
      cases FlagGroup.ofName? member.1 with
      | none => exact reported _ (.toolchain _)
      | some group =>
          dsimp only
          cases read : FlagTemplate.ofValue member.1 member.2 with
          | error failure =>
              rw [read] at first
              exact first
          | ok template =>
              rw [read] at first
              apply ih others
              intro other
              rw [set]
              split
              · exact first
              · exact start other

theorem ensures_ofValue?_of_texts {found : Option Value} (texts : DescribesTexts found) :
    Ensures Failure.IsInputError (fun made => ∀ group, (made group).IsMarkedText)
      (ofValue? found) := by
  unfold ofValue?
  split
  · exact isMarkedText_default
  · next members =>
    apply ensures_override (fun _ => id) _ isMarkedText_default
    intro member listed
    obtain ⟨text, same⟩ := texts member listed
    rw [same]
    exact FlagTemplate.ensures_ofValue_string member.1 text
  · next found noObject =>
    have absent : found.isFalsy = true := by
      cases found with
      | object members => exact absurd rfl (noObject members)
      | _ => exact texts
    rw [if_pos absent]
    exact isMarkedText_default

theorem ensures_ofValue? (found : Option Value) :
    Ensures (fun failure => failure.IsInputError ∨ failure.IsTemplateCrash)
      (fun made => ∀ group, (made group).IsMarkedText ∨ (made group).IsMarkedOther)
      (ofValue? found) := by
  have start : ∀ group, (default group).IsMarkedText ∨ (default group).IsMarkedOther :=
    fun group => .inl (isMarkedText_default group)
  unfold ofValue?
  split
  · exact start
  · exact ensures_override (fun _ => Or.inl)
      (fun member _ => FlagTemplate.ensures_ofValue member.1 member.2) start
  · split
    · exact start
    · exact .inr (.notObject _)

end FlagTemplates

/-! Toolchains. -/

/-- What the flag templates of a description are described as. -/
def describedTemplates (description : Members) : Option Value :=
  match description.find? "toolchain" with
  | some (.object members) => Table.find? "flag_templates" members
  | _ => none

namespace Toolchain

theorem ensures_ofDescription {fails : Failure → Prop} {good : FlagTemplates → Prop}
    {description : Members}
    (reported : ∀ failure : Failure, failure.IsInputError → fails failure)
    (templates : Ensures fails good (FlagTemplates.ofValue? (describedTemplates description)))
    (copts cxxopts : List String) :
    Ensures fails (fun toolchain => good toolchain.templates)
      (ofDescription description copts cxxopts) := by
  unfold describedTemplates at templates
  unfold ofDescription
  cases found : description.find? "toolchain" with
  | none =>
      rw [found] at templates
      exact ensures_ofSection reported templates copts cxxopts
  | some value =>
      rw [found] at templates
      cases value with
      | object members => exact ensures_ofSection reported templates copts cxxopts
      | _ => exact reported _ (.description _)

/-- A toolchain that never fails when commands are made. -/
structure IsReliable (toolchain : Toolchain) : Prop where
  marked : ∀ group, (toolchain.templates group).IsMarkedText
  flags : ∀ configuration action parts,
    ∃ flags, toolchain.flags configuration action parts = .ok flags
  entries : ∀ target, ∃ entries, Synthesis.targetEntries toolchain target = .ok entries

theorem isReliable_of_marked {toolchain : Toolchain}
    (marked : ∀ group, (toolchain.templates group).IsMarkedText) : toolchain.IsReliable := by
  have texts : toolchain.HasTextTemplates := by
    intro group
    obtain ⟨text, same, _⟩ := marked group
    exact ⟨text, same⟩
  exact ⟨marked, texts.exists_flags, texts.exists_targetEntries⟩

/-- No flag is made of a template that is no text, and the first one that is needed is the
failure. -/
theorem flags_eq_error_of_other {toolchain : Toolchain} {group : FlagGroup} {value : Value}
    (odd : toolchain.templates group = .other value) (configuration : Configuration)
    (action : String) {parts : Variables} (used : parts.values group ≠ []) :
    ∃ typeName,
      toolchain.flags configuration action parts = .error (.templateNotText typeName) := by
  have each : ∀ other failure,
      (parts.values other).mapM (toolchain.templates other).flags = .error failure →
        ∃ typeName, failure = .templateNotText typeName := by
    intro other failure failed
    obtain ⟨text, _, here⟩ := ((mapM_eq_error_iff ..).mp failed).exists_mem
    cases made : toolchain.templates other with
    | text template =>
        rw [made] at here
        contradiction
    | other found =>
        rw [made] at here
        cases here
        exact ⟨found.typeName, rfl⟩
  have refused : ∀ block,
      (parts.values group).mapM (toolchain.templates group).flags ≠ .ok block := by
    intro block made
    obtain ⟨text, listed⟩ := List.exists_mem_of_ne_nil _ used
    obtain ⟨flags, _, here⟩ := exists_of_mem_forall₂ (mapM_eq_ok_iff.mp made).flip listed
    rw [odd] at here
    contradiction
  rcases forall_ok_or_failsFirst
      (fun other => (parts.values other).mapM (toolchain.templates other).flags) FlagGroup.all with
    able | ⟨failure, fails⟩
  · obtain ⟨block, made⟩ := able group group.mem_all
    exact absurd made (refused block)
  · obtain ⟨other, _, here⟩ := fails.exists_mem
    obtain ⟨typeName, rfl⟩ := each other failure here
    refine ⟨typeName, ?_⟩
    rw [flags, contextFlags, (mapM_eq_error_iff ..).mpr fails]
    rfl

end Toolchain

/-- If the flag templates are described as texts, then a description is refused by a mistake that is
reported, or gives a toolchain that never fails. They can be described otherwise: as something that
is no object, or with values that no mark can be looked for in, which ends the program in its own
way, and with lists and objects that hold the mark, which are accepted. As soon as a flag is to be
made of one of these, no flags are made at all. -/
theorem ofDescription_outcome (description : Members) (copts cxxopts : List String) :
    (DescribesTexts (describedTemplates description) →
      Ensures Failure.IsInputError Toolchain.IsReliable
        (Toolchain.ofDescription description copts cxxopts)) ∧
    Ensures (fun failure => failure.IsInputError ∨ failure.IsTemplateCrash)
      (fun toolchain =>
        (∀ group, (toolchain.templates group).IsMarkedText ∨
          (toolchain.templates group).IsMarkedOther) ∧
        ∀ group, (toolchain.templates group).IsMarkedOther →
          ∀ configuration action (parts : Variables), parts.values group ≠ [] →
            ∃ typeName,
              toolchain.flags configuration action parts = .error (.templateNotText typeName))
      (Toolchain.ofDescription description copts cxxopts) := by
  constructor
  · intro texts
    have templates := FlagTemplates.ensures_ofValue?_of_texts texts
    exact (Toolchain.ensures_ofDescription (fun _ => id) templates copts cxxopts).mono (fun _ => id)
      fun _ => Toolchain.isReliable_of_marked
  · have templates := FlagTemplates.ensures_ofValue? (describedTemplates description)
    have outcome := Toolchain.ensures_ofDescription (fun _ => .inl) templates copts cxxopts
    apply outcome.mono fun _ => id
    intro toolchain marked
    refine ⟨marked, ?_⟩
    rintro group ⟨value, odd, _⟩ configuration action parts used
    exact Toolchain.flags_eq_error_of_other odd configuration action used

/-- A description of nothing but flag templates. -/
def templatesAlone (templates : Value) : Members :=
  [("toolchain", .object [("flag_templates", templates)])]

theorem ofDescription_outcome_texts :
    DescribesTexts (describedTemplates
      (templatesAlone (.object [("includes", .string "/I \x7b\x7d")]))) ∧
    Ensures Failure.IsInputError Toolchain.IsReliable
      (Toolchain.ofDescription
        (templatesAlone (.object [("includes", .string "/I \x7b\x7d")])) [] []) := by
  have texts : DescribesTexts (describedTemplates
      (templatesAlone (.object [("includes", .string "/I \x7b\x7d")]))) := by
    show ∀ member ∈ [("includes", Value.string "/I \x7b\x7d")], ∃ text, member.2 = .string text
    intro member listed
    rw [List.mem_singleton.mp listed]
    exact ⟨_, rfl⟩
  exact ⟨texts, (ofDescription_outcome _ [] []).1 texts⟩

/-- A list in the place of the templates, a template that is null and one that is a list with the
mark in it: of the first two no toolchain is made, and it is not said what is wrong with them; the
third is accepted and fails when a flag is made of it. -/
theorem unreliable_templates :
    ¬ Ensures Failure.IsInputError Toolchain.IsReliable
      (Toolchain.ofDescription (templatesAlone (.array [.string "-I\x7b\x7d"])) [] []) ∧
    ¬ Ensures Failure.IsInputError Toolchain.IsReliable
      (Toolchain.ofDescription (templatesAlone (.object [("includes", .null)])) [] []) ∧
    ¬ Ensures Failure.IsInputError Toolchain.IsReliable
      (Toolchain.ofDescription
        (templatesAlone (.object [("includes", .array [.string "\x7b\x7d"])])) [] []) := by
  refine ⟨?_, ?_, ?_⟩
  · intro reported
    cases reported
  · intro reported
    cases reported
  · intro reliable
    obtain ⟨text, same, _⟩ := reliable.marked .includes
    cases same

end CompileCommands
