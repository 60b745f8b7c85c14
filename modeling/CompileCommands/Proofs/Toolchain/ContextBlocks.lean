import CompileCommands.Proofs.Text.Cut
import CompileCommands.Proofs.Text.Replaced
import CompileCommands.Proofs.Text.Words
import CompileCommands.Proofs.Toolchain.Described

set_option autoImplicit false

/- The flags of a compilation context stand in blocks, one for each value. A template is cut into words
before the value is put in, so that no value is cut; and since the mark has no blank in it, it stands
whole in one of the words. -/
namespace CompileCommands

namespace FlagTemplate

theorem place_ne_nil : place ≠ [] := by decide

theorem isBlank_of_mem_place : ∀ c ∈ place, Text.isBlank c = false := by
  intro c member
  rcases List.mem_pair.mp member with rfl | rfl <;> rfl

theorem length_flagsOfText (template value : String) :
    (flagsOfText template value).length = (Text.words template.toList).length :=
  List.length_map _

/-- A flag in which the value stands as it is. -/
theorem exists_flag_around {template : String}
    (marked : Text.occurs place template.toList = true) (value : String) :
    ∃ flag ∈ flagsOfText template value, ∃ before after, flag = before ++ value ++ after := by
  obtain ⟨word, member, inside⟩ :=
    Text.exists_mem_words place_ne_nil isBlank_of_mem_place ((Text.occurs_iff_isInfix ..).mp marked)
  obtain ⟨before, after, parts⟩ := Text.infix_replace place_ne_nil value.toList inside
  refine ⟨_, List.mem_map_of_mem member, String.ofList before, String.ofList after, ?_⟩
  rw [← parts, String.ofList_append, String.ofList_append, String.ofList_toList]

end FlagTemplate

namespace Toolchain

variable {toolchain : Toolchain}

/-- The flags of the values of a context, value after value and group after group. -/
def contextBlocks (template : FlagGroup → String) (values : FlagGroup → List String) :
    List (List String) :=
  [FlagGroup.includes, .quoteIncludes, .systemIncludes, .frameworkIncludes, .defines].flatMap
    fun group => (values group).map (FlagTemplate.flagsOfText (template group))

theorem contextFlags_eq_blocks {template : FlagGroup → String}
    (given : ∀ group, toolchain.templates group = .text (template group))
    (values : FlagGroup → List String) :
    toolchain.contextFlags values = .ok (contextBlocks template values).flatten := by
  have each : ∀ group ∈ FlagGroup.all,
      (values group).mapM (toolchain.templates group).flags =
        .ok ((values group).map (FlagTemplate.flagsOfText (template group))) := by
    intro group _
    rw [given]
    exact mapM_eq_ok_map _ _ _ fun _ _ => rfl
  rw [contextFlags, mapM_eq_ok_map _ _ _ each, ok_bind]
  rfl

/-- Of templates that are texts and were accepted, flags are made as follows: first those of the
user, then a block for each value of the context, group after group and in the order of the values,
and last those of the features. No block is empty, each has its value in one of its flags, and how
many flags it has is told by the template alone. -/
theorem flags_in_blocks (toolchain : Toolchain) (described : Option Json.Value)
    (texts : DescribesTexts described)
    (accepted : FlagTemplates.ofValue? described = .ok toolchain.templates) :
    ∃ template : FlagGroup → String,
      (∀ group, toolchain.templates group = .text (template group)) ∧
      (∀ configuration action parts, toolchain.flags configuration action parts =
        .ok (parts.userFlags ++ (contextBlocks template parts.values).flatten ++
          toolchain.featureFlags configuration action parts.sourceFile)) ∧
      ∀ group value,
        FlagTemplate.flagsOfText (template group) value ≠ [] ∧
        (∃ flag ∈ FlagTemplate.flagsOfText (template group) value,
          ∃ before after, flag = before ++ value ++ after) ∧
        (FlagTemplate.flagsOfText (template group) value).length =
          (Text.words (template group).toList).length := by
  have marked : ∀ group, (toolchain.templates group).IsMarkedText := by
    have sure := FlagTemplates.ensures_ofValue?_of_texts texts
    rwa [accepted] at sure
  choose template given marks using marked
  refine ⟨template, given, ?_, ?_⟩
  · intro configuration action parts
    exact flags_of_contextFlags (contextFlags_eq_blocks given parts.values) configuration action
  · intro group value
    obtain ⟨flag, member, around⟩ := FlagTemplate.exists_flag_around (marks group) value
    exact ⟨List.ne_nil_of_mem member, ⟨flag, member, around⟩, FlagTemplate.length_flagsOfText ..⟩

/-- Templates with blanks of several kinds, and with two places for a value. -/
def spacedTexts : FlagGroup → String
  | .includes => "/I\u00a0\x7b\x7d"
  | .quoteIncludes => "-iquote \x7b\x7d"
  | .systemIncludes => "-isystem \x7b\x7d"
  | .frameworkIncludes => "-F\x7b\x7d"
  | .defines => " -D\t\x7b\x7d=\x7b\x7d\n"

def spacedDescription : Json.Value :=
  .object [("includes", .string (spacedTexts .includes)),
    ("defines", .string (spacedTexts .defines))]

def spacedToolchain : Toolchain where
  tools := [(cCompileAction, "cc")]
  defaultActions := compileActions
  features := [Feature.compilerInput]
  templates := fun group => .text (spacedTexts group)
  copts := ["-O2"]
  cxxopts := []

/-- Values with blanks and marks in them. -/
def oddVariables : Variables where
  sourceFile := "a b.c"
  userFlags := ["-O2"]
  values
    | .includes => ["my \x7b\x7d dir", ""]
    | .defines => ["\x7bsource_file\x7d"]
    | _ => []

theorem flags_in_blocks_spaced :
    DescribesTexts (some spacedDescription) ∧
    FlagTemplates.ofValue? (some spacedDescription) = .ok spacedToolchain.templates ∧
    spacedToolchain.flags ⟨[Feature.compilerInputName], compileActions⟩ cCompileAction oddVariables =
      .ok ["-O2", "/I", "my \x7b\x7d dir", "/I", "", "-D", "\x7bsource_file\x7d=\x7bsource_file\x7d",
        "-c", "a b.c"] := by
  have texts : DescribesTexts (some spacedDescription) := by
    simp [DescribesTexts, spacedDescription]
  have accepted : FlagTemplates.ofValue? (some spacedDescription) =
      .ok spacedToolchain.templates := by
    apply congrArg Except.ok
    funext group
    cases group <;> rfl
  obtain ⟨template, given, made, _⟩ := flags_in_blocks spacedToolchain _ texts accepted
  have same : template = spacedTexts := by
    funext group
    exact (FlagTemplate.text.inj (given group)).symm
  refine ⟨texts, accepted, ?_⟩
  rw [made, same]
  rfl

end Toolchain

end CompileCommands
