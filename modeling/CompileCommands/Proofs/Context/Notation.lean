import CompileCommands.Proofs.Context.Described
import CompileCommands.Proofs.Text.Cut

set_option autoImplicit false

/- Defines in the notation in which compilers take them. Reading a define from its notation and writing
it back gives the same text, so that different texts are different defines; what is left out of a list
of defines is then what is left out of the list of their texts. -/
namespace CompileCommands

open Json (Value Members)

namespace Define

theorem toList_text_of_value (name value : String) :
    (text ⟨name, some value⟩).toList = name.toList ++ '=' :: value.toList := by
  show (name ++ "=" ++ value).toList = _
  rw [String.toList_append, String.toList_append, List.append_assoc]
  rfl

theorem text_ofText (text : String) : (ofText text).text = text := by
  rw [ofText]
  cases found : Text.cut ['='] text.toList with
  | none => rfl
  | some parts =>
      obtain ⟨name, value⟩ := parts
      have whole := Text.cut_eq_some found
      apply String.toList_inj.mp
      show (Define.text ⟨String.ofList name, some (String.ofList value)⟩).toList = text.toList
      rw [toList_text_of_value, String.toList_ofList, String.toList_ofList, whole, List.append_assoc]
      rfl

/-- A define is read from its notation as long as its name does not go on as a value would. -/
theorem ofText_text {define : Define} (plain : '=' ∉ define.name.toList) :
    ofText define.text = define := by
  obtain ⟨name, value⟩ := define
  rw [ofText]
  cases value with
  | none =>
      have uncut : Text.cut ['='] (text ⟨name, none⟩).toList = none :=
        (Text.cut_singleton_eq_none_iff '=' name.toList).mpr plain
      rw [uncut]
      rfl
  | some value =>
      have parts : Text.cut ['='] (text ⟨name, some value⟩).toList =
          some (name.toList, value.toList) := by
        rw [Text.cut_singleton_eq_some_iff]
        exact ⟨toList_text_of_value name value, plain⟩
      rw [parts]
      show Define.mk (String.ofList name.toList) (some (String.ofList value.toList)) = _
      rw [String.ofList_toList, String.ofList_toList]

theorem ofText_injective : Function.Injective ofText :=
  Function.LeftInverse.injective text_ofText

theorem map_text_orderedUnique (texts : List String) :
    (orderedUnique (texts.map ofText)).map text = orderedUnique texts := by
  have inverse : text ∘ ofText = id := funext text_ofText
  rw [orderedUnique_map ofText_injective, List.map_map, inverse, List.map_id]

theorem map_ofText_map_text {defines : List Define}
    (plain : ∀ define ∈ defines, '=' ∉ define.name.toList) :
    (defines.map text).map ofText = defines := by
  rw [List.map_map]
  refine (List.map_congr_left ?_).trans (List.map_id defines)
  intro define member
  exact ofText_text (plain define member)

/-- Strings describe the defines of which they are the notation. -/
theorem mapM_ofValue_strings (texts : List String) :
    (texts.map Value.string).mapM ofValue = .ok (texts.map ofText) := by
  have each : ∀ value ∈ texts.map Value.string, ofValue value = .ok (ofText value.text) := by
    intro value member
    obtain ⟨text, _, rfl⟩ := List.mem_map.mp member
    rfl
  rw [mapM_eq_ok_map ofValue (fun value => ofText value.text) _ each, List.map_map]
  rfl

end Define

namespace Context

/-- Members that describe nothing but defines. -/
def onlyDefines (items : List Value) : Members := [("defines", .array items)]

/-- Members that describe nothing but defines, by their notation. -/
def notedDefines (texts : List String) : Members := onlyDefines (texts.map .string)

theorem ofMembers_onlyDefines {items : List Value} {defines : List Define}
    (read : items.mapM Define.ofValue = .ok defines) :
    ofMembers (onlyDefines items) = .ok ⟨[], [], [], [], orderedUnique defines⟩ := by
  have known : ∀ name ∈ Table.keys (onlyDefines items), name ∈ fieldNames := by
    intro name member
    rw [List.mem_singleton.mp member]
    simp [fieldNames]
  have listed : ListsDefines (onlyDefines items) items := rfl
  have noDirectories (key : String) (other : key ∈ directoryNames) :
      directories key (onlyDefines items) = .ok [] := by
    simp only [directoryNames, List.mem_cons, List.not_mem_nil, or_false] at other
    rcases other with rfl | rfl | rfl | rfl <;> rfl
  rw [ofMembers_of_known known, listed.listedDefines_eq]
  show ofDefines (onlyDefines items) items = _
  rw [ofDefines, noDirectories _ (by decide), noDirectories _ (by decide),
    noDirectories _ (by decide), noDirectories _ (by decide), read]
  rfl

theorem ofMembers_notedDefines (texts : List String) :
    ofMembers (notedDefines texts) =
      .ok ⟨[], [], [], [], orderedUnique (texts.map Define.ofText)⟩ :=
  ofMembers_onlyDefines (Define.mapM_ofValue_strings texts)

theorem nodup_defines_of_ofValue {description : Value} {context : Context}
    (read : ofValue description = .ok context) : context.defines.Nodup := by
  cases description with
  | object members =>
      have described := ensures_ofMembers members
      rw [show ofMembers members = .ok context from read] at described
      obtain ⟨_, defines, _, _, listed⟩ := described.2.defines
      rw [listed, ← orderedUnique_eq_eraseDups]
      exact nodup_orderedUnique defines
  | _ => contradiction

/-- Defines that are described by their notation are written back as they are, each where it first
stands. So the notation of whatever defines were described describes defines again: those with the
same notation, which loses repetitions if a value was described once apart from its name and once
within, and the very same ones if no name has an equals sign in it. -/
theorem defines_as_noted (texts : List String) :
    (∃ context, ofValue (.object (notedDefines texts)) = .ok context ∧
      context.defineTexts = texts.eraseDups) ∧
    ∀ (description : Value) (context : Context), ofValue description = .ok context →
      ∃ again, ofValue (.object (notedDefines context.defineTexts)) = .ok again ∧
        again.defineTexts = context.defineTexts.eraseDups ∧
        ((∀ define ∈ context.defines, '=' ∉ define.name.toList) →
          again.defines = context.defines) := by
  have written (texts : List String) :
      (orderedUnique (texts.map Define.ofText)).map Define.text = texts.eraseDups := by
    rw [Define.map_text_orderedUnique, orderedUnique_eq_eraseDups]
  refine ⟨⟨_, ofMembers_notedDefines texts, written texts⟩, ?_⟩
  intro description context read
  refine ⟨_, ofMembers_notedDefines context.defineTexts, written context.defineTexts, ?_⟩
  intro plain
  show orderedUnique ((context.defines.map Define.text).map Define.ofText) = context.defines
  rw [Define.map_ofText_map_text plain]
  exact orderedUnique_eq_self (nodup_defines_of_ofValue read)

example : (ofMembers (notedDefines ["A", "A=", "A=1=2", "A"])).map (·.defines) =
    .ok [⟨"A", none⟩, ⟨"A", some ""⟩, ⟨"A", some "1=2"⟩] := by
  rw [ofMembers_notedDefines]
  rfl

/-- A define without a value, with an empty one, and twice with the same value: once it stands apart
from the name. -/
def mixedDefines : List Value :=
  [.string "A", .array [.string "A", .string ""], .array [.string "A", .integer 1],
    .array [.string "A=1"]]

/-- Four defines have three notations. -/
theorem defines_as_noted_mixed :
    ∃ context again, ofValue (.object (onlyDefines mixedDefines)) = .ok context ∧
      context.defines.length = 4 ∧ context.defineTexts = ["A", "A=", "A=1", "A=1"] ∧
      ofValue (.object (notedDefines context.defineTexts)) = .ok again ∧
      again.defineTexts = ["A", "A=", "A=1"] := by
  have read : mixedDefines.mapM Define.ofValue =
      .ok [⟨"A", none⟩, ⟨"A", some ""⟩, ⟨"A", some "1"⟩, ⟨"A=1", none⟩] := rfl
  have described := ofMembers_onlyDefines read
  obtain ⟨again, readAgain, texts, _⟩ :=
    (defines_as_noted []).2 (.object (onlyDefines mixedDefines)) _ described
  refine ⟨_, again, described, rfl, rfl, readAgain, ?_⟩
  rw [texts]
  rfl

end Context

end CompileCommands
