import CompileCommands.Proofs.Label.Grammar

set_option autoImplicit false

/- Reading the canonical spelling of a label gives the label back. It could be cut at other places if
there were marks within the parts; reading leaves none there. Labels with such parts are therefore
never read, and all others are, from their canonical spellings. -/
namespace CompileCommands.Label

open Text (occurs strip isBlank)

/-- What keeps the canonical spelling from being read in another way. -/
structure WellFormed (label : Label) : Prop where
  sign : '@' ∉ label.workspace.toList.head?
  /-- This leaves out two slashes within the workspace, and one that the next two would follow. -/
  slashes : occurs ['/', '/'] (label.workspace.toList ++ ['/']) = false
  colon : ':' ∉ label.package.toList
  named : label.name.toList ≠ []
  visible : ∀ c ∈ label.name.toList.getLast?, isBlank c = false

theorem wellFormed_iff (label : Label) :
    label.WellFormed ↔ IsWorkspace label.workspace.toList ∧ ':' ∉ label.package.toList ∧
      ∃ c ∈ label.name.toList.getLast?, isBlank c = false := by
  rw [isWorkspace_iff]
  constructor
  · rintro ⟨sign, slashes, colon, named, visible⟩
    have last := List.getLast?_eq_some_getLast named
    exact ⟨⟨sign, slashes⟩, colon, _, last, visible _ last⟩
  · rintro ⟨⟨sign, slashes⟩, colon, c, last, visible⟩
    refine ⟨sign, slashes, colon, ?_, ?_⟩
    · intro empty
      rw [empty] at last
      contradiction
    · intro d final
      rw [Option.mem_unique final last]
      exact visible

/-! What is read is well formed. -/

theorem SpellsParts.plain {body package name : List Char}
    (spelled : SpellsParts body package name) : ':' ∉ package := by
  cases spelled with
  | apart plain some => exact plain
  | short plain last some => exact plain

theorem SpellsParts.named {body package name : List Char}
    (spelled : SpellsParts body package name) : name ≠ [] := by
  cases spelled with
  | apart plain some => exact some
  | short plain last some => exact some

theorem SpellsParts.suffix {body package name : List Char}
    (spelled : SpellsParts body package name) : name <:+ body := by
  cases spelled with
  | apart plain some => exact List.suffix_append_of_suffix (List.suffix_cons ':' name)
  | short plain last some => exact last.suffix

theorem wellFormed_of_spells {text : List Char} {label : Label} (spelled : Spells text label)
    (visible : ∀ c ∈ text.getLast?, isBlank c = false) : label.WellFormed := by
  obtain ⟨signs, body, rfl, _, workspace, parts⟩ := spelled
  obtain ⟨sign, slashes⟩ := (isWorkspace_iff _).mp workspace
  refine ⟨sign, slashes, parts.plain, parts.named, ?_⟩
  intro c last
  apply visible c
  rw [← List.append_assoc]
  refine Text.mem_getLast?_of_suffix (List.suffix_append_of_suffix ?_) last
  exact parts.suffix.trans (List.suffix_append ['/', '/'] body)

theorem wellFormed_of_parse {text : String} {label : Label} (read : parse text = .ok label) :
    label.WellFormed := by
  apply wellFormed_of_spells ((parse_eq_ok_iff text label).mp read)
  intro c last
  exact Text.isBlank_of_mem_getLast?_strip last

/-! What is well formed is read back. -/

theorem toList_text (label : Label) :
    label.text.toList = (if label.workspace.toList = [] then [] else '@' :: label.workspace.toList) ++
      '/' :: '/' :: (label.package.toList ++ ':' :: label.name.toList) := by
  have empty : label.workspace.isEmpty ↔ label.workspace.toList = [] := by
    rw [String.isEmpty_iff, String.toList_eq_nil_iff]
  simp only [text, String.toList_append, empty]
  split <;> simp

theorem name_suffix_text (label : Label) : label.name.toList <:+ label.text.toList := by
  rw [toList_text]
  apply List.suffix_append_of_suffix
  apply (List.suffix_append (label.package.toList ++ [':']) label.name.toList).trans
  rw [List.append_assoc]
  exact List.suffix_append ['/', '/'] _

namespace WellFormed

variable {label : Label} (good : label.WellFormed)

include good

theorem spells_text : Spells label.text.toList label := by
  have workspace := (isWorkspace_iff _).mpr ⟨good.sign, good.slashes⟩
  have parts := SpellsParts.apart good.colon good.named
  rw [toList_text]
  by_cases main : label.workspace.toList = []
  · refine ⟨0, _, ?_, fun _ => main, workspace, parts⟩
    rw [if_pos main, main]
    rfl
  · refine ⟨1, _, ?_, by simp, workspace, parts⟩
    rw [if_neg main]
    rfl

theorem strip_text : strip label.text.toList = label.text.toList := by
  apply Text.strip_eq_self
  · intro c first
    rw [toList_text] at first
    split at first
    all_goals
      cases first
      rfl
  · intro c last
    have final := List.getLast?_eq_some_getLast good.named
    have whole := Text.mem_getLast?_of_suffix label.name_suffix_text final
    rw [Option.mem_def.mp whole] at last
    cases last
    exact good.visible _ final

theorem parse_text : parse label.text = .ok label := by
  rw [parse_eq_ok_iff, good.strip_text]
  exact good.spells_text

end WellFormed

theorem parse_text_of_parse {text : String} {label : Label} (read : parse text = .ok label) :
    parse label.text = .ok label :=
  (wellFormed_of_parse read).parse_text

theorem canonical_eq_ok_iff (text spelling : String) :
    canonical text = .ok spelling ↔ ∃ label, parse text = .ok label ∧ label.text = spelling := by
  rw [canonical]
  cases parse text with
  | error fault => simp [Except.map]
  | ok label => simp [Except.map]

/-- A canonical spelling is its own. -/
theorem canonicalize_text_of_parse {text : String} {label : Label} (read : parse text = .ok label) :
    canonicalize label.text = .ok label.text :=
  canonicalize_of_parse (parse_text_of_parse read)

/-- The canonical spelling of a label that was read is read as that label, so it is its own canonical
spelling and belongs to no other label; and these are the labels that are ever read. -/
theorem canonical_spelling_round_trip :
    (∀ text label, parse text = .ok label → parse label.text = .ok label) ∧
    (∀ text spelling, canonical text = .ok spelling → canonical spelling = .ok spelling) ∧
    (∀ text other label second, parse text = .ok label → parse other = .ok second →
      (canonical text = canonical other ↔ label = second)) ∧
    ∀ label : Label, (∃ text, parse text = .ok label) ↔
      IsWorkspace label.workspace.toList ∧ ':' ∉ label.package.toList ∧
        ∃ c ∈ label.name.toList.getLast?, isBlank c = false := by
  refine ⟨fun text label => parse_text_of_parse, ?_, ?_, ?_⟩
  · intro text spelling named
    obtain ⟨label, read, rfl⟩ := (canonical_eq_ok_iff ..).mp named
    exact (canonical_eq_ok_iff ..).mpr ⟨label, parse_text_of_parse read, rfl⟩
  · intro text other label second read readOther
    constructor
    · intro same
      have named := (canonical_eq_ok_iff text _).mpr ⟨label, read, rfl⟩
      rw [same] at named
      obtain ⟨found, readAgain, spelled⟩ := (canonical_eq_ok_iff ..).mp named
      have back := parse_text_of_parse read
      rw [← spelled, parse_text_of_parse readAgain] at back
      rw [readOther] at readAgain
      cases readAgain
      cases back
      rfl
    · rintro rfl
      rw [canonical, canonical, read, readOther]
  · intro label
    rw [← wellFormed_iff]
    constructor
    · rintro ⟨text, read⟩
      exact wellFormed_of_parse read
    · intro good
      exact ⟨label.text, good.parse_text⟩

/-- A short spelling with signs and blanks, and the canonical one of the same label. -/
theorem canonical_spelling_round_trip_short :
    parse " @@zlib//src/core\n" = .ok ⟨"zlib", "src/core", "core"⟩ ∧
      parse "@zlib//src/core:core" = .ok ⟨"zlib", "src/core", "core"⟩ ∧
      canonical " @@zlib//src/core\n" = canonical "@zlib//src/core:core" := by
  have short : parse " @@zlib//src/core\n" = .ok ⟨"zlib", "src/core", "core"⟩ := rfl
  obtain ⟨again, _, same, _⟩ := canonical_spelling_round_trip
  have whole := again _ _ short
  exact ⟨short, whole, (same _ _ _ _ short whole).mpr rfl⟩

end CompileCommands.Label
