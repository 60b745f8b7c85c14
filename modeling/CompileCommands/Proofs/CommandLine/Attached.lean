import CompileCommands.Proofs.CommandLine.Presentation
import CompileCommands.Proofs.Text.Cut

set_option autoImplicit false

/- Options with their values behind an equals sign. No spelling has such a sign in it, so that an
argument is parted after its spelling, and what follows may be any text. -/
namespace CompileCommands.CommandLine

namespace Switch

/-- What arguments are told by: spellings begin with a hyphen, are longer than it, have no equals
sign and belong to one option. -/
theorem spelling_told {switch : Switch} {spelling : String}
    (listed : spelling ∈ switch.spellings) :
    spelling.toList.head? = some '-' ∧ 2 ≤ spelling.toList.length ∧ '=' ∉ spelling.toList ∧
      ofSpelling? spelling.toList = some switch := by
  have each : ∀ switch ∈ all, ∀ spelling ∈ switch.spellings,
      spelling.toList.head? = some '-' ∧ 2 ≤ spelling.toList.length ∧ '=' ∉ spelling.toList ∧
        ofSpelling? spelling.toList = some switch := by decide
  exact each switch switch.mem_all spelling listed

theorem ofSpelling?_eq_none {text : List Char} (marked : '=' ∈ text) : ofSpelling? text = none := by
  have unmarked : ∀ entry ∈ spellingTable, '=' ∉ entry.1 := by decide
  rw [ofSpelling?, Option.map_eq_none_iff, List.find?_eq_none]
  intro entry listed same
  rw [beq_iff_eq] at same
  exact unmarked entry listed (same ▸ marked)

end Switch

/-- An option with a value, in one argument. -/
def attached (spelling value : String) : String := spelling ++ "=" ++ value

section

variable {switch : Switch} {spelling : String}

theorem Argument.ofText_attached (listed : spelling ∈ switch.spellings) (value : String) :
    ofText (attached spelling value) =
      .ok (.option switch (spelling.toList.length == 2) (some value.toList)) := by
  obtain ⟨hyphen, long, unmarked, told⟩ := Switch.spelling_told listed
  have parts : (attached spelling value).toList = spelling.toList ++ '=' :: value.toList := by
    rw [attached, String.toList_append, String.toList_append, List.append_assoc]
    rfl
  have marked : '=' ∈ spelling.toList ++ '=' :: value.toList := by simp
  have cut : markedParts (spelling.toList ++ '=' :: value.toList) =
      (spelling.toList, some value.toList) := by
    rw [markedParts, (Text.cut_singleton_eq_some_iff ..).mpr ⟨rfl, unmarked⟩]
  have head : (spelling.toList ++ '=' :: value.toList).head? = some '-' := by
    rw [List.head?_append, hyphen, Option.some_or]
  have several : ((spelling.toList ++ '=' :: value.toList).length == 1) = false := by
    rw [beq_eq_false_iff_ne, List.length_append]
    omega
  rw [ofText, parts]
  simp only [head, bne_self_eq_false, several, Bool.or_self, Bool.false_eq_true, ↓reduceIte,
    Switch.ofSpelling?_eq_none marked, cut, told]

theorem Argument.ofTexts_attached {texts : List String} {arguments : List Argument}
    (listed : spelling ∈ switch.spellings) (value : String)
    (read : ofTexts texts = .ok arguments) :
    ofTexts (attached spelling value :: texts) =
      .ok (.option switch (spelling.toList.length == 2) (some value.toList) :: arguments) := by
  have noSeparator : attached spelling value ≠ "--" := by
    intro same
    have marked : '=' ∈ (attached spelling value).toList := by simp [attached]
    rw [same] at marked
    exact absurd marked (by decide)
  rw [ofTexts, if_neg noSeparator, ofText_attached listed, read]
  rfl

theorem Progress.takeAll_attached {progress : Progress} {next : Options} {short : Bool}
    {value : String} {later : List Argument} (takes : switch.takesValue = true)
    (applied : apply progress.options ⟨switch, value⟩ = .ok next) :
    progress.takeAll (.option switch short (some value.toList) :: later) =
      { progress with options := next }.takeAll later := by
  apply takeAll_option
  have reading :
      readAttached switch short value.toList = .ok ⟨[⟨switch, value⟩], false⟩ := by
    cases chars : value.toList with
    | nil => simp [readAttached, takes, String.toList_eq_nil_iff.mp chars]
    | cons c rest => simp [readAttached, takes, ← chars]
  rw [takeSwitch, readSwitch, reading]
  show (List.foldlM apply progress.options [⟨switch, value⟩] >>= _) = _
  rw [List.foldlM_cons, applied]
  rfl

/-- An option with a value is applied before the arguments behind it are looked at. -/
theorem Progress.Accepts.attached {progress : Progress} {texts : List String}
    {next options : Options} {value : String} (listed : spelling ∈ switch.spellings)
    (takes : switch.takesValue = true)
    (applied : apply progress.options ⟨switch, value⟩ = .ok next)
    (accepts : { progress with options := next }.Accepts texts options) :
    progress.Accepts (attached spelling value :: texts) options := by
  obtain ⟨arguments, read, taken⟩ := accepts
  refine ⟨_, Argument.ofTexts_attached listed value read, ?_⟩
  rw [takeAll_attached takes applied]
  exact taken

end

end CompileCommands.CommandLine
