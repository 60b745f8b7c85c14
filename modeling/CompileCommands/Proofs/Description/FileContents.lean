import CompileCommands.Database
import CompileCommands.Proofs.Context.Described
import CompileCommands.Proofs.Description.FileText
import CompileCommands.Proofs.Json.Whole

set_option autoImplicit false

/- What loading a file can end with, by what the file holds. A description or a database is loaded or
refused with a failure of its own kind if the file is text, unless a whole number that is read from it
has too many digits or arrays and objects are too deep within each other. Such text, and files that are
not text, get through both loaders. -/
namespace CompileCommands

open Json (Headroom Members Tree IsDocument IsPositiveNumeral digitLimit)
open Text.Utf8 (encode unixLines)

inductive Failure.IsDatabase : Failure → Prop
  | intro (fault : DatabaseFault) : IsDatabase (.database fault)

theorem Ensures.mapError {α ε δ : Type} {fails : δ → Prop} {holds : α → Prop} {f : ε → δ}
    {x : Except ε α} (failed : ∀ fault, fails (f fault)) (done : ∀ a, holds a) :
    Ensures fails holds (x.mapError f) := by
  cases x with
  | error fault => exact failed fault
  | ok a => exact done a

namespace Description

variable {headroom : Headroom} {text : List Char}

theorem ensures_ofText (path : String)
    (fits : ∀ excess, Json.decode headroom text ≠ .error (.exceeded excess)) :
    Ensures Failure.IsDescription (fun _ => True) (ofText headroom path text) := by
  unfold ofText
  split
  · trivial
  · exact .intro _
  · exact .intro _
  · next excess much => exact absurd much (fits excess)

theorem ofText_eq_ok_iff (headroom : Headroom) (path : String) (text : List Char)
    (members : Members) :
    ofText headroom path text = .ok members ↔ Json.decode headroom text = .ok (.object members) := by
  unfold ofText
  split
  · next read => simp [read]
  · next value other read =>
      rw [read, Except.ok.injEq]
      exact ⟨nofun, fun same => absurd same (other members)⟩
  · next read => simp [read]
  · next read => simp [read]

theorem ofText_of_exceeded {excess : Json.Excess} (path : String)
    (much : Json.decode headroom text = .error (.exceeded excess)) :
    ofText headroom path text = .error (.exceeded excess) := by
  rw [ofText, much]

end Description

namespace Database

variable {headroom : Headroom} {text : List Char}

theorem ensures_ofChars (fits : ∀ excess, Json.decode headroom text ≠ .error (.exceeded excess)) :
    Ensures Failure.IsDatabase (fun _ => True) (ofChars headroom text) := by
  unfold ofChars
  split
  · exact Ensures.mapError .intro fun _ => trivial
  · exact .intro _
  · next excess much => exact absurd much (fits excess)

theorem ofChars_eq_ok_iff (headroom : Headroom) (text : List Char) (entries : List Entry) :
    ofChars headroom text = .ok entries ↔
      ∃ value, Json.decode headroom text = .ok value ∧ ofValue value = .ok entries := by
  unfold ofChars
  split
  · next value read => simp [read, mapError_eq_ok_iff]
  · next read => simp [read]
  · next read => simp [read]

theorem ofChars_of_exceeded {excess : Json.Excess}
    (much : Json.decode headroom text = .error (.exceeded excess)) :
    ofChars headroom text = .error (.exceeded excess) := by
  rw [ofChars, much]

theorem load_of_readFile (headroom : Headroom) {files : FileSystem} {path : String}
    {bytes : List UInt8} (present : files.readFile (.ofText path) = .ok bytes) :
    load headroom files path = (Description.fileText bytes).bind (ofChars headroom) := by
  rw [load, present]

end Database

/-- Whether a description and a database are loaded from a path as what a text holds, or refused with
a failure of the kind that is documented for each. -/
structure LoadedAs (headroom : Headroom) (files : FileSystem) (path : String) (text : List Char) :
    Prop where
  description : Ensures Failure.IsDescription (fun _ => True) (Description.load headroom files path)
  members : ∀ members, Description.load headroom files path = .ok members ↔
    Json.decode headroom text = .ok (.object members)
  database : Ensures Failure.IsDatabase (fun _ => True) (Database.load headroom files path)
  entries : ∀ entries, Database.load headroom files path = .ok entries ↔
    ∃ value, Json.decode headroom text = .ok value ∧ Database.ofValue value = .ok entries

/-- Whether a failure gets through both loaders. -/
structure LoadersLetThrough (headroom : Headroom) (files : FileSystem) (path : String)
    (failure : Failure) : Prop where
  description : Description.load headroom files path = .error failure
  database : Database.load headroom files path = .error failure

section

variable {headroom : Headroom} {files : FileSystem} {path : String} {bytes : List UInt8}
  {text : List Char}

theorem loadedAs_of_text (present : files.readFile (.ofText path) = .ok (encode text))
    (fits : ∀ excess, Json.decode headroom (unixLines text) ≠ .error (.exceeded excess)) :
    LoadedAs headroom files path (unixLines text) := by
  have description := Description.load_of_readFile headroom present
  have database := Database.load_of_readFile headroom present
  rw [Description.fileText_encode] at description database
  constructor
  · rw [description]
    exact Description.ensures_ofText path fits
  · rw [description]
    exact Description.ofText_eq_ok_iff headroom path (unixLines text)
  · rw [database]
    exact Database.ensures_ofChars fits
  · rw [database]
    exact Database.ofChars_eq_ok_iff headroom (unixLines text)

theorem loadersLetThrough_exceeded {excess : Json.Excess}
    (present : files.readFile (.ofText path) = .ok (encode text))
    (much : Json.decode headroom (unixLines text) = .error (.exceeded excess)) :
    LoadersLetThrough headroom files path (.exceeded excess) := by
  constructor
  · rw [Description.load_of_readFile headroom present, Description.fileText_encode]
    exact Description.ofText_of_exceeded path much
  · rw [Database.load_of_readFile headroom present, Description.fileText_encode]
    exact Database.ofChars_of_exceeded much

theorem loadersLetThrough_encoding (headroom : Headroom)
    (present : files.readFile (.ofText path) = .ok bytes)
    (broken : ∀ text, bytes ≠ encode text) :
    ∃ fault, LoadersLetThrough headroom files path (.encoding fault) := by
  obtain ⟨fault, read⟩ := Description.fileText_of_broken broken
  refine ⟨fault, ?_, ?_⟩
  · rw [Description.load_of_readFile headroom present, read]
    rfl
  · rw [Database.load_of_readFile headroom present, read]
    rfl

end

/-- What there is too much of stands in the file as it does in the text that is read. -/
theorem arisesIn_of_decode_unixLines {headroom : Headroom} {text : List Char} {excess : Json.Excess}
    (much : Json.decode headroom (unixLines text) = .error (.exceeded excess)) :
    excess.ArisesIn headroom.levels text := by
  cases Json.arisesIn_of_decode much with
  | @digits digits run =>
      have plain : '\n' ∉ digits := fun listed => absurd (run.digit _ listed) (by decide)
      exact .digits ⟨Text.Utf8.infix_of_unixLines plain run.within, run.digit, run.long⟩
  | depth opened crowded =>
      rw [Json.openings, Text.Utf8.countP_unixLines rfl rfl] at crowded
      exact .depth opened crowded

theorem unixLines_of_isPositiveNumeral {text : List Char} (numeral : IsPositiveNumeral text) :
    unixLines text = text := by
  apply Text.Utf8.unixLines_eq_self
  intro carriageReturn
  exact absurd (numeral.digit _ carriageReturn) (by decide)

/-- What loading ends with, by what is in the file. If that is the UTF-8 of a text which is not found
too much of the machine, the loaders give what the text holds or fail in their documented ways.
Otherwise they both fail in another way. Bytes that are the UTF-8 of no text have the fault that is
told. A text that is too much holds a run of digits longer than a number may be, or more opening
brackets and braces than may be open at once; a number of that length is always too much, and so are
that many brackets with anything behind them, and every document that is deeper. -/
theorem loading_by_file_contents (headroom : Headroom) (files : FileSystem) (path : String)
    (bytes : List UInt8) (present : files.readFile (.ofText path) = .ok bytes) :
    (∀ text, bytes = encode text →
      ((∀ excess, Json.decode headroom (unixLines text) ≠ .error (.exceeded excess)) →
        LoadedAs headroom files path (unixLines text)) ∧
      (∀ excess, Json.decode headroom (unixLines text) = .error (.exceeded excess) →
        LoadersLetThrough headroom files path (.exceeded excess) ∧
          excess.ArisesIn headroom.levels text) ∧
      (IsPositiveNumeral text → digitLimit < text.length →
        LoadersLetThrough headroom files path (.exceeded (.digits text.length))) ∧
      (∀ count tail, text = List.replicate count '[' ++ tail → headroom.levels < count →
        ∃ opened, LoadersLetThrough headroom files path (.exceeded (.depth opened))) ∧
      (∀ tree, IsDocument (unixLines text) tree → headroom.levels < tree.depth →
        ∃ opened, LoadersLetThrough headroom files path (.exceeded (.depth opened)))) ∧
    ((∀ text, bytes ≠ encode text) →
      ∃ fault, LoadersLetThrough headroom files path (.encoding fault)) := by
  refine ⟨?_, loadersLetThrough_encoding headroom present⟩
  rintro text rfl
  refine ⟨loadedAs_of_text present, ?_, ?_, ?_, ?_⟩
  · intro excess much
    exact ⟨loadersLetThrough_exceeded present much, arisesIn_of_decode_unixLines much⟩
  · intro numeral long
    apply loadersLetThrough_exceeded present
    rw [unixLines_of_isPositiveNumeral numeral]
    exact Json.decode_of_isPositiveNumeral headroom numeral long
  · rintro count tail rfl short
    obtain ⟨opened, deep⟩ := Json.decode_brackets short (unixLines tail)
    refine ⟨opened, loadersLetThrough_exceeded present ?_⟩
    rw [Text.Utf8.unixLines_replicate_append (by decide), deep]
  · intro tree document short
    obtain ⟨opened, deep⟩ := document.decode_of_lt short
    exact ⟨opened, loadersLetThrough_exceeded present deep⟩

theorem strayByte_broken (text : List Char) : [0xFF] ≠ encode text := by
  intro same
  have read := (Text.Utf8.decode_eq_ok_iff [0xFF] text).mpr same
  contradiction

def nines : List Char := List.replicate 4301 '9'

theorem length_nines : nines.length = 4301 := List.length_replicate

theorem isPositiveNumeral_nines : IsPositiveNumeral nines := by
  refine ⟨by decide, ?_⟩
  intro d listed
  rw [List.eq_of_mem_replicate (n := 4301) listed]
  rfl

def brackets : List Char := List.replicate 1000 '['

open Description (folder readFile_folder)

theorem loading_by_file_contents_each :
    Database.load .usual (folder (encode ['[', '\r', ']'])) "graph.json" = .ok [] ∧
      (∃ fault, LoadersLetThrough .usual (folder [0xFF]) "graph.json" (.encoding fault)) ∧
      LoadersLetThrough .usual (folder (encode nines)) "graph.json" (.exceeded (.digits 4301)) ∧
      ∃ opened, LoadersLetThrough .usual (folder (encode brackets)) "graph.json"
        (.exceeded (.depth opened)) := by
  have empty : Json.decode .usual (unixLines ['[', '\r', ']']) = .ok (.array []) := by cbv
  have array :=
    (loading_by_file_contents .usual _ _ _ (readFile_folder (encode ['[', '\r', ']']))).1 _ rfl
  have stray := (loading_by_file_contents .usual _ _ _ (readFile_folder [0xFF])).2 strayByte_broken
  have long := (loading_by_file_contents .usual _ _ _ (readFile_folder (encode nines))).1 nines rfl
  have deep :=
    (loading_by_file_contents .usual _ _ _ (readFile_folder (encode brackets))).1 brackets rfl
  obtain ⟨_, _, _, crowded, _⟩ := deep
  refine ⟨?_, stray, ?_, crowded 1000 [] (List.append_nil _).symm (by decide)⟩
  · have loaded := array.1 fun excess failed => by
      rw [empty] at failed
      contradiction
    exact (loaded.entries []).mpr ⟨.array [], empty, rfl⟩
  · rw [← length_nines]
    exact long.2.2.1 isPositiveNumeral_nines (by rw [length_nines]; decide)

/-- Whether neither loader takes a file or refuses it as it is documented to. -/
structure BothUndocumented (headroom : Headroom) (files : FileSystem) (path : String) : Prop where
  description : ¬ Ensures Failure.IsDescription (fun _ => True)
    (Description.load headroom files path)
  database : ¬ Ensures Failure.IsDatabase (fun _ => True) (Database.load headroom files path)

theorem LoadersLetThrough.bothUndocumented {headroom : Headroom} {files : FileSystem}
    {path : String} {failure : Failure} (through : LoadersLetThrough headroom files path failure)
    (noDescription : ¬ failure.IsDescription) (noDatabase : ¬ failure.IsDatabase) :
    BothUndocumented headroom files path := by
  constructor
  · rw [through.description]
    exact noDescription
  · rw [through.database]
    exact noDatabase

/-- A byte that starts no character, a number of 4301 digits and a thousand brackets are not refused as
documented, be it by the loader of descriptions or by that of databases. -/
theorem undocumented_failures :
    BothUndocumented .usual (folder [0xFF]) "graph.json" ∧
      BothUndocumented .usual (folder (encode nines)) "graph.json" ∧
      BothUndocumented .usual (folder (encode brackets)) "graph.json" := by
  obtain ⟨fault, stray⟩ :=
    loadersLetThrough_encoding .usual (readFile_folder [0xFF]) strayByte_broken
  have long : Json.decode .usual (unixLines nines) =
      .error (.exceeded (.digits nines.length)) := by
    rw [unixLines_of_isPositiveNumeral isPositiveNumeral_nines]
    apply Json.decode_of_isPositiveNumeral .usual isPositiveNumeral_nines
    rw [length_nines]
    decide
  have same : unixLines (brackets ++ []) = brackets ++ unixLines [] :=
    Text.Utf8.unixLines_replicate_append (by decide) 1000 []
  obtain ⟨opened, deep⟩ := @Json.decode_brackets .usual 1000 (by decide) (unixLines [])
  rw [← brackets, ← same, List.append_nil] at deep
  have digits := loadersLetThrough_exceeded (readFile_folder (encode nines)) long
  have depth := loadersLetThrough_exceeded (readFile_folder (encode brackets)) deep
  exact ⟨stray.bothUndocumented nofun nofun, digits.bothUndocumented nofun nofun,
    depth.bothUndocumented nofun nofun⟩

end CompileCommands
