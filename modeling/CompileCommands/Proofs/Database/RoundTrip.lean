import CompileCommands.Database
import CompileCommands.Proofs.Description.FileText
import CompileCommands.Proofs.FileSystem.WrittenFile
import CompileCommands.Proofs.Json.Scans

set_option autoImplicit false

/- The written form of a database is read back as the same entries: as a text, and through a file.
An entry is written as an object of three strings, and the scanners take its text apart in the same
order. -/
namespace CompileCommands.Database

open Json (Headroom Value Members Scans ScansItems ScansMembers asciiString skipSpace IsPrintableAscii)

/-! The text of an entry. -/

/-- The members an entry is written as. -/
def members (entry : Entry) : Members :=
  [("command", .string entry.command), ("directory", .string entry.directory),
    ("file", .string entry.file)]

/-- A member as it is written, in front of what follows. -/
def memberChars (name value : String) (rest : List Char) : List Char :=
  asciiString name.toList ++ ':' :: ' ' :: (asciiString value.toList ++ rest)

theorem entryChars_append (entry : Entry) (rest : List Char) :
    entryChars entry ++ rest =
      '{' :: memberChars "command" entry.command
        (',' :: ' ' :: memberChars "directory" entry.directory
          (',' :: ' ' :: memberChars "file" entry.file ('}' :: rest))) := by
  have command (value : String) (rest : List Char) :
      "\x7b\"command\": ".toList ++ (asciiString value.toList ++ rest) =
        '{' :: memberChars "command" value rest := rfl
  have directory (value : String) (rest : List Char) :
      ", \"directory\": ".toList ++ (asciiString value.toList ++ rest) =
        ',' :: ' ' :: memberChars "directory" value rest := rfl
  have file (value : String) (rest : List Char) :
      ", \"file\": ".toList ++ (asciiString value.toList ++ rest) =
        ',' :: ' ' :: memberChars "file" value rest := rfl
  unfold entryChars
  simp only [List.append_assoc]
  rw [command, directory, file]
  rfl

theorem scanString_name (name : String) (rest : List Char) :
    Json.scanString (name.toList.flatMap Json.asciiChar ++ '"' :: rest) = .ok (name, rest) := by
  have read := Json.scanString_flatMap_asciiChar name.toList rest
  rw [String.ofList_toList] at read
  exact read

theorem scans_memberValue (depth : Nat) (value : String) (rest : List Char) :
    Scans depth (skipSpace (' ' :: (asciiString value.toList ++ rest))) (.string value) rest := by
  have read := Json.scans_asciiString depth value.toList rest
  rw [String.ofList_toList] at read
  exact read

theorem scansMembers_last (depth : Nat) (name value : String) (rest : List Char) :
    ScansMembers depth (skipSpace (memberChars name value ('}' :: rest))) [(name, .string value)]
      rest := by
  have colon (after : List Char) : skipSpace (':' :: after) = ':' :: after := rfl
  have closed : skipSpace ('}' :: rest) = '}' :: rest := rfl
  rw [memberChars, Json.asciiString_append]
  exact (scans_memberValue depth value _).lastMember (scanString_name name _) (colon _) closed

theorem scansMembers_more {depth : Nat} {next rest : List Char} {others : List (String × Value)}
    (name value : String) (read : ScansMembers depth (skipSpace next) others rest) :
    ScansMembers depth (skipSpace (memberChars name value (',' :: ' ' :: next)))
      ((name, .string value) :: others) rest := by
  have colon (after : List Char) : skipSpace (':' :: after) = ':' :: after := rfl
  have comma : skipSpace (',' :: ' ' :: next) = ',' :: ' ' :: next := rfl
  rw [memberChars, Json.asciiString_append]
  exact (scans_memberValue depth value _).moreMembers (scanString_name name _) (colon _) comma read

theorem scans_entryChars (depth : Nat) (entry : Entry) (rest : List Char) :
    Scans (depth + 1) (entryChars entry ++ rest) (.object (members entry)) rest := by
  have file := scansMembers_last depth "file" entry.file rest
  have directory := scansMembers_more "directory" entry.directory file
  have command := scansMembers_more "command" entry.command directory
  have distinct : Table.ofPairs (members entry) = members entry := rfl
  rw [entryChars_append, ← distinct]
  apply ScansMembers.object command
  intro tail closed
  cases closed

/-! The text of a database. -/

theorem bodyChars_cons (entry : Entry) (others : List Entry) :
    ∃ tail, bodyChars (entry :: others) = '{' :: tail := by
  have opened := entryChars_append entry
  cases others with
  | nil => exact ⟨_, (List.append_nil _).symm.trans (opened [])⟩
  | cons next others =>
      rw [bodyChars, List.append_assoc, opened]
      · exact ⟨_, rfl⟩
      · intro same
        cases same

theorem scansItems_bodyChars (depth : Nat) (entry : Entry) (others : List Entry)
    (rest : List Char) :
    ScansItems (depth + 1) (bodyChars (entry :: others) ++ '\n' :: ']' :: rest)
      ((entry :: others).map fun entry => .object (members entry)) rest := by
  induction others generalizing entry with
  | nil => exact (scans_entryChars depth entry _).lastItem rfl
  | cons next others ih =>
      obtain ⟨tail, opened⟩ := bodyChars_cons next others
      have split : bodyChars (entry :: next :: others) ++ '\n' :: ']' :: rest =
          entryChars entry ++ ',' :: '\n' :: ' ' ::
            (bodyChars (next :: others) ++ '\n' :: ']' :: rest) := by
        simp only [bodyChars, List.append_assoc, List.cons_append, List.nil_append]
      have later := ih next
      rw [split]
      apply (scans_entryChars depth entry _).moreItems rfl
      rw [opened] at later ⊢
      exact later

/-- The value a database is written as. -/
def value (entries : List Entry) : Value :=
  .array (entries.map fun entry => .object (members entry))

theorem chars_eq (entries : List Entry) :
    chars entries = '[' :: '\n' :: (bodyChars entries ++ ['\n', ']', '\n']) := by
  rw [chars, List.append_assoc]
  rfl

/-- There has to be room for the array of the entries and for one of them. -/
theorem scans_chars (depth : Nat) (entries : List Entry) :
    Scans (depth + 2) (skipSpace (chars entries)) (value entries) ['\n'] := by
  have opening (after : List Char) : skipSpace ('[' :: after) = '[' :: after := rfl
  rw [chars_eq, opening]
  cases entries with
  | nil => exact Json.scans_emptyArray (depth + 1) rfl
  | cons entry others =>
      obtain ⟨tail, opened⟩ := bodyChars_cons entry others
      have items := scansItems_bodyChars depth entry others ['\n']
      have unspaced : skipSpace ('\n' :: (bodyChars (entry :: others) ++ ['\n', ']', '\n'])) =
          bodyChars (entry :: others) ++ ['\n', ']', '\n'] := by
        rw [opened]
        rfl
      rw [← unspaced] at items
      apply ScansItems.array items
      intro later closed
      rw [unspaced, opened] at closed
      cases closed

theorem decode_chars (headroom : Headroom) (entries : List Entry) :
    Json.decode headroom (chars entries) = .ok (value entries) := by
  have ended : skipSpace ['\n'] = [] := rfl
  have read := scans_chars (headroom.levels - 2) entries
  rw [Nat.sub_add_cancel headroom.two_le] at read
  apply read.decode ended
  intro tail marked
  rw [chars_eq] at marked
  cases marked

/-! Entries from values. -/

theorem sorted_fieldNames : Text.sorted fieldNames = fieldNames := by
  apply List.mergeSort_of_pairwise
  decide

theorem entryOfValue_members (index : Nat) (entry : Entry) :
    entryOfValue index (.object (members entry)) = .ok entry := by
  have names : Table.keys (members entry) = fieldNames := rfl
  rw [entryOfValue, names, if_pos sorted_fieldNames]
  rfl

theorem entriesOfValues_members (index : Nat) (entries : List Entry) :
    entriesOfValues index (entries.map fun entry => .object (members entry)) = .ok entries := by
  induction entries generalizing index with
  | nil => rfl
  | cons entry others ih =>
      rw [List.map_cons, entriesOfValues, entryOfValue_members, ih]

theorem ofChars_chars (headroom : Headroom) (entries : List Entry) :
    ofChars headroom (chars entries) = .ok entries := by
  rw [ofChars, decode_chars]
  simp only [value, ofValue, entriesOfValues_members]
  rfl

theorem parse_text (headroom : Headroom) (entries : List Entry) :
    parse headroom (text entries) = .ok entries := by
  rw [parse, text, String.toList_ofList, ofChars_chars]

/-! The file of a database. -/

theorem printable_memberChars (name value : String) (rest : List Char)
    (later : ∀ c ∈ rest, IsPrintableAscii c) :
    ∀ c ∈ memberChars name value rest, IsPrintableAscii c := by
  rw [memberChars, List.forall_mem_append, List.forall_mem_cons, List.forall_mem_cons,
    List.forall_mem_append]
  exact ⟨Json.printable_asciiString name.toList, by decide, by decide,
    Json.printable_asciiString value.toList, later⟩

theorem printable_entryChars (entry : Entry) : ∀ c ∈ entryChars entry, IsPrintableAscii c := by
  have separated (rest : List Char) (later : ∀ c ∈ rest, IsPrintableAscii c) :
      ∀ c ∈ ',' :: ' ' :: rest, IsPrintableAscii c := by
    rw [List.forall_mem_cons, List.forall_mem_cons]
    exact ⟨by decide, by decide, later⟩
  have file := printable_memberChars "file" entry.file ['}'] (by simp [IsPrintableAscii])
  have directory := printable_memberChars "directory" entry.directory _ (separated _ file)
  have command := printable_memberChars "command" entry.command _ (separated _ directory)
  rw [← List.append_nil (entryChars entry), entryChars_append, List.forall_mem_cons]
  exact ⟨by decide, command⟩

theorem printable_or_newline_bodyChars (entries : List Entry) :
    ∀ c ∈ bodyChars entries, IsPrintableAscii c ∨ c = '\n' := by
  fun_induction bodyChars entries with
  | case1 => intro c member; cases member
  | case2 entry =>
      intro c member
      exact Or.inl (printable_entryChars entry c member)
  | case3 entry others _ ih =>
      rw [List.forall_mem_append, List.forall_mem_append]
      refine ⟨⟨?_, by simp [IsPrintableAscii]⟩, ih⟩
      intro c member
      exact Or.inl (printable_entryChars entry c member)

/-- Only printable ASCII and line feeds are written. -/
theorem printable_or_newline_chars (entries : List Entry) :
    ∀ c ∈ chars entries, IsPrintableAscii c ∨ c = '\n' := by
  rw [chars, List.forall_mem_append, List.forall_mem_append]
  exact ⟨⟨by simp [IsPrintableAscii], printable_or_newline_bodyChars entries⟩,
    by simp [IsPrintableAscii]⟩

theorem fileText_encode_chars (entries : List Entry) :
    Description.fileText (Text.Utf8.encode (chars entries)) = .ok (chars entries) := by
  rw [Description.fileText_encode, Text.Utf8.unixLines_eq_self]
  intro carriageReturn
  rcases printable_or_newline_chars entries _ carriageReturn with ⟨lower, _⟩ | newline
  · exact absurd lower (by decide)
  · exact absurd newline (by decide)

theorem write_eq_ok {disk : FileSystem.Disk} {files after : FileSystem} {path : String}
    {entries : List Entry} {count : Nat}
    (written : write disk files path entries = (after, .ok count)) :
    count = entries.length ∧
      files.writeFile disk (.ofText path) (Text.Utf8.encode (chars entries)) = (after, .ok ()) := by
  unfold write at written
  split at written
  · next files done =>
      cases written
      exact ⟨rfl, done⟩
  · cases written
  · cases written

theorem load_of_write (headroom : Headroom) {disk : FileSystem.Disk} {files after : FileSystem}
    {path : String} {entries : List Entry} {count : Nat}
    (written : write disk files path entries = (after, .ok count)) :
    load headroom after path = .ok entries := by
  have bytes := FileSystem.readFile_of_writeFile (write_eq_ok written).2
  rw [load, bytes]
  simp only [fileText_encode_chars]
  exact ofChars_chars headroom entries

/-- The written form of a list of entries is read back as that list, whatever characters its
strings hold, and so is the file it was written to; writing answers the number of entries. -/
theorem parse_text_and_load_write (headroom : Headroom) (disk : FileSystem.Disk)
    (entries : List Entry) :
    parse headroom (text entries) = .ok entries ∧
      ∀ (files after : FileSystem) (path : String) (count : Nat),
        write disk files path entries = (after, .ok count) →
          count = entries.length ∧ load headroom after path = .ok entries := by
  refine ⟨parse_text headroom entries, ?_⟩
  intro files after path count written
  exact ⟨(write_eq_ok written).1, load_of_write headroom written⟩

/-- A command with quotes, a backslash, control characters and characters beyond ASCII, one of them
beyond the first 65536. -/
def awkward : Entry :=
  ⟨"cc -DTEXT=\"\\\n\x00\x7f\u00e9\uffff😀\" -c main.c", executionRootPlaceholder, "main.c"⟩

/-- A file system with nothing but a working directory. -/
def bare : FileSystem := ⟨["work"], []⟩

theorem parse_text_and_load_write_awkward :
    parse .usual (text [awkward, awkward]) = .ok [awkward, awkward] ∧
      ∃ after, write .sound bare "out/compile_commands.json" [awkward, awkward] = (after, .ok 2) ∧
        load .usual after "out/compile_commands.json" = .ok [awkward, awkward] := by
  obtain ⟨parsed, loaded⟩ := parse_text_and_load_write .usual .sound [awkward, awkward]
  have written : write .sound bare "out/compile_commands.json" [awkward, awkward] =
      ((write .sound bare "out/compile_commands.json" [awkward, awkward]).1, .ok 2) := rfl
  exact ⟨parsed, _, written, (loaded bare _ _ 2 written).2⟩

end CompileCommands.Database
