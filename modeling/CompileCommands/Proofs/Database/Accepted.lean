import CompileCommands.Proofs.Database.RoundTrip
import CompileCommands.Proofs.Description.FileContents
import CompileCommands.Proofs.Json.Tree
import CompileCommands.Proofs.Text.Sorted

set_option autoImplicit false

/- Which texts are read as a database, and as which entries. A text is taken for the tree it spells: an
array in which every item describes an entry. Of an array with other items the first of those is named,
and a text that spells nothing is refused, unless there is too much of something in it. -/
namespace CompileCommands.Database

open Json (Headroom Value Members Tree IsDocument IsPrintableAscii pointsOf pointsText)

/-! Entries. -/

/-- The value of a member: of several with one name the last one counts. -/
def last? (name : String) (members : List (List Nat × Tree)) : Option Tree :=
  Table.find? (pointsOf name) members.reverse

/-- Whether a text is the one with the given code points, if there is one. Nothing is said about the
text that is taken for code points with a surrogate among them. -/
def Tells (points : List Nat) (text : String) : Prop := ∀ known, pointsOf known = points → text = known

/-- Whether the member that counts is a string, and a text the one it tells. -/
def HasText (name : String) (members : List (List Nat × Tree)) (text : String) : Prop :=
  ∃ points, last? name members = some (.string points) ∧ Tells points text

/-- Whether a tree is that of an entry: an object with members for the three fields and for nothing
else, where the value that counts is a string for each of them. -/
inductive Describes : Tree → Entry → Prop where
  | object {members : List (List Nat × Tree)} {entry : Entry}
      (names : ∀ name, name ∈ members.map (·.1) ↔ name ∈ fieldNames.map pointsOf)
      (command : HasText "command" members entry.command)
      (directory : HasText "directory" members entry.directory)
      (file : HasText "file" members entry.file) : Describes (.object members) entry

/-- The faults of the entry with the given index. -/
inductive IsFaultAt (index : Nat) : DatabaseFault → Prop where
  | notObject : IsFaultAt index (.entryNotObject index)
  | fields (found : List String) : IsFaultAt index (.entryFields index found)
  | notString (name : String) : IsFaultAt index (.fieldNotString index name)

theorem IsFaultAt.message {index : Nat} {fault : DatabaseFault} (here : IsFaultAt index fault) :
    ∃ reason, fault.message = "Entry " ++ toString index ++ " " ++ reason := by
  cases here with
  | notObject =>
      have spaced : " is not a JSON object" = " " ++ "is not a JSON object" := by simp
      refine ⟨"is not a JSON object", ?_⟩
      change "Entry " ++ toString index ++ " is not a JSON object" = _
      rw [spaced]
      simp only [String.append_assoc]
  | fields found =>
      have spaced : " must have exactly the fields command, directory, file, got " =
          " " ++ "must have exactly the fields command, directory, file, got " := by simp
      refine ⟨"must have exactly the fields command, directory, file, got " ++
        Text.joined ", " (Text.sorted found), ?_⟩
      change "Entry " ++ toString index ++
        " must have exactly the fields command, directory, file, got " ++ _ = _
      rw [spaced]
      simp only [String.append_assoc]
  | notString name =>
      have spaced : " field '" = " " ++ "field '" := by simp
      refine ⟨"field '" ++ name ++ "' must be a string", ?_⟩
      change "Entry " ++ toString index ++ " field '" ++ name ++ "' must be a string" = _
      rw [spaced]
      simp only [String.append_assoc]

theorem tells_pointsText (points : List Nat) : Tells points (pointsText points) := by
  rintro known rfl
  exact Json.pointsText_pointsOf known

theorem printable_fieldNames : ∀ field ∈ fieldNames, ∀ c ∈ field.toList, IsPrintableAscii c := by
  have every : ∀ field ∈ fieldNames, field.toList.all fun c => decide (IsPrintableAscii c) := by
    decide
  intro field listed c inside
  exact of_decide_eq_true (List.all_eq_true.mp (every field listed) c inside)

theorem sorted_keys_eq_fieldNames_iff (members : List (List Nat × Tree)) :
    Text.sorted (Table.keys (Table.ofPairs (Tree.memberValues members))) = fieldNames ↔
      ∀ name, name ∈ members.map (·.1) ↔ name ∈ fieldNames.map pointsOf := by
  have names : (Tree.memberValues members).map (·.1) = (members.map (·.1)).map pointsText := by
    rw [Tree.memberValues_eq_map, List.map_map, List.map_map]
    rfl
  have told {field : String} (listed : field ∈ fieldNames) (points : List Nat) :
      pointsText points = field ↔ points = pointsOf field :=
    Json.pointsText_eq_iff (printable_fieldNames field listed) points
  rw [← sorted_fieldNames, Table.keys_ofPairs, names,
    Text.sorted_eq_iff (nodup_orderedUnique _) (by decide), sorted_fieldNames]
  simp only [mem_orderedUnique]
  constructor
  · intro same name
    constructor
    · intro listed
      have field := (same (pointsText name)).mp (List.mem_map_of_mem listed)
      exact List.mem_map.mpr ⟨_, field, ((told field name).mp rfl).symm⟩
    · intro listed
      obtain ⟨field, member, rfl⟩ := List.mem_map.mp listed
      obtain ⟨name, present, read⟩ := List.mem_map.mp ((same field).mpr member)
      rwa [← (told member name).mp read]
  · intro same field
    constructor
    · intro listed
      obtain ⟨name, present, rfl⟩ := List.mem_map.mp listed
      obtain ⟨field, member, rfl⟩ := List.mem_map.mp ((same name).mp present)
      rwa [Json.pointsText_pointsOf]
    · intro listed
      have present := (same (pointsOf field)).mpr (List.mem_map_of_mem listed)
      exact List.mem_map.mpr ⟨_, present, Json.pointsText_pointsOf field⟩

theorem value_eq_string_iff (tree : Tree) (text : String) :
    tree.value = .string text ↔ ∃ points, tree = .string points ∧ pointsText points = text := by
  cases tree with
  | scalar leaf => cases leaf <;> simp [Tree.value, Json.Scalar.value]
  | string points => simp [Tree.value]
  | array items => simp [Tree.value]
  | object members => simp [Tree.value]

theorem fieldText_eq_ok_iff (index : Nat) (members : Members) (name text : String) :
    fieldText index members name = .ok text ↔ members.find? name = some (.string text) := by
  unfold fieldText
  split
  · next found => simp [found]
  · next other => simpa using other text

theorem find?_memberValues {name : String} (field : name ∈ fieldNames)
    (members : List (List Nat × Tree)) (text : String) :
    Table.find? name (Table.ofPairs (Tree.memberValues members)) = some (.string text) ↔
      ∃ points, last? name members = some (.string points) ∧ pointsText points = text := by
  have renamed := Json.pointsText_eq_iff (printable_fieldNames name field)
  rw [Table.find?_ofPairs, Tree.memberValues_eq_map, ← List.map_reverse, Table.find?_map renamed,
    Option.map_eq_some_iff, last?]
  simp only [value_eq_string_iff]
  constructor
  · rintro ⟨tree, found, points, rfl, read⟩
    exact ⟨points, found, read⟩
  · rintro ⟨points, found, read⟩
    exact ⟨_, found, points, rfl, read⟩

theorem hasText_of_fieldText {index : Nat} {members : List (List Nat × Tree)} {name text : String}
    (field : name ∈ fieldNames)
    (read : fieldText index (Table.ofPairs (Tree.memberValues members)) name = .ok text) :
    HasText name members text := by
  obtain ⟨points, found, rfl⟩ :=
    (find?_memberValues field members text).mp ((fieldText_eq_ok_iff ..).mp read)
  exact ⟨points, found, tells_pointsText points⟩

theorem exists_fieldText_eq_ok {members : List (List Nat × Tree)} {name text : String} (index : Nat)
    (field : name ∈ fieldNames) (told : HasText name members text) :
    ∃ read, fieldText index (Table.ofPairs (Tree.memberValues members)) name = .ok read := by
  obtain ⟨points, found, _⟩ := told
  refine ⟨pointsText points, (fieldText_eq_ok_iff ..).mpr ?_⟩
  exact (find?_memberValues field members _).mpr ⟨points, found, rfl⟩

theorem describes_of_entryOfValue {index : Nat} {tree : Tree} {entry : Entry}
    (read : entryOfValue index tree.value = .ok entry) : Describes tree entry := by
  cases tree with
  | scalar leaf => cases leaf <;> contradiction
  | string points => contradiction
  | array items => contradiction
  | object members =>
      rw [Tree.value, entryOfValue] at read
      split at read
      · next same =>
        simp only [bind_eq_ok_iff] at read
        obtain ⟨command, first, directory, second, file, third, done⟩ := read
        cases done
        exact .object ((sorted_keys_eq_fieldNames_iff members).mp same)
          (hasText_of_fieldText (by decide) first) (hasText_of_fieldText (by decide) second)
          (hasText_of_fieldText (by decide) third)
      · contradiction

theorem Describes.exists_entryOfValue_eq_ok {tree : Tree} {entry : Entry}
    (described : Describes tree entry) (index : Nat) :
    ∃ read, entryOfValue index tree.value = .ok read := by
  obtain ⟨names, command, directory, file⟩ := described
  obtain ⟨commandText, first⟩ := exists_fieldText_eq_ok index (by decide) command
  obtain ⟨directoryText, second⟩ := exists_fieldText_eq_ok index (by decide) directory
  obtain ⟨fileText, third⟩ := exists_fieldText_eq_ok index (by decide) file
  refine ⟨⟨commandText, directoryText, fileText⟩, ?_⟩
  rw [Tree.value, entryOfValue, if_pos ((sorted_keys_eq_fieldNames_iff _).mpr names), first, second,
    third]
  rfl

theorem ensures_entryOfValue (index : Nat) (value : Value) :
    Ensures (IsFaultAt index) (fun _ => True) (entryOfValue index value) := by
  have field (members : Members) (name : String) :
      Ensures (IsFaultAt index) (fun _ => True) (fieldText index members name) := by
    unfold fieldText
    split
    · trivial
    · exact .notString name
  unfold entryOfValue
  split
  · next members =>
      split
      · apply (field members _).bind
        intro command _
        apply (field members _).bind
        intro directory _
        apply (field members _).bind
        intro file _
        trivial
      · exact .fields _
  · exact .notObject

/-! Whole trees describe one entry only. -/

theorem isWhole_of_mem {members : List (List Nat × Tree)} {member : List Nat × Tree}
    (whole : Tree.MembersAreWhole members) (listed : member ∈ members) : member.2.IsWhole := by
  induction members with
  | nil => contradiction
  | cons first rest ih =>
      obtain ⟨_, value, later⟩ := whole
      rcases List.mem_cons.mp listed with rfl | listed
      · exact value
      · exact ih later listed

theorem HasText.eq {name text other : String} {members : List (List Nat × Tree)}
    (told : HasText name members text) (again : HasText name members other)
    (whole : Tree.MembersAreWhole members) : text = other := by
  obtain ⟨points, found, tells⟩ := told
  obtain ⟨same, foundAgain, tellsAgain⟩ := again
  cases found.symm.trans foundAgain
  have listed := List.mem_reverse.mp (Table.mem_of_find? found)
  obtain ⟨known, read⟩ : Json.IsText points := isWhole_of_mem whole listed
  rw [tells known read, tellsAgain known read]

theorem Describes.eq {tree : Tree} {entry other : Entry} (described : Describes tree entry)
    (again : Describes tree other) (whole : tree.IsWhole) : entry = other := by
  obtain ⟨_, command, directory, file⟩ := described
  cases again with
  | object _ commandAgain directoryAgain fileAgain =>
      exact Entry.ext (command.eq commandAgain whole) (directory.eq directoryAgain whole)
        (file.eq fileAgain whole)

/-! Lists of entries. -/

/-- Whether an item describes no entry although all that are before it do. -/
structure FirstUndescribed (before : List Tree) (item : Tree) : Prop where
  earlier : ∀ other ∈ before, ∃ entry, Describes other entry
  here : ∀ entry, ¬ Describes item entry

theorem forall₂_of_entriesOfValues {index : Nat} {items : List Tree} {entries : List Entry}
    (read : entriesOfValues index (items.map Tree.value) = .ok entries) :
    List.Forall₂ Describes items entries := by
  induction items generalizing index entries with
  | nil =>
      cases read
      exact .nil
  | cons item rest ih =>
      rw [List.map_cons, entriesOfValues] at read
      split at read
      · contradiction
      · next entry first =>
        split at read
        · contradiction
        · next later =>
          cases read
          exact .cons (describes_of_entryOfValue first) (ih later)

theorem firstUndescribed_of_entriesOfValues {index : Nat} {items : List Tree} {fault : DatabaseFault}
    (failed : entriesOfValues index (items.map Tree.value) = .error fault) :
    ∃ before item after, items = before ++ item :: after ∧ FirstUndescribed before item ∧
      IsFaultAt (index + before.length) fault := by
  induction items generalizing index with
  | nil => contradiction
  | cons item rest ih =>
      have sure := ensures_entryOfValue index item.value
      rw [List.map_cons, entriesOfValues] at failed
      split at failed
      · next refused =>
          cases failed
          rw [refused] at sure
          refine ⟨[], item, rest, rfl, ⟨by simp, ?_⟩, sure⟩
          intro entry described
          obtain ⟨_, read⟩ := described.exists_entryOfValue_eq_ok index
          rw [refused] at read
          contradiction
      · next entry read =>
          split at failed
          · next refused =>
              cases failed
              obtain ⟨before, other, after, rfl, first, place⟩ := ih refused
              have described := describes_of_entryOfValue read
              refine ⟨item :: before, other, after, rfl, ⟨?_, first.here⟩, ?_⟩
              · exact List.forall_mem_cons.mpr ⟨⟨entry, described⟩, first.earlier⟩
              · rw [List.length_cons, Nat.add_comm before.length, ← Nat.add_assoc]
                exact place
          · contradiction

theorem eq_of_areWhole {items : List Tree} {entries others : List Entry}
    (described : List.Forall₂ Describes items entries) (again : List.Forall₂ Describes items others)
    (whole : Tree.AreWhole items) : entries = others := by
  induction described generalizing others with
  | nil =>
      cases again
      rfl
  | cons first _ ih =>
      cases again with
      | cons same later => rw [first.eq same whole.1, ih later whole.2]

/-! Texts. -/

theorem forall₂_of_ofValue {tree : Tree} {entries : List Entry}
    (read : ofValue tree.value = .ok entries) :
    ∃ items, tree = .array items ∧ List.Forall₂ Describes items entries := by
  cases tree with
  | scalar leaf => cases leaf <;> contradiction
  | string points => contradiction
  | array items =>
      rw [Tree.value, ofValue, Tree.itemValues_eq_map] at read
      exact ⟨items, rfl, forall₂_of_entriesOfValues read⟩
  | object members => contradiction

theorem firstUndescribed_of_ofValue {items : List Tree} {fault : DatabaseFault}
    (failed : ofValue (Tree.array items).value = .error fault) :
    ∃ before item after reason, items = before ++ item :: after ∧ FirstUndescribed before item ∧
      fault.message = "Entry " ++ toString before.length ++ " " ++ reason := by
  rw [Tree.value, ofValue, Tree.itemValues_eq_map] at failed
  obtain ⟨before, item, after, parts, first, place⟩ := firstUndescribed_of_entriesOfValues failed
  rw [Nat.zero_add] at place
  obtain ⟨reason, message⟩ := place.message
  exact ⟨before, item, after, reason, parts, first, message⟩

theorem exists_ofValue_eq_ok {items : List Tree} {entries : List Entry}
    (described : List.Forall₂ Describes items entries) :
    ∃ read, ofValue (Tree.array items).value = .ok read := by
  cases result : ofValue (Tree.array items).value with
  | ok read => exact ⟨read, rfl⟩
  | error fault =>
      obtain ⟨before, item, after, _, rfl, first, _⟩ := firstUndescribed_of_ofValue result
      have listed : item ∈ before ++ item :: after := List.mem_append_cons_self
      obtain ⟨entry, _, here⟩ := exists_of_mem_forall₂ described.flip listed
      exact absurd here (first.here entry)

theorem ofValue_of_not_array {tree : Tree} (other : ∀ items, tree ≠ .array items) :
    ofValue tree.value = .error .notArray := by
  cases tree with
  | scalar leaf => cases leaf <;> rfl
  | string points => rfl
  | array items => exact absurd rfl (other items)
  | object members => rfl

/-- What a tree is read as, where there is room for it. -/
structure ReadAs (tree : Tree) (read : Except Failure (List Entry)) : Prop where
  accepted : (∃ entries, read = .ok entries) ↔
    ∃ items entries, tree = .array items ∧ List.Forall₂ Describes items entries
  described : ∀ entries, read = .ok entries →
    ∃ items, tree = .array items ∧ List.Forall₂ Describes items entries
  whole : tree.IsWhole → ∀ items entries, tree = .array items →
    List.Forall₂ Describes items entries → read = .ok entries
  refused : ∀ items, tree = .array items → (∀ entries, ¬ List.Forall₂ Describes items entries) →
    ∃ before item after fault reason, items = before ++ item :: after ∧
      FirstUndescribed before item ∧ read = .error (.database fault) ∧
      fault.message = "Entry " ++ toString before.length ++ " " ++ reason
  notArray : (∀ items, tree ≠ .array items) → read = .error (.database .notArray)

theorem readAs_ofValue (tree : Tree) : ReadAs tree ((ofValue tree.value).mapError .database) := by
  constructor
  · constructor
    · rintro ⟨entries, read⟩
      obtain ⟨items, same, described⟩ := forall₂_of_ofValue (mapError_eq_ok_iff.mp read)
      exact ⟨items, entries, same, described⟩
    · rintro ⟨items, entries, rfl, described⟩
      obtain ⟨read, done⟩ := exists_ofValue_eq_ok described
      exact ⟨read, mapError_eq_ok_iff.mpr done⟩
  · intro entries read
    exact forall₂_of_ofValue (mapError_eq_ok_iff.mp read)
  · rintro whole items entries rfl described
    obtain ⟨read, done⟩ := exists_ofValue_eq_ok described
    obtain ⟨_, same, again⟩ := forall₂_of_ofValue done
    cases same
    rw [eq_of_areWhole described again whole]
    exact mapError_eq_ok_iff.mpr done
  · rintro items rfl refused
    cases read : ofValue (Tree.array items).value with
    | ok entries =>
        obtain ⟨_, same, described⟩ := forall₂_of_ofValue read
        cases same
        exact absurd described (refused entries)
    | error fault =>
        obtain ⟨before, item, after, reason, parts, first, message⟩ := firstUndescribed_of_ofValue read
        exact ⟨before, item, after, fault, reason, parts, first, rfl, message⟩
  · intro other
    rw [ofValue_of_not_array other]
    rfl

section

variable {headroom : Headroom} {text : String} {tree : Tree}

theorem decode_of_isDocument (document : IsDocument text.toList tree)
    (room : tree.depth ≤ headroom.levels) : Json.decode headroom text.toList = .ok tree.value :=
  (Json.decode_eq_ok_iff ..).mpr ⟨tree, document, room, rfl⟩

theorem parse_of_isDocument (document : IsDocument text.toList tree)
    (room : tree.depth ≤ headroom.levels) :
    parse headroom text = (ofValue tree.value).mapError .database := by
  rw [parse, ofChars, decode_of_isDocument document room]

theorem parse_of_lt (document : IsDocument text.toList tree) (short : headroom.levels < tree.depth) :
    ∃ opened, parse headroom text = .error (.exceeded (.depth opened)) := by
  obtain ⟨opened, deep⟩ := document.decode_of_lt short
  exact ⟨opened, ofChars_of_exceeded deep⟩

theorem parse_of_no_document (nothing : ∀ tree, ¬ IsDocument text.toList tree) :
    (∃ complaint location,
      parse headroom text = .error (.database (.malformed complaint location))) ∨
    ∃ excess, excess.ArisesIn headroom.levels text.toList ∧
      parse headroom text = .error (.exceeded excess) := by
  cases read : Json.decode headroom text.toList with
  | ok value =>
      obtain ⟨tree, document, _⟩ := (Json.decode_eq_ok_iff ..).mp read
      exact absurd document (nothing tree)
  | error error =>
      cases error with
      | malformed complaint location =>
          refine .inl ⟨complaint, location, ?_⟩
          rw [parse, ofChars, read]
      | exceeded excess =>
          exact .inr ⟨excess, Json.arisesIn_of_decode read, ofChars_of_exceeded read⟩

end

/-- What is read from a text, by the tree that it spells. If there is room for the depth of the tree,
the text is decoded, and the entries are those that the items of an array describe, one after the
other. If the items do not all describe one, the message names the place of the first that does not,
and what is no array is refused as such. A deeper tree is found too deep, and text that spells nothing
is refused as malformed, or else for what there is too much of in it; what is too deep or too much is
no failure of databases. -/
theorem parse_by_spelled_tree (headroom : Headroom) (text : String) :
    ((∃ value, Json.decode headroom text.toList = .ok value) ↔
      ∃ tree, IsDocument text.toList tree ∧ tree.depth ≤ headroom.levels) ∧
    (∀ tree, IsDocument text.toList tree →
      (tree.depth ≤ headroom.levels →
        (tree.IsWhole → Json.decode headroom text.toList = .ok tree.value) ∧
          ReadAs tree (parse headroom text)) ∧
      (headroom.levels < tree.depth →
        ∃ opened, parse headroom text = .error (.exceeded (.depth opened)))) ∧
    ((∀ tree, ¬ IsDocument text.toList tree) →
      (∃ complaint location,
        parse headroom text = .error (.database (.malformed complaint location))) ∨
      ∃ excess, excess.ArisesIn headroom.levels text.toList ∧
        parse headroom text = .error (.exceeded excess)) := by
  refine ⟨?_, ?_, parse_of_no_document⟩
  · constructor
    · rintro ⟨value, read⟩
      obtain ⟨tree, document, room, _⟩ := (Json.decode_eq_ok_iff ..).mp read
      exact ⟨tree, document, room⟩
    · rintro ⟨tree, document, room⟩
      exact ⟨_, decode_of_isDocument document room⟩
  · intro tree document
    refine ⟨fun room => ⟨fun _ => decode_of_isDocument document room, ?_⟩, parse_of_lt document⟩
    rw [parse_of_isDocument document room]
    exact readAs_ofValue tree

theorem decode_unclosed_nines (headroom : Headroom) :
    Json.decode headroom ('[' :: nines) = .error (.exceeded (.digits 4301)) := by
  rw [← length_nines]
  apply Json.decode_of_unclosed headroom isPositiveNumeral_nines
  rw [length_nines]
  decide

theorem parse_unclosed_nines (headroom : Headroom) :
    parse headroom (String.ofList ('[' :: nines)) = .error (.exceeded (.digits 4301)) := by
  rw [parse, String.toList_ofList]
  exact ofChars_of_exceeded (decode_unclosed_nines headroom)

/-- A bracket with a number behind it and nothing more is no array; but if the number has 4301 digits,
this is no failure of databases. -/
theorem unclosed_array_of_long_number :
    (∀ tree, ¬ IsDocument ('[' :: nines) tree) ∧
    parse .usual (String.ofList ('[' :: nines)) = .error (.exceeded (.digits 4301)) ∧
    ¬ Ensures Failure.IsDatabase (fun _ => True)
      (parse .usual (String.ofList ('[' :: nines))) := by
  refine ⟨?_, parse_unclosed_nines .usual, ?_⟩
  · intro tree document
    have read := (Json.decode_eq_ok_iff ⟨max 2 tree.depth, Nat.le_max_left ..⟩ _ _).mpr
      ⟨tree, document, Nat.le_max_right .., rfl⟩
    rw [decode_unclosed_nines] at read
    contradiction
  · rw [parse_unclosed_nines]
    exact nofun

end CompileCommands.Database
