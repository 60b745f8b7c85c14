import CompileCommands.Json.Decoder
import CompileCommands.Proofs.Json.AsciiString
import CompileCommands.Proofs.Success

set_option autoImplicit false

/- What the scanners read, without the proof that the rest is shorter: one equation for each way in
which a value starts and in which an array or an object goes on, and from these the rules by which
values are read. -/
namespace CompileCommands.Json

/-- What was read together with a plain rest. -/
def plainRest {α : Type} {text : List Char} :
    Except Fault (α × Rest text) → Except Fault (α × List Char)
  | .error fault => .error fault
  | .ok (value, rest) => .ok (value, rest.val)

theorem plainRest_eq_ok {α : Type} {text : List Char} {read : Except Fault (α × Rest text)}
    {value : α} {rest : List Char} (plain : plainRest read = .ok (value, rest)) :
    ∃ shorter, read = .ok (value, ⟨rest, shorter⟩) := by
  match read with
  | .error fault => contradiction
  | .ok (value, ⟨rest, shorter⟩) =>
      cases plain
      exact ⟨shorter, rfl⟩

def readAtom (text : List Char) : Except Fault (Value × List Char) := plainRest (scanAtom text)

def readValue (depth : Nat) (text : List Char) : Except Fault (Value × List Char) :=
  plainRest (scanValue depth text)

def readItems (depth : Nat) (text : List Char) : Except Fault (List Value × List Char) :=
  plainRest (scanItems depth text)

def readMembers (depth : Nat) (text : List Char) :
    Except Fault (List (String × Value) × List Char) :=
  plainRest (scanMembers depth text)

/-! Values, by their first characters. -/

theorem readAtom_eq_error {text : List Char} (unnamed : scanNamed? text = none)
    (unnumbered : scanNumber? text = none) :
    readAtom text = .error (.malformed .value text.length) := by
  rw [readAtom, scanAtom]
  split
  · next named =>
    rw [unnamed] at named
    contradiction
  · split
    · rfl
    · next numbered =>
      rw [unnumbered] at numbered
      contradiction

theorem readValue_nil (depth : Nat) : readValue depth [] = .error (.malformed .value 0) := by
  rw [readValue, scanValue]
  rfl

theorem readValue_quote (depth : Nat) (after : List Char) :
    readValue depth ('"' :: after) =
      (scanString after).map fun read => (.string read.1, read.2) := by
  rw [readValue, scanValue.eq_def]
  dsimp only
  rw [if_pos rfl]
  split
  · next failed =>
    rw [failed]
    rfl
  · next value rest found =>
    show Except.ok (Value.string value, rest) = _
    rw [found]
    rfl

/-- The first character after the brace of an object decides whether it is empty. -/
def readObject (depth : Nat) : List Char → Except Fault (Value × List Char)
  | '}' :: rest => .ok (.object [], rest)
  | text => (readMembers depth text).map fun read => (.object (Table.ofPairs read.1), read.2)

theorem readValue_brace_zero (after : List Char) :
    readValue 0 ('{' :: after) = .error (.exceeded (.depth .object)) := by
  rw [readValue, scanValue, if_neg (by decide), if_pos rfl]
  rfl

theorem readValue_brace_succ (depth : Nat) (after : List Char) :
    readValue (depth + 1) ('{' :: after) = readObject depth (skipSpace after) := by
  rw [readValue, scanValue, if_neg (by decide), if_pos rfl]
  dsimp only
  split
  · next closed => exact (congrArg (readObject depth) closed).symm
  · next filled =>
    rw [readObject.eq_2 _ _ filled, readMembers]
    cases scanMembers depth (skipSpace after) <;> rfl

/-- The first character after the bracket of an array decides whether it is empty. -/
def readArray (depth : Nat) : List Char → Except Fault (Value × List Char)
  | ']' :: rest => .ok (.array [], rest)
  | text => (readItems depth text).map fun read => (.array read.1, read.2)

theorem readValue_bracket_zero (after : List Char) :
    readValue 0 ('[' :: after) = .error (.exceeded (.depth .array)) := by
  rw [readValue, scanValue, if_neg (by decide), if_neg (by decide), if_pos rfl]
  rfl

theorem readValue_bracket_succ (depth : Nat) (after : List Char) :
    readValue (depth + 1) ('[' :: after) = readArray depth (skipSpace after) := by
  rw [readValue, scanValue, if_neg (by decide), if_neg (by decide), if_pos rfl]
  dsimp only
  split
  · next closed => exact (congrArg (readArray depth) closed).symm
  · next filled =>
    rw [readArray.eq_2 _ _ filled, readItems]
    cases scanItems depth (skipSpace after) <;> rfl

theorem readValue_atom (depth : Nat) {c : Char} (after : List Char) (quote : c ≠ '"')
    (brace : c ≠ '{') (bracket : c ≠ '[') :
    readValue depth (c :: after) = readAtom (c :: after) := by
  rw [readValue, scanValue.eq_def]
  dsimp only
  rw [if_neg quote, if_neg brace, if_neg bracket, readAtom]

/-! Items and members, by what is behind them. -/

/-- The character after an item decides how the array goes on. -/
def itemsAfter (depth : Nat) (item : Value) : List Char → Except Fault (List Value × List Char)
  | ']' :: rest => .ok ([item], rest)
  | ',' :: rest =>
      (readItems depth (skipSpace rest)).map fun others => (item :: others.1, others.2)
  | rest => .error (.malformed .comma rest.length)

theorem readItems_eq (depth : Nat) (text : List Char) :
    readItems depth text =
      readValue depth text >>= fun read => itemsAfter depth read.1 (skipSpace read.2) := by
  rw [readItems, scanItems, readValue]
  cases scanValue depth text with
  | error fault => rfl
  | ok read =>
      obtain ⟨item, after, shorter⟩ := read
      show plainRest _ = itemsAfter depth item (skipSpace after)
      dsimp only
      split
      · next closed => exact (congrArg (itemsAfter depth item) closed).symm
      · next rest comma =>
        apply Eq.trans _ (congrArg (itemsAfter depth item) comma).symm
        rw [itemsAfter, readItems]
        cases scanItems depth (skipSpace rest) <;> rfl
      · next notClosed notComma => exact (itemsAfter.eq_3 _ _ _ notClosed notComma).symm

/-- The character after a member decides how the object goes on. -/
def membersAfter (depth : Nat) (member : String × Value) :
    List Char → Except Fault (List (String × Value) × List Char)
  | '}' :: rest => .ok ([member], rest)
  | ',' :: rest =>
      (readMembers depth (skipSpace rest)).map fun others => (member :: others.1, others.2)
  | rest => .error (.malformed .comma rest.length)

/-- After the name of a member come a colon and its value. -/
def memberNamed (depth : Nat) (name : String) :
    List Char → Except Fault (List (String × Value) × List Char)
  | ':' :: rest =>
      readValue depth (skipSpace rest) >>= fun read =>
        membersAfter depth (name, read.1) (skipSpace read.2)
  | rest => .error (.malformed .colon rest.length)

theorem readMembers_quote (depth : Nat) (quoted : List Char) :
    readMembers depth ('"' :: quoted) =
      scanString quoted >>= fun read => memberNamed depth read.1 (skipSpace read.2) := by
  rw [readMembers, scanMembers]
  split
  · next failed =>
    rw [failed]
    rfl
  · next name afterName named =>
    apply Eq.trans _ (congrArg (· >>= fun read => memberNamed depth read.1 (skipSpace read.2))
      named).symm
    show _ = memberNamed depth name (skipSpace afterName)
    split
    · next afterColon colon =>
      apply Eq.trans _ (congrArg (memberNamed depth name) colon).symm
      rw [memberNamed, readValue]
      dsimp only
      cases scanValue depth (skipSpace afterColon) with
      | error fault => rfl
      | ok read =>
          obtain ⟨value, afterValue, shorter⟩ := read
          show plainRest _ = membersAfter depth (name, value) (skipSpace afterValue)
          dsimp only
          split
          · next closed => exact (congrArg (membersAfter depth _) closed).symm
          · next rest comma =>
            apply Eq.trans _ (congrArg (membersAfter depth _) comma).symm
            rw [membersAfter, readMembers]
            cases scanMembers depth (skipSpace rest) <;> rfl
          · next notClosed notComma => exact (membersAfter.eq_3 _ _ _ notClosed notComma).symm
    · next noColon => exact (memberNamed.eq_2 _ _ _ noColon).symm

theorem readMembers_eq_error {depth : Nat} {text : List Char} (plain : ∀ quoted, text ≠ '"' :: quoted) :
    readMembers depth text = .error (.malformed .propertyName text.length) := by
  rw [readMembers, scanMembers]
  · rfl
  · exact plain

/-! Rules for values that are read. -/

/-- A value is read from the front of a text, and the rest is left. -/
def Scans (depth : Nat) (text : List Char) (value : Value) (rest : List Char) : Prop :=
  readValue depth text = .ok (value, rest)

def ScansItems (depth : Nat) (text : List Char) (items : List Value) (rest : List Char) : Prop :=
  readItems depth text = .ok (items, rest)

def ScansMembers (depth : Nat) (text : List Char) (members : List (String × Value))
    (rest : List Char) : Prop :=
  readMembers depth text = .ok (members, rest)

theorem Scans.length_lt {depth : Nat} {text rest : List Char} {value : Value}
    (read : Scans depth text value rest) : rest.length < text.length := by
  obtain ⟨shorter, _⟩ := plainRest_eq_ok read
  exact shorter

theorem length_skipSpace_lt {text rest : List Char} {c : Char} (found : skipSpace text = c :: rest) :
    (skipSpace rest).length < text.length :=
  Nat.lt_of_le_of_lt (skipSpace_length_le rest) (length_lt_of_skipSpace found)

theorem scans_string (depth : Nat) {after rest : List Char} {value : String}
    (read : scanString after = .ok (value, rest)) :
    Scans depth ('"' :: after) (.string value) rest := by
  rw [Scans, readValue_quote, read]
  rfl

theorem asciiString_append (text rest : List Char) :
    asciiString text ++ rest = '"' :: (text.flatMap asciiChar ++ '"' :: rest) := by
  rw [asciiString, List.cons_append, List.cons_append, List.append_assoc, List.singleton_append]

theorem scans_asciiString (depth : Nat) (text rest : List Char) :
    Scans depth (asciiString text ++ rest) (.string (String.ofList text)) rest := by
  rw [asciiString_append]
  exact scans_string depth (scanString_flatMap_asciiChar text rest)

section

variable {depth : Nat} {text after next rest : List Char} {item : Value} {items : List Value}

theorem Scans.lastItem (read : Scans depth text item after)
    (closed : skipSpace after = ']' :: rest) : ScansItems depth text [item] rest := by
  rw [Scans] at read
  rw [ScansItems, readItems_eq, read, ok_bind, closed, itemsAfter]

theorem Scans.moreItems (read : Scans depth text item after)
    (comma : skipSpace after = ',' :: next) (others : ScansItems depth (skipSpace next) items rest) :
    ScansItems depth text (item :: items) rest := by
  rw [Scans] at read
  rw [ScansItems] at others
  rw [ScansItems, readItems_eq, read, ok_bind, comma, itemsAfter, others]
  rfl

theorem scans_emptyArray (depth : Nat) (closed : skipSpace after = ']' :: rest) :
    Scans (depth + 1) ('[' :: after) (.array []) rest := by
  rw [Scans, readValue_bracket_succ, closed, readArray]

theorem ScansItems.array (read : ScansItems depth (skipSpace after) items rest)
    (filled : ∀ tail, skipSpace after ≠ ']' :: tail) :
    Scans (depth + 1) ('[' :: after) (.array items) rest := by
  rw [ScansItems] at read
  rw [Scans, readValue_bracket_succ, readArray.eq_2 _ _ filled, read]
  rfl

end

section

variable {depth : Nat} {quoted afterName afterColon afterValue next rest : List Char}
  {name : String} {value : Value} {members : List (String × Value)}

theorem readMembers_of_colon (named : scanString quoted = .ok (name, afterName))
    (colon : skipSpace afterName = ':' :: afterColon) :
    readMembers depth ('"' :: quoted) = readValue depth (skipSpace afterColon) >>= fun read =>
      membersAfter depth (name, read.1) (skipSpace read.2) := by
  rw [readMembers_quote, named, ok_bind, colon, memberNamed]

theorem Scans.lastMember (read : Scans depth (skipSpace afterColon) value afterValue)
    (named : scanString quoted = .ok (name, afterName))
    (colon : skipSpace afterName = ':' :: afterColon)
    (closed : skipSpace afterValue = '}' :: rest) :
    ScansMembers depth ('"' :: quoted) [(name, value)] rest := by
  rw [Scans] at read
  rw [ScansMembers, readMembers_of_colon named colon, read, ok_bind, closed, membersAfter]

theorem Scans.moreMembers (read : Scans depth (skipSpace afterColon) value afterValue)
    (named : scanString quoted = .ok (name, afterName))
    (colon : skipSpace afterName = ':' :: afterColon)
    (comma : skipSpace afterValue = ',' :: next)
    (others : ScansMembers depth (skipSpace next) members rest) :
    ScansMembers depth ('"' :: quoted) ((name, value) :: members) rest := by
  rw [Scans] at read
  rw [ScansMembers] at others
  rw [ScansMembers, readMembers_of_colon named colon, read, ok_bind, comma, membersAfter, others]
  rfl

theorem scans_emptyObject (depth : Nat) {after : List Char}
    (closed : skipSpace after = '}' :: rest) :
    Scans (depth + 1) ('{' :: after) (.object []) rest := by
  rw [Scans, readValue_brace_succ, closed, readObject]

theorem ScansMembers.object {after : List Char}
    (read : ScansMembers depth (skipSpace after) members rest)
    (filled : ∀ tail, skipSpace after ≠ '}' :: tail) :
    Scans (depth + 1) ('{' :: after) (.object (Table.ofPairs members)) rest := by
  rw [ScansMembers] at read
  rw [Scans, readValue_brace_succ, readObject.eq_2 _ _ filled, read]
  rfl

end

/-! Whatever is scanned. -/

/-- What holds of the values, the items and the members in a text if it does in all that are
shorter: an item or a member starts with a value, which can be as long as the text. -/
theorem scanning_induction {ofValue ofItems ofMembers : List Char → Prop}
    (value : ∀ text : List Char,
      (∀ later : List Char, later.length < text.length → ofItems later) →
      (∀ later : List Char, later.length < text.length → ofMembers later) → ofValue text)
    (items : ∀ text : List Char, ofValue text →
      (∀ later : List Char, later.length < text.length → ofItems later) → ofItems text)
    (members : ∀ text : List Char,
      (∀ later : List Char, later.length < text.length → ofValue later) →
      (∀ later : List Char, later.length < text.length → ofMembers later) → ofMembers text)
    (text : List Char) : ofValue text ∧ ofItems text ∧ ofMembers text := by
  induction size : text.length using Nat.strongRecOn generalizing text with
  | ind _ ih =>
      subst size
      have shorterValues later shorter := (ih _ shorter later rfl).1
      have shorterItems later shorter := (ih _ shorter later rfl).2.1
      have shorterMembers later shorter := (ih _ shorter later rfl).2.2
      have here := value text shorterItems shorterMembers
      exact ⟨here, items text here shorterItems, members text shorterValues shorterMembers⟩

/-! Whole texts. -/

/-- A text without a mark of the byte order is its first value, with blanks around it. -/
theorem scanDocument_eq {depth : Nat} {text : List Char} (unmarked : ∀ tail, text ≠ '\uFEFF' :: tail) :
    scanDocument depth text = readValue depth (skipSpace text) >>= fun read =>
      if (skipSpace read.2).isEmpty then .ok read.1
      else .error (.malformed .extraData (skipSpace read.2).length) := by
  rw [scanDocument, readValue]
  · cases scanValue depth (skipSpace text) with
    | error fault => rfl
    | ok read =>
        obtain ⟨value, rest, shorter⟩ := read
        show _ = if (skipSpace rest).isEmpty then _ else _
        dsimp only
        cases skipSpace rest <;> rfl
  · exact unmarked

theorem Scans.decode {headroom : Headroom} {text rest : List Char} {value : Value}
    (read : Scans headroom.levels (skipSpace text) value rest) (ended : skipSpace rest = [])
    (unmarked : ∀ tail, text ≠ '\uFEFF' :: tail) : decode headroom text = .ok value := by
  rw [Scans] at read
  have document : scanDocument headroom.levels text = .ok value := by
    rw [scanDocument_eq unmarked, read, ok_bind, ended]
    rfl
  rw [Json.decode, document]

end CompileCommands.Json
