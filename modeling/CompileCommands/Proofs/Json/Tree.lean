import CompileCommands.Proofs.Json.Scans

set_option autoImplicit false

/- What a text spells: a tree, in which an object has all of its members as they are written, also
several with one name, and a string all of its code points, also a surrogate that stands alone. There is
a rule for every way to put a text together. For just those texts for which the rules give a tree with
room for its depth, the decoder finds the value of that tree; if there is no room for it, the decoder
says so. -/
namespace CompileCommands.Json

/-- The values that have no parts and are no strings. -/
inductive Scalar where
  | null
  | bool (value : Bool)
  | integer (value : Int)
  | real (value : Decimal.Binary64)

def Scalar.value : Scalar → Value
  | .null => .null
  | .bool value => .bool value
  | .integer value => .integer value
  | .real value => .real value

/-- Strings, and the names of members, are given by their code points. -/
inductive Tree where
  | scalar (leaf : Scalar)
  | string (points : List Nat)
  | array (items : List Tree)
  | object (members : List (List Nat × Tree))

def pointsOf (text : String) : List Nat := text.toList.map Char.toNat

/-- Whether code points are those of a text: no surrogate is among them. -/
def IsText (points : List Nat) : Prop := ∃ text, pointsOf text = points

namespace Tree

mutual

def value : Tree → Value
  | .scalar leaf => leaf.value
  | .string points => .string (pointsText points)
  | .array items => .array (itemValues items)
  | .object members => .object (Table.ofPairs (memberValues members))

def itemValues : List Tree → List Value
  | [] => []
  | item :: rest => item.value :: itemValues rest

def memberValues : List (List Nat × Tree) → List (String × Value)
  | [] => []
  | (name, tree) :: rest => (pointsText name, tree.value) :: memberValues rest

end

theorem itemValues_eq_map (items : List Tree) : itemValues items = items.map value := by
  induction items with
  | nil => rfl
  | cons item rest ih => rw [itemValues, ih, List.map_cons]

theorem memberValues_eq_map (members : List (List Nat × Tree)) :
    memberValues members = members.map fun member => (pointsText member.1, member.2.value) := by
  induction members with
  | nil => rfl
  | cons member rest ih => rw [memberValues, ih, List.map_cons]

mutual

/-- How many arrays and objects are within each other. -/
def depth : Tree → Nat
  | .scalar _ | .string _ => 0
  | .array items => itemsDepth items + 1
  | .object members => membersDepth members + 1

def itemsDepth : List Tree → Nat
  | [] => 0
  | item :: rest => max item.depth (itemsDepth rest)

def membersDepth : List (List Nat × Tree) → Nat
  | [] => 0
  | (_, tree) :: rest => max tree.depth (membersDepth rest)

end

mutual

/-- Whether all strings and names in a tree are texts. -/
def IsWhole : Tree → Prop
  | .scalar _ => True
  | .string points => IsText points
  | .array items => AreWhole items
  | .object members => MembersAreWhole members

def AreWhole : List Tree → Prop
  | [] => True
  | item :: rest => item.IsWhole ∧ AreWhole rest

def MembersAreWhole : List (List Nat × Tree) → Prop
  | [] => True
  | (name, tree) :: rest => IsText name ∧ tree.IsWhole ∧ MembersAreWhole rest

end

end Tree

mutual

/-- The front of a text spells a tree, and the rest is left. -/
inductive Spells : List Char → Tree → List Char → Prop where
  | scalar {text rest : List Char} (leaf : Scalar) (read : readAtom text = .ok (leaf.value, rest)) :
      Spells text (.scalar leaf) rest
  | string {quoted rest : List Char} {units : List Nat}
      (read : codeUnits quoted quoted = .ok (units, rest)) :
      Spells ('"' :: quoted) (.string (joinPairs units)) rest
  | emptyArray {after rest : List Char} (closed : skipSpace after = ']' :: rest) :
      Spells ('[' :: after) (.array []) rest
  | array {after rest : List Char} {items : List Tree}
      (filled : SpellsItems (skipSpace after) items rest) : Spells ('[' :: after) (.array items) rest
  | emptyObject {after rest : List Char} (closed : skipSpace after = '}' :: rest) :
      Spells ('{' :: after) (.object []) rest
  | object {after rest : List Char} {members : List (List Nat × Tree)}
      (filled : SpellsMembers (skipSpace after) members rest) :
      Spells ('{' :: after) (.object members) rest

inductive SpellsItems : List Char → List Tree → List Char → Prop where
  | last {text after rest : List Char} {item : Tree} (first : Spells text item after)
      (closed : skipSpace after = ']' :: rest) : SpellsItems text [item] rest
  | more {text after next rest : List Char} {item : Tree} {items : List Tree}
      (first : Spells text item after) (comma : skipSpace after = ',' :: next)
      (others : SpellsItems (skipSpace next) items rest) : SpellsItems text (item :: items) rest

inductive SpellsMembers : List Char → List (List Nat × Tree) → List Char → Prop where
  | last {quoted afterName afterColon afterValue rest : List Char} {units : List Nat} {tree : Tree}
      (named : codeUnits quoted quoted = .ok (units, afterName))
      (colon : skipSpace afterName = ':' :: afterColon)
      (first : Spells (skipSpace afterColon) tree afterValue)
      (closed : skipSpace afterValue = '}' :: rest) :
      SpellsMembers ('"' :: quoted) [(joinPairs units, tree)] rest
  | more {quoted afterName afterColon afterValue next rest : List Char} {units : List Nat}
      {tree : Tree} {members : List (List Nat × Tree)}
      (named : codeUnits quoted quoted = .ok (units, afterName))
      (colon : skipSpace afterName = ':' :: afterColon)
      (first : Spells (skipSpace afterColon) tree afterValue)
      (comma : skipSpace afterValue = ',' :: next)
      (others : SpellsMembers (skipSpace next) members rest) :
      SpellsMembers ('"' :: quoted) ((joinPairs units, tree) :: members) rest

end

/-! What was read, by how it starts and goes on. -/

theorem scanString_eq_ok_iff (quoted rest : List Char) (text : String) :
    scanString quoted = .ok (text, rest) ↔
      ∃ units, codeUnits quoted quoted = .ok (units, rest) ∧ pointsText (joinPairs units) = text := by
  unfold scanString
  split
  · next failed => simp [failed]
  · next units after read => simp [read, and_comm]

theorem exists_scalar_of_scanNamed? {text rest : List Char} {value : Value}
    (read : scanNamed? text = some (value, rest)) : ∃ leaf : Scalar, leaf.value = value := by
  have every : ∀ named ∈ namedValues, ∃ leaf : Scalar, leaf.value = named.2 := by
    simp only [namedValues, List.forall_mem_cons]
    exact ⟨⟨.null, rfl⟩, ⟨.bool true, rfl⟩, ⟨.bool false, rfl⟩, ⟨.real _, rfl⟩, ⟨.real _, rfl⟩,
      ⟨.real _, rfl⟩, by simp⟩
  unfold scanNamed? at read
  split at read
  · contradiction
  · next named found =>
      cases read
      exact every named (List.mem_of_find?_eq_some found)

theorem NumberText.exists_scalar {number : NumberText} {value : Value}
    (read : number.value = .ok value) : ∃ leaf : Scalar, leaf.value = value := by
  unfold NumberText.value at read
  split at read
  · split at read
    · contradiction
    · cases read
      exact ⟨.integer _, rfl⟩
  · cases read
    exact ⟨.real _, rfl⟩

theorem exists_scalar_of_readAtom {text rest : List Char} {value : Value}
    (read : readAtom text = .ok (value, rest)) : ∃ leaf : Scalar, leaf.value = value := by
  obtain ⟨_, read⟩ := plainRest_eq_ok read
  unfold scanAtom at read
  split at read
  · next named =>
    cases read
    exact exists_scalar_of_scanNamed? named
  · split at read
    · contradiction
    · split at read
      · contradiction
      · next found =>
        cases read
        exact NumberText.exists_scalar found

/-- The first character of a name or a number. -/
theorem exists_cons_of_readAtom {text rest : List Char} {value : Value}
    (read : readAtom text = .ok (value, rest)) :
    ∃ c after, text = c :: after ∧ c ≠ '"' ∧ c ≠ '{' ∧ c ≠ '[' ∧ c ≠ ']' := by
  have other {text : List Char} (unnamed : scanNamed? text = none)
      (unnumbered : scanNumber? text = none) : readAtom text ≠ .ok (value, rest) := by
    rw [readAtom_eq_error unnamed unnumbered]
    exact nofun
  cases text with
  | nil => exact absurd read (other rfl rfl)
  | cons c after =>
      refine ⟨c, after, rfl, ?_, ?_, ?_, ?_⟩
      all_goals
        rintro rfl
        exact other rfl rfl read

theorem scans_atom (depth : Nat) {text rest : List Char} {value : Value}
    (read : readAtom text = .ok (value, rest)) : Scans depth text value rest := by
  obtain ⟨c, after, rfl, quote, brace, bracket, _⟩ := exists_cons_of_readAtom read
  rw [Scans, readValue_atom depth after quote brace bracket, read]

/-- A value is a name, a number or a string, or it is an array or an object and takes room. -/
theorem Scans.cases {depth : Nat} {text rest : List Char} {value : Value}
    (read : Scans depth text value rest) :
    readAtom text = .ok (value, rest) ∨
    (∃ quoted units, text = '"' :: quoted ∧ codeUnits quoted quoted = .ok (units, rest) ∧
      value = .string (pointsText (joinPairs units))) ∨
    (∃ room after, depth = room + 1 ∧ text = '[' :: after ∧
      (skipSpace after = ']' :: rest ∧ value = .array [] ∨
        ∃ items, ScansItems room (skipSpace after) items rest ∧ value = .array items)) ∨
    (∃ room after, depth = room + 1 ∧ text = '{' :: after ∧
      (skipSpace after = '}' :: rest ∧ value = .object [] ∨
        ∃ members, ScansMembers room (skipSpace after) members rest ∧
          value = .object (Table.ofPairs members))) := by
  rw [Scans] at read
  cases text with
  | nil =>
      rw [readValue_nil] at read
      contradiction
  | cons c after =>
      by_cases quote : c = '"'
      · subst quote
        rw [readValue_quote] at read
        obtain ⟨⟨text, left⟩, found, same⟩ := map_eq_ok_iff.mp read
        cases same
        obtain ⟨units, spelled, rfl⟩ := (scanString_eq_ok_iff ..).mp found
        exact .inr (.inl ⟨after, units, rfl, spelled, rfl⟩)
      by_cases brace : c = '{'
      · subst brace
        cases depth with
        | zero =>
            rw [readValue_brace_zero] at read
            contradiction
        | succ room =>
            refine .inr (.inr (.inr ⟨room, after, rfl, rfl, ?_⟩))
            rw [readValue_brace_succ] at read
            unfold readObject at read
            split at read
            · next closed =>
              cases read
              exact .inl ⟨closed, rfl⟩
            · obtain ⟨⟨members, left⟩, found, same⟩ := map_eq_ok_iff.mp read
              cases same
              exact .inr ⟨members, found, rfl⟩
      by_cases bracket : c = '['
      · subst bracket
        cases depth with
        | zero =>
            rw [readValue_bracket_zero] at read
            contradiction
        | succ room =>
            refine .inr (.inr (.inl ⟨room, after, rfl, rfl, ?_⟩))
            rw [readValue_bracket_succ] at read
            unfold readArray at read
            split at read
            · next closed =>
              cases read
              exact .inl ⟨closed, rfl⟩
            · obtain ⟨⟨items, left⟩, found, same⟩ := map_eq_ok_iff.mp read
              cases same
              exact .inr ⟨items, found, rfl⟩
      rw [readValue_atom depth after quote brace bracket] at read
      exact .inl read

theorem ScansItems.cases {depth : Nat} {text rest : List Char} {items : List Value}
    (read : ScansItems depth text items rest) :
    ∃ item after, Scans depth text item after ∧
      (skipSpace after = ']' :: rest ∧ items = [item] ∨
        ∃ next others, skipSpace after = ',' :: next ∧
          ScansItems depth (skipSpace next) others rest ∧ items = item :: others) := by
  rw [ScansItems, readItems_eq] at read
  obtain ⟨⟨item, after⟩, here, goesOn⟩ := bind_eq_ok_iff.mp read
  refine ⟨item, after, here, ?_⟩
  dsimp only at goesOn
  unfold itemsAfter at goesOn
  split at goesOn
  · next closed =>
    cases goesOn
    exact .inl ⟨closed, rfl⟩
  · next next comma =>
    obtain ⟨⟨others, left⟩, later, same⟩ := map_eq_ok_iff.mp goesOn
    cases same
    exact .inr ⟨next, others, comma, later, rfl⟩
  · contradiction

theorem ScansMembers.cases {depth : Nat} {text rest : List Char}
    {members : List (String × Value)} (read : ScansMembers depth text members rest) :
    ∃ quoted units afterName afterColon value afterValue, text = '"' :: quoted ∧
      codeUnits quoted quoted = .ok (units, afterName) ∧
      skipSpace afterName = ':' :: afterColon ∧
      Scans depth (skipSpace afterColon) value afterValue ∧
      (skipSpace afterValue = '}' :: rest ∧ members = [(pointsText (joinPairs units), value)] ∨
        ∃ next others, skipSpace afterValue = ',' :: next ∧
          ScansMembers depth (skipSpace next) others rest ∧
            members = (pointsText (joinPairs units), value) :: others) := by
  rw [ScansMembers] at read
  by_cases started : ∃ quoted, text = '"' :: quoted
  · obtain ⟨quoted, rfl⟩ := started
    rw [readMembers_quote] at read
    obtain ⟨⟨name, afterName⟩, named, goesOn⟩ := bind_eq_ok_iff.mp read
    obtain ⟨units, spelled, rfl⟩ := (scanString_eq_ok_iff ..).mp named
    dsimp only at goesOn
    unfold memberNamed at goesOn
    split at goesOn
    · next afterColon colon =>
      obtain ⟨⟨value, afterValue⟩, here, goesOn⟩ := bind_eq_ok_iff.mp goesOn
      refine ⟨quoted, units, afterName, afterColon, value, afterValue, rfl, spelled, colon, here, ?_⟩
      dsimp only at goesOn
      unfold membersAfter at goesOn
      split at goesOn
      · next closed =>
        cases goesOn
        exact .inl ⟨closed, rfl⟩
      · next next comma =>
        obtain ⟨⟨others, left⟩, later, same⟩ := map_eq_ok_iff.mp goesOn
        cases same
        exact .inr ⟨next, others, comma, later, rfl⟩
      · contradiction
    · contradiction
  · rw [readMembers_eq_error fun quoted same => started ⟨quoted, same⟩] at read
    contradiction

/-! What is spelled is read, as far as there is room. -/

theorem Spells.ne_bracket {text rest : List Char} {tree : Tree} (spelled : Spells text tree rest)
    (tail : List Char) : text ≠ ']' :: tail := by
  cases spelled with
  | scalar leaf read =>
      obtain ⟨c, after, rfl, _, _, _, bracket⟩ := exists_cons_of_readAtom read
      simp [bracket]
  | _ => simp

theorem SpellsItems.ne_bracket {text rest : List Char} {items : List Tree}
    (spelled : SpellsItems text items rest) (tail : List Char) : text ≠ ']' :: tail := by
  cases spelled with
  | last first _ => exact first.ne_bracket tail
  | more first _ _ => exact first.ne_bracket tail

theorem SpellsMembers.ne_brace {text rest : List Char} {members : List (List Nat × Tree)}
    (spelled : SpellsMembers text members rest) (tail : List Char) : text ≠ '}' :: tail := by
  cases spelled <;> simp

/-- Room for an array or an object is room for one less within it. -/
theorem exists_eq_succ_of_lt {inside depth : Nat} (room : inside + 1 ≤ depth) :
    ∃ left, depth = left + 1 ∧ inside ≤ left :=
  ⟨depth - 1, by omega, by omega⟩

theorem scanString_of_codeUnits {quoted rest : List Char} {units : List Nat}
    (read : codeUnits quoted quoted = .ok (units, rest)) :
    scanString quoted = .ok (pointsText (joinPairs units), rest) :=
  (scanString_eq_ok_iff ..).mpr ⟨units, read, rfl⟩

mutual

theorem Spells.scans {text rest : List Char} {tree : Tree} {depth : Nat} :
    Spells text tree rest → tree.depth ≤ depth → Scans depth text tree.value rest
  | .scalar _ read, _ => scans_atom depth read
  | .string read, _ => scans_string depth (scanString_of_codeUnits read)
  | .emptyArray closed, room => by
      obtain ⟨left, rfl, _⟩ := exists_eq_succ_of_lt room
      exact scans_emptyArray left closed
  | .array filled, room => by
      obtain ⟨left, rfl, inside⟩ := exists_eq_succ_of_lt room
      exact (filled.scans inside).array filled.ne_bracket
  | .emptyObject closed, room => by
      obtain ⟨left, rfl, _⟩ := exists_eq_succ_of_lt room
      exact scans_emptyObject left closed
  | .object filled, room => by
      obtain ⟨left, rfl, inside⟩ := exists_eq_succ_of_lt room
      exact (filled.scans inside).object filled.ne_brace

theorem SpellsItems.scans {text rest : List Char} {items : List Tree} {depth : Nat} :
    SpellsItems text items rest → Tree.itemsDepth items ≤ depth →
      ScansItems depth text (Tree.itemValues items) rest
  | .last first closed, room => (first.scans (Nat.max_le.mp room).1).lastItem closed
  | .more first comma others, room =>
      (first.scans (Nat.max_le.mp room).1).moreItems comma (others.scans (Nat.max_le.mp room).2)

theorem SpellsMembers.scans {text rest : List Char} {members : List (List Nat × Tree)}
    {depth : Nat} : SpellsMembers text members rest → Tree.membersDepth members ≤ depth →
      ScansMembers depth text (Tree.memberValues members) rest
  | .last named colon first closed, room =>
      (first.scans (Nat.max_le.mp room).1).lastMember (scanString_of_codeUnits named) colon closed
  | .more named colon first comma others, room =>
      (first.scans (Nat.max_le.mp room).1).moreMembers (scanString_of_codeUnits named) colon comma
        (others.scans (Nat.max_le.mp room).2)

end

/-- Whether reading ends where there is no room for one array or object more. -/
def TooDeep {α : Type} (read : Except Fault α) : Prop :=
  ∃ opened, read = .error (.exceeded (.depth opened))

theorem TooDeep.bind {α β : Type} {read : Except Fault α} (deep : TooDeep read)
    (next : α → Except Fault β) : TooDeep (read >>= next) := by
  obtain ⟨opened, rfl⟩ := deep
  exact ⟨opened, rfl⟩

theorem TooDeep.map {α β : Type} {read : Except Fault α} (deep : TooDeep read) (f : α → β) :
    TooDeep (read.map f) := by
  obtain ⟨opened, rfl⟩ := deep
  exact ⟨opened, rfl⟩

theorem TooDeep.array {depth : Nat} {after : List Char}
    (deep : TooDeep (readItems depth (skipSpace after)))
    (filled : ∀ tail, skipSpace after ≠ ']' :: tail) :
    TooDeep (readValue (depth + 1) ('[' :: after)) := by
  rw [readValue_bracket_succ, readArray.eq_2 _ _ filled]
  exact deep.map _

theorem TooDeep.object {depth : Nat} {after : List Char}
    (deep : TooDeep (readMembers depth (skipSpace after)))
    (filled : ∀ tail, skipSpace after ≠ '}' :: tail) :
    TooDeep (readValue (depth + 1) ('{' :: after)) := by
  rw [readValue_brace_succ, readObject.eq_2 _ _ filled]
  exact deep.map _

theorem TooDeep.item {depth : Nat} {text : List Char} (deep : TooDeep (readValue depth text)) :
    TooDeep (readItems depth text) := by
  rw [readItems_eq]
  exact deep.bind _

theorem Scans.tooDeep_items {depth : Nat} {text after next : List Char} {item : Value}
    (read : Scans depth text item after) (comma : skipSpace after = ',' :: next)
    (deep : TooDeep (readItems depth (skipSpace next))) : TooDeep (readItems depth text) := by
  rw [Scans] at read
  rw [readItems_eq, read, ok_bind, comma, itemsAfter]
  exact deep.map _

theorem TooDeep.member {depth : Nat} {quoted afterName afterColon : List Char} {name : String}
    (deep : TooDeep (readValue depth (skipSpace afterColon)))
    (named : scanString quoted = .ok (name, afterName))
    (colon : skipSpace afterName = ':' :: afterColon) :
    TooDeep (readMembers depth ('"' :: quoted)) := by
  rw [readMembers_of_colon named colon]
  exact deep.bind _

theorem Scans.tooDeep_members {depth : Nat}
    {quoted afterName afterColon afterValue next : List Char} {name : String} {value : Value}
    (read : Scans depth (skipSpace afterColon) value afterValue)
    (named : scanString quoted = .ok (name, afterName))
    (colon : skipSpace afterName = ':' :: afterColon)
    (comma : skipSpace afterValue = ',' :: next)
    (deep : TooDeep (readMembers depth (skipSpace next))) :
    TooDeep (readMembers depth ('"' :: quoted)) := by
  rw [Scans] at read
  rw [readMembers_of_colon named colon, read, ok_bind, comma, membersAfter]
  exact deep.map _

mutual

theorem Spells.tooDeep {text rest : List Char} {tree : Tree} {depth : Nat} :
    Spells text tree rest → depth < tree.depth → TooDeep (readValue depth text)
  | .scalar _ _, short => absurd short (Nat.not_lt_zero depth)
  | .string _, short => absurd short (Nat.not_lt_zero depth)
  | .emptyArray _, short => by
      cases Nat.lt_one_iff.mp short
      exact ⟨.array, readValue_bracket_zero _⟩
  | .array filled, short => by
      cases depth with
      | zero => exact ⟨.array, readValue_bracket_zero _⟩
      | succ left => exact (filled.tooDeep (Nat.lt_of_succ_lt_succ short)).array filled.ne_bracket
  | .emptyObject _, short => by
      cases Nat.lt_one_iff.mp short
      exact ⟨.object, readValue_brace_zero _⟩
  | .object filled, short => by
      cases depth with
      | zero => exact ⟨.object, readValue_brace_zero _⟩
      | succ left => exact (filled.tooDeep (Nat.lt_of_succ_lt_succ short)).object filled.ne_brace

theorem SpellsItems.tooDeep {text rest : List Char} {items : List Tree} {depth : Nat} :
    SpellsItems text items rest → depth < Tree.itemsDepth items → TooDeep (readItems depth text)
  | .last first _, short => (first.tooDeep (by simpa [Tree.itemsDepth] using short)).item
  | @SpellsItems.more _ _ _ _ item items first comma others, short => by
      -- The first item that there is no room for ends it; those before are read.
      rcases Nat.lt_or_ge depth item.depth with here | room
      · exact (first.tooDeep here).item
      · have later : depth < Tree.itemsDepth items := by
          rw [Tree.itemsDepth] at short
          omega
        exact (first.scans room).tooDeep_items comma (others.tooDeep later)

theorem SpellsMembers.tooDeep {text rest : List Char} {members : List (List Nat × Tree)}
    {depth : Nat} : SpellsMembers text members rest → depth < Tree.membersDepth members →
      TooDeep (readMembers depth text)
  | .last named colon first _, short =>
      (first.tooDeep (by simpa [Tree.membersDepth] using short)).member
        (scanString_of_codeUnits named) colon
  | @SpellsMembers.more _ _ _ _ _ _ _ tree members named colon first comma others, short => by
      have name := scanString_of_codeUnits named
      rcases Nat.lt_or_ge depth tree.depth with here | room
      · exact (first.tooDeep here).member name colon
      · have later : depth < Tree.membersDepth members := by
          rw [Tree.membersDepth] at short
          omega
        exact (first.scans room).tooDeep_members name colon comma (others.tooDeep later)

end

/-! What is read is spelled. -/

/-- Whether any value that is read from the front of a text is that of a tree spelled there, for the
depth of which there was room. -/
def HasTree (text : List Char) : Prop :=
  ∀ depth value rest, Scans depth text value rest →
    ∃ tree, Spells text tree rest ∧ tree.depth ≤ depth ∧ tree.value = value

def HasItemTrees (text : List Char) : Prop :=
  ∀ depth values rest, ScansItems depth text values rest →
    ∃ items, SpellsItems text items rest ∧ Tree.itemsDepth items ≤ depth ∧
      Tree.itemValues items = values

def HasMemberTrees (text : List Char) : Prop :=
  ∀ depth values rest, ScansMembers depth text values rest →
    ∃ members, SpellsMembers text members rest ∧ Tree.membersDepth members ≤ depth ∧
      Tree.memberValues members = values

theorem hasTree_of_shorter {text : List Char}
    (items : ∀ later : List Char, later.length < text.length → HasItemTrees later)
    (members : ∀ later : List Char, later.length < text.length → HasMemberTrees later) :
    HasTree text := by
  intro depth value rest read
  rcases read.cases with atom | ⟨quoted, units, rfl, found, rfl⟩ |
    ⟨room, after, rfl, rfl, ⟨closed, rfl⟩ | ⟨values, filled, rfl⟩⟩ |
    ⟨room, after, rfl, rfl, ⟨closed, rfl⟩ | ⟨values, filled, rfl⟩⟩
  · obtain ⟨leaf, rfl⟩ := exists_scalar_of_readAtom atom
    exact ⟨_, .scalar leaf atom, Nat.zero_le _, rfl⟩
  · exact ⟨_, .string found, Nat.zero_le _, rfl⟩
  · exact ⟨_, .emptyArray closed, Nat.le_add_left 1 room, rfl⟩
  · have shorter := Nat.lt_succ_of_le (skipSpace_length_le after)
    obtain ⟨trees, spelled, inside, rfl⟩ := items _ shorter room values rest filled
    exact ⟨_, .array spelled, Nat.succ_le_succ inside, rfl⟩
  · exact ⟨_, .emptyObject closed, Nat.le_add_left 1 room, rfl⟩
  · have shorter := Nat.lt_succ_of_le (skipSpace_length_le after)
    obtain ⟨trees, spelled, inside, rfl⟩ := members _ shorter room values rest filled
    exact ⟨_, .object spelled, Nat.succ_le_succ inside, rfl⟩

theorem hasItemTrees_of_shorter {text : List Char} (first : HasTree text)
    (others : ∀ later : List Char, later.length < text.length → HasItemTrees later) :
    HasItemTrees text := by
  intro depth values rest read
  obtain ⟨item, after, here, goesOn⟩ := read.cases
  obtain ⟨tree, spelled, room, rfl⟩ := first depth item after here
  rcases goesOn with ⟨closed, rfl⟩ | ⟨next, items, comma, later, rfl⟩
  · exact ⟨_, .last spelled closed, Nat.max_le.mpr ⟨room, Nat.zero_le _⟩, rfl⟩
  · have shorter : (skipSpace next).length < text.length := calc
      (skipSpace next).length < after.length := length_skipSpace_lt comma
      _ < text.length := here.length_lt
    obtain ⟨trees, more, inside, rfl⟩ := others _ shorter depth items rest later
    exact ⟨_, .more spelled comma more, Nat.max_le.mpr ⟨room, inside⟩, rfl⟩

theorem hasMemberTrees_of_shorter {text : List Char}
    (values : ∀ later : List Char, later.length < text.length → HasTree later)
    (others : ∀ later : List Char, later.length < text.length → HasMemberTrees later) :
    HasMemberTrees text := by
  intro depth members rest read
  obtain ⟨quoted, units, afterName, afterColon, value, afterValue, rfl, named, colon, here, goesOn⟩ :=
    read.cases
  have inside : (skipSpace afterColon).length < ('"' :: quoted).length := calc
    (skipSpace afterColon).length < afterName.length := length_skipSpace_lt colon
    _ < quoted.length := codeUnits_length_lt _ _ _ units named
    _ < ('"' :: quoted).length := Nat.lt_succ_self _
  obtain ⟨tree, spelled, room, rfl⟩ := values _ inside depth value afterValue here
  rcases goesOn with ⟨closed, rfl⟩ | ⟨next, members, comma, later, rfl⟩
  · exact ⟨_, .last named colon spelled closed, Nat.max_le.mpr ⟨room, Nat.zero_le _⟩, rfl⟩
  · have shorter : (skipSpace next).length < ('"' :: quoted).length := calc
      (skipSpace next).length < afterValue.length := length_skipSpace_lt comma
      _ < (skipSpace afterColon).length := here.length_lt
      _ < ('"' :: quoted).length := inside
    obtain ⟨trees, more, inner, rfl⟩ := others _ shorter depth members rest later
    exact ⟨_, .more named colon spelled comma more, Nat.max_le.mpr ⟨room, inner⟩, rfl⟩

theorem hasTree (text : List Char) : HasTree text :=
  (scanning_induction (fun _ => hasTree_of_shorter) (fun _ => hasItemTrees_of_shorter)
    (fun _ => hasMemberTrees_of_shorter) text).1

/-! Whole texts. -/

/-- Whether a whole text spells a tree: with blanks around it, and with no mark of the byte order. -/
structure IsDocument (text : List Char) (tree : Tree) : Prop where
  unmarked : ∀ tail, text ≠ '\uFEFF' :: tail
  spelled : ∃ rest, Spells (skipSpace text) tree rest ∧ skipSpace rest = []

theorem decode_eq_ok {headroom : Headroom} {text : List Char} {value : Value}
    (read : decode headroom text = .ok value) :
    scanDocument headroom.levels text = .ok value := by
  unfold decode at read
  split at read
  · contradiction
  · next document =>
    cases read
    exact document

theorem exists_scans_of_decode {headroom : Headroom} {text : List Char} {value : Value}
    (read : decode headroom text = .ok value) :
    (∀ tail, text ≠ '\uFEFF' :: tail) ∧
      ∃ rest, Scans headroom.levels (skipSpace text) value rest ∧ skipSpace rest = [] := by
  have document := decode_eq_ok read
  have unmarked : ∀ tail, text ≠ '\uFEFF' :: tail := by
    rintro tail rfl
    cases document
  rw [scanDocument_eq unmarked] at document
  obtain ⟨⟨found, rest⟩, first, ended⟩ := bind_eq_ok_iff.mp document
  split at ended
  · next empty =>
    cases ended
    exact ⟨unmarked, rest, first, List.isEmpty_iff.mp empty⟩
  · contradiction

/-- The decoder finds the value of what a text spells, as far as there is room for it, and nothing
where the text spells nothing. -/
theorem decode_eq_ok_iff (headroom : Headroom) (text : List Char) (value : Value) :
    decode headroom text = .ok value ↔
      ∃ tree, IsDocument text tree ∧ tree.depth ≤ headroom.levels ∧ tree.value = value := by
  constructor
  · intro read
    obtain ⟨unmarked, rest, found, ended⟩ := exists_scans_of_decode read
    obtain ⟨tree, spelled, room, rfl⟩ := hasTree _ _ value rest found
    exact ⟨tree, ⟨unmarked, rest, spelled, ended⟩, room, rfl⟩
  · rintro ⟨tree, ⟨unmarked, rest, spelled, ended⟩, room, rfl⟩
    exact (spelled.scans room).decode ended unmarked

/-- A fault of its value is that of the text. -/
theorem decode_of_readValue {headroom : Headroom} {text : List Char} {excess : Excess}
    (unmarked : ∀ tail, text ≠ '\uFEFF' :: tail)
    (failed : readValue headroom.levels (skipSpace text) = .error (.exceeded excess)) :
    decode headroom text = .error (.exceeded excess) := by
  have document : scanDocument headroom.levels text = .error (.exceeded excess) := by
    rw [scanDocument_eq unmarked, failed]
    rfl
  rw [decode, document]
  rfl

/-- What a text spells without room for it is found too deep. -/
theorem IsDocument.decode_of_lt {headroom : Headroom} {text : List Char} {tree : Tree}
    (document : IsDocument text tree) (short : headroom.levels < tree.depth) :
    ∃ opened, decode headroom text = .error (.exceeded (.depth opened)) := by
  obtain ⟨unmarked, rest, spelled, _⟩ := document
  obtain ⟨opened, deep⟩ := spelled.tooDeep short
  exact ⟨opened, decode_of_readValue unmarked deep⟩

end CompileCommands.Json
