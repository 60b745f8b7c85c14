import CompileCommands.Proofs.Ensures
import CompileCommands.Proofs.Json.Tree
import Mathlib.Data.List.TakeWhile

set_option autoImplicit false

/- Where an excess comes from: a whole number with too many digits, or too many arrays and objects
within each other. Each scanner leaves a suffix of what it was given. Only a number scanned at its front
has too many digits, so they stand in the text, one after the other; and each array or object that is
open was opened by a character of its own. -/
namespace CompileCommands.Json

/-- A run of digits within a text that is longer than a whole number may be. -/
structure LongRun (text digits : List Char) : Prop where
  within : digits <:+: text
  digit : ∀ c ∈ digits, c.isDigit = true
  long : digitLimit < digits.length

def isOpening (c : Char) : Bool := c == '[' || c == '{'

/-- The number of characters in a text that may open an array or an object. -/
def openings (text : List Char) : Nat := text.countP isOpening

theorem openings_cons_pos {c : Char} (opening : isOpening c = true) (text : List Char) :
    0 < openings (c :: text) := by
  rw [openings, List.countP_cons_of_pos opening]
  exact Nat.zero_lt_succ _

/-- What a text holds for an excess: of a number too long, its digits; for arrays and objects without
room, more characters that open some than there is room for. -/
inductive Excess.ArisesIn (depth : Nat) (text : List Char) : Excess → Prop
  | digits {digits : List Char} (run : LongRun text digits) : ArisesIn depth text (.digits digits.length)
  | depth (opened : Enclosure) (crowded : depth < openings text) : ArisesIn depth text (.depth opened)

inductive Fault.ArisesIn (depth : Nat) (text : List Char) : Fault → Prop
  | malformed (complaint : Complaint) (left : Nat) : ArisesIn depth text (.malformed complaint left)
  | exceeded {excess : Excess} (arises : excess.ArisesIn depth text) :
      ArisesIn depth text (.exceeded excess)

/-- What arises in the rest of a text arises in the text, as far as it is crowded as well. -/
theorem Fault.ArisesIn.mono {inside depth : Nat} {text later : List Char} {fault : Fault}
    (arises : ArisesIn inside later fault) (suffix : later <:+ text)
    (crowded : inside < openings later → depth < openings text) : ArisesIn depth text fault := by
  obtain _ | ⟨run | ⟨opened, more⟩⟩ := arises
  · exact .malformed _ _
  · exact .exceeded (.digits ⟨run.within.trans suffix.isInfix, run.digit, run.long⟩)
  · exact .exceeded (.depth opened (crowded more))

/-- Whether reading from the front of a text leaves a suffix of it, or ends with a fault that arises
in it when there is room for `depth` arrays and objects. -/
def ReadsFrom {α : Type} (depth : Nat) (text : List Char) : Except Fault (α × List Char) → Prop :=
  Ensures (Fault.ArisesIn depth text) fun read => read.2 <:+ text

section

variable {α : Type} {depth : Nat} {text later : List Char} {read : Except Fault (α × List Char)}

theorem ReadsFrom.of_suffix (reads : ReadsFrom depth later read) (suffix : later <:+ text) :
    ReadsFrom depth text read := by
  have crowded : openings later ≤ openings text := suffix.sublist.countP_le
  refine reads.mono (fun _ arises => ?_) fun _ rest => rest.trans suffix
  exact arises.mono suffix fun more => Nat.lt_of_lt_of_le more crowded

/-- Behind a character that opens an array or an object there is room for one less. -/
theorem ReadsFrom.enclosed {c : Char} (reads : ReadsFrom depth later read) (suffix : later <:+ text)
    (opening : isOpening c = true) : ReadsFrom (depth + 1) (c :: text) read := by
  have crowded : openings later ≤ openings text := suffix.sublist.countP_le
  have whole := suffix.trans (List.suffix_cons c text)
  refine reads.mono (fun _ arises => arises.mono whole fun more => ?_) fun _ rest => rest.trans whole
  rw [openings, List.countP_cons_of_pos opening]
  exact Nat.succ_lt_succ (Nat.lt_of_lt_of_le more crowded)

theorem ReadsFrom.map {β : Type} (reads : ReadsFrom depth text read) (f : α → β) :
    ReadsFrom depth text (read.map fun found => (f found.1, found.2)) :=
  Ensures.map reads

end

/-! Strings and names. -/

theorem skipSpace_suffix (text : List Char) : skipSpace text <:+ text :=
  List.dropWhile_suffix isSpace

theorem suffix_of_skipSpace {text rest : List Char} {c : Char}
    (found : skipSpace text = c :: rest) : rest <:+ text :=
  (List.suffix_cons c rest).trans (found ▸ skipSpace_suffix text)

/-- What comes behind a character, blanks left out. -/
theorem suffix_behind {text after rest : List Char} {c : Char} (left : after <:+ text)
    (found : skipSpace after = c :: rest) : skipSpace rest <:+ text :=
  ((skipSpace_suffix rest).trans (suffix_of_skipSpace found)).trans left

theorem readsFrom_pushUnit {depth : Nat} {text later : List Char}
    {read : Except Fault (List Nat × List Char)} (unit : Nat) (reads : ReadsFrom depth later read)
    (suffix : later <:+ text) : ReadsFrom depth text (pushUnit unit read) := by
  have later := reads.of_suffix suffix
  match read with
  | .error fault => exact later
  | .ok (units, rest) => exact later

theorem readsFrom_codeUnits (depth : Nat) (opened text : List Char) :
    ReadsFrom depth text (codeUnits opened text) := by
  fun_induction codeUnits opened text with
  | case2 rest => exact List.suffix_cons _ rest
  | case4 _ _ _ _ _ _ _ _ _ ih =>
      exact readsFrom_pushUnit _ ih (List.suffix_append [_, _, _, _, _, _] _)
  | case7 _ _ _ _ _ _ ih => exact readsFrom_pushUnit _ ih (List.suffix_append [_, _] _)
  | case10 _ _ _ _ _ ih => exact readsFrom_pushUnit _ ih (List.suffix_cons _ _)
  | _ => exact .malformed _ _

theorem readsFrom_scanString (depth : Nat) (text : List Char) :
    ReadsFrom depth text (scanString text) := by
  have reads := readsFrom_codeUnits depth text text
  unfold scanString
  split
  · next fault failed =>
      rw [failed] at reads
      exact reads
  · next units rest read =>
      rw [read] at reads
      exact reads

theorem suffix_of_scanNamed? {text rest : List Char} {value : Value}
    (read : scanNamed? text = some (value, rest)) : rest <:+ text := by
  unfold scanNamed? at read
  split at read
  · contradiction
  · cases read
    exact List.drop_suffix _ text

/-! Numbers. -/

theorem scanMinus_suffix (text : List Char) : (scanMinus text).2 <:+ text := by
  unfold scanMinus
  split
  · exact List.suffix_cons _ _
  · exact List.suffix_rfl

theorem scanSign_suffix (text : List Char) : (scanSign text).2 <:+ text := by
  unfold scanSign
  split
  · exact List.suffix_cons _ _
  · exact List.suffix_cons _ _
  · exact List.suffix_rfl

theorem takeDigits_suffix (text : List Char) : (takeDigits text).2 <:+ text :=
  List.dropWhile_suffix Char.isDigit

theorem scanFraction_suffix (text : List Char) : (scanFraction text).2 <:+ text := by
  unfold scanFraction
  split
  · next rest =>
      split
      · exact List.suffix_rfl
      · exact (takeDigits_suffix rest).trans (List.suffix_cons _ rest)
  · exact List.suffix_rfl

theorem scanExponent_suffix (text : List Char) : (scanExponent text).2 <:+ text := by
  unfold scanExponent
  split
  · exact List.suffix_rfl
  · next c rest =>
      split
      · dsimp only
        split
        · exact List.suffix_rfl
        · exact ((takeDigits_suffix _).trans (scanSign_suffix rest)).trans
            (List.suffix_cons c rest)
      · exact List.suffix_rfl

/-- What is scanned are the digits in front of the rest. -/
theorem eq_append_of_scanWhole? {text whole rest : List Char}
    (read : scanWhole? text = some (whole, rest)) :
    text = whole ++ rest ∧ ∀ c ∈ whole, c.isDigit = true := by
  unfold scanWhole? at read
  split at read
  · contradiction
  · next c after =>
      split at read
      · next zero =>
          cases read
          exact ⟨congrArg (· :: rest) zero, List.forall_mem_singleton.mpr rfl⟩
      · split at read
        · next first =>
            cases read
            refine ⟨congrArg (c :: ·) List.takeWhile_append_dropWhile.symm, ?_⟩
            exact List.forall_mem_cons.mpr ⟨first, fun _ => List.mem_takeWhile_imp⟩
        · contradiction

/-- A number leaves a suffix, and its digits stand in the text. -/
theorem scanNumber?_parts {text rest : List Char} {number : NumberText}
    (read : scanNumber? text = some (number, rest)) :
    rest <:+ text ∧ number.whole <:+: text ∧ ∀ c ∈ number.whole, c.isDigit = true := by
  unfold scanNumber? at read
  split at read
  · contradiction
  · next whole after found =>
      cases read
      obtain ⟨split, digit⟩ := eq_append_of_scanWhole? found
      have unsigned := scanMinus_suffix text
      rw [split] at unsigned
      have left := (List.suffix_append whole after).trans unsigned
      refine ⟨?_, ?_, digit⟩
      · exact ((scanExponent_suffix _).trans (scanFraction_suffix after)).trans left
      · exact (List.prefix_append whole after).isInfix.trans unsigned.isInfix

theorem NumberText.ensures_value {text : List Char} (depth : Nat) (number : NumberText)
    (within : number.whole <:+: text) (digit : ∀ c ∈ number.whole, c.isDigit = true) :
    Ensures (Fault.ArisesIn depth text) (fun _ => True) number.value := by
  unfold value
  split
  · split
    · next long => exact .exceeded (.digits ⟨within, digit, long⟩)
    · trivial
  · trivial

theorem readsFrom_readAtom (depth : Nat) (text : List Char) :
    ReadsFrom depth text (readAtom text) := by
  unfold readAtom scanAtom
  split
  · next named => exact suffix_of_scanNamed? named
  · split
    · exact .malformed _ _
    · next number rest numbered =>
      obtain ⟨suffix, within, digit⟩ := scanNumber?_parts numbered
      have sure := number.ensures_value depth within digit
      split
      · next failed =>
        rw [failed] at sure
        exact sure
      · exact suffix

/-! Values, items and members. -/

def ReadsValue (text : List Char) : Prop := ∀ depth, ReadsFrom depth text (readValue depth text)

def ReadsItems (text : List Char) : Prop := ∀ depth, ReadsFrom depth text (readItems depth text)

def ReadsMembers (text : List Char) : Prop := ∀ depth, ReadsFrom depth text (readMembers depth text)

theorem readsValue_of_shorter {text : List Char}
    (items : ∀ later : List Char, later.length < text.length → ReadsItems later)
    (members : ∀ later : List Char, later.length < text.length → ReadsMembers later) :
    ReadsValue text := by
  intro depth
  cases text with
  | nil =>
      rw [readValue_nil]
      exact .malformed _ _
  | cons c after =>
      have shorter : (skipSpace after).length < (c :: after).length :=
        Nat.lt_succ_of_le (skipSpace_length_le after)
      by_cases quote : c = '"'
      · subst quote
        rw [readValue_quote]
        exact ((readsFrom_scanString depth after).of_suffix (List.suffix_cons _ after)).map _
      by_cases brace : c = '{'
      · subst brace
        cases depth with
        | zero =>
            rw [readValue_brace_zero]
            exact .exceeded (.depth .object (openings_cons_pos rfl after))
        | succ room =>
            have reads : ReadsFrom (room + 1) ('{' :: after) _ :=
              (members _ shorter room).enclosed (skipSpace_suffix after) rfl
            rw [readValue_brace_succ, readObject.eq_def]
            split
            · next closed => exact (suffix_of_skipSpace closed).trans (List.suffix_cons _ after)
            · exact reads.map fun members => Value.object (Table.ofPairs members)
      by_cases bracket : c = '['
      · subst bracket
        cases depth with
        | zero =>
            rw [readValue_bracket_zero]
            exact .exceeded (.depth .array (openings_cons_pos rfl after))
        | succ room =>
            have reads : ReadsFrom (room + 1) ('[' :: after) _ :=
              (items _ shorter room).enclosed (skipSpace_suffix after) rfl
            rw [readValue_bracket_succ, readArray.eq_def]
            split
            · next closed => exact (suffix_of_skipSpace closed).trans (List.suffix_cons _ after)
            · exact reads.map _
      rw [readValue_atom depth after quote brace bracket]
      exact readsFrom_readAtom depth (c :: after)

theorem readsItems_of_shorter {text : List Char} (first : ReadsValue text)
    (others : ∀ later : List Char, later.length < text.length → ReadsItems later) :
    ReadsItems text := by
  intro depth
  rw [readItems_eq]
  apply Ensures.bind (first depth)
  rintro ⟨item, after⟩ left
  dsimp only at left ⊢
  unfold itemsAfter
  split
  · next closed => exact (suffix_of_skipSpace closed).trans left
  · next rest comma =>
    have shorter := Nat.lt_of_lt_of_le (length_skipSpace_lt comma) left.length_le
    exact ((others _ shorter depth).of_suffix (suffix_behind left comma)).map _
  · exact .malformed _ _

theorem readsMembers_of_shorter {text : List Char}
    (values : ∀ later : List Char, later.length < text.length → ReadsValue later)
    (others : ∀ later : List Char, later.length < text.length → ReadsMembers later) :
    ReadsMembers text := by
  intro depth
  by_cases started : ∃ quoted, text = '"' :: quoted
  · obtain ⟨quoted, rfl⟩ := started
    rw [readMembers_quote]
    apply Ensures.bind ((readsFrom_scanString depth quoted).of_suffix (List.suffix_cons _ quoted))
    rintro ⟨name, afterName⟩ left
    dsimp only at left ⊢
    unfold memberNamed
    split
    · next afterColon colon =>
      have shorter := Nat.lt_of_lt_of_le (length_skipSpace_lt colon) left.length_le
      apply Ensures.bind ((values _ shorter depth).of_suffix (suffix_behind left colon))
      rintro ⟨value, afterValue⟩ left
      dsimp only at left ⊢
      unfold membersAfter
      split
      · next closed => exact (suffix_of_skipSpace closed).trans left
      · next rest comma =>
        have shorter := Nat.lt_of_lt_of_le (length_skipSpace_lt comma) left.length_le
        exact ((others _ shorter depth).of_suffix (suffix_behind left comma)).map _
      · exact .malformed _ _
    · exact .malformed _ _
  · rw [readMembers_eq_error fun quoted same => started ⟨quoted, same⟩]
    exact .malformed _ _

theorem readsValue (text : List Char) : ReadsValue text :=
  (scanning_induction (fun _ => readsValue_of_shorter) (fun _ => readsItems_of_shorter)
    (fun _ => readsMembers_of_shorter) text).1

/-! Whole texts. -/

theorem arisesIn_of_scanDocument {depth : Nat} {text : List Char} {fault : Fault}
    (failed : scanDocument depth text = .error fault) : fault.ArisesIn depth text := by
  by_cases marked : ∃ tail, text = '\uFEFF' :: tail
  · obtain ⟨tail, rfl⟩ := marked
    cases failed
    exact .malformed _ _
  · have sure : Ensures (Fault.ArisesIn depth text) (fun _ => True) (scanDocument depth text) := by
      rw [scanDocument_eq fun tail same => marked ⟨tail, same⟩]
      apply Ensures.bind ((readsValue (skipSpace text) depth).of_suffix (skipSpace_suffix text))
      intro read _
      split
      · trivial
      · exact .malformed _ _
    rw [failed] at sure
    exact sure

/-- A text that is found too much of the machine holds what there is too much of. -/
theorem arisesIn_of_decode {headroom : Headroom} {text : List Char} {excess : Excess}
    (failed : decode headroom text = .error (.exceeded excess)) :
    excess.ArisesIn headroom.levels text := by
  unfold decode at failed
  split at failed
  · next fault found =>
    obtain _ | arises := arisesIn_of_scanDocument found
    · cases failed
    · cases failed
      exact arises
  · contradiction

/-! A whole number and nothing else. -/

/-- Whether a text is that of a whole number above zero. -/
def IsPositiveNumeral : List Char → Prop
  | [] => False
  | c :: rest => c ≠ '0' ∧ ∀ d ∈ c :: rest, d.isDigit = true

theorem IsPositiveNumeral.digit {text : List Char} (numeral : IsPositiveNumeral text) :
    ∀ c ∈ text, c.isDigit = true := by
  match text, numeral with
  | _ :: _, ⟨_, digit⟩ => exact digit

theorem ne_of_isDigit {c other : Char} (digit : c.isDigit = true) (plain : other.isDigit = false) :
    c ≠ other := by
  rintro rfl
  exact Bool.false_ne_true (plain.symm.trans digit)

theorem scanNamed?_of_digit {c : Char} (digit : c.isDigit = true) (rest : List Char) :
    scanNamed? (c :: rest) = none := by
  have letters : ∀ named ∈ namedValues, ∃ d more, named.1 = d :: more ∧ d.isDigit = false := by
    simp [namedValues]
  have absent : namedValues.find? (fun named => named.1.isPrefixOf (c :: rest)) = none := by
    rw [List.find?_eq_none]
    intro named listed start
    obtain ⟨d, more, spelled, letter⟩ := letters named listed
    rw [spelled, List.isPrefixOf_cons_cons, Bool.and_eq_true, beq_iff_eq] at start
    exact ne_of_isDigit digit letter start.1.symm
  rw [scanNamed?, absent]

theorem takeDigits_of_digits {text : List Char} (digit : ∀ d ∈ text, d.isDigit = true) :
    takeDigits text = (text, []) := by
  rw [takeDigits, List.takeWhile_eq_self_iff.mpr digit, List.dropWhile_eq_nil_iff.mpr digit]

theorem scanNumber?_of_digits {c : Char} {rest : List Char} (first : c ≠ '0')
    (digit : ∀ d ∈ c :: rest, d.isDigit = true) :
    scanNumber? (c :: rest) = some (⟨false, c :: rest, [], none⟩, []) := by
  obtain ⟨here, later⟩ := List.forall_mem_cons.mp digit
  have unsigned : scanMinus (c :: rest) = (false, c :: rest) := by
    apply scanMinus.eq_2
    intro after sign
    exact ne_of_isDigit here rfl (List.cons.inj sign).1
  have whole : scanWhole? (c :: rest) = some (c :: rest, []) := by
    rw [scanWhole?, if_neg first, if_pos here, takeDigits_of_digits later]
  rw [scanNumber?, unsigned]
  simp only [whole]
  rfl

theorem NumberText.value_of_long {number : NumberText} (plain : number.fraction = [])
    (bare : number.exponent = none) (long : digitLimit < number.whole.length) :
    number.value = .error (.exceeded (.digits number.whole.length)) := by
  rw [value, plain, bare]
  exact (if_pos rfl).trans (if_pos long)

theorem readValue_of_digits (depth : Nat) {c : Char} {rest : List Char} (first : c ≠ '0')
    (digit : ∀ d ∈ c :: rest, d.isDigit = true) (long : digitLimit < (c :: rest).length) :
    readValue depth (c :: rest) = .error (.exceeded (.digits (c :: rest).length)) := by
  have here := (List.forall_mem_cons.mp digit).1
  have number := scanNumber?_of_digits first digit
  rw [readValue_atom depth rest (ne_of_isDigit here rfl) (ne_of_isDigit here rfl)
    (ne_of_isDigit here rfl), readAtom, scanAtom]
  split
  · next read =>
    rw [scanNamed?_of_digit here] at read
    contradiction
  · split
    · next read =>
      rw [number] at read
      contradiction
    · next read =>
      rw [number] at read
      cases read
      rw [NumberText.value_of_long rfl rfl long]
      rfl

theorem skipSpace_of_digit {c : Char} (digit : c.isDigit = true) (rest : List Char) :
    skipSpace (c :: rest) = c :: rest := by
  rw [skipSpace, List.dropWhile_cons_of_neg]
  simp only [isSpace, Bool.or_eq_true, beq_iff_eq, not_or]
  exact ⟨⟨⟨ne_of_isDigit digit rfl, ne_of_isDigit digit rfl⟩, ne_of_isDigit digit rfl⟩,
    ne_of_isDigit digit rfl⟩

theorem decode_of_isPositiveNumeral (headroom : Headroom) {text : List Char}
    (numeral : IsPositiveNumeral text) (long : digitLimit < text.length) :
    decode headroom text = .error (.exceeded (.digits text.length)) := by
  match text, numeral with
  | c :: rest, ⟨first, digit⟩ =>
      have here := (List.forall_mem_cons.mp digit).1
      apply decode_of_readValue
      · intro tail mark
        exact ne_of_isDigit here rfl (List.cons.inj mark).1
      · rw [skipSpace_of_digit here]
        exact readValue_of_digits _ first digit long

/-- The number is found too long before the bracket is found not to be closed. -/
theorem decode_of_unclosed (headroom : Headroom) {text : List Char}
    (numeral : IsPositiveNumeral text) (long : digitLimit < text.length) :
    decode headroom ('[' :: text) = .error (.exceeded (.digits text.length)) := by
  obtain ⟨left, levels, _⟩ := exists_eq_succ_of_lt headroom.two_le
  match text, numeral with
  | c :: rest, ⟨first, digit⟩ =>
      have here := (List.forall_mem_cons.mp digit).1
      have filled : ∀ tail, c :: rest ≠ ']' :: tail := by
        intro tail closed
        exact ne_of_isDigit here rfl (List.cons.inj closed).1
      have spaceless : skipSpace ('[' :: c :: rest) = '[' :: c :: rest := rfl
      apply decode_of_readValue (by simp)
      rw [spaceless, levels, readValue_bracket_succ, skipSpace_of_digit here,
        readArray.eq_2 _ _ filled, readItems_eq, readValue_of_digits left first digit long]
      rfl

/-! More opening brackets than there is room for. -/

theorem tooDeep_brackets {depth count : Nat} (short : depth < count) (tail : List Char) :
    TooDeep (readValue depth (List.replicate count '[' ++ tail)) := by
  induction count generalizing depth with
  | zero => exact absurd short (Nat.not_lt_zero depth)
  | succ count ih =>
      rw [List.replicate_succ, List.cons_append]
      cases depth with
      | zero => exact ⟨.array, readValue_bracket_zero _⟩
      | succ left =>
          have inside := Nat.lt_of_succ_lt_succ short
          have deep := ih inside
          -- There is another bracket inside, so the array is neither spaced out nor empty.
          obtain ⟨more, rfl⟩ := Nat.exists_eq_succ_of_ne_zero (Nat.ne_of_gt (Nat.zero_lt_of_lt inside))
          exact deep.item.array nofun

theorem decode_brackets {headroom : Headroom} {count : Nat} (short : headroom.levels < count)
    (tail : List Char) :
    ∃ opened, decode headroom (List.replicate count '[' ++ tail) =
      .error (.exceeded (.depth opened)) := by
  obtain ⟨opened, deep⟩ := tooDeep_brackets short tail
  obtain ⟨more, rfl⟩ := Nat.exists_eq_succ_of_ne_zero (Nat.ne_of_gt (Nat.zero_lt_of_lt short))
  exact ⟨opened, decode_of_readValue nofun deep⟩

end CompileCommands.Json
