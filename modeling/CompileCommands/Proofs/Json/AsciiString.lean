import CompileCommands.Json.Ascii
import CompileCommands.Json.Scan
import Mathlib.Tactic.SplitIfs

set_option autoImplicit false

/- Strings in ASCII are read back as they were. Every character is written in one of four ways,
and the scanner reads each of them as the units of sixteen bits that make up the character; two
units are written and read where a character has a pair of surrogates. -/
namespace CompileCommands.Json

theorem toNat_lt_or_gt (c : Char) :
    c.toNat < 0xD800 ∨ 0xDFFF < c.toNat ∧ c.toNat < 0x110000 :=
  c.valid

/-- The high surrogate of a character beyond 65535. -/
def highUnit (c : Char) : Nat := 0xD800 + (c.toNat - 0x10000) / 0x400

def lowUnit (c : Char) : Nat := 0xDC00 + (c.toNat - 0x10000) % 0x400

theorem highUnit_lt (c : Char) (large : 0x10000 ≤ c.toNat) :
    0xD800 ≤ highUnit c ∧ highUnit c < 0xDC00 := by
  have bound := toNat_lt_or_gt c
  unfold highUnit
  omega

theorem lowUnit_lt (c : Char) : 0xDC00 ≤ lowUnit c ∧ lowUnit c < 0xE000 := by
  unfold lowUnit
  omega

/-- The units of a character: its number, or a pair of surrogates for a number beyond 65535. -/
def unitsOf (c : Char) : List Nat :=
  if c.toNat < 0x10000 then [c.toNat] else [highUnit c, lowUnit c]

/-- The four ways in which a character is written. -/
inductive Written (c : Char) : List Char → Prop where
  | letter (letter : Char) (named : unescape? letter = some c.toNat) (small : c.toNat < 0x10000) :
      Written c ['\\', letter]
  | plain (quote : c ≠ '"') (backslash : c ≠ '\\') (lower : 0x20 ≤ c.toNat)
      (upper : c.toNat ≤ 0x7E) : Written c [c]
  | unit (small : c.toNat < 0x10000) : Written c (unitEscape c.toNat)
  | pair (large : 0x10000 ≤ c.toNat) :
      Written c (unitEscape (highUnit c) ++ unitEscape (lowUnit c))

theorem written_asciiChar (c : Char) : Written c (asciiChar c) := by
  unfold asciiChar
  split_ifs with special newline return_ tab back feed printable small
  · rcases special with rfl | rfl
    · exact .letter '"' rfl (by decide)
    · exact .letter '\\' rfl (by decide)
  · subst newline; exact .letter 'n' rfl (by decide)
  · subst return_; exact .letter 'r' rfl (by decide)
  · subst tab; exact .letter 't' rfl (by decide)
  · subst back; exact .letter 'b' rfl (by decide)
  · subst feed; exact .letter 'f' rfl (by decide)
  · rw [not_or] at special
    exact .plain special.1 special.2 printable.1 printable.2
  · exact .unit small
  · exact .pair (Nat.le_of_not_lt small)

/-! Reading what was written for a character. -/

theorem hexQuad?_hex (n : Nat) (small : n < 0x10000) :
    ∃ a b c d, Text.hex 4 n = [a, b, c, d] ∧ Text.hexQuad? a b c d = some n := by
  refine ⟨Text.hexDigit (n / 16 / 16 / 16 % 16), Text.hexDigit (n / 16 / 16 % 16),
    Text.hexDigit (n / 16 % 16), Text.hexDigit (n % 16), by simp [Text.hex], ?_⟩
  simp only [Text.hexQuad?, Text.hexValue?_hexDigit _ (Nat.mod_lt _ (by decide : 16 > 0))]
  show some _ = some n
  congr 1
  omega

theorem codeUnits_unitEscape (opened tail : List Char) (unit : Nat) (small : unit < 0x10000)
    (more : tail ≠ []) :
    codeUnits opened (unitEscape unit ++ tail) = pushUnit unit (codeUnits opened tail) := by
  obtain ⟨a, b, c, d, written, read⟩ := hexQuad?_hex unit small
  have filled : tail.isEmpty = false := by simpa using more
  simp only [unitEscape, written, List.cons_append, List.nil_append]
  rw [codeUnits]
  simp [read, filled]

theorem codeUnits_letterEscape (opened tail : List Char) {letter : Char} {unit : Nat}
    (read : unescape? letter = some unit) :
    codeUnits opened ('\\' :: letter :: tail) = pushUnit unit (codeUnits opened tail) := by
  have other : letter ≠ 'u' := by
    rintro rfl
    contradiction
  rw [codeUnits.eq_def]
  simp [other, read]

theorem codeUnits_plain (opened tail : List Char) (c : Char) (quote : c ≠ '"')
    (backslash : c ≠ '\\') (printable : 0x20 ≤ c.toNat) :
    codeUnits opened (c :: tail) = pushUnit c.toNat (codeUnits opened tail) := by
  rw [codeUnits.eq_def]
  simp [quote, backslash, Nat.not_lt.mpr printable]

/-- Whichever way a character is written, its units are read. -/
theorem Written.codeUnits {c : Char} {written : List Char} (how : Written c written)
    (opened tail rest : List Char) (units : List Nat) (more : tail ≠ [])
    (read : codeUnits opened tail = .ok (units, rest)) :
    codeUnits opened (written ++ tail) = .ok (unitsOf c ++ units, rest) := by
  cases how with
  | letter letter named small =>
      rw [List.cons_append, List.singleton_append, codeUnits_letterEscape opened tail named, read,
        unitsOf, if_pos small]
      rfl
  | plain quote backslash lower upper =>
      have small : c.toNat < 0x10000 := by omega
      rw [List.singleton_append, codeUnits_plain opened tail c quote backslash lower, read,
        unitsOf, if_pos small]
      rfl
  | unit small =>
      rw [codeUnits_unitEscape opened tail c.toNat small more, read, unitsOf, if_pos small]
      rfl
  | pair large =>
      have high := (highUnit_lt c large).2
      have low := (lowUnit_lt c).2
      rw [List.append_assoc, codeUnits_unitEscape opened _ (highUnit c) (by omega) (by simp [more]),
        codeUnits_unitEscape opened tail (lowUnit c) (by omega) more, read, unitsOf,
        if_neg (Nat.not_lt.mpr large)]
      rfl

/-- The scanner stops at the closing quote with the units of the whole string. -/
theorem codeUnits_flatMap_asciiChar (opened text rest : List Char) :
    codeUnits opened (text.flatMap asciiChar ++ '"' :: rest) =
      .ok (text.flatMap unitsOf, rest) := by
  induction text with
  | nil =>
      rw [List.flatMap_nil, List.nil_append, codeUnits.eq_def]
      rfl
  | cons c text ih =>
      rw [List.flatMap_cons, List.append_assoc]
      exact (written_asciiChar c).codeUnits opened _ rest _ (by simp) ih

/-! Joining the units to code points again. -/

theorem isHighSurrogate_toNat (c : Char) : isHighSurrogate c.toNat = false := by
  have scalar := toNat_lt_or_gt c
  simp only [isHighSurrogate, Bool.and_eq_false_iff, decide_eq_false_iff_not]
  omega

theorem isLowSurrogate_toNat (c : Char) : isLowSurrogate c.toNat = false := by
  have scalar := toNat_lt_or_gt c
  simp only [isLowSurrogate, Bool.and_eq_false_iff, decide_eq_false_iff_not]
  omega

theorem joinPairs_toNat_cons (c : Char) (units : List Nat) :
    joinPairs (c.toNat :: units) = c.toNat :: joinPairs units := by
  cases units with
  | nil => simp [joinPairs]
  | cons low rest => simp [joinPairs, isHighSurrogate_toNat]

theorem joinPairs_pair_cons (c : Char) (large : 0x10000 ≤ c.toNat) (units : List Nat) :
    joinPairs (highUnit c :: lowUnit c :: units) = c.toNat :: joinPairs units := by
  have high : isHighSurrogate (highUnit c) = true := by
    simpa [isHighSurrogate] using highUnit_lt c large
  have low : isLowSurrogate (lowUnit c) = true := by
    simpa [isLowSurrogate] using lowUnit_lt c
  have joined : 0x10000 + (highUnit c - 0xD800) * 0x400 + (lowUnit c - 0xDC00) = c.toNat := by
    unfold highUnit lowUnit
    omega
  rw [joinPairs]
  simp only [high, low, Bool.and_self, if_true, joined]

theorem joinPairs_flatMap_unitsOf (text : List Char) :
    joinPairs (text.flatMap unitsOf) = text.map Char.toNat := by
  induction text with
  | nil => rfl
  | cons c rest ih =>
      rw [List.flatMap_cons, List.map_cons]
      by_cases small : c.toNat < 0x10000
      · rw [unitsOf, if_pos small, List.singleton_append, joinPairs_toNat_cons, ih]
      · rw [unitsOf, if_neg small, List.cons_append, List.singleton_append,
          joinPairs_pair_cons c (Nat.not_lt.mp small), ih]

theorem pointChar_toNat (c : Char) : pointChar c.toNat = c := by
  simp [pointChar, isHighSurrogate_toNat, isLowSurrogate_toNat]

/-- Characters are found again by their code points. -/
theorem pointsText_map_toNat (text : List Char) :
    pointsText (text.map Char.toNat) = String.ofList text := by
  rw [pointsText, List.map_map]
  congr 1
  exact (List.map_congr_left fun c _ => pointChar_toNat c).trans (List.map_id text)

/-- A string in ASCII is read back as it was, up to its closing quote. -/
theorem scanString_flatMap_asciiChar (text rest : List Char) :
    scanString (text.flatMap asciiChar ++ '"' :: rest) = .ok (String.ofList text, rest) := by
  rw [scanString, codeUnits_flatMap_asciiChar]
  simp only [joinPairs_flatMap_unitsOf, pointsText_map_toNat]

/-! Only printable ASCII is written. -/

/-- The characters from the space to the tilde. -/
def IsPrintableAscii (c : Char) : Prop := 0x20 ≤ c.toNat ∧ c.toNat ≤ 0x7E

instance (c : Char) : Decidable (IsPrintableAscii c) := inferInstanceAs (Decidable (_ ∧ _))

theorem printable_hex (width n : Nat) : ∀ c ∈ Text.hex width n, IsPrintableAscii c := by
  have digits : ∀ digit : Fin 16, IsPrintableAscii (Text.hexDigit digit.val) := by decide
  induction width generalizing n with
  | zero => simp [Text.hex]
  | succ width ih =>
      intro c member
      rw [Text.hex, List.mem_append, List.mem_singleton] at member
      rcases member with earlier | rfl
      · exact ih _ c earlier
      · exact digits ⟨n % 16, Nat.mod_lt _ (by decide)⟩

theorem printable_unitEscape (unit : Nat) : ∀ c ∈ unitEscape unit, IsPrintableAscii c := by
  intro c member
  simp only [unitEscape, List.mem_cons] at member
  rcases member with rfl | rfl | digit
  · decide
  · decide
  · exact printable_hex 4 unit c digit

theorem printable_of_unescape? {letter : Char} {unit : Nat}
    (named : unescape? letter = some unit) : IsPrintableAscii letter := by
  have letters : ∀ c ∈ ['"', '\\', '/', 'b', 'f', 'n', 'r', 't'], IsPrintableAscii c := by
    simp [IsPrintableAscii]
  apply letters
  refine Decidable.by_contra fun other => ?_
  simp only [List.mem_cons, List.not_mem_nil, or_false, not_or] at other
  simp [unescape?, other] at named

theorem Written.printable {c : Char} {written : List Char} (how : Written c written) :
    ∀ d ∈ written, IsPrintableAscii d := by
  cases how with
  | letter letter named small =>
      rw [List.forall_mem_cons, List.forall_mem_singleton]
      exact ⟨by decide, printable_of_unescape? named⟩
  | plain quote backslash lower upper =>
      rw [List.forall_mem_singleton]
      exact ⟨lower, upper⟩
  | unit small => exact printable_unitEscape c.toNat
  | pair large =>
      rw [List.forall_mem_append]
      exact ⟨printable_unitEscape (highUnit c), printable_unitEscape (lowUnit c)⟩

theorem printable_asciiString (text : List Char) :
    ∀ c ∈ asciiString text, IsPrintableAscii c := by
  rw [asciiString, List.forall_mem_append, List.forall_mem_cons, List.forall_mem_singleton]
  refine ⟨⟨by decide, ?_⟩, by decide⟩
  intro d member
  obtain ⟨c, _, within⟩ := List.mem_flatMap.mp member
  exact (written_asciiChar c).printable d within

end CompileCommands.Json
