import CompileCommands.Proofs.Success
import CompileCommands.Text.Utf8
import Mathlib.Tactic.SplitIfs

set_option autoImplicit false

/- Strict UTF-8. The bytes of a character are spelled in one of four ways, and these are just the bytes
that are read; so a file is decoded exactly if it holds the bytes of some text, and as that text. -/
namespace CompileCommands.Text.Utf8

theorem isTail_iff (b : UInt8) : isTail b = true ↔ 0x80 ≤ b.toNat ∧ b.toNat < 0xC0 := by
  simp [isTail, UInt8.le_iff_toNat_le, UInt8.lt_iff_toNat_lt]

theorem admitsSecond_iff (a b : UInt8) :
    admitsSecond a b = true ↔ (0x80 ≤ b.toNat ∧ b.toNat < 0xC0) ∧
      (a.toNat = 0xE0 → 0xA0 ≤ b.toNat) ∧ (a.toNat = 0xED → b.toNat < 0xA0) ∧
      (a.toNat = 0xF0 → 0x90 ≤ b.toNat) ∧ (a.toNat = 0xF4 → b.toNat < 0x90) := by
  rw [admitsSecond, Bool.and_eq_true, isTail_iff]
  simp only [← UInt8.toNat_inj, UInt8.reduceToNat]
  split
  · simp_all [UInt8.le_iff_toNat_le]
  · split
    · simp_all [UInt8.lt_iff_toNat_lt]
    · split
      · simp_all [UInt8.le_iff_toNat_le]
      · split
        · simp_all [UInt8.lt_iff_toNat_lt]
        · simp_all

/-- The bytes that spell the character with a number. -/
inductive Spells : Nat → List UInt8 → Prop where
  | one {a : UInt8} (last : a.toNat < 0x80) : Spells a.toNat [a]
  | two {a b : UInt8} (first : 0xC2 ≤ a.toNat) (last : a.toNat < 0xE0)
      (second : admitsSecond a b = true) : Spells (a.toNat % 32 * 64 + tailBits b) [a, b]
  | three {a b c : UInt8} (first : 0xE0 ≤ a.toNat) (last : a.toNat < 0xF0)
      (second : admitsSecond a b = true) (third : isTail c = true) :
      Spells ((a.toNat % 16 * 64 + tailBits b) * 64 + tailBits c) [a, b, c]
  | four {a b c d : UInt8} (first : 0xF0 ≤ a.toNat) (last : a.toNat < 0xF5)
      (second : admitsSecond a b = true) (third : isTail c = true) (fourth : isTail d = true) :
      Spells (((a.toNat % 8 * 64 + tailBits b) * 64 + tailBits c) * 64 + tailBits d) [a, b, c, d]

theorem ofNat_eq {n : Nat} {b : UInt8} (same : n = b.toNat) : UInt8.ofNat n = b := by
  rw [same, UInt8.ofNat_toNat]

theorem toNat_ofNat_of_lt {n : Nat} (small : n < 0x100) : (UInt8.ofNat n).toNat = n := by
  rw [UInt8.toNat_ofNat']
  exact Nat.mod_eq_of_lt small

theorem toNat_ofNat_of_valid {n : Nat} (valid : n < 0xD800 ∨ 0xDFFF < n ∧ n < 0x110000) :
    (Char.ofNat n).toNat = n := by
  rw [Char.ofNat, dif_pos valid]
  rfl

/-- The bytes are those that the character is written with. -/
theorem Spells.encodeChar_eq {n : Nat} {bytes : List UInt8} (spelled : Spells n bytes) :
    encodeChar (Char.ofNat n) = bytes := by
  cases spelled with
  | @one a last =>
      have number := toNat_ofNat_of_valid (n := a.toNat) (by omega)
      rw [encodeChar, number, if_pos last, UInt8.ofNat_toNat]
  | @two a b first last second =>
      have bounds := (admitsSecond_iff a b).mp second
      have number := toNat_ofNat_of_valid (n := a.toNat % 32 * 64 + tailBits b)
        (by unfold tailBits; omega)
      simp only [encodeChar, number]
      unfold tailBits
      rw [if_neg (by omega), if_pos (by omega), ofNat_eq (b := a) (by omega),
        ofNat_eq (b := b) (by omega)]
  | @three a b c first last second third =>
      have bounds := (admitsSecond_iff a b).mp second
      have tail := (isTail_iff c).mp third
      have number := toNat_ofNat_of_valid
        (n := (a.toNat % 16 * 64 + tailBits b) * 64 + tailBits c) (by unfold tailBits; omega)
      simp only [encodeChar, number]
      unfold tailBits
      rw [if_neg (by omega), if_neg (by omega), if_pos (by omega), ofNat_eq (b := a) (by omega),
        ofNat_eq (b := b) (by omega), ofNat_eq (b := c) (by omega)]
  | @four a b c d first last second third fourth =>
      have bounds := (admitsSecond_iff a b).mp second
      have tail := (isTail_iff c).mp third
      have final := (isTail_iff d).mp fourth
      have number := toNat_ofNat_of_valid
        (n := ((a.toNat % 8 * 64 + tailBits b) * 64 + tailBits c) * 64 + tailBits d)
        (by unfold tailBits; omega)
      simp only [encodeChar, number]
      unfold tailBits
      rw [if_neg (by omega), if_neg (by omega), if_neg (by omega), ofNat_eq (b := a) (by omega),
        ofNat_eq (b := b) (by omega), ofNat_eq (b := c) (by omega), ofNat_eq (b := d) (by omega)]

/-- Every character is written with bytes that spell it. -/
theorem spells_encodeChar (c : Char) : Spells c.toNat (encodeChar c) := by
  have valid : c.toNat < 0xD800 ∨ 0xDFFF < c.toNat ∧ c.toNat < 0x110000 := c.valid
  have tail (n : Nat) : (UInt8.ofNat (0x80 + n % 64)).toNat = 0x80 + n % 64 :=
    toNat_ofNat_of_lt (by omega)
  have tails (n : Nat) : isTail (UInt8.ofNat (0x80 + n % 64)) = true := by
    rw [isTail_iff, tail]
    omega
  unfold encodeChar
  dsimp only
  split_ifs with one two three
  · have first := toNat_ofNat_of_lt (show c.toNat < 0x100 by omega)
    have spelled : Spells _ [UInt8.ofNat c.toNat] := .one (by omega)
    rwa [first] at spelled
  · have first := toNat_ofNat_of_lt (show 0xC0 + c.toNat / 64 < 0x100 by omega)
    have second := tail c.toNat
    have spelled := Spells.two (a := UInt8.ofNat (0xC0 + c.toNat / 64)) (by omega) (by omega)
      ((admitsSecond_iff _ (UInt8.ofNat (0x80 + c.toNat % 64))).mpr (by omega))
    have number : (0xC0 + c.toNat / 64) % 32 * 64 + (0x80 + c.toNat % 64) % 64 = c.toNat := by
      omega
    rwa [tailBits, first, second, number] at spelled
  · have first := toNat_ofNat_of_lt (show 0xE0 + c.toNat / 4096 < 0x100 by omega)
    have second := tail (c.toNat / 64)
    have third := tail c.toNat
    have spelled := Spells.three (a := UInt8.ofNat (0xE0 + c.toNat / 4096)) (by omega) (by omega)
      ((admitsSecond_iff _ (UInt8.ofNat (0x80 + c.toNat / 64 % 64))).mpr (by omega))
      (tails c.toNat)
    have number : ((0xE0 + c.toNat / 4096) % 16 * 64 + (0x80 + c.toNat / 64 % 64) % 64) * 64 +
        (0x80 + c.toNat % 64) % 64 = c.toNat := by
      omega
    rwa [tailBits, tailBits, first, second, third, number] at spelled
  · have first := toNat_ofNat_of_lt (show 0xF0 + c.toNat / 262144 < 0x100 by omega)
    have second := tail (c.toNat / 4096)
    have third := tail (c.toNat / 64)
    have fourth := tail c.toNat
    have spelled := Spells.four (a := UInt8.ofNat (0xF0 + c.toNat / 262144)) (by omega) (by omega)
      ((admitsSecond_iff _ (UInt8.ofNat (0x80 + c.toNat / 4096 % 64))).mpr (by omega))
      (tails (c.toNat / 64)) (tails c.toNat)
    have number : (((0xF0 + c.toNat / 262144) % 8 * 64 + (0x80 + c.toNat / 4096 % 64) % 64) * 64 +
        (0x80 + c.toNat / 64 % 64) % 64) * 64 + (0x80 + c.toNat % 64) % 64 = c.toNat := by
      omega
    rwa [tailBits, tailBits, tailBits, first, second, third, fourth, number] at spelled

/-- Bytes that spell a character are read as that character. -/
theorem Spells.decodeFrom_append {n : Nat} {bytes : List UInt8} (spelled : Spells n bytes)
    (position : Nat) (rest : List UInt8) :
    decodeFrom position (bytes ++ rest) =
      (decodeFrom (position + bytes.length) rest).map (Char.ofNat n :: ·) := by
  have lead {a : UInt8} (first : 0xC2 ≤ a.toNat) (last : a.toNat < 0xF5) :
      ¬ a < 0x80 ∧ ¬ (a < 0xC2 || 0xF5 ≤ a) = true := by
    simp only [UInt8.lt_iff_toNat_lt, UInt8.le_iff_toNat_le, UInt8.reduceToNat, Bool.or_eq_true,
      decide_eq_true_eq]
    omega
  have upTo (a limit : UInt8) (first : limit.toNat ≤ a.toNat) : ¬ a < limit :=
    fun small => absurd (UInt8.lt_iff_toNat_lt.mp small) (Nat.not_lt.mpr first)
  cases spelled with
  | @one a last =>
      have small : a < 0x80 := UInt8.lt_iff_toNat_lt.mpr last
      rw [List.singleton_append, decodeFrom.eq_def]
      simp only [small, ↓reduceIte]
      rfl
  | @two a b first last second =>
      obtain ⟨large, good⟩ := lead first (by omega)
      have short : a < 0xE0 := UInt8.lt_iff_toNat_lt.mpr last
      rw [List.cons_append, List.singleton_append, decodeFrom.eq_def]
      simp only [large, good, second, short, ↓reduceIte]
      rfl
  | @three a b c first last second third =>
      obtain ⟨large, good⟩ := lead (a := a) (by omega) (by omega)
      have long := upTo a 0xE0 first
      have short : a < 0xF0 := UInt8.lt_iff_toNat_lt.mpr last
      rw [List.cons_append, List.cons_append, List.singleton_append, decodeFrom.eq_def]
      simp only [large, good, second, long, third, short, ↓reduceIte]
      rfl
  | @four a b c d first last second third fourth =>
      obtain ⟨large, good⟩ := lead (a := a) (by omega) last
      have long := upTo a 0xE0 (Nat.le_trans (by decide) first)
      have longer := upTo a 0xF0 first
      rw [List.cons_append, List.cons_append, List.cons_append, List.singleton_append,
        decodeFrom.eq_def]
      simp only [large, good, second, long, third, longer, fourth, ↓reduceIte]
      rfl

theorem decodeFrom_encode (position : Nat) (text : List Char) :
    decodeFrom position (encode text) = .ok text := by
  induction text generalizing position with
  | nil => rfl
  | cons c rest ih =>
      have later := ih (position + (encodeChar c).length)
      unfold encode at later ⊢
      rw [List.flatMap_cons, (spells_encodeChar c).decodeFrom_append, later, Char.ofNat_toNat]
      rfl

theorem Spells.encode_cons {n : Nat} {bytes rest : List UInt8} {text : List Char}
    (spelled : Spells n bytes) (same : rest = encode text) :
    bytes ++ rest = encode (Char.ofNat n :: text) := by
  rw [same, encode, encode, List.flatMap_cons, spelled.encodeChar_eq]

theorem map_cons_eq_ok {read : Except Fault (List Char)} {c : Char} {text : List Char}
    (whole : read.map (c :: ·) = .ok text) : ∃ later, read = .ok later ∧ text = c :: later := by
  cases read with
  | error fault => contradiction
  | ok later =>
      cases whole
      exact ⟨later, rfl, rfl⟩

theorem not_short {a limit : UInt8} (large : ¬ a < limit) : limit.toNat ≤ a.toNat :=
  Nat.le_of_not_lt fun small => large (UInt8.lt_iff_toNat_lt.mpr small)

theorem range_of_lead {a : UInt8} (good : ¬ (a < 0xC2 || 0xF5 ≤ a) = true) :
    0xC2 ≤ a.toNat ∧ a.toNat < 0xF5 := by
  simp only [UInt8.lt_iff_toNat_lt, UInt8.le_iff_toNat_le, UInt8.reduceToNat, Bool.or_eq_true,
    decide_eq_true_eq] at good
  omega

/-- Only the bytes of a text are read as that text. -/
theorem eq_encode_of_decodeFrom {position : Nat} {bytes : List UInt8} {text : List Char}
    (read : decodeFrom position bytes = .ok text) : bytes = encode text := by
  fun_induction decodeFrom position bytes generalizing text with
  | case1 =>
      cases read
      rfl
  | case2 position a rest small ih =>
      obtain ⟨later, rest, rfl⟩ := map_cons_eq_ok read
      exact (Spells.one (UInt8.lt_iff_toNat_lt.mp small)).encode_cons (ih rest)
  | case6 position a _ good b rest second small ih =>
      obtain ⟨later, rest, rfl⟩ := map_cons_eq_ok read
      have spelled : Spells _ [a, b] :=
        .two (range_of_lead good).1 (UInt8.lt_iff_toNat_lt.mp small) (by simpa using second)
      exact spelled.encode_cons (ih rest)
  | case9 position a _ good b second large c rest third small ih =>
      obtain ⟨later, rest, rfl⟩ := map_cons_eq_ok read
      have spelled : Spells _ [a, b, c] :=
        .three (not_short large) (UInt8.lt_iff_toNat_lt.mp small) (by simpa using second)
          (by simpa using third)
      exact spelled.encode_cons (ih rest)
  | case12 position a _ good b second _ c third large d rest fourth ih =>
      obtain ⟨later, rest, rfl⟩ := map_cons_eq_ok read
      have spelled : Spells _ [a, b, c, d] :=
        .four (not_short large) (range_of_lead good).2 (by simpa using second)
          (by simpa using third) (by simpa using fourth)
      exact spelled.encode_cons (ih rest)
  | _ => contradiction

/-- A file is text exactly if it is the UTF-8 of some text, and then of one only. -/
theorem decode_eq_ok_iff (bytes : List UInt8) (text : List Char) :
    decode bytes = .ok text ↔ bytes = encode text := by
  constructor
  · exact eq_encode_of_decodeFrom
  · rintro rfl
    exact decodeFrom_encode 0 text

end CompileCommands.Text.Utf8
