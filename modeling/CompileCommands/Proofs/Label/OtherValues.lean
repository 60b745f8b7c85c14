import CompileCommands.Json.Literal
import CompileCommands.Proofs.Label.Grammar

set_option autoImplicit false

/- No value but a string reads as a label. A label starts with a sign or a slash behind the blanks,
and no literal does: those of arrays and objects start with a bracket, and those of numbers have no
such characters. -/
namespace CompileCommands

open Decimal (Layout)
open Json (Value)

/-! How labels start. -/

theorem Label.Spells.exists_head {text : List Char} {label : Label} (spelled : Spells text label) :
    ∃ c ∈ text.head?, c = '@' ∨ c = '/' := by
  obtain ⟨signs, body, rfl, main, _, _⟩ := spelled
  cases signs with
  | zero =>
      rw [main rfl]
      exact ⟨'/', rfl, .inr rfl⟩
  | succ signs => exact ⟨'@', rfl, .inl rfl⟩

theorem Text.mem_of_mem_strip {text : List Char} {c : Char} (kept : c ∈ strip text) : c ∈ text := by
  have inner := (List.dropWhile_sublist isBlank).mem (List.mem_reverse.mp kept)
  exact (List.dropWhile_sublist isBlank).mem (List.mem_reverse.mp inner)

theorem Text.head?_strip_cons {c : Char} (visible : isBlank c = false) (rest : List Char) :
    (strip (c :: rest)).head? = some c := by
  rw [strip, List.dropWhile_cons_of_neg (by simp [visible]), List.head?_reverse,
    List.reverse_cons, List.dropWhile_append]
  split
  · simp [visible]
  · simp

theorem Label.parse_ne_ok_of_forall {text : String} (free : ∀ c ∈ text.toList, c ≠ '@' ∧ c ≠ '/')
    (label : Label) : parse text ≠ .ok label := by
  intro read
  obtain ⟨c, first, start⟩ := ((parse_eq_ok_iff ..).mp read).exists_head
  obtain ⟨sign, slash⟩ := free c (Text.mem_of_mem_strip (List.mem_of_mem_head? first))
  exact start.elim sign slash

theorem Label.parse_ne_ok_of_cons {text : String} {c : Char} {rest : List Char}
    (start : text.toList = c :: rest) (visible : Text.isBlank c = false) (sign : c ≠ '@')
    (slash : c ≠ '/') (label : Label) : parse text ≠ .ok label := by
  intro read
  obtain ⟨d, first, marked⟩ := ((parse_eq_ok_iff ..).mp read).exists_head
  rw [start, Text.head?_strip_cons visible] at first
  cases first
  exact marked.elim sign slash

/-! The characters of numbers. -/

/-- The characters that numbers are written with. -/
def IsNumeric (c : Char) : Prop := c.isDigit = true ∨ c ∈ ['+', '-', '.', 'e', 'i', 'n', 'f', 'a']

instance (c : Char) : Decidable (IsNumeric c) := inferInstanceAs (Decidable (_ ∨ _))

theorem IsNumeric.ne_marks {c : Char} (numeric : IsNumeric c) : c ≠ '@' ∧ c ≠ '/' := by
  constructor
  all_goals
    rintro rfl
    exact absurd numeric (by decide)

theorem numeric_of_all {text : List Char} (all : text.all (fun c => decide (IsNumeric c)) = true) :
    ∀ c ∈ text, IsNumeric c :=
  fun c member => of_decide_eq_true (List.all_eq_true.mp all c member)

theorem numeric_toDigits (n : Nat) : ∀ c ∈ Nat.toDigits 10 n, IsNumeric c :=
  fun _ member => .inl (Nat.isDigit_of_mem_toDigits (by decide) (by decide) member)

theorem numeric_replicate (count : Nat) : ∀ c ∈ List.replicate count '0', IsNumeric c := by
  intro c member
  rw [List.eq_of_mem_replicate member]
  decide

namespace Decimal.Layout

variable {digits : List Char} (numeric : ∀ c ∈ digits, IsNumeric c)

include numeric

theorem numeric_positional (exponent : Int) : ∀ c ∈ positional digits exponent, IsNumeric c := by
  have zero : IsNumeric '0' := by decide
  have point : IsNumeric '.' := by decide
  have fraction (start : Nat) :
      ∀ c ∈ if (digits.drop start).isEmpty then ['0'] else digits.drop start, IsNumeric c := by
    split
    · exact List.forall_mem_singleton.mpr zero
    · exact fun c member => numeric c (List.mem_of_mem_drop member)
  unfold positional
  split
  · rw [List.cons_append, List.cons_append, List.forall_mem_cons, List.forall_mem_cons,
      List.forall_mem_append]
    exact ⟨zero, point, numeric_replicate _, numeric⟩
  · rw [List.forall_mem_append, List.forall_mem_append, List.forall_mem_cons]
    exact ⟨⟨fun c member => numeric c (List.mem_of_mem_take member), numeric_replicate _⟩, point,
      fraction _⟩

theorem numeric_scientific (exponent : Int) :
    ∀ c ∈ Json.realLayout.scientific digits exponent, IsNumeric c := by
  have fraction : ∀ c ∈ if (digits.drop 1).isEmpty then [] else '.' :: digits.drop 1,
      IsNumeric c := by
    split
    · simp
    · rw [List.forall_mem_cons]
      exact ⟨by decide, fun c member => numeric c (List.mem_of_mem_drop member)⟩
  have sign : IsNumeric (if exponent < 0 then '-' else '+') := by
    split
    · decide
    · decide
  unfold scientific padded
  rw [List.forall_mem_append, List.forall_mem_append, List.forall_mem_cons, List.forall_mem_cons,
    List.forall_mem_append]
  exact ⟨⟨fun c member => numeric c (List.mem_of_mem_take member), fraction⟩,
    by decide, sign, numeric_replicate _, numeric_toDigits _⟩

end Decimal.Layout

theorem numeric_finite (significand : Nat) (exponent : Int) :
    ∀ c ∈ Json.realLayout.finite significand exponent, IsNumeric c := by
  have digits : ∀ c ∈ (Decimal.shortest significand exponent).significant.1, IsNumeric c := by
    intro c member
    have kept := (List.dropWhile_sublist _).mem (List.mem_reverse.mp member)
    exact numeric_toDigits _ c (List.mem_reverse.mp kept)
  unfold Layout.finite
  split
  · exact numeric_of_all rfl
  · dsimp only
    split
    · exact Layout.numeric_positional digits _
    · exact Layout.numeric_scientific digits _

theorem numeric_signed (text : String) (numeric : ∀ c ∈ text.toList, IsNumeric c)
    (negative : Bool) : ∀ c ∈ ((if negative then "-" else "") ++ text).toList, IsNumeric c := by
  rw [String.toList_append, List.forall_mem_append]
  refine ⟨?_, numeric⟩
  cases negative with
  | false => exact numeric_of_all rfl
  | true => exact numeric_of_all rfl

theorem numeric_realLayout (value : Decimal.Binary64) :
    ∀ c ∈ (Json.realLayout.text value).toList, IsNumeric c := by
  cases value with
  | finite negative significand exponent =>
      refine numeric_signed (String.ofList _) ?_ negative
      rw [String.toList_ofList]
      exact numeric_finite significand exponent
  | infinite negative => exact numeric_signed "inf" (numeric_of_all rfl) negative
  | notANumber => exact numeric_of_all rfl

theorem numeric_toString (value : Int) : ∀ c ∈ (toString value).toList, IsNumeric c := by
  have natural (n : Nat) : ∀ c ∈ (Nat.repr n).toList, IsNumeric c := by
    rw [Nat.repr, String.toList_ofList]
    exact numeric_toDigits n
  cases value with
  | ofNat n => exact natural n
  | negSucc n => exact numeric_signed _ (natural (n + 1)) true

/-- What reads as a label, as a text, is a string. -/
theorem Label.exists_string_of_parse_text {value : Value} {label : Label}
    (read : parse value.text = .ok label) : ∃ text, value = .string text := by
  cases value with
  | string text => exact ⟨text, rfl⟩
  | null => cases read
  | bool value => cases value <;> cases read
  | integer value =>
      have free := fun c member => (numeric_toString value c member).ne_marks
      exact absurd read (parse_ne_ok_of_forall free label)
  | real value =>
      have free := fun c member => (numeric_realLayout value c member).ne_marks
      exact absurd read (parse_ne_ok_of_forall free label)
  | array items =>
      have start : (Value.array items).text.toList =
          '[' :: ((", ".intercalate (Value.itemLiterals items)).toList ++ [']']) := by
        simp [Value.text, Value.literal]
      exact absurd read (parse_ne_ok_of_cons start (by decide) (by decide) (by decide) label)
  | object members =>
      have start : (Value.object members).text.toList =
          '\x7b' :: ((", ".intercalate (Value.memberLiterals members)).toList ++ ['\x7d']) := by
        simp [Value.text, Value.literal]
      exact absurd read (parse_ne_ok_of_cons start (by decide) (by decide) (by decide) label)

end CompileCommands
