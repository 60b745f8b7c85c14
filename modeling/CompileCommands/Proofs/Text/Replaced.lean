import CompileCommands.Text.Replace
import Mathlib.Data.List.Infix

set_option autoImplicit false

/- What becomes of a text when a mark in it is replaced: how long it gets, where the new text stands
in it, and what else stands in it that did not before, which is nothing that the new text keeps
out. -/
namespace CompileCommands.Text

/-- A mark is replaced as often by one text as by another. -/
theorem length_replaceFrom_le (mark : List Char) {value other : List Char}
    (shorter : value.length ≤ other.length) (skip : Nat) (text : List Char) :
    (replaceFrom mark value skip text).length ≤ (replaceFrom mark other skip text).length := by
  induction text generalizing skip with
  | nil => simp [replaceFrom]
  | cons c rest ih =>
      cases skip with
      | succ skip => exact ih skip
      | zero =>
          rw [replaceFrom, replaceFrom]
          split
          · simp only [List.length_append]
            exact Nat.add_le_add shorter (ih _)
          · exact Nat.succ_le_succ (ih 0)

/-! A text is gone through from mark to mark. -/

theorem replace_append {mark : List Char} (marked : mark ≠ []) (value after : List Char) :
    replace mark value (mark ++ after) = value ++ replace mark value after := by
  obtain ⟨c, rest, rfl⟩ := List.exists_cons_of_ne_nil marked
  have here : (c :: rest).isPrefixOf (c :: (rest ++ after)) = true :=
    List.isPrefixOf_iff_prefix.mpr (List.prefix_append (c :: rest) after)
  show replace (c :: rest) value (c :: (rest ++ after)) = _
  rw [replace, replaceFrom, if_pos here, replaceFrom_eq_drop]
  simp

theorem replace_cons {mark rest : List Char} {c : Char} (elsewhere : ¬ mark <+: c :: rest)
    (value : List Char) : replace mark value (c :: rest) = c :: replace mark value rest := by
  apply replace_cons_of_not_isPrefixOf
  rwa [Bool.eq_false_iff, ne_eq, List.isPrefixOf_iff_prefix]

/-- What holds of the empty text, and of a text with one more mark or one more character before it,
holds of every text. -/
theorem replacing_induction {mark : List Char} (marked : mark ≠ []) {motive : List Char → Prop}
    (nil : motive []) (here : ∀ after, motive after → motive (mark ++ after))
    (elsewhere : ∀ c rest, ¬ mark <+: c :: rest → motive rest → motive (c :: rest))
    (text : List Char) : motive text := by
  induction size : text.length using Nat.strongRecOn generalizing text with
  | ind size ih =>
      cases text with
      | nil => exact nil
      | cons c rest =>
          rw [List.length_cons] at size
          by_cases first : mark <+: c :: rest
          · obtain ⟨after, parts⟩ := first
            have positive := List.length_pos_iff.mpr marked
            have length := congrArg List.length parts
            rw [List.length_append, List.length_cons] at length
            rw [← parts]
            exact here after (ih after.length (by omega) after rfl)
          · exact elsewhere c rest first (ih rest.length (by omega) rest rfl)

theorem replace_self {mark : List Char} (marked : mark ≠ []) (value : List Char) :
    replace mark value mark = value := by
  have alone := replace_append marked value []
  rwa [replace_nil, List.append_nil, List.append_nil] at alone

theorem replace_eq_self {mark text : List Char} (absent : ¬ mark <:+: text) (value : List Char) :
    replace mark value text = text := by
  induction text with
  | nil => rfl
  | cons c rest ih =>
      rw [List.infix_cons_iff, not_or] at absent
      rw [replace_cons absent.1, ih absent.2]

/-- A text that has the mark gets the value in its place. -/
theorem infix_replace {mark text : List Char} (marked : mark ≠ []) (value : List Char)
    (inside : mark <:+: text) : value <:+: replace mark value text := by
  induction text using replacing_induction marked with
  | nil => exact absurd (List.infix_nil.mp inside) marked
  | here after _ =>
      rw [replace_append marked]
      exact (List.prefix_append ..).isInfix
  | elsewhere c rest other ih =>
      rw [replace_cons other]
      exact List.infix_cons (ih ((List.infix_cons_iff.mp inside).resolve_left other))

/-! What stands in a text after a replacement. -/

section

variable {mark value part : List Char} {c : Char}

/-- A part that does not have the first character of the value and comes first after a replacement
came first before it. -/
theorem prefix_of_prefix_replace (marked : mark ≠ []) (first : value.head? = some c) (free : c ∉ part)
    {text : List Char} (found : part <+: replace mark value text) : part <+: text := by
  induction text using replacing_induction marked generalizing part with
  | nil => exact found
  | here after _ =>
      obtain ⟨others, rfl⟩ := List.head?_eq_some_iff.mp first
      rw [replace_append marked, List.cons_append] at found
      cases part with
      | nil => exact List.nil_prefix
      | cons d tail =>
          obtain ⟨rfl, _⟩ := List.cons_prefix_cons.mp found
          exact absurd (List.mem_cons_self ..) free
  | elsewhere d rest other ih =>
      rw [replace_cons other] at found
      cases part with
      | nil => exact List.nil_prefix
      | cons e tail =>
          obtain ⟨rfl, later⟩ := List.cons_prefix_cons.mp found
          exact List.cons_prefix_cons.mpr ⟨rfl, ih (free ∘ List.mem_cons_of_mem e) later⟩

/-- Whether a value keeps a part out: the part does not have the first character of the value, and
it stands in a text that begins with the value only if it stands behind the value. -/
structure KeepsOut (value part : List Char) : Prop where
  first : ∃ c, value.head? = some c ∧ c ∉ part
  behind : ∀ after, part <:+: value ++ after → part <:+: after

/-- A part that the value keeps out does not come of a replacement. -/
theorem infix_of_infix_replace (marked : mark ≠ []) (out : KeepsOut value part) {text : List Char}
    (found : part <:+: replace mark value text) : part <:+: text := by
  obtain ⟨c, first, free⟩ := out.first
  induction text using replacing_induction marked with
  | nil => exact found
  | here after ih =>
      rw [replace_append marked] at found
      exact (ih (out.behind _ found)).trans (List.suffix_append mark after).isInfix
  | elsewhere d rest other ih =>
      have whole := replace_cons other value
      rw [whole, List.infix_cons_iff, ← whole] at found
      rcases found with begins | later
      · exact (prefix_of_prefix_replace marked first free begins).isInfix
      · exact List.infix_cons (ih later)

/-- The mark itself is gone if the value keeps it out. -/
theorem not_infix_replace (marked : mark ≠ []) (out : KeepsOut value mark) (text : List Char) :
    ¬ mark <:+: replace mark value text := by
  obtain ⟨c, first, free⟩ := out.first
  induction text using replacing_induction marked with
  | nil => exact fun found => marked (List.infix_nil.mp found)
  | here after ih =>
      rw [replace_append marked]
      exact fun found => ih (out.behind _ found)
  | elsewhere d rest other ih =>
      have whole := replace_cons other value
      rw [whole, List.infix_cons_iff, not_or, ← whole]
      exact ⟨fun begins => other (prefix_of_prefix_replace marked first free begins), ih⟩

end

end CompileCommands.Text
