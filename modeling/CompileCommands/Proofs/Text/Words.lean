import CompileCommands.Text.Blank
import Mathlib.Data.List.Infix

set_option autoImplicit false

/- A text is cut into words at its blanks and nowhere else, so that a part of it without blanks stands
in one word. -/
namespace CompileCommands.Text

theorem eq_nil_of_prefix_cons {part after : List Char} {c : Char} (free : c ∉ part)
    (first : part <+: c :: after) : part = [] := by
  cases part with
  | nil => rfl
  | cons d rest =>
      obtain ⟨rfl, _⟩ := List.cons_prefix_cons.mp first
      exact absurd (List.mem_cons_self ..) free

/-- What does not have a character stands on one side of it. -/
theorem infix_of_infix_append_cons {part before after : List Char} {c : Char} (free : c ∉ part)
    (inside : part <:+: before ++ c :: after) : part <:+: before ∨ part <:+: after := by
  rcases List.infix_append_iff.mp inside with left | right | ⟨first, second, rfl, left, right⟩
  · exact .inl left
  · rcases List.infix_cons_iff.mp right with here | later
    · rw [eq_nil_of_prefix_cons free here]
      exact .inl List.nil_infix
    · exact .inr later
  · rw [eq_nil_of_prefix_cons (free ∘ List.mem_append_right first) right, List.append_nil]
    exact .inl left.isInfix

/- The induction is on what is still to be cut; the part may stand in the word that was begun, or go
on from it. -/
theorem exists_mem_wordsFrom {part : List Char} (filled : part ≠ [])
    (solid : ∀ c ∈ part, isBlank c = false) (word text : List Char)
    (inside : part <:+: word ++ text) : ∃ whole ∈ wordsFrom word text, part <:+: whole := by
  have started {word : List Char} (here : part <:+: word) : word.isEmpty = false := by
    rw [List.isEmpty_eq_false_iff]
    rintro rfl
    exact filled (List.infix_nil.mp here)
  induction text generalizing word with
  | nil =>
      rw [List.append_nil] at inside
      refine ⟨word, ?_, inside⟩
      simp [wordsFrom, started inside]
  | cons c rest ih =>
      rw [wordsFrom]
      by_cases blank : isBlank c = true
      · have free : c ∉ part := fun member => by simp [solid c member] at blank
        rw [if_pos blank]
        rcases infix_of_infix_append_cons free inside with here | later
        · rw [started here]
          exact ⟨word, List.mem_cons_self .., here⟩
        · obtain ⟨whole, member, found⟩ := ih [] later
          refine ⟨whole, ?_, found⟩
          split
          · exact member
          · exact List.mem_cons_of_mem word member
      · rw [if_neg blank]
        apply ih
        rwa [List.append_assoc, List.singleton_append]

theorem exists_mem_words {part text : List Char} (filled : part ≠ [])
    (solid : ∀ c ∈ part, isBlank c = false) (inside : part <:+: text) :
    ∃ word ∈ words text, part <:+: word :=
  exists_mem_wordsFrom filled solid [] text inside

end CompileCommands.Text
